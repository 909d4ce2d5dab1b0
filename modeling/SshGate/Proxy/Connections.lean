import SshGate.Proxy.Calls

/-! # Accounting for connections

In any interleaving every connection is accepted once, handed to one goroutine
and counted at most once, and what was subtracted had been counted: the counter
is the number of connections that are counted and not subtracted yet.
-/

namespace SshGate.Proxy

open Go Interaction

/-! ## What an action does to the state -/

/-- Actions that the state takes no part in. -/
def Op.isIdle : Op → Bool
  | .sleep _ | .readHandshake _ | .readRequest _ | .openUpstream _ | .sendReply _ | .relayBegin _
  | .relayEnd _ | .closeUpstream _ | .closeClient _ => true
  | _ => false

inductive Effect : World → Event sig → World → Prop
  | loadClosed (w : World) : Effect w ⟨.loadClosed, w.closed⟩ w
  | accept {w : World} {conn : Conn} (hlistening : w.listening = true)
      (hconn : conn.id = w.nextConn) :
      Effect w ⟨.accept, .ok conn⟩ { w with nextConn := w.nextConn + 1 }
  | acceptFailed (w : World) (err : AcceptError) : Effect w ⟨.accept, .error err⟩ w
  | swapClosed (w : World) : Effect w ⟨.swapClosed, w.closed⟩ { w with closed := true }
  | closeListener (w : World) : Effect w ⟨.closeListener, .ok ()⟩ { w with listening := false }
  | closeFailed (w : World) (err : Text) : Effect w ⟨.closeListener, .error err⟩ w
  | goHandler (w : World) (conn : Conn) :
      Effect w ⟨.goHandler conn, ()⟩ { w with starting := conn :: w.starting }
  | startHandler {w : World} {conn : Conn} (hconn : conn ∈ w.starting) :
      Effect w ⟨.startHandler, conn⟩ { w with starting := w.starting.erase conn }
  | setDeadline (w : World) (conn : Nat) :
      Effect w ⟨.setDeadline conn, ()⟩ { w with armed := Function.update w.armed conn true }
  | clearDeadline (w : World) (conn : Nat) :
      Effect w ⟨.clearDeadline conn, ()⟩ { w with armed := Function.update w.armed conn false }
  | storeHandshake (w : World) (src : Text) (conn : Nat) :
      Effect w ⟨.storeHandshake src conn, ()⟩
        { w with handshakes := Function.update w.handshakes src (some conn) }
  | loadHandshake (w : World) (src : Text) : Effect w ⟨.loadHandshake src, w.handshakes src⟩ w
  | deleteHandshake (w : World) (src : Text) :
      Effect w ⟨.deleteHandshake src, ()⟩
        { w with handshakes := Function.update w.handshakes src none }
  | newLogConn {w : World} {conn : Nat} (habsent : w.logConns conn = .absent) :
      Effect w ⟨.newLogConn conn, ()⟩
        { w with logConns := Function.update w.logConns conn .opened }
  | close {w : World} {conn : Nat} (hopened : w.logConns conn = .opened) :
      Effect w ⟨.casClosed conn, true⟩
        { w with logConns := Function.update w.logConns conn .closed }
  | closeAgain {w : World} {conn : Nat} (hclosed : w.logConns conn = .closed) :
      Effect w ⟨.casClosed conn, false⟩ w
  | add (w : World) (conn : Nat) : Effect w ⟨.add conn, ()⟩ { w with count := w.count + 1 }
  | done (w : World) (conn : Nat) : Effect w ⟨.done conn, ()⟩ { w with count := w.count - 1 }
  | onceEnter {w : World} (hfresh : w.once = .fresh) :
      Effect w ⟨.onceEnter, true⟩ { w with once := .running }
  | onceWait {w : World} (hdone : w.once = .done) : Effect w ⟨.onceEnter, false⟩ w
  | onceExit (w : World) : Effect w ⟨.onceExit, ()⟩ { w with once := .done }
  | makeDone (w : World) :
      Effect w ⟨.makeDone, w.nextDone⟩ { w with nextDone := w.nextDone + 1 }
  | goDrain (w : World) (drained : Nat) :
      Effect w ⟨.goDrain drained, ()⟩ { w with draining := drained :: w.draining }
  | startDrain {w : World} {drained : Nat} (hdrained : drained ∈ w.draining) :
      Effect w ⟨.startDrain, drained⟩ { w with draining := w.draining.erase drained }
  | wait {w : World} (hcount : w.count = 0) : Effect w ⟨.wait, ()⟩ w
  | closeDone (w : World) (drained : Nat) :
      Effect w ⟨.closeDone drained, ()⟩ { w with overs := Function.update w.overs drained true }
  | select {w : World} {drained : Nat} {ended : Bool}
      (hover : ended = true → w.overs drained = true) :
      Effect w ⟨.select drained, ended⟩ w
  | poll (w : World) (drained : Nat) : Effect w ⟨.poll drained, w.overs drained⟩ w
  | idle (w : World) {op : Op} (hop : op.isIdle = true) (reply : op.Reply) : Effect w ⟨op, reply⟩ w

theorem perform_effect {op : Op} {w w' : World} {reply : op.Reply}
    (hperform : World.perform op w reply = some w') : Effect w ⟨op, reply⟩ w' := by
  cases op with
  | sleep | readHandshake | readRequest | openUpstream | sendReply | relayBegin | relayEnd
  | closeUpstream | closeClient =>
      cases hperform
      exact .idle w rfl reply
  | goHandler | setDeadline | clearDeadline | storeHandshake | deleteHandshake | add
  | done | onceExit | goDrain | closeDone =>
      cases hperform
      constructor
  | loadClosed | swapClosed | loadHandshake | makeDone | poll =>
      simp only [World.perform, Option.ite_none_right_eq_some, Option.some.injEq] at hperform
      obtain ⟨rfl, rfl⟩ := hperform
      constructor
  | startHandler | newLogConn | startDrain | wait | select =>
      simp only [World.perform, Option.ite_none_right_eq_some, Option.some.injEq] at hperform
      obtain ⟨hcond, rfl⟩ := hperform
      constructor
      exact hcond
  | closeListener =>
      cases reply <;> cases hperform <;> constructor
  | casClosed conn =>
      cases reply <;>
        simp only [World.perform, Option.ite_none_right_eq_some, Option.some.injEq] at hperform <;>
        obtain ⟨hcond, rfl⟩ := hperform <;> constructor <;> exact hcond
  | onceEnter =>
      cases reply <;>
        simp only [World.perform, Option.ite_none_right_eq_some, Option.some.injEq] at hperform <;>
        obtain ⟨hcond, rfl⟩ := hperform <;> constructor <;> exact hcond
  | accept =>
      match reply with
      | .ok conn =>
          simp only [World.perform, Option.ite_none_right_eq_some, Option.some.injEq] at hperform
          obtain ⟨⟨hlistening, hconn⟩, rfl⟩ := hperform
          exact .accept hlistening hconn
      | .error .closed =>
          simp only [World.perform, Option.ite_none_left_eq_some, Option.some.injEq] at hperform
          obtain ⟨_, rfl⟩ := hperform
          exact .acceptFailed w .closed
      | .error (.other err) =>
          cases hperform
          exact .acceptFailed w (.other err)

section Effect

variable {w w' : World} {event : Event sig}

/-- Actions that the state takes no part in neither count nor hand on. -/
theorem keys_of_isIdle {op : Op} (hop : op.isIdle = true) (reply : op.Reply) :
    acceptedBy ⟨op, reply⟩ = none ∧ handedBy ⟨op, reply⟩ = none ∧ startedBy ⟨op, reply⟩ = none ∧
      addedBy ⟨op, reply⟩ = none ∧ doneBy ⟨op, reply⟩ = none ∧ closedBy ⟨op, reply⟩ = none ∧
      wrappedBy ⟨op, reply⟩ = none := by
  cases op <;> first | exact ⟨rfl, rfl, rfl, rfl, rfl, rfl, rfl⟩ | cases hop

theorem Effect.nextConn (heffect : Effect w event w') {conn : Nat} (hconn : conn < w.nextConn) :
    conn < w'.nextConn := by
  cases heffect with
  | accept => exact Nat.lt_succ_of_lt hconn
  | _ => exact hconn

theorem Effect.accepted (heffect : Effect w event w') {conn : Nat}
    (hkey : acceptedBy event = some conn) : ¬ conn < w.nextConn ∧ conn < w'.nextConn := by
  cases heffect with
  | accept _ hconn =>
      cases hkey
      simp [hconn]
  | idle hop reply => cases (keys_of_isIdle hop reply).1.symm.trans hkey
  | _ => cases hkey

/-- Between its `go` statement and its start a goroutine is in `starting`. -/
theorem Effect.starting (heffect : Effect w event w') :
    ((startedBy event).toList ++ w'.starting.map Conn.id).Perm
      ((handedBy event).toList ++ w.starting.map Conn.id) := by
  cases heffect with
  | goHandler => exact .refl _
  | startHandler hconn => exact ((List.perm_cons_erase hconn).map Conn.id).symm
  | idle hop reply =>
      obtain ⟨_, hhanded, hstarted, _⟩ := keys_of_isIdle hop reply
      rw [hhanded, hstarted]
  | _ => exact .refl _

theorem Effect.count (heffect : Effect w event w') :
    w'.count = w.count + (addedBy event).toList.length - (doneBy event).toList.length := by
  cases heffect with
  | idle hop reply =>
      obtain ⟨_, _, _, hadded, hdone, _⟩ := keys_of_isIdle hop reply
      simp [hadded, hdone]
  | _ => simp [addedBy, doneBy]

theorem Effect.logConns (heffect : Effect w event w') {conn : Nat}
    (hconn : w'.logConns conn ≠ .absent) :
    w.logConns conn ≠ .absent ∨ wrappedBy event = some conn := by
  cases heffect <;> grind [wrappedBy]

/-- A closed `logConn` stays closed. -/
theorem Effect.closed (heffect : Effect w event w') {conn : Nat}
    (hconn : w.logConns conn = .closed) : w'.logConns conn = .closed := by
  cases heffect <;> grind

theorem Effect.closedBy (heffect : Effect w event w') {conn : Nat}
    (hkey : closedBy event = some conn) :
    ¬ w.logConns conn = .closed ∧ w'.logConns conn = .closed := by
  cases heffect with
  | close hopened =>
      cases hkey
      simp [hopened]
  | idle hop reply =>
      obtain ⟨_, _, _, _, _, hclosed, _⟩ := keys_of_isIdle hop reply
      cases hclosed.symm.trans hkey
  | _ => cases hkey

end Effect

/-! ## What all calls do together -/

theorem step_effect {server : Server} {c c' : Config (proxying server)} {i : Nat}
    {event : Event sig} (hstep : (proxying server).step c (.run i event) = some c') :
    ∃ thread next, c.threads[i]? = some thread ∧ thread.rest = .act event.op next ∧
      Effect c.state event c'.state := by
  obtain ⟨thread, next, w', hthread, hrest, hperform, rfl⟩ := System.step_run_eq_some.mp hstep
  exact ⟨thread, next, hthread, hrest, perform_effect hperform⟩

/-- The invariant rule for the state of a server. -/
theorem run_world_invariant {server : Server} (allowed : Event sig → Prop) (inv : World → Prop)
    (hstep : ∀ w event w', allowed event → Effect w event w' → inv w → inv w')
    {c c' : Config (proxying server)} {schedule : List (Action (proxying server))}
    (hallowed : ∀ j event, .run j event ∈ schedule → allowed event) (hinv : inv c.state)
    (hrun : (proxying server).run c schedule = some c') : inv c'.state := by
  refine System.run_invariant_of_forall (fun action => action ∈ schedule)
    (fun c => inv c.state) ?_ (fun _ => id) hinv hrun
  intro c action c' hmem hc hnext
  cases action with
  | spawn call =>
      cases hnext
      exact hc
  | disturb disturbance => cases disturbance
  | run j event =>
      obtain ⟨_, _, _, _, heffect⟩ := step_effect hnext
      exact hstep _ event _ (hallowed j event hmem) heffect hc

/-- Where the connections of a server are. -/
structure Accounted {server : Server} (c : Config (proxying server)) : Prop where
  accepted : (System.tally acceptedBy c).Nodup
  handed : System.tally handedBy c ⊆ System.tally acceptedBy c
  /-- A connection that is handed on waits for its goroutine or has one. -/
  starting : (System.tally startedBy c ++ c.state.starting.map Conn.id).Perm
    (System.tally handedBy c)
  started : (System.tally startedBy c).Nodup
  added : (System.tally addedBy c).Nodup
  done : (System.tally doneBy c).Nodup
  done_added : System.tally doneBy c ⊆ System.tally addedBy c
  count : c.state.count = (System.tally addedBy c).length - (System.tally doneBy c).length

section Run

variable {server : Server} {c : Config (proxying server)}
  {schedule : List (Action (proxying server))}

theorem run_accepted_nodup (hrun : (proxying server).run ⟨{}, []⟩ schedule = some c) :
    (System.tally acceptedBy c).Nodup := by
  refine (System.run_tally_nodup (fun (w : World) conn => conn < w.nextConn) ?_ nofun ?_ hrun).1
  · intro op w reply w' hperform conn hconn
    exact (perform_effect hperform).nextConn hconn
  · intro op w reply w' conn hperform hkey
    exact (perform_effect hperform).accepted hkey

theorem run_closed_nodup (hrun : (proxying server).run ⟨{}, []⟩ schedule = some c) :
    (System.tally closedBy c).Nodup ∧
      ∀ conn ∈ System.tally closedBy c, c.state.logConns conn = .closed := by
  refine System.run_tally_nodup (fun (w : World) conn => w.logConns conn = .closed) ?_ nofun ?_ hrun
  · intro op w reply w' hperform conn hconn
    exact (perform_effect hperform).closed hconn
  · intro op w reply w' conn hperform hkey
    exact (perform_effect hperform).closedBy hkey

theorem run_starting (hrun : (proxying server).run ⟨{}, []⟩ schedule = some c) :
    (System.tally startedBy c ++ c.state.starting.map Conn.id).Perm (System.tally handedBy c) := by
  refine System.run_ledger (fun w : World => w.starting.map Conn.id) ?_ ?_ rfl hrun
  · intro op w reply w' hperform
    exact (perform_effect hperform).starting
  · exact fun _ disturbance => nomatch disturbance

/-- Only what a handler made is there to be closed. -/
theorem run_wrapped (hrun : (proxying server).run ⟨{}, []⟩ schedule = some c) {conn : Nat}
    (hconn : c.state.logConns conn ≠ .absent) : conn ∈ System.tally wrappedBy c := by
  revert conn
  refine System.run_invariant (fun c : Config (proxying server) =>
    ∀ {conn}, c.state.logConns conn ≠ .absent → conn ∈ System.tally wrappedBy c) ?_ ?_ hrun
  · intro c action c' hc hstep conn hconn
    have hwrapped : (System.tally wrappedBy c').Perm (_ ++ System.tally wrappedBy c) :=
      System.tally_step hstep
    rw [hwrapped.mem_iff, List.mem_append]
    cases action with
    | spawn call =>
        cases hstep
        exact .inr (hc hconn)
    | disturb disturbance => cases disturbance
    | run i event =>
        obtain ⟨_, _, _, _, heffect⟩ := step_effect hstep
        rcases heffect.logConns hconn with hold | hnew
        · exact .inr (hc hold)
        · exact .inl (Option.mem_toList.mpr hnew)
  · exact fun h => absurd rfl h

theorem run_count (hrun : (proxying server).run ⟨{}, []⟩ schedule = some c) :
    c.state.count = (System.tally addedBy c).length - (System.tally doneBy c).length := by
  refine System.run_invariant (fun c : Config (proxying server) =>
    c.state.count = (System.tally addedBy c).length - (System.tally doneBy c).length) ?_ rfl hrun
  intro c action c' hc hstep
  rw [System.tally_length hstep, System.tally_length hstep]
  cases action with
  | spawn call =>
      cases hstep
      simpa [System.yield] using hc
  | disturb disturbance => cases disturbance
  | run i event =>
      obtain ⟨_, _, _, _, heffect⟩ := step_effect hstep
      have hcount := heffect.count
      simp only [System.yield]
      omega

theorem run_accounted (hrun : (proxying server).run ⟨{}, []⟩ schedule = some c) :
    Accounted c := by
  have hfaithful := System.run_faithful hrun
  have haccepted := run_accepted_nodup hrun
  have hstarting := run_starting hrun
  have hhanded : (System.tally handedBy c).Nodup :=
    System.tally_nodup_of_covered program_always (fun _ _ _ hstep => hstep.handed) hfaithful
      haccepted
  have hstarted : (System.tally startedBy c).Nodup :=
    (List.nodup_append.mp (hstarting.nodup_iff.mpr hhanded)).1
  have hclosed := run_closed_nodup hrun
  refine ⟨haccepted, ?_, hstarting, hstarted, ?_, ?_, ?_, run_count hrun⟩
  · intro conn hconn
    exact System.mem_tally_of_preceded program_always
      (fun _ _ _ hstep => hstep.handed.preceded) hfaithful hconn
  · apply System.tally_nodup_of_covered program_always (fun _ _ _ hstep => hstep.added) hfaithful
    cases server with
    | socks5 => exact hstarted
    | http => exact haccepted
  · apply System.tally_nodup_of_covered program_always (fun _ _ _ hstep => hstep.done) hfaithful
    cases server with
    | socks5 => exact hclosed.1
    | http => exact hstarted
  · intro conn hconn
    have hretired := System.mem_tally_of_preceded program_always
      (fun _ _ _ hstep => hstep.done.preceded) hfaithful hconn
    cases server with
    | socks5 =>
        have hwrapped := run_wrapped hrun
          (show c.state.logConns conn ≠ .absent by simp [hclosed.2 conn hretired])
        exact System.mem_tally_of_preceded program_always
          (fun _ _ _ hstep => hstep.wrapped rfl) hfaithful hwrapped
    | http =>
        exact System.mem_tally_of_preceded program_always
          (fun _ _ _ hstep => hstep.counted rfl) hfaithful
          (hstarting.subset (List.mem_append_left _ hretired))

end Run

end SshGate.Proxy
