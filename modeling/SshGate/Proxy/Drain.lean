import SshGate.Proxy.Connections

/-! # Shutdown and the drain

A `Shutdown` that returns nil has seen the counter at zero after the listener
was marked closed. That means drained if no connection is counted from then on,
and so if at that time every accepted connection was counted or will never be:
the SOCKS5 server counts a connection when its dial has succeeded and the HTTP
proxy when `Accept` has returned, so before that the wait does not know about it.
-/

namespace SshGate.Proxy

open Go Interaction

section Effect

variable {w w' : World} {event : Event sig}

/-- Events that are seen only when the listener is marked closed. -/
def tellsClosed : Event sig → Bool
  | ⟨.swapClosed, _⟩ | ⟨.onceEnter, false⟩ | ⟨.startDrain, _⟩ => true
  | _ => false

/-- Events that are seen only when a wait is over. -/
def tellsDrained : Event sig → Bool
  | ⟨.closeDone _, _⟩ | ⟨.select _, true⟩ | ⟨.poll _, true⟩ => true
  | _ => false

theorem tells_of_isIdle {op : Op} (hop : op.isIdle = true) (reply : op.Reply) :
    tellsClosed ⟨op, reply⟩ = false ∧ tellsDrained ⟨op, reply⟩ = false := by
  cases op <;> first | exact ⟨rfl, rfl⟩ | cases hop

theorem Effect.markedClosed (heffect : Effect w event w') (hclosed : w.closed = true) :
    w'.closed = true := by
  cases heffect <;> first | exact hclosed | rfl

theorem Effect.listening (heffect : Effect w event w') (hlistening : w'.listening = true) :
    w.listening = true := by
  cases heffect <;> first | exact hlistening | cases hlistening

theorem Effect.accepts {conn : Conn} (heffect : Effect w ⟨.accept, .ok conn⟩ w') :
    w.listening = true := by
  cases heffect with
  | accept hlistening _ => exact hlistening
  | idle hop => cases hop

theorem Effect.loaded {closed : Bool} (heffect : Effect w ⟨.loadClosed, closed⟩ w') :
    closed = w.closed := by
  cases heffect with
  | loadClosed => rfl
  | idle hop => cases hop

theorem Effect.passes (heffect : Effect w ⟨.wait, ()⟩ w') : w.count = 0 := by
  cases heffect with
  | wait hcount => exact hcount
  | idle hop => cases hop

theorem Effect.told (heffect : Effect w event w') (htells : tellsClosed event = true) :
    w'.closed = true ∨ w.once = .done ∨ ∃ drained, drained ∈ w.draining := by
  cases heffect with
  | swapClosed => exact .inl rfl
  | onceWait hdone => exact .inr (.inl hdone)
  | startDrain hdrained => exact .inr (.inr ⟨_, hdrained⟩)
  | idle hop reply => cases (tells_of_isIdle hop reply).1.symm.trans htells
  | _ => cases htells

theorem Effect.once (heffect : Effect w event w') (hdone : w'.once = .done) :
    w.once = .done ∨ event = ⟨.onceExit, ()⟩ := by
  cases heffect with
  | onceEnter => cases hdone
  | onceExit => exact .inr rfl
  | _ => exact .inl hdone

theorem Effect.draining (heffect : Effect w event w') {drained : Nat}
    (hdrained : drained ∈ w'.draining) :
    drained ∈ w.draining ∨ event = ⟨.goDrain drained, ()⟩ := by
  cases heffect with
  | goDrain other =>
      rcases List.mem_cons.mp hdrained with rfl | hold
      · exact .inr rfl
      · exact .inl hold
  | startDrain => exact .inl (List.mem_of_mem_erase hdrained)
  | _ => exact .inl hdrained

theorem Effect.overs (heffect : Effect w event w') {drained : Nat}
    (hover : w'.overs drained = true) :
    w.overs drained = true ∨ event = ⟨.closeDone drained, ()⟩ := by
  cases heffect with
  | closeDone other => grind
  | _ => exact .inl hover

theorem Effect.toldDrained (heffect : Effect w event w') (htells : tellsDrained event = true) :
    ∃ drained, event = ⟨.closeDone drained, ()⟩ ∨ w.overs drained = true := by
  cases heffect with
  | closeDone drained => exact ⟨drained, .inl rfl⟩
  | @select drained ended hover =>
      cases ended with
      | true => exact ⟨drained, .inr (hover rfl)⟩
      | false => cases htells
  | poll drained =>
      cases hover : w.overs drained with
      | true => exact ⟨drained, .inr hover⟩
      | false =>
          rw [hover] at htells
          cases htells
  | idle hop reply => cases (tells_of_isIdle hop reply).2.symm.trans htells
  | _ => cases htells

end Effect

section Closing

variable {server : Server}

/-- Somebody has seen the counter at zero. -/
def Waited (c : Config (proxying server)) : Prop :=
  ∃ i, System.Performed c i ⟨.wait, ()⟩

theorem Waited.of_step {c c' : Config (proxying server)} {action : Action (proxying server)}
    (hstep : (proxying server).step c action = some c') (hwaited : Waited c) : Waited c' := by
  obtain ⟨i, hi⟩ := hwaited
  exact ⟨i, hi.of_step hstep⟩

/-- How far the calls of `Shutdown` are. -/
structure Closing (c : Config (proxying server)) : Prop where
  told : ∀ i event, System.Performed c i event → tellsClosed event = true → c.state.closed = true
  once : c.state.once = .done → c.state.closed = true
  draining : ∀ drained ∈ c.state.draining, c.state.closed = true
  toldDrained : ∀ i event, System.Performed c i event → tellsDrained event = true → Waited c
  overs : ∀ drained, c.state.overs drained = true → Waited c

theorem Closing.run_step {c c' : Config (proxying server)} (hc : Closing c)
    (hfaithful : System.Faithful c) {i : Nat} {event : Event sig}
    (hstep : (proxying server).step c (.run i event) = some c') : Closing c' := by
  obtain ⟨_, hguard⟩ := System.guarded_traceOf program_always hfaithful hstep
  have hperformed : ∀ other, other ∈ System.traceOf c i → System.Performed c i other :=
    fun other => System.performed_iff.mpr
  have hwaited : Waited c → Waited c' := fun hwaited => hwaited.of_step hstep
  have hlog : ∀ j other, System.Performed c' j other →
      System.Performed c j other ∨ other = event := by
    intro j other hother
    rcases System.performed_of_step hstep hother with hold | hnew
    · exact .inl hold
    · cases hnew
      exact .inr rfl
  obtain ⟨_, _, _, _, heffect⟩ := step_effect hstep
  have hclosed : c.state.closed = true → c'.state.closed = true := heffect.markedClosed
  constructor
  · intro j other hother htells
    rcases hlog j other hother with hold | rfl
    · exact hclosed (hc.told j other hold htells)
    · rcases heffect.told htells with hnow | hdone | ⟨drained, hdrained⟩
      · exact hnow
      · exact hclosed (hc.once hdone)
      · exact hclosed (hc.draining drained hdrained)
  · intro hdone
    rcases heffect.once hdone with hold | rfl
    · exact hclosed (hc.once hold)
    · obtain ⟨closed, hswapped⟩ := hguard.exits rfl
      exact hclosed (hc.told i _ (hperformed _ hswapped) rfl)
  · intro drained hdrained
    rcases heffect.draining hdrained with hold | rfl
    · exact hclosed (hc.draining drained hold)
    · rcases hguard.drains drained rfl with ⟨closed, hswapped⟩ | hentered
      · exact hclosed (hc.told i _ (hperformed _ hswapped) rfl)
      · exact hclosed (hc.told i _ (hperformed _ hentered) rfl)
  · intro j other hother htells
    rcases hlog j other hother with hold | rfl
    · exact hwaited (hc.toldDrained j other hold htells)
    · obtain ⟨drained, rfl | hover⟩ := heffect.toldDrained htells
      · exact hwaited ⟨i, hperformed _ (hguard.overs drained rfl)⟩
      · exact hwaited (hc.overs drained hover)
  · intro drained hover
    rcases heffect.overs hover with hold | rfl
    · exact hwaited (hc.overs drained hold)
    · exact hwaited ⟨i, hperformed _ (hguard.overs drained rfl)⟩

theorem run_closing {c : Config (proxying server)} {schedule : List (Action (proxying server))}
    (hrun : (proxying server).run ⟨{}, []⟩ schedule = some c) : Closing c := by
  refine (System.run_invariant (fun c : Config (proxying server) =>
    System.Faithful c ∧ Closing c) ?_ ⟨by simp [System.Faithful], ?_⟩ hrun).2
  · rintro c action c' ⟨hfaithful, hc⟩ hstep
    refine ⟨System.step_faithful hfaithful hstep, ?_⟩
    cases action with
    | spawn call =>
        have hlog : ∀ j event, System.Performed c' j event → System.Performed c j event := by
          intro j event hevent
          rcases System.performed_of_step hstep hevent with hold | hnew
          · exact hold
          · cases hnew
        have hwaited : Waited c → Waited c' := fun hwaited => hwaited.of_step hstep
        cases hstep
        exact ⟨fun j event hevent => hc.told j event (hlog j event hevent), hc.once, hc.draining,
          fun j event hevent htells =>
            hwaited (hc.toldDrained j event (hlog j event hevent) htells),
          fun drained hover => hwaited (hc.overs drained hover)⟩
    | disturb disturbance => cases disturbance
    | run i event => exact hc.run_step hfaithful hstep
  · constructor <;> simp [System.Performed]

/-- A call of `Shutdown` has returned nil. -/
def ShutdownReturned (c : Config (proxying server)) : Prop :=
  ∃ thread ∈ c.threads, thread.rest = .ret .drained

instance (c : Config (proxying server)) : Decidable (ShutdownReturned c) :=
  inferInstanceAs (Decidable (∃ thread ∈ c.threads, thread.rest = .ret .drained))

theorem Closing.waited {c : Config (proxying server)} (hc : Closing c)
    (hfaithful : System.Faithful c) (hreturned : ShutdownReturned c) : Waited c := by
  obtain ⟨thread, hthread, hrest⟩ := hreturned
  obtain ⟨i, hi⟩ := List.mem_iff_getElem?.mp hthread
  have hpath := hfaithful thread hthread
  rw [hrest] at hpath
  obtain ⟨drained, hselected | hpolled⟩ :=
    ((program_always thread.call).of_returns hpath).drained rfl
  · exact hc.toldDrained i _ ⟨thread, hi, hselected⟩ rfl
  · exact hc.toldDrained i _ ⟨thread, hi, hpolled⟩ rfl

end Closing

/-! ## Relays -/

section Relaying

variable {server : Server} {c c' : Config (proxying server)}

/-- The connection whose upstream an event closes, successfully or not. -/
def upstreamClosedBy : Event sig → Option Nat
  | ⟨.closeUpstream conn, _⟩ => some conn
  | _ => none

/-- The relay of a connection has begun and nobody has closed its upstream. -/
def Relaying (c : Config (proxying server)) (conn : Nat) : Prop :=
  conn ∈ System.tally begunBy c ∧ conn ∉ System.tally upstreamClosedBy c

instance (c : Config (proxying server)) (conn : Nat) : Decidable (Relaying c conn) :=
  inferInstanceAs (Decidable (_ ∧ _))

/-- No goroutine will count this connection any more. -/
def CountedNever (c : Config (proxying server)) (conn : Nat) : Prop :=
  ∃ (i : Nat) (thread : Thread (proxying server)), c.threads[i]? = some thread ∧
    conn ∈ thread.trace.filterMap startedBy ∧
      thread.rest.Confined fun op : Op => ∀ other, op ≠ .add other

/-- No connection is on its way to the counter: the accept loop cannot get
another one, and every accepted connection is counted or never will be. -/
structure Quiescent (c : Config (proxying server)) : Prop where
  accepting : c.state.listening = true → ∀ thread ∈ c.threads, ∀ next,
    thread.rest ≠ .act .accept next
  counted : ∀ conn ∈ System.tally acceptedBy c,
    conn ∈ System.tally addedBy c ∨ CountedNever c conn

/-- Nothing is relaying and nothing will. -/
structure Drained (c : Config (proxying server)) : Prop extends Quiescent c where
  closed : c.state.closed = true
  done : System.tally addedBy c ⊆ System.tally doneBy c

theorem Accounted.added_of_started (hc : Accounted c) (hfaithful : System.Faithful c)
    (hserver : server = .http) {conn : Nat} (hconn : conn ∈ System.tally startedBy c) :
    conn ∈ System.tally addedBy c :=
  System.mem_tally_of_preceded program_always (fun _ _ _ hstep => hstep.counted hserver) hfaithful
    (hc.starting.subset (List.mem_append_left _ hconn))

theorem Accounted.accepted_of_started (hc : Accounted c) {conn : Nat}
    (hconn : conn ∈ System.tally startedBy c) : conn ∈ System.tally acceptedBy c :=
  hc.handed (hc.starting.subset (List.mem_append_left _ hconn))

/-- With the counter at zero everything that was counted is over. -/
theorem Accounted.over (hc : Accounted c) (hcount : c.state.count = 0) :
    System.tally addedBy c ⊆ System.tally doneBy c := by
  have hsub := List.subperm_of_subset hc.done hc.done_added
  have hlength : (System.tally addedBy c).length ≤ (System.tally doneBy c).length := by
    have heq := hc.count
    omega
  exact (hsub.perm_of_length_le hlength).symm.subset

theorem CountedNever.of_step {conn : Nat} {action : Action (proxying server)}
    (hnever : CountedNever c conn) (hstep : (proxying server).step c action = some c') :
    CountedNever c' conn := by
  obtain ⟨i, thread, hthread, hstarted, hconfined⟩ := hnever
  obtain ⟨thread', hthread', hearlier, hconfined'⟩ :=
    System.confined_of_step hstep hthread hconfined
  exact ⟨i, thread', hthread', (hearlier.filterMap startedBy).subset hstarted, hconfined'⟩

/-- A drained server counts nothing more. -/
theorem Drained.not_add (hdrained : Drained c) (hfaithful : System.Faithful c) (hc : Accounted c)
    (hc' : Accounted c') {i conn : Nat} {reply : Unit}
    (hstep : (proxying server).step c (.run i ⟨.add conn, reply⟩) = some c') : False := by
  have hadded : (System.tally addedBy c').Perm (conn :: System.tally addedBy c) :=
    System.tally_step hstep
  have hnew : conn ∉ System.tally addedBy c :=
    (List.nodup_cons.mp (hadded.nodup_iff.mp hc'.added)).1
  obtain ⟨thread, _, hthread, _, _, hguard⟩ :=
    System.guarded_of_step program_always hfaithful hstep
  obtain ⟨_, next, hthread', hrest, _⟩ := step_effect hstep
  cases hthread.symm.trans hthread'
  have hcounts := hguard.added.preceded () conn rfl
  have haccepted : conn ∈ System.tally acceptedBy c := by
    cases server with
    | socks5 => exact hc.accepted_of_started (System.mem_tally_of_thread hthread hcounts)
    | http => exact System.mem_tally_of_thread hthread hcounts
  rcases hdrained.counted conn haccepted with hold | ⟨j, other, hother, hstarted, hconfined⟩
  · exact hnew hold
  · cases server with
    | http =>
        exact hnew (hc.added_of_started hfaithful rfl (System.mem_tally_of_thread hother hstarted))
    | socks5 =>
        -- The handler of the connection is the only thread that could count it.
        cases System.tally_thread_unique hc.started hthread hother hcounts hstarted
        cases hthread.symm.trans hother
        rw [hrest] at hconfined
        exact hconfined.1 conn rfl

/-- A drained server accepts nothing more. -/
theorem Drained.not_accept (hdrained : Drained c) {i : Nat} {conn : Conn}
    (hstep : (proxying server).step c (.run i ⟨.accept, .ok conn⟩) = some c') : False := by
  obtain ⟨thread, next, hthread, hrest, heffect⟩ := step_effect hstep
  exact hdrained.accepting heffect.accepts thread (List.mem_of_getElem? hthread) next hrest

theorem Drained.step_accepted (hdrained : Drained c) {action : Action (proxying server)}
    (hstep : (proxying server).step c action = some c') {conn : Nat}
    (hconn : conn ∈ System.tally acceptedBy c') : conn ∈ System.tally acceptedBy c := by
  have htally : (System.tally acceptedBy c').Perm (_ ++ System.tally acceptedBy c) :=
    System.tally_step hstep
  rcases List.mem_append.mp (htally.mem_iff.mp hconn) with hnew | hold
  · cases action with
    | spawn call => cases hnew
    | disturb disturbance => cases disturbance
    | run i event =>
        obtain ⟨accepted, rfl⟩ := acceptedBy_eq_some (Option.mem_toList.mp hnew)
        exact (hdrained.not_accept hstep).elim
  · exact hold

/-- An accept loop gets past its check only while the listener is open. -/
theorem Drained.step_accepting (hdrained : Drained c) (hfaithful : System.Faithful c)
    {action : Action (proxying server)} (hstep : (proxying server).step c action = some c')
    (hlistening : c.state.listening = true) {thread' : Thread (proxying server)}
    (hthread' : thread' ∈ c'.threads) (next : Except AcceptError Conn → Prog Outcome) :
    thread'.rest ≠ .act .accept next := by
  intro hrest
  have hpath := System.step_faithful hfaithful hstep thread' hthread'
  rw [hrest] at hpath
  have hlast := ((program_always thread'.call).at_reached hpath).1.accepting rfl
  obtain ⟨i, hi⟩ := List.mem_iff_getElem?.mp hthread'
  rcases System.step_thread hstep hi with ⟨call, _, _, rfl⟩ | ⟨thread, hthread, _, hcases⟩
  · cases hlast
  · rcases hcases with rfl | ⟨event, rfl, htrace⟩
    · exact hdrained.accepting hlistening thread' (List.mem_of_getElem? hthread) next hrest
    · rw [htrace, List.nil_append, List.getLast?_concat, Option.some.injEq] at hlast
      subst hlast
      obtain ⟨_, _, _, _, heffect⟩ := step_effect hstep
      cases heffect.loaded.trans hdrained.closed

theorem Drained.step (hdrained : Drained c) (hfaithful : System.Faithful c) (hc : Accounted c)
    (hc' : Accounted c') {action : Action (proxying server)}
    (hstep : (proxying server).step c action = some c') : Drained c' := by
  obtain ⟨hclosed, hlistening⟩ : c'.state.closed = true ∧
      (c'.state.listening = true → c.state.listening = true) := by
    cases action with
    | spawn call =>
        cases hstep
        exact ⟨hdrained.closed, id⟩
    | disturb disturbance => cases disturbance
    | run i event =>
        obtain ⟨_, _, _, _, heffect⟩ := step_effect hstep
        exact ⟨heffect.markedClosed hdrained.closed, heffect.listening⟩
  refine ⟨⟨?_, ?_⟩, hclosed, ?_⟩
  · intro hlistening' thread' hthread' next
    exact hdrained.step_accepting hfaithful hstep (hlistening hlistening') hthread' next
  · intro conn hconn
    rcases hdrained.counted conn (hdrained.step_accepted hstep hconn) with hadded | hnever
    · exact .inl ((System.tally_step hstep).mem_iff.mpr (List.mem_append_right _ hadded))
    · exact .inr (hnever.of_step hstep)
  · intro conn hconn
    have htally : (System.tally addedBy c').Perm (_ ++ System.tally addedBy c) :=
      System.tally_step hstep
    rcases List.mem_append.mp (htally.mem_iff.mp hconn) with hnew | hold
    · cases action with
      | spawn call => cases hnew
      | disturb disturbance => cases disturbance
      | run i event =>
          cases addedBy_eq_some (Option.mem_toList.mp hnew)
          exact (hdrained.not_add hfaithful hc hc' hstep).elim
    · exact (System.tally_step hstep).mem_iff.mpr (List.mem_append_right _ (hdrained.done hold))

/-- What was subtracted relays no more. -/
theorem closed_of_done (hfaithful : System.Faithful c) (hc : Accounted c) {conn : Nat}
    (hbegun : conn ∈ System.tally begunBy c) (hdone : conn ∈ System.tally doneBy c) :
    conn ∈ System.tally upstreamClosedBy c := by
  obtain ⟨i, event, ⟨thread, hthread, hevent⟩, hkey⟩ := System.mem_tally.mp hdone
  cases doneBy_eq_some hkey
  obtain ⟨before, after, htrace, hguard⟩ :=
    System.guarded_of_mem program_always hfaithful (List.mem_of_getElem? hthread) hevent
  suffices hclosed : ∃ result, ⟨.closeUpstream conn, result⟩ ∈ before by
    obtain ⟨result, hresult⟩ := hclosed
    apply System.mem_tally_of_thread hthread
    rw [htrace, List.filterMap_append]
    exact List.mem_append_left _ (List.mem_filterMap.mpr ⟨_, hresult, rfl⟩)
  apply hguard.closed conn rfl
  cases server with
  | socks5 => exact .inl rfl
  | http =>
      -- The one handler of the connection begins its relay and subtracts it, in this order.
      right
      obtain ⟨j, event', ⟨thread', hthread', hevent'⟩, hkey'⟩ := System.mem_tally.mp hbegun
      cases begunBy_eq_some hkey'
      obtain ⟨before', after', htrace', hguard'⟩ :=
        System.guarded_of_mem program_always hfaithful (List.mem_of_getElem? hthread') hevent'
      have hstarted : conn ∈ thread.trace.filterMap startedBy := by
        rw [htrace, List.filterMap_append]
        exact List.mem_append_left _ (hguard.done.preceded () conn rfl)
      have hstarted' : conn ∈ thread'.trace.filterMap startedBy := by
        rw [htrace', List.filterMap_append]
        exact List.mem_append_left _ (hguard'.relayed () conn rfl)
      cases System.tally_thread_unique hc.started hthread hthread' hstarted hstarted'
      cases hthread.symm.trans hthread'
      rcases Program.append_eq_append_cons (htrace.symm.trans htrace') with
        ⟨more, rfl, hmore⟩ | ⟨more, rfl, _⟩
      · cases more with
        | nil => cases hmore
        | cons first more =>
            cases hmore
            exact absurd (by simp [doneBy]) (hguard'.unfinished conn rfl)
      · simp

theorem not_relaying_of_over (hover : System.tally addedBy c ⊆ System.tally doneBy c)
    (hfaithful : System.Faithful c) (hc : Accounted c) (conn : Nat) : ¬ Relaying c conn := by
  rintro ⟨hbegun, hopen⟩
  have hadded : conn ∈ System.tally addedBy c := by
    cases server with
    | socks5 =>
        exact System.mem_tally_of_preceded program_always
          (fun _ _ _ hstep => hstep.relayCounted rfl) hfaithful hbegun
    | http =>
        apply hc.added_of_started hfaithful rfl
        exact System.mem_tally_of_preceded program_always (fun _ _ _ hstep => hstep.relayed)
          hfaithful hbegun
  exact hopen (closed_of_done hfaithful hc hbegun (hover hadded))

end Relaying

/-! ## Shutdown -/

section Shutdown

variable {server : Server} {c : Config (proxying server)}
  {schedule : List (Action (proxying server))}

/-- What the counter of a server tells. -/
structure CounterExact (c : Config (proxying server)) : Prop where
  /-- It counts the connections that were added and not subtracted yet. -/
  exact : ∃ conns : List Nat, conns.Nodup ∧
    (∀ conn, conn ∈ conns ↔ conn ∈ System.tally addedBy c ∧ conn ∉ System.tally doneBy c) ∧
    c.state.count = conns.length
  once : ∀ conn, (System.tally doneBy c).count conn ≤ 1
  /-- The goroutine that was the first to close a SOCKS5 relay, and the goroutine of
  an HTTP handler, have subtracted their connection when they return. -/
  retired : ∀ thread ∈ c.threads, ∀ outcome, thread.rest = .ret outcome →
    ∀ conn ∈ thread.trace.filterMap server.retires, (System.tally doneBy c).count conn = 1

theorem Accounted.counterExact (hc : Accounted c) (hfaithful : System.Faithful c) :
    CounterExact c := by
  have honce := List.nodup_iff_count_le_one.mp hc.done
  refine ⟨⟨(System.tally addedBy c).filter fun conn => conn ∉ System.tally doneBy c,
    hc.added.filter _, fun conn => by simp, ?_⟩, honce, ?_⟩
  · have hlength := length_filter_add hc.added hc.done hc.done_added
    have hcount := hc.count
    omega
  · intro thread hthread outcome hrest conn hconn
    have hpath := hfaithful thread hthread
    rw [hrest] at hpath
    have hdone := ((program_always thread.call).of_returns hpath).retired conn hconn
    have hmem : conn ∈ System.tally doneBy c := List.mem_flatMap.mpr ⟨thread, hthread, hdone⟩
    have hpos := List.count_pos_iff.mpr hmem
    have hle := honce conn
    omega

/-- The counter passes a wait only in a quiescent configuration. -/
def WaitsQuiescent (c : Config (proxying server)) (action : Action (proxying server)) : Prop :=
  ∀ i, action = .run i ⟨.wait, ()⟩ → Quiescent c

theorem run_drained (hrun : (proxying server).run ⟨{}, []⟩ schedule = some c)
    (hall : System.Along WaitsQuiescent ⟨({} : World), []⟩ schedule) (hwaited : Waited c) :
    Drained c := by
  refine (System.run_invariant_along WaitsQuiescent (fun c =>
    System.Runs ⟨({} : World), []⟩ c ∧ (Waited c → Drained c)) ?_ hall
      ⟨⟨[], rfl⟩, by simp [Waited, System.Performed]⟩ hrun).2 hwaited
  rintro c action c' hok ⟨⟨before, hbefore⟩, hc⟩ hstep
  have hruns' : System.Runs ⟨({} : World), []⟩ c' := System.Runs.step ⟨before, hbefore⟩ hstep
  refine ⟨hruns', ?_⟩
  rintro ⟨i, hwait⟩
  obtain ⟨after, hafter⟩ := hruns'
  have hfaithful := System.run_faithful hbefore
  have haccounted := run_accounted hbefore
  have hdrained : Drained c := by
    rcases System.performed_of_step hstep hwait with hold | rfl
    · exact hc ⟨i, hold⟩
    · obtain ⟨_, hguard⟩ := System.guarded_traceOf program_always hfaithful hstep
      obtain ⟨drained, hstarted⟩ := hguard.waits rfl
      have hclosed := (run_closing hbefore).told i _ (System.performed_iff.mpr hstarted) rfl
      obtain ⟨_, _, _, _, heffect⟩ := step_effect hstep
      exact ⟨hok i rfl, hclosed, haccounted.over heffect.passes⟩
  exact hdrained.step hfaithful haccounted (run_accounted hafter) hstep

/-- No connection is counted once a wait has passed. -/
def NoLateAdd (schedule : List (Action (proxying server))) : Prop :=
  ∀ before i after, schedule = before ++ .run i ⟨.wait, ()⟩ :: after →
    ∀ j conn, .run j ⟨.add conn, ()⟩ ∉ after

/-- What was over stays over while nothing is counted. -/
theorem run_over {c' : Config (proxying server)}
    (hadd : ∀ j conn, .run j ⟨.add conn, ()⟩ ∉ schedule)
    (hover : System.tally addedBy c ⊆ System.tally doneBy c)
    (hrun : (proxying server).run c schedule = some c') :
    System.tally addedBy c' ⊆ System.tally doneBy c' := by
  refine System.run_invariant_of_forall
    (fun action : Action (proxying server) => ∀ j conn, action ≠ .run j ⟨.add conn, ()⟩)
    (fun c => System.tally addedBy c ⊆ System.tally doneBy c) ?_
    (fun action hmem j conn heq => hadd j conn (heq ▸ hmem)) hover hrun
  intro c action c' hno hc hstep conn hconn
  have htally : (System.tally addedBy c').Perm (_ ++ System.tally addedBy c) :=
    System.tally_step hstep
  rcases List.mem_append.mp (htally.mem_iff.mp hconn) with hnew | hold
  · cases action with
    | spawn call => cases hnew
    | disturb disturbance => cases disturbance
    | run i event =>
        cases addedBy_eq_some (Option.mem_toList.mp hnew)
        exact absurd rfl (hno i conn)
  · exact (System.tally_step hstep).mem_iff.mpr (List.mem_append_right _ (hc hold))

theorem NoLateAdd.over (hlate : NoLateAdd schedule)
    (hrun : (proxying server).run ⟨{}, []⟩ schedule = some c) (hwaited : Waited c) :
    System.tally addedBy c ⊆ System.tally doneBy c := by
  obtain ⟨i, hwait⟩ := hwaited
  obtain ⟨before, after, rfl⟩ := List.append_of_mem ((System.performed_iff_mem hrun).mp hwait)
  obtain ⟨c₁, c₂, hbefore, hstep, hafter⟩ := System.run_split.mp hrun
  obtain ⟨_, _, _, _, heffect⟩ := step_effect hstep
  have hpast := (run_accounted hbefore).over heffect.passes
  have hrest : (proxying server).run c₁ (.run i ⟨.wait, ()⟩ :: after) = some c := by
    rw [System.run, hstep]
    exact hafter
  refine run_over (fun j conn hmem => ?_) hpast hrest
  rcases List.mem_cons.mp hmem with heq | hlater
  · cases heq
  · exact hlate before i after rfl j conn hlater

/-- A connection that is counted after a wait was on its way when that passed. -/
theorem noLateAdd_of_quiescent (hrun : (proxying server).run ⟨{}, []⟩ schedule = some c)
    (hall : System.Along WaitsQuiescent ⟨({} : World), []⟩ schedule) : NoLateAdd schedule := by
  rintro before i after rfl j conn hadd
  obtain ⟨middle, rest, rfl⟩ := List.append_of_mem hadd
  rw [← List.cons_append, ← List.append_assoc] at hrun hall
  obtain ⟨c₁, c₂, hmiddle, hstep, -⟩ := System.run_split.mp hrun
  have hwaited : Waited c₁ := ⟨i, (System.performed_iff_mem hmiddle).mpr (by simp)⟩
  have hruns₂ : (proxying server).run ⟨{}, []⟩
      ((before ++ .run i ⟨.wait, ()⟩ :: middle) ++ [.run j ⟨.add conn, ()⟩]) = some c₂ :=
    System.run_split.mpr ⟨c₁, c₂, hmiddle, hstep, rfl⟩
  exact (run_drained hmiddle hall.of_append hwaited).not_add (System.run_faithful hmiddle)
    (run_accounted hmiddle) (run_accounted hruns₂) hstep

/-- In every run the counter counts the connections that are under way and
each is subtracted once. If no connection is counted after a wait for it has
passed, then after a `Shutdown` that returned nil nothing relays. That is so if
whoever waits for the counter to get to zero gets there only when no connection is
on its way to be counted. -/
theorem shutdown_drained (hrun : (proxying server).run ⟨{}, []⟩ schedule = some c) :
    CounterExact c ∧ 0 ≤ c.state.count ∧
      (NoLateAdd schedule → ShutdownReturned c → ∀ conn, ¬ Relaying c conn) ∧
      (System.Along WaitsQuiescent ⟨({} : World), []⟩ schedule → NoLateAdd schedule) := by
  have hfaithful := System.run_faithful hrun
  have haccounted := run_accounted hrun
  have hexact := haccounted.counterExact hfaithful
  refine ⟨hexact, ?_, ?_, noLateAdd_of_quiescent hrun⟩
  · obtain ⟨conns, _, _, hcount⟩ := hexact.exact
    omega
  · intro hlate hreturned
    have hwaited := (run_closing hrun).waited hfaithful hreturned
    exact not_relaying_of_over (hlate.over hrun hwaited) hfaithful haccounted

end Shutdown

/-! ### Connections that are not counted yet -/

def client : Conn := ⟨0, "192.0.2.1:1000".toUTF8.toList⟩

def acceptClient {server : Server} : List (Action (proxying server)) :=
  [.spawn (.acceptLoop 1), .run 0 ⟨.loadClosed, false⟩, .run 0 ⟨.accept, .ok client⟩]

/-- A call of `Shutdown` as thread `i` that returns nil at once. -/
def shutdownAt {server : Server} (i : Nat) : List (Action (proxying server)) :=
  [.spawn .shutdown, .run i ⟨.onceEnter, true⟩, .run i ⟨.swapClosed, false⟩,
    .run i ⟨.closeListener, .ok ()⟩, .run i ⟨.onceExit, ()⟩, .run i ⟨.makeDone, 0⟩,
    .run i ⟨.goDrain 0, ()⟩, .spawn .drain, .run (i + 1) ⟨.startDrain, 0⟩,
    .run (i + 1) ⟨.wait, ()⟩, .run (i + 1) ⟨.closeDone 0, ()⟩, .run i ⟨.select 0, true⟩]

/-- A SOCKS5 client that is still dialing. -/
def socks5Dialing : List (Action (proxying .socks5)) :=
  acceptClient ++ [.run 0 ⟨.goHandler client, ()⟩, .spawn .handler, .run 1 ⟨.startHandler, client⟩,
    .run 1 ⟨.setDeadline 0, ()⟩, .run 1 ⟨.storeHandshake client.remoteAddr 0, ()⟩,
    .run 1 ⟨.readHandshake 0, some .dial⟩, .run 1 ⟨.loadHandshake client.remoteAddr, some 0⟩,
    .run 1 ⟨.clearDeadline 0, ()⟩]

def socks5Relay : List (Action (proxying .socks5)) :=
  [.run 1 ⟨.openUpstream 0, true⟩, .run 1 ⟨.add 0, ()⟩, .run 1 ⟨.newLogConn 0, ()⟩,
    .run 1 ⟨.sendReply 0, true⟩, .run 1 ⟨.relayBegin 0, ()⟩]

/-- An HTTP client that the accept loop has not counted yet. -/
def httpRelay : List (Action (proxying .http)) :=
  [.run 0 ⟨.add 0, ()⟩, .run 0 ⟨.goHandler client, ()⟩, .spawn .handler,
    .run 3 ⟨.startHandler, client⟩, .run 3 ⟨.setDeadline 0, ()⟩,
    .run 3 ⟨.readRequest 0, .forwarded⟩, .run 3 ⟨.clearDeadline 0, ()⟩,
    .run 3 ⟨.openUpstream 0, true⟩, .run 3 ⟨.newLogConn 0, ()⟩, .run 3 ⟨.relayBegin 0, ()⟩]

/-- With both servers a relay begins after `Shutdown` has returned nil. -/
theorem shutdown_early :
    (∃ c c', (proxying .socks5).run ⟨{}, []⟩ (socks5Dialing ++ shutdownAt 2) = some c ∧
      ShutdownReturned c ∧ (proxying .socks5).run c socks5Relay = some c' ∧ Relaying c' 0) ∧
    ∃ c c', (proxying .http).run ⟨{}, []⟩ (acceptClient ++ shutdownAt 1) = some c ∧
      ShutdownReturned c ∧ (proxying .http).run c httpRelay = some c' ∧ Relaying c' 0 := by
  have hsocks5 : ((proxying .socks5).run ⟨{}, []⟩ (socks5Dialing ++ shutdownAt 2)).any (fun c =>
      decide (ShutdownReturned c) && ((proxying .socks5).run c socks5Relay).any
        fun c' => decide (Relaying c' 0)) = true := by decide +kernel
  have hhttp : ((proxying .http).run ⟨{}, []⟩ (acceptClient ++ shutdownAt 1)).any (fun c =>
      decide (ShutdownReturned c) && ((proxying .http).run c httpRelay).any
        fun c' => decide (Relaying c' 0)) = true := by decide +kernel
  simp only [Option.any_eq_true, Bool.and_eq_true, decide_eq_true_eq] at hsocks5 hhttp
  obtain ⟨c, hrun, hreturned, c', hrun', hrelaying⟩ := hsocks5
  obtain ⟨d, hrunh, hreturnedh, d', hrunh', hrelayingh⟩ := hhttp
  exact ⟨⟨c, c', hrun, hreturned, hrun', hrelaying⟩, ⟨d, d', hrunh, hreturnedh, hrunh', hrelayingh⟩⟩

/-! ### A client that is served before the shutdown -/

def socks5Served : List (Action (proxying .socks5)) :=
  socks5Dialing ++ socks5Relay ++ [.run 1 ⟨.relayEnd 0, ()⟩, .run 1 ⟨.casClosed 0, true⟩,
    .run 1 ⟨.closeUpstream 0, .ok ()⟩, .run 1 ⟨.done 0, ()⟩] ++ shutdownAt 2

/-- At a wait, the listener is closed and what it accepted is counted. -/
def waitsCounted (c : Config (proxying .socks5)) : Action (proxying .socks5) → Bool
  | .run _ ⟨.wait, _⟩ => !c.state.listening &&
      (System.tally acceptedBy c).all fun conn => conn ∈ System.tally addedBy c
  | _ => true

theorem waitsQuiescent_of_counted {c : Config (proxying .socks5)}
    {action : Action (proxying .socks5)} (hcounted : waitsCounted c action = true) :
    WaitsQuiescent c action := by
  rintro i rfl
  obtain ⟨hlistening, hall⟩ : c.state.listening = false ∧
      ∀ conn ∈ System.tally acceptedBy c, conn ∈ System.tally addedBy c := by
    simpa [waitsCounted] using hcounted
  refine ⟨fun hopen => ?_, fun conn hconn => .inl (hall conn hconn)⟩
  cases hopen.symm.trans hlistening

theorem socks5Served_drained :
    NoLateAdd socks5Served ∧
      ∃ c, (proxying .socks5).run ⟨{}, []⟩ socks5Served = some c ∧ ShutdownReturned c ∧
        CounterExact c ∧ 0 ≤ c.state.count ∧ ∀ conn, ¬ Relaying c conn := by
  have hcounted : System.Along (fun c action => waitsCounted c action = true)
      ⟨({} : World), []⟩ socks5Served := by decide +kernel
  have hall : System.Along WaitsQuiescent ⟨({} : World), []⟩ socks5Served :=
    hcounted.imp fun _ _ => waitsQuiescent_of_counted
  have hreturned : ((proxying .socks5).run ⟨{}, []⟩ socks5Served).any
      (fun c => decide (ShutdownReturned c)) = true := by decide +kernel
  obtain ⟨c, hrun, hreturned⟩ := (Option.any_eq_true ..).mp hreturned
  obtain ⟨hexact, hcount, hdrained, hquiet⟩ := shutdown_drained hrun
  exact ⟨hquiet hall, c, hrun, of_decide_eq_true hreturned, hexact, hcount,
    hdrained (hquiet hall) (of_decide_eq_true hreturned)⟩

end SshGate.Proxy
