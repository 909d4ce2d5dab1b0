import SshGate.Tracker.Records
import SshGate.Tunnel.DialHistory

/-! # The records of tunnel dials

Every record of the tracker names the dial it belongs to. A dial that is bounded
by less than the age limit of the tracker is never dropped as stalled: its record
is there until the dial itself settles it, with the error or the connection that
the caller gets.
-/

namespace SshGate.TrackDial

open Go Interaction Tracker Program

variable {d : DialerCfg} {lower : Nat → Nat}

/-! ## What a dial keeps -/

/-- What a tracked dial that is not settled has done since `Begin`, in time. -/
inductive Waiting (timeout slack began : Int) : List (Event sig) → Prop
  | begun : Waiting timeout slack began []
  | looked (connected : Bool) : Waiting timeout slack began [⟨.client, connected⟩]
  | armed {now : Int} (hnow : now ≤ began + slack) :
      Waiting timeout slack began [⟨.client, true⟩, ⟨.withTimeout, now⟩]
  | answered {network addr : Text} {deadline : Option Int} {now time : Int} {err : Option Text}
      (htime : time ≤ began + timeout + 2 * slack) :
      Waiting timeout slack began [⟨.client, true⟩, ⟨.withTimeout, now⟩,
        ⟨.openChannel network addr deadline, (time, err)⟩]

/-- A dial that is not settled is not late. -/
theorem Waiting.clock_le {timeout slack began : Int} {rest : List (Event sig)}
    (hwaiting : Waiting timeout slack began rest) (htimeout : 0 ≤ timeout) (hslack : 0 ≤ slack)
    {info : DialMeta} {host : Text} {port : Int} {id : Nat} {w : World}
    (hprompt : Prompt timeout slack (⟨.track (.begin info host port), (began, id)⟩ :: rest) w) :
    w.clock ≤ began + timeout + 3 * slack := by
  cases hwaiting with
  | begun =>
      have hclock := hprompt began rfl
      omega
  | looked connected =>
      have hclock := hprompt began rfl
      omega
  | @armed now hnow =>
      have hclock := hprompt (now + timeout) rfl
      omega
  | @answered _ _ _ _ time _ htime =>
      have hclock := hprompt time rfl
      omega

/-- Where the record of a dial is: still dialing, in the history with the error
that the dial was settled with, or that of a connection. -/
inductive Settled (timeout slack began : Int) (id : Nat) (history : List (Event sig))
    (w : Tracker.World) : Prop
  | waiting {info : DialMeta} {host : Text} {port : Int} {rest : List (Event sig)}
      (hhistory : history = ⟨.track (.begin info host port), (began, id)⟩ :: rest)
      (hwaiting : Waiting timeout slack began rest) {rec : ConnRecord}
      (hrec : rec ∈ w.tracker.active) (hid : rec.id = id) (hstatus : rec.status = .dialing)
      (hstart : rec.startedAt = began)
  | failed {err : Text} {reply : Int × Int}
      (hevent : ⟨.track (.fail id err), reply⟩ ∈ history) {rec : ConnRecord}
      (hrec : rec ∈ w.tracker.finished) (hid : rec.id = id) (hstatus : rec.status = .error)
      (hreason : rec.reason = err)
  | up {tc : Nat} (hevent : ⟨.track (.done id), some tc⟩ ∈ history) {conn : TrackedConn}
      (hconn : w.conns[tc]? = some conn) (hid : conn.id = id)

/-- What a thread keeps. -/
structure Own (timeout slack : Int) (history : List (Event sig)) (w : World) : Prop where
  issued : ∀ info host port began id, ⟨.track (.begin info host port), (began, id)⟩ ∈ history →
    id ≤ w.tracked.tracker.nextID
  settled : ∀ info host port began id, ⟨.track (.begin info host port), (began, id)⟩ ∈ history →
    Settled timeout slack began id history w.tracked
  counted : ∀ tc counters, ⟨.track (.counters tc), counters⟩ ∈ history →
    ∃ conn, w.tracked.conns[tc]? = some conn ∧ conn.id = counters.id

/-- What holds of the tracker at all times. -/
structure Sound (maxAge : Int) (w : Tracker.World) : Prop where
  accounted : w.tracker.Accounted
  maxAge : w.tracker.maxAge = maxAge
  established : ∀ (tc : Nat) (conn : TrackedConn), w.conns[tc]? = some conn →
    Established conn.id w

/-- No record was given to both. -/
def Apart (first second : List (Event sig)) : Prop :=
  ∀ info host port began id info' host' port' began',
    ⟨.track (.begin info host port), (began, id)⟩ ∈ first →
    ⟨.track (.begin info' host' port'), (began', id)⟩ ∉ second

variable {timeout slack maxAge : Int} {w w' : Tracker.World} {event : Event Tracker.sig}

/-- A tracked connection was there before, or its record was just marked. -/
theorem effect_connected (heffect : Effect w event w') {tc : Nat} {conn' : TrackedConn}
    (hconn' : w'.conns[tc]? = some conn') :
    (∃ conn, w.conns[tc]? = some conn ∧ conn'.id = conn.id) ∨
      event.op = .done conn'.id ∧ conn'.id ∈ w.tracker.activeIds := by
  have hlt' : tc < w'.conns.length := (List.getElem?_eq_some_iff.mp hconn').1
  by_cases hlt : tc < w.conns.length
  · left
    obtain ⟨conn'', hconn'', hid, -⟩ := effect_conn heffect (List.getElem?_eq_getElem hlt)
    cases hconn'.symm.trans hconn''
    exact ⟨_, List.getElem?_eq_getElem hlt, hid⟩
  · right
    cases heffect with
    | mark hmark =>
        rw [List.getElem?_append_right (Nat.le_of_not_lt hlt), List.getElem?_singleton] at hconn'
        split at hconn'
        next =>
          cases hconn'
          exact ⟨rfl, hmark⟩
        next => cases hconn'
    | swap hconn => exact absurd (by rwa [List.length_modify] at hlt') hlt
    | quiet hquiet hconns =>
        have hlength := congrArg List.length hconns
        rw [List.length_map, List.length_map] at hlength
        exact absurd (hlength ▸ hlt') hlt
    | begin | late | fail | finish | sweep | list | counters => exact absurd hlt' hlt

theorem Sound.effect (hw : Sound maxAge w) (heffect : Effect w event w') : Sound maxAge w' := by
  refine ⟨effect_accounted hw.accounted heffect, (effect_maxAge heffect).trans hw.maxAge, ?_⟩
  intro tc conn' hconn'
  rcases effect_connected heffect hconn' with ⟨conn, hconn, hid⟩ | ⟨hdone, hactive⟩
  · rw [hid]
    exact effect_established hw.accounted (hw.established tc conn hconn) heffect
  · exact effect_settles (hw.accounted.issued.mp (.inl hactive)).2 heffect (.inl hdone)

/-- What others do to the record of a dial: nothing. -/
theorem Settled.effect {began : Int} {id : Nat} {history : List (Event sig)}
    (hw : Sound maxAge w) (h : Settled timeout slack began id history w)
    (heffect : Effect w event w') (hdone : event.op ≠ .done id)
    (hfail : ∀ err, event.op ≠ .fail id err)
    (hfinish : ∀ up down firstErr, event.op = .finish id up down firstErr →
      ∃ (tc : Nat) (conn : TrackedConn), w.conns[tc]? = some conn ∧ conn.id = id)
    (hclock : ∀ info host port rest,
      history = ⟨.track (.begin info host port), (began, id)⟩ :: rest →
      Waiting timeout slack began rest → w'.clock ≤ began + maxAge) :
    Settled timeout slack began id history w' := by
  cases h with
  | waiting hhistory hwaiting hrec hid hstatus hstart =>
      refine .waiting hhistory hwaiting (effect_keeps hw.accounted heffect hrec ?_ ?_) hid hstatus
        hstart
      · subst hid
        rintro (⟨err, hop⟩ | ⟨up, down, firstErr, hop⟩ | hdrops)
        · exact hfail err hop
        · -- a connection of this id would have its record marked
          obtain ⟨tc, conn, hconn, hid⟩ := hfinish up down firstErr hop
          have hactive := (hw.established tc conn hconn).2 _ hrec hid.symm
          rw [hstatus] at hactive
          cases hactive
        · have hage := (effect_drops heffect hdrops).2
          have hle := hclock _ _ _ _ hhistory hwaiting
          rw [hw.maxAge, hstart] at hage
          omega
      · rwa [hid]
  | failed hevent hrec hid hstatus hreason =>
      exact .failed hevent ((effect_grows heffect).subset hrec) hid hstatus hreason
  | up hevent hconn hid =>
      obtain ⟨conn', hconn', hsame, -⟩ := effect_conn heffect hconn
      exact .up hevent hconn' (hsame.trans hid)

/-- A new record is dialing. -/
theorem settled_begin {info : DialMeta} {host : Text} {port began : Int} {id : Nat}
    (heffect : Effect w ⟨.begin info host port, (began, id)⟩ w') :
    Settled timeout slack began id [⟨.track (.begin info host port), (began, id)⟩] w' := by
  cases heffect with
  | begin hclock =>
      exact .waiting rfl .begun List.mem_cons_self rfl rfl rfl
  | quiet hquiet _ => exact hquiet.elim

/-- Before it is settled, a dial has its record. -/
theorem Settled.active {began : Int} {id : Nat} {history : List (Event sig)}
    (h : Settled timeout slack began id history w) (hholds : Holds id history) :
    ∃ rec ∈ w.tracker.active, rec.id = id := by
  obtain ⟨info, host, port, began', rest, rfl, hrest⟩ := hholds
  cases h with
  | waiting _ _ hrec hid => exact ⟨_, hrec, hid⟩
  | failed hevent =>
      rcases List.mem_cons.mp hevent with heq | hmem
      · cases heq
      · exact absurd hmem (hrest _ _)
  | up hevent =>
      rcases List.mem_cons.mp hevent with heq | hmem
      · cases heq
      · exact absurd hmem (hrest _ _)

/-- `Fail` puts the error of the dial into the history. -/
theorem settled_fail {began : Int} {id : Nat} {history : List (Event sig)} (hw : Sound maxAge w)
    (hactive : ∃ rec ∈ w.tracker.active, rec.id = id) {err : Text} {reply : Int × Int}
    (heffect : Effect w ⟨.fail id err, reply⟩ w') :
    Settled timeout slack began id (history ++ [⟨.track (.fail id err), reply⟩]) w' := by
  obtain ⟨rec, hrec, hid⟩ := hactive
  cases heffect with
  | @fail _ _ closedAt now hclosed hnow =>
      have hlookup := (ConnTracker.lookup_eq_some hw.accounted).mpr ⟨hrec, hid⟩
      have hpushed : { rec with status := .error, reason := err, closedAt } ∈
          (w.tracker.fail id err closedAt now).finished := by
        rw [ConnTracker.fail, ConnTracker.finished_retire, hlookup]
        simp
      exact .failed List.mem_concat_self hpushed hid rfl rfl
  | quiet hquiet _ => exact hquiet.elim

/-- `Done` tracks the connection of the dial. -/
theorem settled_done {began : Int} {id : Nat} {history : List (Event sig)}
    (hactive : ∃ rec ∈ w.tracker.active, rec.id = id) {tc : Option Nat}
    (heffect : Effect w ⟨.done id, tc⟩ w') :
    Settled timeout slack began id (history ++ [⟨.track (.done id), tc⟩]) w' := by
  cases heffect with
  | mark hmark =>
      exact .up List.mem_concat_self List.getElem?_concat_length rfl
  | late hlate => exact absurd (ConnTracker.mem_activeIds.mpr hactive) hlate
  | quiet hquiet _ => exact hquiet.elim

/-! ## Every thread keeps to its part -/

variable {history history' : List (Event sig)} {v v' : World}

/-- A step of the tracker here is one there. -/
theorem perform_track {op : Tracker.Op} {reply : op.Reply}
    (hperform : World.perform (.track op) v reply = some v') :
    Effect v.tracked ⟨op, reply⟩ v'.tracked := by
  obtain ⟨tracked, htracked, rfl⟩ := Option.map_eq_some_iff.mp hperform
  exact Tracker.World.perform_effect htracked

/-- The other steps leave the tracker alone. -/
theorem perform_other {op : Op} {reply : op.Reply} (hop : ∀ op', op ≠ .track op')
    (hperform : World.perform op v reply = some v') : v' = v := by
  cases op with
  | track op => exact absurd rfl (hop op)
  | client =>
      obtain ⟨-, rfl⟩ := by simpa [World.perform] using hperform
      rfl
  | withTimeout =>
      obtain ⟨-, rfl⟩ := by simpa [World.perform] using hperform
      rfl
  | openChannel network addr deadline =>
      obtain ⟨-, rfl⟩ := by simpa [World.perform] using hperform
      rfl

theorem sound_of_perform {op : Op} {reply : op.Reply} (hv : Sound maxAge v.tracked)
    (hperform : World.perform op v reply = some v') : Sound maxAge v'.tracked := by
  by_cases hop : ∃ op', op = .track op'
  · obtain ⟨op', rfl⟩ := hop
    exact hv.effect (perform_track hperform)
  · rw [perform_other (fun op' heq => hop ⟨op', heq⟩) hperform]
    exact hv

/-- A step of its own takes a dial on. -/
theorem Settled.extend {began : Int} {id : Nat} (h : Settled timeout slack began id history w)
    {event : Event sig} (hwaiting : ∀ info host port rest,
      history = ⟨.track (.begin info host port), (began, id)⟩ :: rest →
      Waiting timeout slack began rest → Waiting timeout slack began (rest ++ [event])) :
    Settled timeout slack began id (history ++ [event]) w := by
  cases h with
  | waiting hhistory hrest hrec hid hstatus hstart =>
      exact .waiting (by rw [hhistory, List.cons_append]) (hwaiting _ _ _ _ hhistory hrest) hrec hid
        hstatus hstart
  | failed hevent hrec hid hstatus hreason =>
      exact .failed (List.mem_append_left _ hevent) hrec hid hstatus hreason
  | up hevent hconn hid => exact .up (List.mem_append_left _ hevent) hconn hid

/-- A dial that holds a record holds no other. -/
theorem Holds.eq {id id' : Nat} (hholds : Holds id history) {info : DialMeta} {host : Text}
    {port began : Int} (hbegin : ⟨.track (.begin info host port), (began, id')⟩ ∈ history) :
    id' = id := by
  obtain ⟨info', host', port', began', rest, rfl, hrest⟩ := hholds
  rcases List.mem_cons.mp hbegin with heq | hmem
  · cases heq
    rfl
  · exact absurd hmem (hrest _ _)

theorem Holds.begun {id : Nat} (hholds : Holds id history) :
    ∃ info host port began, ⟨.track (.begin info host port), (began, id)⟩ ∈ history := by
  obtain ⟨info, host, port, began, rest, rfl, -⟩ := hholds
  exact ⟨info, host, port, began, List.mem_cons_self⟩

/-- The record of a dial after a step of the dial. -/
theorem settled_of_step {op : Op} {reply : op.Reply} (hv : Sound maxAge v.tracked)
    (hprompt : Prompt timeout slack history v) (hguard : Guard history op)
    (hperform : World.perform op v reply = some v') {info : DialMeta} {host : Text}
    {port began : Int} {id : Nat}
    (hbegin : ⟨.track (.begin info host port), (began, id)⟩ ∈ history)
    (h : Settled timeout slack began id history v.tracked) :
    Settled timeout slack began id (history ++ [⟨op, reply⟩]) v'.tracked := by
  cases op with
  | track op =>
      have heffect := perform_track hperform
      cases op with
      | begin info' host' port' =>
          obtain rfl : history = [] := hguard
          cases hbegin
      | fail id' err =>
          obtain rfl := Holds.eq hguard hbegin
          exact settled_fail hv (h.active hguard) heffect
      | done id' =>
          obtain rfl := Holds.eq hguard hbegin
          exact settled_done (h.active hguard) heffect
      | finish => exact absurd hbegin (hguard.1 _ _ _ _)
      | activeByProto | list | connRead | connWrite | addDown | addUp | keepErr | swapClosed
      | connClose | counters | bytes => exact absurd hbegin (hguard _ _ _ _)
  | client =>
      rw [perform_other (by rintro _ ⟨⟩) hperform]
      refine h.extend fun info host port rest hhistory _ => ?_
      obtain rfl : rest = [] := by
        cases hguard with
        | untracked => cases hhistory
        | tracked => exact (List.cons.inj hhistory).2.symm
      exact .looked reply
  | withTimeout =>
      obtain ⟨hnow, rfl⟩ := by simpa [World.perform] using hperform
      refine h.extend fun info host port rest hhistory _ => ?_
      obtain ⟨front, hfront, rfl⟩ := hguard
      cases hfront with
      | untracked => cases hhistory
      | tracked =>
          cases hhistory
          have hclock := hprompt began rfl
          exact .armed ((le_of_eq hnow).trans hclock)
  | openChannel network addr deadline =>
      obtain ⟨time, err⟩ := reply
      obtain ⟨htime, rfl⟩ := by simpa [World.perform] using hperform
      refine h.extend fun info host port rest hhistory hwaiting => ?_
      obtain ⟨front, now, hfront, rfl⟩ := hguard
      cases hfront with
      | untracked => cases hhistory
      | tracked =>
          cases hhistory
          have hclock := hprompt (now + timeout) rfl
          cases hwaiting with
          | armed hnow => exact .answered (by omega)

theorem nextID_of_perform {op : Op} {reply : op.Reply}
    (hperform : World.perform op v reply = some v') :
    v.tracked.tracker.nextID ≤ v'.tracked.tracker.nextID := by
  by_cases hop : ∃ op', op = .track op'
  · obtain ⟨op', rfl⟩ := hop
    exact effect_nextID (perform_track hperform)
  · rw [perform_other (fun op' heq => hop ⟨op', heq⟩) hperform]

theorem conn_of_perform {op : Op} {reply : op.Reply}
    (hperform : World.perform op v reply = some v') {tc : Nat} {conn : TrackedConn}
    (hconn : v.tracked.conns[tc]? = some conn) :
    ∃ conn', v'.tracked.conns[tc]? = some conn' ∧ conn'.id = conn.id := by
  by_cases hop : ∃ op', op = .track op'
  · obtain ⟨op', rfl⟩ := hop
    obtain ⟨conn', hconn', hid, -⟩ := effect_conn (perform_track hperform) hconn
    exact ⟨conn', hconn', hid⟩
  · rw [perform_other (fun op' heq => hop ⟨op', heq⟩) hperform]
    exact ⟨conn, hconn, rfl⟩

/-- `Begin` hands out the next id. -/
theorem begin_of_perform {info : DialMeta} {host : Text} {port began : Int} {id : Nat}
    (hperform : World.perform (.track (.begin info host port)) v (began, id) = some v') :
    id = v.tracked.tracker.nextID + 1 ∧
      v'.tracked.tracker.nextID = v.tracked.tracker.nextID + 1 := by
  have heffect := perform_track hperform
  generalize v'.tracked = w' at heffect
  cases heffect with
  | begin hclock => exact ⟨rfl, rfl⟩
  | quiet hquiet _ => exact hquiet.elim

theorem Own.step {op : Op} {reply : op.Reply} (hv : Sound maxAge v.tracked)
    (h : Own timeout slack history v) (hprompt : Prompt timeout slack history v)
    (hguard : Guard history op) (hperform : World.perform op v reply = some v') :
    Own timeout slack (history ++ [⟨op, reply⟩]) v' := by
  refine ⟨fun info host port began id hmem => ?_, fun info host port began id hmem => ?_,
    fun tc counters hmem => ?_⟩
  · rcases List.mem_append.mp hmem with hold | hnew
    · exact (h.issued info host port began id hold).trans (nextID_of_perform hperform)
    · cases List.mem_singleton.mp hnew
      obtain ⟨rfl, hnext⟩ := begin_of_perform hperform
      exact hnext.ge
  · rcases List.mem_append.mp hmem with hold | hnew
    · exact settled_of_step hv hprompt hguard hperform hold
        (h.settled info host port began id hold)
    · cases List.mem_singleton.mp hnew
      obtain rfl : history = [] := hguard
      exact settled_begin (perform_track hperform)
  · rcases List.mem_append.mp hmem with hold | hnew
    · obtain ⟨conn, hconn, hid⟩ := h.counted tc counters hold
      obtain ⟨conn', hconn', hsame⟩ := conn_of_perform hperform hconn
      exact ⟨conn', hconn', hsame.trans hid⟩
    · cases List.mem_singleton.mp hnew
      have heffect := perform_track hperform
      generalize v'.tracked = w' at heffect
      cases heffect with
      | counters hconn => exact ⟨_, hconn, rfl⟩
      | quiet hquiet _ => exact hquiet.elim

/-- A step of another thread leaves the record of a dial alone. -/
theorem Own.others {op : Op} {reply : op.Reply} (htimeout : 0 ≤ timeout) (hslack : 0 ≤ slack)
    (hage : timeout + 3 * slack ≤ maxAge) (hv : Sound maxAge v.tracked)
    (hactor : Own timeout slack history v) (h : Own timeout slack history' v)
    (hapart : Apart history history') (hprompt : Prompt timeout slack history' v')
    (hguard : Guard history op) (hperform : World.perform op v reply = some v') :
    Own timeout slack history' v' := by
  refine ⟨fun info host port began id hmem => ?_, fun info host port began id hmem => ?_,
    fun tc counters hmem => ?_⟩
  · exact (h.issued info host port began id hmem).trans (nextID_of_perform hperform)
  · have hsettled := h.settled info host port began id hmem
    by_cases hop : ∃ op', op = .track op'
    · obtain ⟨op', rfl⟩ := hop
      have hholds : ¬ Holds id history := by
        intro hholds
        obtain ⟨info', host', port', began', hbegun⟩ := hholds.begun
        exact hapart _ _ _ _ _ _ _ _ _ hbegun hmem
      refine hsettled.effect hv (perform_track hperform) ?_ ?_ ?_ ?_
      · rintro ⟨⟩
        exact hholds hguard
      · rintro err ⟨⟩
        exact hholds hguard
      · rintro up down firstErr ⟨⟩
        obtain ⟨-, tc, counters, hcounted, rfl⟩ := hguard
        obtain ⟨conn, hconn, hid⟩ := hactor.counted tc counters hcounted
        exact ⟨tc, conn, hconn, hid⟩
      · intro info host port rest hhistory hwaiting
        have hclock := hwaiting.clock_le htimeout hslack (hhistory ▸ hprompt)
        have hsame : v'.clock = v'.tracked.clock := rfl
        omega
    · rw [perform_other (fun op' heq => hop ⟨op', heq⟩) hperform]
      exact hsettled
  · obtain ⟨conn, hconn, hid⟩ := h.counted tc counters hmem
    obtain ⟨conn', hconn', hsame⟩ := conn_of_perform hperform hconn
    exact ⟨conn', hconn', hsame.trans hid⟩

/-- A new record is nobody else's. -/
theorem Apart.step {op : Op} {reply : op.Reply} (hapart : Apart history history')
    (h : Own timeout slack history' v) (hperform : World.perform op v reply = some v') :
    Apart (history ++ [⟨op, reply⟩]) history' := by
  intro info host port began id info' host' port' began' hmem hother
  rcases List.mem_append.mp hmem with hold | hnew
  · exact hapart _ _ _ _ _ _ _ _ _ hold hother
  · cases List.mem_singleton.mp hnew
    obtain ⟨rfl, -⟩ := begin_of_perform hperform
    have hissued := h.issued info' host' port' began' _ hother
    omega

/-- What dials keep about their records. -/
def records (d : DialerCfg) (lower : Nat → Nat) {slack maxAge : Int} (htimeout : 0 < d.dialTimeout)
    (hslack : 0 ≤ slack) (hage : d.dialTimeout + 3 * slack ≤ maxAge) :
    Histories (dialing d lower) (Prompt d.dialTimeout slack) where
  guard := Guard
  world v := Sound maxAge v.tracked
  own := Own d.dialTimeout slack
  apart := Apart
  symm hapart info host port began id info' host' port' began' hfirst hsecond :=
    hapart _ _ _ _ _ _ _ _ _ hsecond hfirst
  own_nil _ := ⟨by simp, by simp, by simp⟩
  apart_nil _ := by
    intro info host port began id info' host' port' began' hmem
    cases hmem
  disturb := by
    intro v disturbance v' hv hdisturb
    cases disturbance with
    | tick elapsed =>
        cases hdisturb
        refine ⟨⟨hv.accounted, hv.maxAge, hv.established⟩, fun history _ hown => ?_⟩
        refine ⟨hown.issued, fun info host port began id hmem => ?_, hown.counted⟩
        cases hown.settled info host port began id hmem with
        | waiting hhistory hwaiting hrec hid hstatus hstart =>
            exact .waiting hhistory hwaiting hrec hid hstatus hstart
        | failed hevent hrec hid hstatus hreason => exact .failed hevent hrec hid hstatus hreason
        | up hevent hconn hid => exact .up hevent hconn hid
    | tunnel connected =>
        cases hdisturb
        exact ⟨hv, fun history _ hown => ⟨hown.issued, hown.settled, hown.counted⟩⟩
  step hv hown hprompt hguard hperform :=
    ⟨sound_of_perform hv hperform, hown.step hv hprompt hguard hperform⟩
  others hv hactor hown hapart hprompt hguard hperform :=
    ⟨Own.others htimeout.le hslack hage hv hactor hown hapart hprompt hguard hperform,
      hapart.step hown hperform⟩

/-! ## Settled by the dial alone -/

theorem Waiting.untracked {began : Int} {rest : List (Event sig)}
    (hwaiting : Waiting timeout slack began rest) (op : Tracker.Op) (reply : op.Reply) :
    (⟨.track op, reply⟩ : Event sig) ∉ rest := by
  cases hwaiting <;> simp

theorem Starts.unsettled {front : List (Event sig)} (hfront : Starts front) {op : Tracker.Op}
    {reply : op.Reply} (hmem : ⟨.track op, reply⟩ ∈ front) :
    ∃ info host port, op = .begin info host port := by
  cases hfront with
  | untracked => cases hmem
  | tracked info host port began id =>
      cases List.mem_singleton.mp hmem
      exact ⟨info, host, port, rfl⟩

/-- A dial does nothing after it has settled its record. -/
theorem not_guard_of_settled {op : Op} {info : DialMeta} {host : Text} {port began : Int} {id : Nat}
    (hbegin : ⟨.track (.begin info host port), (began, id)⟩ ∈ history) {done : Tracker.Op}
    {reply : done.Reply} (hdone : ⟨.track done, reply⟩ ∈ history)
    (hop : ∀ info host port, done ≠ .begin info host port) : ¬ Guard history op := by
  have hstarts : ∀ {front}, Starts front → (⟨.track done, reply⟩ : Event sig) ∉ front := by
    intro front hfront hmem
    obtain ⟨info, host, port, heq⟩ := hfront.unsettled hmem
    exact hop info host port heq
  have hholds : ∀ id, ¬ Holds id history := by
    rintro id ⟨info', host', port', began', rest, rfl, hrest⟩
    rcases List.mem_cons.mp hdone with heq | hmem
    · cases heq
      exact hop _ _ _ rfl
    · exact hrest _ _ hmem
  intro hguard
  cases op with
  | track op =>
      cases op with
      | begin info' host' port' =>
          obtain rfl : history = [] := hguard
          cases hbegin
      | fail id' err => exact hholds id' hguard
      | done id' => exact hholds id' hguard
      | finish => exact hguard.1 _ _ _ _ hbegin
      | activeByProto | list | connRead | connWrite | addDown | addUp | keepErr | swapClosed
      | connClose | counters | bytes => exact hguard _ _ _ _ hbegin
  | client => exact hstarts hguard hdone
  | withTimeout =>
      obtain ⟨front, hfront, rfl⟩ := hguard
      exact hstarts hfront (by simpa using hdone)
  | openChannel network addr deadline =>
      obtain ⟨front, now, hfront, rfl⟩ := hguard
      exact hstarts hfront (by simpa using hdone)

theorem Holds.untracked {id : Nat} (hholds : Holds id history) {op : Tracker.Op} {reply : op.Reply}
    (hop : ∀ info host port, op ≠ .begin info host port) :
    (⟨.track op, reply⟩ : Event sig) ∉ history := by
  obtain ⟨info, host, port, began, rest, rfl, hrest⟩ := hholds
  intro hmem
  rcases List.mem_cons.mp hmem with heq | hmem
  · cases heq
    exact hop _ _ _ rfl
  · exact hrest _ _ hmem

/-- A dial that called `Fail` returns that error. -/
theorem Ended.of_fail {result : Result} (hended : Ended history result) {id : Nat} {err : Text}
    {reply : Int × Int} (hevent : ⟨.track (.fail id err), reply⟩ ∈ history) :
    ∃ e : Err, result = .error e ∧ e.error = err := by
  cases result with
  | error e =>
      obtain ⟨front, id', reply', hholds, rfl⟩ := hended
      rcases List.mem_append.mp hevent with hmem | hlast
      · exact absurd hmem (hholds.untracked (by rintro _ _ _ ⟨⟩))
      · cases List.mem_singleton.mp hlast
        exact ⟨e, rfl, rfl⟩
  | ok outcome =>
      obtain ⟨front, id', tc, hholds, rfl, -⟩ := hended
      rcases List.mem_append.mp hevent with hmem | hlast
      · exact absurd hmem (hholds.untracked (by rintro _ _ _ ⟨⟩))
      · cases List.mem_singleton.mp hlast

/-- A dial that called `Done` returns what that returned. -/
theorem Ended.of_done {result : Result} (hended : Ended history result) {id : Nat}
    {tc : Option Nat} (hevent : ⟨.track (.done id), tc⟩ ∈ history) :
    result = .ok (.conn (tc.elim .base .tracked)) := by
  cases result with
  | error e =>
      obtain ⟨front, id', reply', hholds, rfl⟩ := hended
      rcases List.mem_append.mp hevent with hmem | hlast
      · exact absurd hmem (hholds.untracked (by rintro _ _ _ ⟨⟩))
      · cases List.mem_singleton.mp hlast
  | ok outcome =>
      obtain ⟨front, id', tc', hholds, rfl, rfl⟩ := hended
      rcases List.mem_append.mp hevent with hmem | hlast
      · exact absurd hmem (hholds.untracked (by rintro _ _ _ ⟨⟩))
      · cases List.mem_singleton.mp hlast
        rfl

/-- A dial that holds its record has not ended. -/
theorem Holds.not_ended {id : Nat} (hholds : Holds id history) {result : Result} :
    ¬ Ended history result := by
  intro hended
  cases result with
  | error e =>
      obtain ⟨front, id', reply, -, rfl⟩ := hended
      exact hholds.untracked (by rintro _ _ _ ⟨⟩) List.mem_concat_self
  | ok outcome =>
      obtain ⟨front, id', tc, -, rfl, -⟩ := hended
      exact hholds.untracked (by rintro _ _ _ ⟨⟩) List.mem_concat_self

variable {size start : Int} {schedule : List (Action (dialing d lower))}
  {c : Config (dialing d lower)} {i : Nat} {thread : Thread (dialing d lower)}

/-- A new tracker and no calls yet. -/
def initial (d : DialerCfg) (lower : Nat → Nat) (size maxAge start : Int) :
    Config (dialing d lower) :=
  ⟨World.new size maxAge start, []⟩

theorem new_sound : Sound maxAge (World.new size maxAge start).tracked :=
  ⟨ConnTracker.newConnTracker_accounted size maxAge, rfl, by simp [World.new, Tracker.World.new]⟩

/-- A dial that waits at most `dialTimeout`, in a program that never lets it
wait much longer, keeps its record: it is there while the dial is on its way, and
ends with the error that the dial returns, or as that of the tracked connection
that the dial returns. -/
theorem dial_keeps_record (htimeout : 0 < d.dialTimeout) (hslack : 0 ≤ slack)
    (hage : d.dialTimeout + 3 * slack ≤ maxAge)
    (hprompt : System.Throughout (AllPrompt d.dialTimeout slack)
      (initial d lower size maxAge start) schedule)
    (hrun : (dialing d lower).run (initial d lower size maxAge start) schedule = some c)
    (hthread : c.threads[i]? = some thread) {ctx : DialCtx} {network addr : Text}
    (hcall : thread.call = .dial ctx network addr) {info : DialMeta} {host : Text}
    {port began : Int} {id : Nat}
    (hbegin : ⟨.track (.begin info host port), (began, id)⟩ ∈ thread.trace) :
    ((∀ result, thread.rest ≠ .ret result) ∧
      ∃ rec ∈ c.state.tracked.tracker.active, rec.id = id ∧ rec.status = .dialing) ∨
    (∃ err, thread.rest = .ret (.error err) ∧ ∃ rec ∈ c.state.tracked.tracker.finished,
      rec.id = id ∧ rec.status = .error ∧ rec.reason = err.error) ∨
    ∃ tc conn, thread.rest = .ret (.ok (.conn (.tracked tc))) ∧
      c.state.tracked.conns[tc]? = some conn ∧ conn.id = id := by
  have hkept : (records d lower htimeout hslack hage).Kept c :=
    Histories.run_kept (Histories.kept_new new_sound) (program_always htimeout) hprompt hrun
  have hguarded := hkept.guarded i thread hthread
  have hended : ∀ result, thread.rest = .ret result → Ended thread.trace result := by
    intro result hret
    have hpath := System.run_faithful hrun thread (List.mem_of_getElem? hthread)
    rw [hcall, hret] at hpath
    refine ((trackDial_always htimeout ctx network addr).of_returns hpath).resolve_left ?_
    exact fun hunbegun => hunbegun _ _ _ _ hbegin
  -- once the record is settled, nothing is left to do
  have hreturned : ∀ {op : Tracker.Op} {reply : op.Reply}, ⟨.track op, reply⟩ ∈ thread.trace →
      (∀ info host port, op ≠ .begin info host port) → ∃ result, thread.rest = .ret result := by
    intro op reply hmem hop
    cases hrest : thread.rest with
    | ret result => exact ⟨result, rfl⟩
    | act next more =>
        rw [hrest] at hguarded
        exact absurd hguarded.1 (not_guard_of_settled hbegin hmem hop)
  cases (hkept.own i thread hthread).settled info host port began id hbegin with
  | waiting hhistory hwaiting hrec hid hstatus hstart =>
      have hholds : Holds id thread.trace := ⟨_, _, _, _, _, hhistory, hwaiting.untracked⟩
      exact .inl ⟨fun result hret => hholds.not_ended (hended result hret), _, hrec, hid, hstatus⟩
  | failed hevent hrec hid hstatus hreason =>
      obtain ⟨result, hret⟩ := hreturned hevent (by rintro _ _ _ ⟨⟩)
      obtain ⟨err, rfl, rfl⟩ := (hended result hret).of_fail hevent
      exact .inr (.inl ⟨err, hret, _, hrec, hid, hstatus, hreason⟩)
  | @up tc hevent conn hconn hid =>
      obtain ⟨result, hret⟩ := hreturned hevent (by rintro _ _ _ ⟨⟩)
      obtain rfl := (hended result hret).of_done hevent
      exact .inr (.inr ⟨tc, conn, hret, hconn, hid⟩)

/-- A dial of the HTTP proxy. -/
def proxyDial : DialCtx := { info := some ⟨⟨str "http", str "10.0.0.2:4000", str "a.test"⟩, []⟩ }

/-- The dial is refused after five units of time; before that, a page is shown. -/
def refused : List (Action (dialing ⟨true, 30⟩ id)) :=
  let addr := str "192.0.2.1:443"
  let plan := dialPlan proxyDial addr
  let err := str "SSH dial to 192.0.2.1:443 failed: refused"
  let rec' : ConnRecord :=
    { id := 1, proto := str "http", src := str "10.0.0.2:4000", host := str "a.test"
      dstIP := str "192.0.2.1", port := 443, status := .dialing, startedAt := 0 }
  [.disturb (.tunnel true), .spawn (.dial proxyDial (str "tcp") addr),
    .run 0 ⟨.track (.begin plan.info plan.host plan.port), ((0 : Int), (1 : Nat))⟩,
    .run 0 ⟨.client, true⟩, .run 0 ⟨.withTimeout, (0 : Int)⟩, .disturb (.tick 5),
    .spawn (.use .activeByProto trivial),
    .run 1 ⟨.track .activeByProto, (⟨5, [(1, 5)], [rec']⟩ : Sweep)⟩,
    .run 0 ⟨.openChannel (str "tcp") addr (some 30), ((5 : Int), some (str "refused"))⟩,
    .run 0 ⟨.track (.fail 1 err), ((5 : Int), (5 : Int))⟩]

theorem refused_runs :
    ((dialing ⟨true, 30⟩ id).run (initial ⟨true, 30⟩ id 10 600 0) refused).isSome := by
  decide +kernel

theorem refused_keeps_record : ∃ c thread,
    (dialing ⟨true, 30⟩ id).run (initial ⟨true, 30⟩ id 10 600 0) refused = some c ∧
    c.threads[0]? = some thread ∧
    (((∀ result, thread.rest ≠ .ret result) ∧
      ∃ rec ∈ c.state.tracked.tracker.active, rec.id = 1 ∧ rec.status = .dialing) ∨
    (∃ err, thread.rest = .ret (.error err) ∧ ∃ rec ∈ c.state.tracked.tracker.finished,
      rec.id = 1 ∧ rec.status = .error ∧ rec.reason = err.error) ∨
    ∃ tc conn, thread.rest = .ret (.ok (.conn (.tracked tc))) ∧
      c.state.tracked.conns[tc]? = some conn ∧ conn.id = 1) := by
  have hrun := (Option.some_get refused_runs).symm
  have hprompt : System.Throughout (AllPrompt 30 2)
      (initial ⟨true, 30⟩ id 10 600 0) refused := by
    decide +kernel
  obtain ⟨rest, hthread⟩ := System.run_thread hrun (i := 0) rfl
  refine ⟨_, _, hrun, hthread, ?_⟩
  exact dial_keeps_record (by decide) (by decide) (by decide) hprompt hrun hthread rfl
    List.mem_cons_self

/-! ## What the records say -/

/-- The beginning of a record by a plan. -/
def DialPlan.origin (plan : DialPlan) (id : Nat) : Origin :=
  ⟨id, plan.info.proto, plan.info.src, plan.host, plan.info.dstIP, plan.port⟩

/-- Every record was begun with what it says. -/
def Named (c : Config (dialing d lower)) : Prop :=
  ∀ rec ∈ c.state.tracked.tracker.allRecords, ∃ i info host port began,
    System.Performed c i ⟨.track (.begin info host port), (began, rec.id)⟩ ∧
      rec.origin = DialPlan.origin ⟨info, host, port⟩ rec.id

theorem step_named {c' : Config (dialing d lower)} {action : Action (dialing d lower)}
    (hc : Named c) (hstep : (dialing d lower).step c action = some c') : Named c' := by
  have hold : c.state.tracked.tracker.From c'.state.tracked.tracker → Named c' := by
    intro hfrom rec hrec
    obtain ⟨old, hold, horigin⟩ := hfrom rec hrec
    obtain ⟨i, info, host, port, began, hperformed, heq⟩ := hc old hold
    have hid : old.id = rec.id := congrArg Origin.id horigin
    rw [hid] at hperformed heq
    exact ⟨i, info, host, port, began, hperformed.of_step hstep, horigin.symm.trans heq⟩
  cases action with
  | spawn call =>
      refine hold ?_
      cases hstep
      exact .refl _
  | disturb disturbance =>
      refine hold ?_
      cases disturbance with
      | tick elapsed =>
          cases hstep
          exact .refl _
      | tunnel connected =>
          cases hstep
          exact .refl _
  | run i event =>
      have hperformed := System.performed_run hstep
      obtain ⟨_, _, v', _, _, hperform, hc'⟩ := System.step_run_eq_some.mp hstep
      have hstate : c'.state = v' := by rw [hc']
      by_cases hop : ∃ op, event.op = .track op
      · obtain ⟨_, reply⟩ := event
        obtain ⟨op, rfl⟩ := hop
        rcases effect_origins (perform_track hperform) with
          hfrom | ⟨info, host, port, began, heq, hbegin⟩
        · exact hold (hstate ▸ hfrom)
        · cases heq
          intro rec hrec
          rw [hstate, hbegin] at hrec
          rcases List.mem_cons.mp hrec with rfl | hmem
          · exact ⟨i, info, host, port, began, hperformed, rfl⟩
          · obtain ⟨j, info', host', port', began', hold', horigin⟩ := hc rec hmem
            exact ⟨j, info', host', port', began', hold'.of_step hstep, horigin⟩
      · refine hold ?_
        rw [hstate, perform_other (fun op' heq => hop ⟨op', heq⟩) hperform]
        exact .refl _

/-- The record is that of a tracked dial and says what the dial was for. For a
dial of the proxies that is the protocol, the client, the host it asked for, and
the address and port that were dialed. -/
def NamesDial (c : Config (dialing d lower)) (rec : ConnRecord) : Prop :=
  ∃ (i : Nat) (thread : Thread (dialing d lower)) (ctx : DialCtx) (network addr : Text)
    (began : Int), c.threads[i]? = some thread ∧ thread.call = .dial ctx network addr ∧
    ctx.noTrack = false ∧
    ⟨.track (.begin (dialPlan ctx addr).info (dialPlan ctx addr).host (dialPlan ctx addr).port),
      (began, rec.id)⟩ ∈ thread.trace ∧ rec.origin = (dialPlan ctx addr).origin rec.id ∧
    ∀ (info : DialMeta) (ip : Addr) (port : Nat), ctx.info = some info → info.host ≠ [] →
      Unbracketed ip.string → port < 2 ^ 63 →
      addr = Addr.joinHostPort ip.string (Text.itoa port) →
      rec.origin = ⟨rec.id, info.proto, info.src, info.host, ip.string, port⟩

/-- Every record, active or in the history, names its dial. -/
theorem record_names_dial
    (hrun : (dialing d lower).run (initial d lower size maxAge start) schedule = some c)
    {rec : ConnRecord} (hrec : rec ∈ c.state.tracked.tracker.allRecords) : NamesDial c rec := by
  have hnamed : Named c := by
    refine System.run_invariant Named (fun _ _ _ hc hstep => step_named hc hstep) ?_ hrun
    intro rec hrec
    simp [initial, World.new, Tracker.World.new, newConnTracker, ConnTracker.allRecords,
      ConnTracker.finished, AgeQueue.pushed] at hrec
  obtain ⟨i, info, host, port, began, ⟨thread, hthread, hmem⟩, horigin⟩ := hnamed rec hrec
  have hpath := System.run_faithful hrun thread (List.mem_of_getElem? hthread)
  have hplanned : Planned thread.call (.track (.begin info host port)) :=
    (program_planned thread.call).of_mem hpath hmem
  obtain ⟨ctx, network, addr, hcall, hnoTrack, hplan⟩ := hplanned
  refine ⟨i, thread, ctx, network, addr, began, hthread, hcall, hnoTrack, ?_, ?_, ?_⟩
  · rw [hplan]
    exact hmem
  · rw [hplan]
    exact horigin
  · rintro info' ip port' hinfo hhost hip hport rfl
    rw [dialPlan_of_proxy hinfo hhost hip hport] at hplan
    cases hplan
    exact horigin

theorem refused_names_dial : ∃ c rec,
    (dialing ⟨true, 30⟩ id).run (initial ⟨true, 30⟩ id 10 600 0) refused = some c ∧
    rec ∈ c.state.tracked.tracker.allRecords ∧ NamesDial c rec := by
  have hrun := (Option.some_get refused_runs).symm
  have hne : (((dialing ⟨true, 30⟩ id).run (initial ⟨true, 30⟩ id 10 600 0) refused).get
      refused_runs).state.tracked.tracker.allRecords ≠ [] := by
    decide +kernel
  obtain ⟨rec, hrec⟩ := List.exists_mem_of_ne_nil _ hne
  exact ⟨_, rec, hrun, hrec, record_names_dial hrun hrec⟩

end SshGate.TrackDial
