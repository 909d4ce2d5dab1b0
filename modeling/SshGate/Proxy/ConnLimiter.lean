import Mathlib.Data.List.Perm.Subperm
import Mathlib.Logic.Function.Basic
import SshGate.Go.Text
import SshGate.Interaction.Tally

/-! # The connection limit

All proxy listeners share one `connLimiter`. A listener takes a slot for each
connection it returns and refuses the connection if there is none; the first
`Close` of a returned connection gives the slot back. Which level a refusal is
logged with is left out.
-/

namespace SshGate.Limiter

open Go Interaction

/-- The channel `slots` by its capacity and the number of elements in it. -/
structure ConnLimiter where
  capacity : Nat
  slots : Nat := 0
  deriving Repr, DecidableEq

/-- No limiter stands for no limit. -/
def newConnLimiter (n : Int) : Option ConnLimiter :=
  if n ≤ 0 then none else some { capacity := n.toNat }

def ConnLimiter.tryAcquire (l : ConnLimiter) : Bool × ConnLimiter :=
  if l.slots < l.capacity then (true, { l with slots := l.slots + 1 }) else (false, l)

/-- Taking an element out of the channel; `none` where that blocks. -/
def ConnLimiter.release (l : ConnLimiter) : Option ConnLimiter :=
  if 0 < l.slots then some { l with slots := l.slots - 1 } else none

/-! ## Programs -/

inductive Op where
  /-- `Accept` of the listener that is wrapped. -/
  | accept (listener : Nat)
  /-- `tryAcquire`; with a slot the connection is wrapped as a `limitedConn`. -/
  | tryAcquire (conn : Nat)
  /-- `Close` of a connection without a slot. -/
  | refuse (conn : Nat)
  /-- `Close` of the connection in a `limitedConn`. -/
  | closeConn (conn : Nat)
  /-- Entering `once.Do`; the reply is whether this call runs the function. -/
  | onceBegin (conn : Nat)
  | release (conn : Nat)
  | onceEnd (conn : Nat)
  deriving Repr, DecidableEq

@[reducible] def Op.Reply : Op → Type
  | .accept _ => Except Text Nat
  | .tryAcquire _ => Bool
  | .refuse _ | .closeConn _ => Except Text Unit
  | .onceBegin _ => Bool
  | .release _ | .onceEnd _ => Unit

@[reducible] def sig : Signature := ⟨Op, Op.Reply⟩

abbrev Prog (α : Type) := Program sig α

abbrev act (op : Op) : Prog op.Reply := Program.perform (S := sig) op

/-- The results of `Accept` and `Close`. -/
inductive Outcome where
  | accepted (conn : Nat)
  | failed (err : Text)
  | looping
  | closed (err : Except Text Unit)
  deriving DecidableEq

/-- The first `rounds` rounds of the loop of `Accept`. -/
def LimitListener.accept (listener : Nat) : (rounds : Nat) → Prog Outcome
  | 0 => return .looping
  | rounds + 1 => do
      let accepted ← act (.accept listener)
      match accepted with
      | .error err => return .failed err
      | .ok conn => do
          let acquired ← act (.tryAcquire conn)
          if acquired then return .accepted conn
          else do
            let _ ← act (.refuse conn)
            LimitListener.accept listener rounds

def LimitedConn.close (conn : Nat) : Prog Outcome := do
  let err ← act (.closeConn conn)
  let first ← act (.onceBegin conn)
  if first then do
    let _ ← act (.release conn)
    let _ ← act (.onceEnd conn)
    return .closed err
  else return .closed err

/-! ## Any number of listeners and of calls of `Close` -/

inductive Once where
  | fresh
  | running
  | done
  deriving Repr, DecidableEq

/-- `limited` are the connections that were wrapped. -/
structure World where
  limit : ConnLimiter
  nextConn : Nat := 0
  limited : List Nat := []
  once : Nat → Once := fun _ => .fresh

def World.setOnce (w : World) (conn : Nat) (once : Once) : World :=
  { w with once := Function.update w.once conn once }

@[simp] theorem World.once_setOnce (w : World) (conn other : Nat) (once : Once) :
    (w.setOnce conn once).once other = if other = conn then once else w.once other :=
  Function.update_apply ..

/-- Only connections that were returned can be closed. A call of `once.Do`
waits while another one runs the function. -/
def World.perform : (op : Op) → World → op.Reply → Option World
  | .accept _, w, .ok conn =>
      if conn = w.nextConn then some { w with nextConn := conn + 1 } else none
  | .accept _, w, .error _ => some w
  | .tryAcquire conn, w, true =>
      if w.limit.tryAcquire.1 then
        some { w with limit := w.limit.tryAcquire.2, limited := conn :: w.limited }
      else none
  | .tryAcquire _, w, false => if w.limit.tryAcquire.1 then none else some w
  | .refuse _, w, _ => some w
  | .closeConn conn, w, _ => if conn ∈ w.limited then some w else none
  | .onceBegin conn, w, true =>
      if w.once conn = .fresh then some (w.setOnce conn .running) else none
  | .onceBegin conn, w, false => if w.once conn = .done then some w else none
  | .release _, w, () => w.limit.release.map fun limit => { w with limit }
  | .onceEnd conn, w, () => some (w.setOnce conn .done)

inductive Call where
  | accept (listener rounds : Nat)
  | close (conn : Nat)
  deriving Repr, DecidableEq

def Call.program : Call → Prog Outcome
  | .accept listener rounds => LimitListener.accept listener rounds
  | .close conn => LimitedConn.close conn

@[reducible] def limiting : System where
  sig := sig
  Call := Call
  Result := Outcome
  program := Call.program
  State := World
  Disturbance := Empty
  perform := World.perform
  disturb _ disturbance := disturbance.elim

/-! ## What a call does -/

/-- The connection that an event accepts; tries to take, takes or does not get
a slot for; begins to give it back for, or gives it back for. -/
def acceptedBy : Event sig → Option Nat
  | ⟨.accept _, .ok conn⟩ => some conn
  | _ => none

def triedBy : Event sig → Option Nat
  | ⟨.tryAcquire conn, _⟩ => some conn
  | _ => none

def acquiredBy : Event sig → Option Nat
  | ⟨.tryAcquire conn, true⟩ => some conn
  | _ => none

def refusedBy : Event sig → Option Nat
  | ⟨.tryAcquire conn, false⟩ => some conn
  | _ => none

def begunBy : Event sig → Option Nat
  | ⟨.onceBegin conn, true⟩ => some conn
  | _ => none

def releasedBy : Event sig → Option Nat
  | ⟨.release conn, _⟩ => some conn
  | _ => none

/-- What holds when a call performs an action. -/
structure CallStep (history : List (Event sig)) (op : Op) : Prop where
  unreturned : history.filterMap acquiredBy = []
  accepted : Program.Covered acceptedBy triedBy history op
  begun : Program.Covered begunBy releasedBy history op
  closed : ∀ conn, op = .release conn → ∃ err, ⟨.closeConn conn, err⟩ ∈ history
  released : ∀ conn, op = .onceEnd conn → ⟨.release conn, ()⟩ ∈ history
  refused : ∀ conn, history.getLast? = some ⟨.tryAcquire conn, false⟩ → op = .refuse conn

/-- What holds when a call returns. -/
structure CallEnd (history : List (Event sig)) (outcome : Outcome) : Prop where
  accepted : ∀ conn, outcome = .accepted conn ↔ conn ∈ history.filterMap acquiredBy
  closed : ∀ err conn err', outcome = .closed err → ⟨.closeConn conn, err'⟩ ∈ history →
    ⟨.release conn, ()⟩ ∈ history ∨ ⟨.onceBegin conn, false⟩ ∈ history
  refused : ∀ conn, history.getLast? ≠ some ⟨.tryAcquire conn, false⟩

theorem acquiredBy_snoc {history : List (Event sig)}
    (hacquired : history.filterMap acquiredBy = []) (event : Event sig)
    (hevent : acquiredBy event = none) :
    (history ++ [event]).filterMap acquiredBy = [] := by
  simp [List.filterMap_append, hacquired, hevent]

theorem limitListener_accept_always (listener rounds : Nat) {history : List (Event sig)}
    (hacquired : history.filterMap acquiredBy = [])
    (htried : ∀ conn, (history.filterMap triedBy).count conn ≤
      (history.filterMap acceptedBy).count conn)
    (hrefused : ∀ conn, history.getLast? ≠ some ⟨.tryAcquire conn, false⟩) :
    (LimitListener.accept listener rounds).Always CallStep CallEnd history := by
  induction rounds generalizing history with
  | zero => exact ⟨by simp [hacquired], by simp, hrefused⟩
  | succ rounds ih =>
      refine Program.Always.perform ?_ fun accepted => ?_
      · exact ⟨hacquired, by simp [Program.Covered, triedBy],
          by simp [Program.Covered, releasedBy], by simp, by simp,
          fun conn hlast => absurd hlast (hrefused conn)⟩
      cases accepted with
      | error err =>
          have hfailed := acquiredBy_snoc hacquired ⟨.accept listener, .error err⟩ rfl
          exact ⟨fun conn => by rw [hfailed]; simp, by simp, by simp⟩
      | ok conn =>
          have haccepted := acquiredBy_snoc hacquired ⟨.accept listener, .ok conn⟩ rfl
          refine Program.Always.perform ?_ fun acquired => ?_
          · refine ⟨haccepted, ?_, by simp [Program.Covered, releasedBy], by simp, by simp,
              by simp⟩
            rintro reply conn' hkey
            cases hkey
            have hle := htried conn
            simp only [List.filterMap_append, List.count_append, List.filterMap_cons,
              List.filterMap_nil, triedBy, acceptedBy, List.count_nil, List.count_singleton_self]
            omega
          · cases acquired with
            | true =>
                refine ⟨fun conn' => ?_, by simp, by simp⟩
                rw [List.filterMap_append, haccepted]
                simp [acquiredBy, eq_comm]
            | false =>
                refine Program.Always.perform ?_ fun reply => ?_
                · exact ⟨acquiredBy_snoc haccepted _ rfl, by simp [Program.Covered, triedBy],
                    by simp [Program.Covered, releasedBy], by simp, by simp, by simp⟩
                · apply ih (acquiredBy_snoc (acquiredBy_snoc haccepted _ rfl) _ rfl)
                  · intro conn'
                    have hle := htried conn'
                    simp only [List.filterMap_append, List.count_append, List.filterMap_cons,
                      List.filterMap_nil, triedBy, acceptedBy, List.count_nil]
                    omega
                  · simp

theorem limitedConn_close_always (conn : Nat) :
    (LimitedConn.close conn).Always CallStep CallEnd [] := by
  refine Program.Always.perform ?_ fun err => Program.Always.perform ?_ fun first => ?_
  · exact ⟨rfl, by simp [Program.Covered, triedBy], by simp [Program.Covered, releasedBy],
      by simp, by simp, by simp⟩
  · exact ⟨rfl, by simp [Program.Covered, triedBy], by simp [Program.Covered, releasedBy],
      by simp, by simp, by simp⟩
  · cases first with
    | false => exact ⟨by simp [acquiredBy], by simp +contextual, by simp⟩
    | true =>
        refine Program.Always.perform ?_ fun _ => Program.Always.perform ?_ fun _ => ?_
        · refine ⟨rfl, by simp [Program.Covered, triedBy], ?_, by simp, by simp, by simp⟩
          simp [Program.Covered, releasedBy, begunBy, List.filterMap]
        · exact ⟨rfl, by simp [Program.Covered, triedBy], by simp [Program.Covered, releasedBy],
            by simp, by simp, by simp⟩
        · exact ⟨by simp [acquiredBy], by simp +contextual, by simp⟩

theorem program_always (call : Call) : (call.program).Always CallStep CallEnd [] := by
  cases call with
  | accept listener rounds =>
      exact limitListener_accept_always listener rounds rfl (by simp) (by simp)
  | close conn => exact limitedConn_close_always conn

/-! ## What an action does to the state -/

inductive Effect : World → Event sig → World → Prop
  | accept (w : World) (listener : Nat) :
      Effect w ⟨.accept listener, .ok w.nextConn⟩ { w with nextConn := w.nextConn + 1 }
  | acceptFailed (w : World) (listener : Nat) (err : Text) :
      Effect w ⟨.accept listener, .error err⟩ w
  | acquire {w : World} (conn : Nat) (hfree : w.limit.slots < w.limit.capacity) :
      Effect w ⟨.tryAcquire conn, true⟩
        { w with limit := { w.limit with slots := w.limit.slots + 1 }
                 limited := conn :: w.limited }
  | full {w : World} (conn : Nat) (hfull : w.limit.capacity ≤ w.limit.slots) :
      Effect w ⟨.tryAcquire conn, false⟩ w
  | refuse (w : World) (conn : Nat) (err : Except Text Unit) : Effect w ⟨.refuse conn, err⟩ w
  | closeConn {w : World} {conn : Nat} (hconn : conn ∈ w.limited) (err : Except Text Unit) :
      Effect w ⟨.closeConn conn, err⟩ w
  | onceBegin {w : World} {conn : Nat} (hfresh : w.once conn = .fresh) :
      Effect w ⟨.onceBegin conn, true⟩ (w.setOnce conn .running)
  | onceWait {w : World} {conn : Nat} (hdone : w.once conn = .done) :
      Effect w ⟨.onceBegin conn, false⟩ w
  | release {w : World} (conn : Nat) (hslots : 0 < w.limit.slots) :
      Effect w ⟨.release conn, ()⟩
        { w with limit := { w.limit with slots := w.limit.slots - 1 } }
  | onceEnd (w : World) (conn : Nat) : Effect w ⟨.onceEnd conn, ()⟩ (w.setOnce conn .done)

theorem perform_effect {op : Op} {w w' : World} {reply : op.Reply}
    (hperform : World.perform op w reply = some w') : Effect w ⟨op, reply⟩ w' := by
  cases op with
  | accept listener =>
      cases reply with
      | error err =>
          cases hperform
          exact .acceptFailed w listener err
      | ok conn =>
          simp only [World.perform, Option.ite_none_right_eq_some, Option.some.injEq] at hperform
          obtain ⟨rfl, rfl⟩ := hperform
          exact .accept w listener
  | tryAcquire conn =>
      cases reply <;> simp only [World.perform, ConnLimiter.tryAcquire] at hperform <;>
        split at hperform <;> cases hperform
      next hfull => exact .full conn (Nat.not_lt.mp hfull)
      next hfree => exact .acquire conn hfree
  | refuse conn =>
      cases hperform
      exact .refuse w conn reply
  | closeConn conn =>
      simp only [World.perform, Option.ite_none_right_eq_some, Option.some.injEq] at hperform
      obtain ⟨hconn, rfl⟩ := hperform
      exact .closeConn hconn reply
  | onceBegin conn =>
      cases reply <;>
        simp only [World.perform, Option.ite_none_right_eq_some, Option.some.injEq] at hperform
      next =>
        obtain ⟨hdone, rfl⟩ := hperform
        exact .onceWait hdone
      next =>
        obtain ⟨hfresh, rfl⟩ := hperform
        exact .onceBegin hfresh
  | release conn =>
      simp only [World.perform, ConnLimiter.release] at hperform
      split at hperform <;> cases hperform
      next hslots => exact .release conn hslots
  | onceEnd conn =>
      cases hperform
      exact .onceEnd w conn

section Effect

variable {w w' : World} {event : Event sig}

theorem Effect.nextConn (heffect : Effect w event w') {conn : Nat} (hconn : conn < w.nextConn) :
    conn < w'.nextConn := by
  cases heffect <;> first | exact hconn | exact Nat.lt_succ_of_lt hconn

theorem Effect.accepted (heffect : Effect w event w') {conn : Nat}
    (hkey : acceptedBy event = some conn) : ¬ conn < w.nextConn ∧ conn < w'.nextConn := by
  cases heffect <;> simp_all [acceptedBy]

/-- A connection that gives its slot back has done so for good. -/
theorem Effect.once (heffect : Effect w event w') {conn : Nat} (hconn : w.once conn ≠ .fresh) :
    w'.once conn ≠ .fresh := by
  cases heffect with
  | onceBegin | onceEnd =>
      rw [World.once_setOnce]
      split
      · exact nofun
      · exact hconn
  | _ => exact hconn

theorem Effect.begun (heffect : Effect w event w') {conn : Nat}
    (hkey : begunBy event = some conn) : ¬ w.once conn ≠ .fresh ∧ w'.once conn ≠ .fresh := by
  cases heffect <;> simp_all [begunBy]

theorem Effect.done (heffect : Effect w event w') {conn : Nat} (hdone : w'.once conn = .done) :
    w.once conn = .done ∨ event = ⟨.onceEnd conn, ()⟩ := by
  cases heffect <;> grind [World.once_setOnce]

theorem Effect.waited {conn : Nat} (heffect : Effect w ⟨.onceBegin conn, false⟩ w') :
    w.once conn = .done := by
  cases heffect with
  | onceWait hdone => exact hdone

theorem Effect.closable {conn : Nat} {err : Except Text Unit}
    (heffect : Effect w ⟨.closeConn conn, err⟩ w') : conn ∈ w.limited := by
  cases heffect with
  | closeConn hconn => exact hconn

theorem Effect.limited (heffect : Effect w event w') :
    w'.limited = (acquiredBy event).toList ++ w.limited := by
  cases heffect <;> rfl

theorem Effect.capacity (heffect : Effect w event w') :
    w'.limit.capacity = w.limit.capacity := by
  cases heffect <;> rfl

/-- The channel counts the slots that were taken and not given back. -/
theorem Effect.slots (heffect : Effect w event w') :
    w'.limit.slots + (releasedBy event).toList.length =
      w.limit.slots + (acquiredBy event).toList.length := by
  cases heffect with
  | release conn hslots => exact Nat.sub_add_cancel hslots
  | _ => rfl

theorem Effect.slots_le (heffect : Effect w event w') (hslots : w.limit.slots ≤ w.limit.capacity) :
    w'.limit.slots ≤ w'.limit.capacity := by
  cases heffect with
  | acquire conn hfree => exact hfree
  | release conn _ => exact Nat.le_trans (Nat.sub_le _ _) hslots
  | _ => exact hslots

end Effect

/-! ## What all calls do together -/

/-- `Accept` returned the connection. -/
def Returned (c : Config limiting) (conn : Nat) : Prop :=
  ∃ thread ∈ c.threads, thread.rest = .ret (.accepted conn)

/-- A first `Close` of the connection has given its slot back. -/
def Released (c : Config limiting) (conn : Nat) : Prop :=
  ∃ i, System.Performed c i ⟨.release conn, ()⟩

theorem mem_tally_released {c : Config limiting} {conn : Nat} :
    conn ∈ System.tally releasedBy c ↔ Released c conn := by
  rw [System.mem_tally]
  constructor
  · rintro ⟨i, ⟨op, reply⟩, hperformed, hkey⟩
    unfold releasedBy at hkey
    split at hkey
    next heq => cases heq; cases hkey; exact ⟨i, hperformed⟩
    next => cases hkey
  · rintro ⟨i, hperformed⟩
    exact ⟨i, _, hperformed, rfl⟩

theorem mem_tally_acquired {c : Config limiting} (hc : System.Faithful c) {conn : Nat} :
    conn ∈ System.tally acquiredBy c ↔ Returned c conn := by
  simp only [System.tally, List.mem_flatMap]
  constructor
  · rintro ⟨thread, hthread, hconn⟩
    refine ⟨thread, hthread, ?_⟩
    have hreached := (program_always thread.call).at_reached (hc thread hthread)
    rw [List.nil_append] at hreached
    cases hrest : thread.rest with
    | ret outcome =>
        rw [hrest] at hreached
        rw [(hreached.accepted conn).mpr hconn]
    | act op next =>
        rw [hrest] at hreached
        rw [hreached.1.unreturned] at hconn
        cases hconn
  · rintro ⟨thread, hthread, hrest⟩
    have hpath := hc thread hthread
    rw [hrest] at hpath
    have hend := (program_always thread.call).of_returns hpath
    exact ⟨thread, hthread, (hend.accepted conn).mp rfl⟩

/-- What holds of the listeners and connections after every run. -/
structure Limited (n : Nat) (c : Config limiting) : Prop where
  capacity : c.state.limit.capacity = n
  slots_le : c.state.limit.slots ≤ n
  slots : c.state.limit.slots + (System.tally releasedBy c).length =
    (System.tally acquiredBy c).length
  limited : ∀ conn ∈ c.state.limited, conn ∈ System.tally acquiredBy c
  closed : ∀ i conn err, System.Performed c i ⟨.closeConn conn, err⟩ → conn ∈ c.state.limited
  done : ∀ conn, c.state.once conn = .done → Released c conn
  waited : ∀ i conn, System.Performed c i ⟨.onceBegin conn, false⟩ → Released c conn

theorem new_limited {n : Int} {limit : ConnLimiter} (hlimit : newConnLimiter n = some limit) :
    Limited n.toNat ⟨{ limit }, []⟩ := by
  unfold newConnLimiter at hlimit
  split at hlimit <;> cases hlimit
  exact ⟨rfl, Nat.zero_le _, rfl, by simp, by simp [System.Performed], by simp,
    by simp [System.Performed]⟩

/-- A step keeps the state or has one effect on it. -/
theorem step_effect {c c' : Config limiting} {action : Action limiting}
    (hstep : limiting.step c action = some c') :
    (c'.state = c.state ∧ ∃ call, action = .spawn call) ∨
      ∃ i event, action = .run i event ∧ Effect c.state event c'.state := by
  cases action with
  | spawn call =>
      simp only [System.step, Option.some.injEq] at hstep
      exact .inl ⟨by rw [← hstep], call, rfl⟩
  | disturb disturbance => exact disturbance.elim
  | run i event =>
      obtain ⟨_, _, state, _, _, hperform, rfl⟩ := System.step_run_eq_some.mp hstep
      exact .inr ⟨i, event, rfl, perform_effect hperform⟩

theorem Released.of_step {c c' : Config limiting} {action : Action limiting}
    (hstep : limiting.step c action = some c') {conn : Nat} (hreleased : Released c conn) :
    Released c' conn := by
  obtain ⟨i, hperformed⟩ := hreleased
  exact ⟨i, hperformed.of_step hstep⟩

theorem spawn_limited {n : Nat} {c c' : Config limiting} {call : Call} (hc : Limited n c)
    (hstep : limiting.step c (.spawn call) = some c') (hstate : c'.state = c.state) :
    Limited n c' := by
  have hacquired : (System.tally acquiredBy c').Perm (System.tally acquiredBy c) :=
    System.tally_step hstep
  have hreleased : (System.tally releasedBy c').Perm (System.tally releasedBy c) :=
    System.tally_step hstep
  have hold : ∀ i event, System.Performed c' i event → System.Performed c i event := by
    intro i event hperformed
    rcases System.performed_of_step hstep hperformed with hold | hrun
    · exact hold
    · cases hrun
  constructor
  · rw [hstate, hc.capacity]
  · rw [hstate]
    exact hc.slots_le
  · rw [hstate, hacquired.length_eq, hreleased.length_eq, hc.slots]
  · intro conn hconn
    rw [hstate] at hconn
    exact hacquired.mem_iff.mpr (hc.limited conn hconn)
  · intro i conn err hperformed
    rw [hstate]
    exact hc.closed i conn err (hold i _ hperformed)
  · intro conn hdone
    rw [hstate] at hdone
    exact (hc.done conn hdone).of_step hstep
  · intro i conn hperformed
    exact (hc.waited i conn (hold i _ hperformed)).of_step hstep

theorem run_limited {n : Nat} {c c' : Config limiting} {i : Nat} {event : Event sig}
    (hfaithful : System.Faithful c) (hc : Limited n c)
    (hstep : limiting.step c (.run i event) = some c') (heffect : Effect c.state event c'.state) :
    Limited n c' := by
  have hacquired : (System.tally acquiredBy c').Perm
      ((acquiredBy event).toList ++ System.tally acquiredBy c) := System.tally_step hstep
  have hreleased : (System.tally releasedBy c').Perm
      ((releasedBy event).toList ++ System.tally releasedBy c) := System.tally_step hstep
  have hcapacity := heffect.capacity.trans hc.capacity
  constructor
  · exact hcapacity
  · rw [← hcapacity]
    exact heffect.slots_le (hc.capacity ▸ hc.slots_le)
  · rw [hacquired.length_eq, hreleased.length_eq, List.length_append, List.length_append,
      ← hc.slots]
    have hslots := heffect.slots
    omega
  · intro conn hconn
    rw [heffect.limited, List.mem_append] at hconn
    rw [hacquired.mem_iff, List.mem_append]
    exact hconn.imp_right (hc.limited conn)
  · intro j conn err hperformed
    rw [heffect.limited, List.mem_append]
    rcases System.performed_of_step hstep hperformed with hold | hrun
    · exact .inr (hc.closed j conn err hold)
    · cases hrun
      exact .inr heffect.closable
  · intro conn hdone
    rcases heffect.done hdone with hold | rfl
    · exact (hc.done conn hold).of_step hstep
    · -- The call that ends the function of `once` has given the slot back.
      obtain ⟨_, hguard⟩ := System.guarded_traceOf program_always hfaithful hstep
      have hperformed := System.performed_iff.mpr (hguard.released conn rfl)
      exact Released.of_step hstep ⟨i, hperformed⟩
  · intro j conn hperformed
    rcases System.performed_of_step hstep hperformed with hold | hrun
    · exact (hc.waited j conn hold).of_step hstep
    · cases hrun
      exact (hc.done conn heffect.waited).of_step hstep

theorem run_limited_of_new {n : Int} {limit : ConnLimiter} (hlimit : newConnLimiter n = some limit)
    {schedule : List (Action limiting)} {c : Config limiting}
    (hrun : limiting.run ⟨{ limit }, []⟩ schedule = some c) : Limited n.toNat c := by
  refine (System.run_invariant (fun c => System.Faithful c ∧ Limited n.toNat c) ?_
    ⟨by simp [System.Faithful], new_limited hlimit⟩ hrun).2
  rintro c action c' ⟨hfaithful, hc⟩ hstep
  refine ⟨System.step_faithful hfaithful hstep, ?_⟩
  rcases step_effect hstep with ⟨hstate, call, rfl⟩ | ⟨i, event, rfl, heffect⟩
  · exact spawn_limited hc hstep hstate
  · exact run_limited hfaithful hc hstep heffect

/-- Every try for a slot gets one or does not. -/
theorem count_triedBy (c : Config limiting) (conn : Nat) :
    (System.tally triedBy c).count conn =
      (System.tally acquiredBy c).count conn + (System.tally refusedBy c).count conn := by
  have htrace : ∀ trace : List (Event sig), (trace.filterMap triedBy).count conn =
      (trace.filterMap acquiredBy).count conn + (trace.filterMap refusedBy).count conn := by
    intro trace
    induction trace with
    | nil => rfl
    | cons event rest ih =>
        obtain ⟨op, reply⟩ := event
        cases op with
        | tryAcquire other =>
            cases reply <;>
              simp only [List.filterMap_cons, triedBy, acquiredBy, refusedBy, List.count_cons] <;>
              omega
        | _ => exact ih
  simp only [System.tally, List.count_flatMap, ← List.sum_map_add]
  exact congrArg List.sum (List.map_congr_left fun thread _ => htrace thread.trace)

/-- Slots are taken and given back once for each connection, and only those
that were taken are given back. -/
structure Balanced (c : Config limiting) : Prop where
  tried : (System.tally triedBy c).Nodup
  begun : (System.tally begunBy c).Nodup
  released : (System.tally releasedBy c).Nodup
  subset : ∀ conn, Released c conn → conn ∈ System.tally acquiredBy c

theorem run_balanced {n : Int} {limit : ConnLimiter} (hlimit : newConnLimiter n = some limit)
    {schedule : List (Action limiting)} {c : Config limiting}
    (hrun : limiting.run ⟨{ limit }, []⟩ schedule = some c) : Balanced c := by
  have hfaithful := System.run_faithful hrun
  have hc := run_limited_of_new hlimit hrun
  have haccepted : (System.tally acceptedBy c).Nodup := by
    refine (System.run_tally_nodup (fun (w : World) conn => conn < w.nextConn) ?_ ?_ ?_ hrun).1
    · intro op w reply w' hperform conn
      exact (perform_effect hperform).nextConn
    · intro w disturbance
      exact disturbance.elim
    · intro op w reply w' conn hperform hkey
      exact (perform_effect hperform).accepted hkey
  have hbegun : (System.tally begunBy c).Nodup := by
    refine (System.run_tally_nodup (fun (w : World) conn => w.once conn ≠ .fresh) ?_ ?_ ?_ hrun).1
    · intro op w reply w' hperform conn
      exact (perform_effect hperform).once
    · intro w disturbance
      exact disturbance.elim
    · intro op w reply w' conn hperform hkey
      exact (perform_effect hperform).begun hkey
  refine ⟨?_, hbegun, ?_, ?_⟩
  · exact System.tally_nodup_of_covered program_always (fun _ _ _ hstep => hstep.accepted)
      hfaithful haccepted
  · exact System.tally_nodup_of_covered program_always (fun _ _ _ hstep => hstep.begun)
      hfaithful hbegun
  · rintro conn ⟨i, thread, hthread, hevent⟩
    obtain ⟨before, after, hsplit, hguard⟩ :=
      System.guarded_of_mem program_always hfaithful (List.mem_of_getElem? hthread) hevent
    obtain ⟨err, hclosed⟩ := hguard.closed conn rfl
    have hmem : ⟨.closeConn conn, err⟩ ∈ thread.trace := by
      rw [hsplit]
      exact List.mem_append_left _ hclosed
    exact hc.limited conn (hc.closed i conn err ⟨thread, hthread, hmem⟩)

theorem Balanced.acquired {c : Config limiting} (hc : Balanced c) :
    (System.tally acquiredBy c).Nodup := by
  have htried := hc.tried
  rw [List.nodup_iff_count_le_one] at htried ⊢
  intro conn
  have hcount := count_triedBy c conn
  have hle := htried conn
  omega

/-- The connections that hold a slot, by what the calls did. -/
def openConns (c : Config limiting) : List Nat :=
  (System.tally acquiredBy c).filter fun conn => conn ∉ System.tally releasedBy c

theorem Balanced.openConns_length {c : Config limiting} (hc : Balanced c) :
    (openConns c).length + (System.tally releasedBy c).length =
      (System.tally acquiredBy c).length := by
  apply length_filter_add hc.acquired hc.released
  intro conn hconn
  exact hc.subset conn (mem_tally_released.mp hconn)

section Calls

variable {c : Config limiting} {thread : Thread limiting} {conn : Nat}

/-- A call that comes to `release` is the first to do so for its connection. -/
theorem Balanced.mem_openConns (hfaithful : System.Faithful c) {n : Nat} (hlimited : Limited n c)
    (hc : Balanced c) (hthread : thread ∈ c.threads)
    {next : Unit → Prog Outcome} (hrest : thread.rest = .act (.release conn) next) :
    conn ∈ openConns c := by
  have hlt := System.tally_count_lt program_always (fun _ _ _ hstep => hstep.begun) hfaithful
    hthread hrest (show releasedBy ⟨.release conn, ()⟩ = some conn from rfl)
  have hle := List.nodup_iff_count_le_one.mp hc.begun conn
  have hpath := hfaithful thread hthread
  rw [hrest] at hpath
  obtain ⟨err, hclosed⟩ := ((program_always thread.call).at_reached hpath).1.closed conn rfl
  obtain ⟨i, hi⟩ := List.mem_iff_getElem?.mp hthread
  rw [openConns, List.mem_filter, decide_eq_true_eq, ← List.count_eq_zero]
  exact ⟨hlimited.limited conn (hlimited.closed i conn err ⟨thread, hi, hclosed⟩), by omega⟩

theorem Limited.released_of_closed (hfaithful : System.Faithful c) {n : Nat} (hc : Limited n c)
    (hthread : thread ∈ c.threads) {err err' : Except Text Unit}
    (hrest : thread.rest = .ret (.closed err)) (hclosed : ⟨.closeConn conn, err'⟩ ∈ thread.trace) :
    Released c conn := by
  have hpath := hfaithful thread hthread
  rw [hrest] at hpath
  obtain ⟨i, hi⟩ := List.mem_iff_getElem?.mp hthread
  have hend := (program_always thread.call).of_returns hpath
  rcases hend.closed err conn err' rfl hclosed with hreleased | hwaited
  · exact ⟨i, thread, hi, hreleased⟩
  · exact hc.waited i conn ⟨thread, hi, hwaited⟩

theorem Balanced.not_returned (hfaithful : System.Faithful c) (hc : Balanced c)
    (hthread : thread ∈ c.threads) (hrefused : ⟨.tryAcquire conn, false⟩ ∈ thread.trace) :
    ¬ Returned c conn := by
  rw [← mem_tally_acquired hfaithful, ← List.count_pos_iff]
  have hmem : conn ∈ System.tally refusedBy c :=
    List.mem_flatMap.mpr ⟨thread, hthread, List.mem_filterMap.mpr ⟨_, hrefused, rfl⟩⟩
  have hpos := List.count_pos_iff.mpr hmem
  have hle := List.nodup_iff_count_le_one.mp hc.tried conn
  have hcount := count_triedBy c conn
  omega

/-- The next thing that happens to a connection without a slot is its `Close`. -/
theorem refuses (hfaithful : System.Faithful c) (hthread : thread ∈ c.threads)
    (hrefused : ⟨.tryAcquire conn, false⟩ ∈ thread.trace) :
    (∃ err, ⟨.refuse conn, err⟩ ∈ thread.trace) ∨
      ∃ next, thread.rest = .act (.refuse conn) next := by
  have hpath := hfaithful thread hthread
  have hlaw := program_always thread.call
  obtain ⟨before, after, hsplit⟩ := List.append_of_mem hrefused
  rw [hsplit] at hpath ⊢
  cases after with
  | nil =>
      have hreached := hlaw.at_reached hpath
      cases hrest : thread.rest with
      | ret outcome =>
          rw [hrest] at hreached
          exact absurd (by simp) (hreached.refused conn)
      | act op next =>
          rw [hrest] at hreached
          obtain rfl : op = .refuse conn := hreached.1.refused conn (by simp)
          exact .inr ⟨next, rfl⟩
  | cons event after =>
      rw [List.append_cons] at hpath
      have hguard := hlaw.of_event hpath
      obtain ⟨op, reply⟩ := event
      obtain rfl : op = .refuse conn := hguard.refused conn (by simp)
      exact .inl ⟨reply, by simp⟩

end Calls

/-- The limit is kept exactly. -/
structure LimitExact (n : Int) (c : Config limiting) : Prop where
  /-- The occupied slots are those of the returned connections whose first
  `Close` has not given the slot back. -/
  slots : ∃ opened : List Nat, opened.Nodup ∧
    (∀ conn, conn ∈ opened ↔ Returned c conn ∧ ¬ Released c conn) ∧
    c.state.limit.slots = opened.length
  bounded : c.state.limit.slots ≤ n
  /-- A `Close` that comes to `release` does not block there. -/
  releases : ∀ thread ∈ c.threads, ∀ conn next, thread.rest = .act (.release conn) next →
    ∃ w, World.perform (.release conn) c.state () = some w
  /-- A `Close` has not returned before the slot is given back. -/
  freed : ∀ thread ∈ c.threads, ∀ conn err err', thread.rest = .ret (.closed err) →
    ⟨.closeConn conn, err'⟩ ∈ thread.trace → Released c conn
  refused : ∀ thread ∈ c.threads, ∀ conn, ⟨.tryAcquire conn, false⟩ ∈ thread.trace →
    ¬ Returned c conn ∧ ((∃ err, ⟨.refuse conn, err⟩ ∈ thread.trace) ∨
      ∃ next, thread.rest = .act (.refuse conn) next)
  granted : ∀ i conn reply c', limiting.step c (.run i ⟨.tryAcquire conn, reply⟩) = some c' →
    (reply = true ↔ c.state.limit.slots < n) ∧ (reply = true → Returned c' conn) ∧
      (reply = false → c'.state.limit.slots = c.state.limit.slots)

theorem limitExact_of_run {n : Int} (hn : 1 ≤ n) {limit : ConnLimiter}
    (hlimit : newConnLimiter n = some limit) {schedule : List (Action limiting)}
    {c : Config limiting} (hrun : limiting.run ⟨{ limit }, []⟩ schedule = some c) :
    LimitExact n c := by
  have hfaithful := System.run_faithful hrun
  have hc := run_limited_of_new hlimit hrun
  have hbalanced := run_balanced hlimit hrun
  have hslots : c.state.limit.slots = (openConns c).length := by
    have htaken := hc.slots
    have hopen := hbalanced.openConns_length
    omega
  constructor
  · refine ⟨openConns c, hbalanced.acquired.filter _, fun conn => ?_, hslots⟩
    rw [openConns, List.mem_filter, decide_eq_true_eq, mem_tally_acquired hfaithful,
      mem_tally_released]
  · have hle := hc.slots_le
    omega
  · intro thread hthread conn next hrest
    have hmem := hbalanced.mem_openConns hfaithful hc hthread hrest
    have hpos := List.length_pos_of_mem hmem
    simp only [World.perform, ConnLimiter.release]
    rw [if_pos (by omega)]
    exact ⟨_, rfl⟩
  · intro thread hthread conn err err'
    exact hc.released_of_closed hfaithful hthread
  · intro thread hthread conn hrefused
    exact ⟨hbalanced.not_returned hfaithful hthread hrefused, refuses hfaithful hthread hrefused⟩
  · intro i conn reply c' hstep
    have hacquired : (System.tally acquiredBy c').Perm
        ((acquiredBy ⟨.tryAcquire conn, reply⟩).toList ++ _) := System.tally_step hstep
    rw [← mem_tally_acquired (System.step_faithful hfaithful hstep), hacquired.mem_iff]
    obtain ⟨_, _, w', _, _, hperform, rfl⟩ := System.step_run_eq_some.mp hstep
    have hcapacity := hc.capacity
    cases perform_effect hperform with
    | acquire conn hfree =>
        exact ⟨iff_of_true rfl (by omega), fun _ => List.mem_cons_self, nofun⟩
    | full conn hfull => exact ⟨iff_of_false nofun (by omega), nofun, fun _ => rfl⟩

/-- The limit is exact, whatever the listeners and the users of their
connections do. -/
theorem connLimiter_exact {n : Int} (hn : 1 ≤ n) :
    ∃ limit, newConnLimiter n = some limit ∧
      ∀ (schedule : List (Action limiting)) (c : Config limiting),
        limiting.run ⟨{ limit }, []⟩ schedule = some c → LimitExact n c := by
  refine ⟨_, if_neg (by omega), fun schedule c hrun => ?_⟩
  exact limitExact_of_run hn (if_neg (by omega)) hrun

/-- Two listeners and a limit of one: the second connection is refused, and the
first one is closed twice. -/
def refusedOnce : List (Action limiting) :=
  [.spawn (.accept 0 1), .run 0 ⟨.accept 0, .ok 0⟩, .run 0 ⟨.tryAcquire 0, true⟩,
    .spawn (.accept 1 2), .run 1 ⟨.accept 1, .ok 1⟩, .run 1 ⟨.tryAcquire 1, false⟩,
    .run 1 ⟨.refuse 1, .ok ()⟩, .spawn (.close 0), .spawn (.close 0),
    .run 2 ⟨.closeConn 0, .ok ()⟩, .run 3 ⟨.closeConn 0, .error (str "use of closed connection")⟩,
    .run 3 ⟨.onceBegin 0, true⟩, .run 3 ⟨.release 0, ()⟩, .run 3 ⟨.onceEnd 0, ()⟩,
    .run 2 ⟨.onceBegin 0, false⟩, .run 1 ⟨.accept 1, .ok 2⟩, .run 1 ⟨.tryAcquire 2, true⟩]

theorem refusedOnce_exact :
    ∃ limit c, newConnLimiter 1 = some limit ∧
      limiting.run ⟨{ limit }, []⟩ refusedOnce = some c ∧ LimitExact 1 c := by
  obtain ⟨limit, hlimit, hexact⟩ := connLimiter_exact (n := 1) (by decide)
  cases hlimit
  obtain ⟨c, hrun⟩ : ∃ c, limiting.run ⟨{ limit := { capacity := 1 } }, []⟩ refusedOnce = some c :=
    Option.isSome_iff_exists.mp (by decide +kernel)
  exact ⟨_, c, rfl, hrun, hexact refusedOnce c hrun⟩

end SshGate.Limiter
