import SshGate.Interaction.System

/-! # Threads told apart by their histories

A number or a handle that was given to one thread stands in the history of that
thread only, not in the state. What a thread keeps about the state may depend on
its own history; the other threads leave it alone because their histories are
apart from it, that is, nothing was given to both.
-/

namespace Interaction

open Program

/-- What every thread keeps about the state by its own history, in runs in which
`side` holds of the history of every thread. -/
structure Histories (M : System) (side : List (Event M.sig) → M.State → Prop) where
  /-- When a thread may perform an action. -/
  guard : List (Event M.sig) → M.sig.Op → Prop
  world : M.State → Prop
  own : List (Event M.sig) → M.State → Prop
  apart : List (Event M.sig) → List (Event M.sig) → Prop
  symm : ∀ {first second}, apart first second → apart second first
  own_nil : ∀ {state}, world state → own [] state
  apart_nil : ∀ history, apart [] history
  disturb : ∀ {state disturbance state'}, world state →
    M.disturb state disturbance = some state' →
    world state' ∧ ∀ history, side history state' → own history state → own history state'
  step : ∀ {history op reply state state'}, world state → own history state →
    side history state → guard history op → M.perform op state reply = some state' →
    world state' ∧ own (history ++ [⟨op, reply⟩]) state'
  others : ∀ {history history' op reply state state'}, world state → own history state →
    own history' state → apart history history' → side history' state' → guard history op →
    M.perform op state reply = some state' →
    own history' state' ∧ apart (history ++ [⟨op, reply⟩]) history'

namespace Histories

variable {M : System} {side : List (Event M.sig) → M.State → Prop}

/-- The side condition of all threads. -/
def Side (side : List (Event M.sig) → M.State → Prop) (c : Config M) : Prop :=
  ∀ thread ∈ c.threads, side thread.trace c.state

structure Kept (H : Histories M side) (c : Config M) : Prop where
  world : H.world c.state
  own : ∀ (i : Nat) (thread : Thread M), c.threads[i]? = some thread →
    H.own thread.trace c.state
  guarded : ∀ (i : Nat) (thread : Thread M), c.threads[i]? = some thread →
    Always H.guard (fun _ _ => True) thread.trace thread.rest
  apart : ∀ (i j : Nat) (first second : Thread M), i ≠ j → c.threads[i]? = some first →
    c.threads[j]? = some second → H.apart first.trace second.trace

variable {H : Histories M side} {c c' : Config M}

/-- A new thread has no history yet. -/
theorem Kept.spawn (hc : H.Kept c) {call : M.Call}
    (hcall : Always H.guard (fun _ _ => True) [] (M.program call)) :
    H.Kept ⟨c.state, c.threads ++ [M.start call]⟩ := by
  have hcases : ∀ (i : Nat) (thread : Thread M), (c.threads ++ [M.start call])[i]? = some thread →
      c.threads[i]? = some thread ∨ thread = M.start call := by
    intro i thread hthread
    rw [List.getElem?_append] at hthread
    split at hthread
    next => exact .inl hthread
    next =>
      rw [List.getElem?_singleton] at hthread
      split at hthread
      next => exact .inr (Option.some.inj hthread).symm
      next => cases hthread
  refine ⟨hc.world, fun i thread hthread => ?_, fun i thread hthread => ?_, ?_⟩
  · rcases hcases i thread hthread with hold | rfl
    · exact hc.own i thread hold
    · exact H.own_nil hc.world
  · rcases hcases i thread hthread with hold | rfl
    · exact hc.guarded i thread hold
    · exact hcall
  · intro i j first second hij hfirst hsecond
    rcases hcases i first hfirst with hold | rfl
    · rcases hcases j second hsecond with hold' | rfl
      · exact hc.apart i j first second hij hold hold'
      · exact H.symm (H.apart_nil _)
    · exact H.apart_nil _

/-- One thread moves on; the others keep what they have. -/
theorem Kept.run (hc : H.Kept c) (hside : Side side c) {i : Nat} {event : Event M.sig}
    {thread : Thread M} {next : M.sig.Reply event.op → Program M.sig M.Result} {state : M.State}
    (hside' : ∀ (j : Nat) (other : Thread M), j ≠ i → c.threads[j]? = some other →
      side other.trace state)
    (hthread : c.threads[i]? = some thread) (hrest : thread.rest = .act event.op next)
    (hperform : M.perform event.op c.state event.reply = some state) :
    H.Kept ⟨state, c.threads.set i ⟨thread.call, thread.trace ++ [event], next event.reply⟩⟩ := by
  have hlt : i < c.threads.length := (List.getElem?_eq_some_iff.mp hthread).1
  have hguarded := hc.guarded i thread hthread
  rw [hrest] at hguarded
  have hstep := H.step hc.world (hc.own i thread hthread)
    (hside thread (List.mem_of_getElem? hthread)) hguarded.1 hperform
  have hothers : ∀ (j : Nat) (other : Thread M), j ≠ i → c.threads[j]? = some other →
      H.own other.trace state ∧ H.apart (thread.trace ++ [event]) other.trace := by
    intro j other hij hother
    exact H.others hc.world (hc.own i thread hthread) (hc.own j other hother)
      (hc.apart i j thread other hij.symm hthread hother) (hside' j other hij hother) hguarded.1
      hperform
  have hcases : ∀ (j : Nat) (other : Thread M), (c.threads.set i
      ⟨thread.call, thread.trace ++ [event], next event.reply⟩)[j]? = some other →
      j = i ∧ other = ⟨thread.call, thread.trace ++ [event], next event.reply⟩ ∨
        j ≠ i ∧ c.threads[j]? = some other := by
    intro j other hother
    by_cases hij : i = j
    · subst hij
      rw [List.getElem?_set_self hlt] at hother
      exact .inl ⟨rfl, (Option.some.inj hother).symm⟩
    · rw [List.getElem?_set_ne hij] at hother
      exact .inr ⟨Ne.symm hij, hother⟩
  refine ⟨hstep.1, fun j other hother => ?_, fun j other hother => ?_, ?_⟩
  · rcases hcases j other hother with ⟨rfl, rfl⟩ | ⟨hij, hold⟩
    · exact hstep.2
    · exact (hothers j other hij hold).1
  · rcases hcases j other hother with ⟨rfl, rfl⟩ | ⟨hij, hold⟩
    · exact hguarded.2 event.reply
    · exact hc.guarded j other hold
  · intro j k first second hjk hfirst hsecond
    rcases hcases j first hfirst with ⟨rfl, rfl⟩ | ⟨hj, hold⟩
    · rcases hcases k second hsecond with ⟨rfl, -⟩ | ⟨hk, hold'⟩
      · exact absurd rfl hjk
      · exact (hothers k second hk hold').2
    · rcases hcases k second hsecond with ⟨rfl, rfl⟩ | ⟨hk, hold'⟩
      · exact H.symm (hothers j first hj hold).2
      · exact hc.apart j k first second hjk hold hold'

theorem step_kept {action : Action M} (hc : H.Kept c)
    (hprogram : ∀ call, Always H.guard (fun _ _ => True) [] (M.program call))
    (hside : Side side c) (hside' : Side side c') (hstep : M.step c action = some c') :
    H.Kept c' := by
  cases action with
  | spawn call =>
      simp only [System.step, Option.some.injEq] at hstep
      exact hstep ▸ hc.spawn (hprogram call)
  | disturb disturbance =>
      simp only [System.step, Option.map_eq_some_iff] at hstep
      obtain ⟨state, hdisturb, rfl⟩ := hstep
      obtain ⟨hworld, hown⟩ := H.disturb hc.world hdisturb
      refine ⟨hworld, fun i thread hthread => ?_, hc.guarded, hc.apart⟩
      exact hown _ (hside' thread (List.mem_of_getElem? hthread)) (hc.own i thread hthread)
  | run i event =>
      obtain ⟨thread, next, state, hthread, hrest, hperform, rfl⟩ :=
        System.step_run_eq_some.mp hstep
      refine hc.run hside (fun j other hij hother => ?_) hthread hrest hperform
      refine hside' other (List.mem_of_getElem? (i := j) ?_)
      rw [List.getElem?_set_ne hij.symm]
      exact hother

/-- However the threads are interleaved, each keeps what its history says. -/
theorem run_kept {schedule : List (Action M)} (hc : H.Kept c)
    (hprogram : ∀ call, Always H.guard (fun _ _ => True) [] (M.program call))
    (hside : System.Throughout (Side side) c schedule) (hrun : M.run c schedule = some c') :
    H.Kept c' :=
  System.run_invariant_throughout (Side side) H.Kept
    (fun _ _ _ hbefore hafter hkept hstep => step_kept hkept hprogram hbefore hafter hstep)
    hside hc hrun

/-- Without threads there is nothing to keep but the state. -/
theorem kept_new {state : M.State} (hworld : H.world state) : H.Kept ⟨state, []⟩ :=
  ⟨hworld, by simp, by simp, by simp⟩

end Histories

end Interaction
