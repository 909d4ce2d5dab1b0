import SshGate.Interaction.Process
import SshGate.Interaction.System

/-! # Rely and guarantee

Every thread relies on what the others leave alone, and guarantees something
for each of its own actions. If what each of them guarantees is what the others
rely on, and disturbances respect it as well, then every thread keeps what its
program promises, however the threads are interleaved. An assumption about all
states of a run, such as one about its timing, may be used throughout.
-/

namespace Interaction

open Program

namespace System

variable {M : System} {holds holds' : Config M → Prop}

theorem Throughout.imp (himp : ∀ c, holds c → holds' c) {c : Config M}
    {schedule : List (Action M)} (hall : Throughout holds c schedule) :
    Throughout holds' c schedule := by
  induction schedule generalizing c with
  | nil => exact himp c hall
  | cons action rest ih => exact ⟨himp c hall.1, fun c' hstep => ih (hall.2 c' hstep)⟩

theorem Throughout.of_forall (hall : ∀ c, holds c) (c : Config M) (schedule : List (Action M)) :
    Throughout holds c schedule := by
  induction schedule generalizing c with
  | nil => exact hall c
  | cons action rest ih => exact ⟨hall c, fun c' _ => ih c'⟩

theorem Throughout.left {c : Config M} {before after : List (Action M)}
    (hall : Throughout holds c (before ++ after)) : Throughout holds c before := by
  induction before generalizing c with
  | nil => exact hall.head
  | cons action rest ih => exact ⟨hall.1, fun c' hstep => ih (hall.2 c' hstep)⟩

end System

/-- What every thread relies on and guarantees in runs whose states all satisfy
`side`. `guard` holds whenever a thread is about to perform an action. -/
structure RelyGuarantee (M : System) (side : M.State → Prop) where
  inv : M.State → Prop
  rely : Nat → M.State → M.State → Prop
  guard : Nat → List (Event M.sig) → M.State → M.sig.Op → Prop
  post : Nat → List (Event M.sig) → M.State → M.Result → Prop
  refl : ∀ i state, rely i state state
  trans : ∀ {i a b c}, rely i a b → rely i b c → rely i a c
  disturb : ∀ {state disturbance state'}, side state → side state' → inv state →
    M.disturb state disturbance = some state' → inv state' ∧ ∀ i, rely i state state'
  perform : ∀ {j history op state reply state'}, side state → side state' → inv state →
    guard j history state op → M.perform op state reply = some state' →
    inv state' ∧ ∀ i, i ≠ j → rely i state state'

namespace RelyGuarantee

variable {M : System} {side : M.State → Prop} (R : RelyGuarantee M side)

/-- What a thread finds after others acted. -/
def others (i : Nat) (state state' : M.State) : Prop :=
  R.rely i state state' ∧ R.inv state' ∧ side state'

/-- From some state on, and however others acted since, the rest of the thread
keeps to its part. -/
def Assures (i : Nat) (thread : Thread M) (state : M.State) : Prop :=
  ∃ v, R.rely i v state ∧
    AlwaysIn M.perform (R.others i) (R.guard i) (R.post i) thread.trace v thread.rest

/-- All threads keep to their parts. -/
structure Assured (c : Config M) : Prop where
  inv : R.inv c.state
  threads : ∀ i thread, c.threads[i]? = some thread → R.Assures i thread c.state

variable {R}

theorem Assures.of_rely {i : Nat} {thread : Thread M} {state state' : M.State}
    (h : R.Assures i thread state) (hrely : R.rely i state state') : R.Assures i thread state' := by
  obtain ⟨v, hv, halways⟩ := h
  exact ⟨v, R.trans hv hrely, halways⟩

/-- The guard of the next action, and what is assured after it. -/
theorem Assures.act {i : Nat} {thread : Thread M} {state : M.State} (h : R.Assures i thread state)
    (hinv : R.inv state) (hside : side state) {op : M.sig.Op}
    {next : M.sig.Reply op → Program M.sig M.Result} (hrest : thread.rest = .act op next) :
    R.guard i thread.trace state op ∧ ∀ reply state', M.perform op state reply = some state' →
      R.Assures i ⟨thread.call, thread.trace ++ [⟨op, reply⟩], next reply⟩ state' := by
  obtain ⟨v, hv, halways⟩ := h
  rw [hrest] at halways
  obtain ⟨hguard, hnext⟩ := halways state ⟨hv, hinv, hside⟩
  exact ⟨hguard, fun reply state' hperform =>
    ⟨state', R.refl i state', hnext reply state' hperform⟩⟩

theorem Assured.guard {c : Config M} (hc : R.Assured c) (hside : side c.state) {i : Nat}
    {thread : Thread M} (hthread : c.threads[i]? = some thread) {op : M.sig.Op}
    {next : M.sig.Reply op → Program M.sig M.Result} (hrest : thread.rest = .act op next) :
    R.guard i thread.trace c.state op :=
  ((hc.threads i thread hthread).act hc.inv hside hrest).1

/-- One step: the thread that moves keeps to its part, the others rely on it. -/
theorem step_assured {c c' : Config M} {action : Action M} (hc : R.Assured c)
    (hside : side c.state) (hside' : side c'.state)
    (hspawn : ∀ call, action = .spawn call →
      R.Assures c.threads.length (M.start call) c.state)
    (hstep : M.step c action = some c') : R.Assured c' := by
  cases action with
  | spawn call =>
      have hnew := hspawn call rfl
      simp only [System.step, Option.some.injEq] at hstep
      subst hstep
      refine ⟨hc.inv, fun i thread hthread => ?_⟩
      rcases Nat.lt_trichotomy i c.threads.length with hlt | rfl | hgt
      · rw [List.getElem?_append_left hlt] at hthread
        exact hc.threads i thread hthread
      · rw [List.getElem?_concat_length] at hthread
        cases hthread
        exact hnew
      · rw [List.getElem?_eq_none (by simp; omega)] at hthread
        cases hthread
  | disturb disturbance =>
      simp only [System.step, Option.map_eq_some_iff] at hstep
      obtain ⟨state, hdisturb, rfl⟩ := hstep
      obtain ⟨hinv, hrely⟩ := R.disturb hside hside' hc.inv hdisturb
      exact ⟨hinv, fun i thread hthread => (hc.threads i thread hthread).of_rely (hrely i)⟩
  | run j event =>
      obtain ⟨thread, next, state, hthread, hrest, hperform, rfl⟩ :=
        System.step_run_eq_some.mp hstep
      obtain ⟨hguard, hnext⟩ := (hc.threads j thread hthread).act hc.inv hside hrest
      obtain ⟨hinv, hrely⟩ := R.perform hside hside' hc.inv hguard hperform
      refine ⟨hinv, fun i thread' hthread' => ?_⟩
      by_cases hij : j = i
      · subst hij
        have hlt : j < c.threads.length := (List.getElem?_eq_some_iff.mp hthread).1
        rw [List.getElem?_set_self hlt] at hthread'
        cases hthread'
        exact hnext event.reply state hperform
      · rw [List.getElem?_set_ne hij] at hthread'
        exact (hc.threads i thread' hthread').of_rely (hrely i (Ne.symm hij))

/-- However the threads are interleaved, all of them keep to their parts. -/
theorem run_assured {c c' : Config M} {schedule : List (Action M)} (hc : R.Assured c)
    (hside : System.Throughout (fun c => side c.state) c schedule)
    (hspawn : ∀ c call, .spawn call ∈ schedule → R.Assured c → side c.state →
      R.Assures c.threads.length (M.start call) c.state)
    (hrun : M.run c schedule = some c') : R.Assured c' := by
  induction schedule generalizing c with
  | nil =>
      simp only [System.run, Option.some.injEq] at hrun
      exact hrun ▸ hc
  | cons action rest ih =>
      simp only [System.run, Option.bind_eq_some_iff] at hrun
      obtain ⟨middle, hmiddle, hrun⟩ := hrun
      have hnext := hside.2 middle hmiddle
      have hassured : R.Assured middle := by
        refine step_assured hc hside.1 hnext.head (fun call hcall => ?_) hmiddle
        exact hspawn c call (hcall ▸ List.mem_cons_self) hc hside.1
      exact ih hassured hnext (fun c call hmem => hspawn c call (List.mem_cons_of_mem _ hmem)) hrun

/-- Every step of a run was guarded where it was taken. -/
theorem run_guard {c c' : Config M} {before after : List (Action M)} {i : Nat}
    {event : Event M.sig} (hc : R.Assured c)
    (hside : System.Throughout (fun c => side c.state) c (before ++ .run i event :: after))
    (hspawn : ∀ c call, .spawn call ∈ before → R.Assured c → side c.state →
      R.Assures c.threads.length (M.start call) c.state)
    (hrun : M.run c (before ++ .run i event :: after) = some c') :
    ∃ reached, M.run c before = some reached ∧ R.inv reached.state ∧
      R.guard i (System.traceOf reached i) reached.state event.op := by
  obtain ⟨reached, next, hreached, hstep, _⟩ := System.run_split.mp hrun
  obtain ⟨thread, more, state, hthread, hrest, _, _⟩ := System.step_run_eq_some.mp hstep
  have hassured := run_assured hc hside.left hspawn hreached
  refine ⟨reached, hreached, hassured.inv, ?_⟩
  rw [System.traceOf_eq hthread]
  exact hassured.guard (hside.left.last hreached) hthread hrest

/-- What the others do to the state while a thread does not move. -/
theorem run_rely {c c' : Config M} {schedule : List (Action M)} {i : Nat} (hc : R.Assured c)
    (hside : System.Throughout (fun c => side c.state) c schedule)
    (hspawn : ∀ c call, .spawn call ∈ schedule → R.Assured c → side c.state →
      R.Assures c.threads.length (M.start call) c.state)
    (hstill : ∀ event, .run i event ∉ schedule) (hrun : M.run c schedule = some c') :
    R.rely i c.state c'.state := by
  induction schedule generalizing c with
  | nil =>
      simp only [System.run, Option.some.injEq] at hrun
      exact hrun ▸ R.refl i c.state
  | cons action rest ih =>
      simp only [System.run, Option.bind_eq_some_iff] at hrun
      obtain ⟨middle, hmiddle, hrun⟩ := hrun
      have hnext := hside.2 middle hmiddle
      have hassured : R.Assured middle := by
        refine step_assured hc hside.1 hnext.head (fun call hcall => ?_) hmiddle
        exact hspawn c call (hcall ▸ List.mem_cons_self) hc hside.1
      have hrest := ih hassured hnext
        (fun c call hmem => hspawn c call (List.mem_cons_of_mem _ hmem))
        (fun event hmem => hstill event (List.mem_cons_of_mem _ hmem)) hrun
      refine R.trans ?_ hrest
      cases action with
      | spawn call =>
          simp only [System.step, Option.some.injEq] at hmiddle
          subst hmiddle
          exact R.refl i c.state
      | disturb disturbance =>
          simp only [System.step, Option.map_eq_some_iff] at hmiddle
          obtain ⟨state, hdisturb, rfl⟩ := hmiddle
          exact (R.disturb hside.1 hnext.head hc.inv hdisturb).2 i
      | run j event =>
          have hij : i ≠ j := fun heq => hstill event (heq ▸ List.mem_cons_self)
          obtain ⟨thread, next, state, hthread, hact, hperform, rfl⟩ :=
            System.step_run_eq_some.mp hmiddle
          have hguard := hc.guard hside.1 hthread hact
          exact (R.perform hside.1 hnext.head hc.inv hguard hperform).2 i hij

end RelyGuarantee

end Interaction
