import Mathlib.Algebra.Order.BigOperators.Group.List
import Mathlib.Algebra.Order.Group.Nat
import Mathlib.Data.List.Count
import Mathlib.Data.List.Induction
import Mathlib.Data.List.Nodup
import SshGate.Interaction.System

/-! # What the events of all threads add up to

Resources are taken and given back by events of different threads. The keys of
such events, collected over all threads, tell what is taken: a counter in the
state is the difference of two such lists, and what can be taken only while it
is free is taken once.
-/

namespace Interaction

theorem eq_of_length_le_one {K : Type} {l : List K} (hle : l.length ≤ 1) {k k' : K} (hk : k ∈ l)
    (hk' : k' ∈ l) : k = k' := by
  match l, hle with
  | [_], _ => rw [List.mem_singleton.mp hk, List.mem_singleton.mp hk']

/-- What is taken once and not given back yet, and what is given back once. -/
theorem length_filter_add {K : Type} [DecidableEq K] {taken given : List K} (htaken : taken.Nodup)
    (hgiven : given.Nodup) (hsubset : given ⊆ taken) :
    (taken.filter fun k => k ∉ given).length + given.length = taken.length := by
  have hback : (taken.filter fun k => k ∈ given).Perm given := by
    rw [List.perm_ext_iff_of_nodup (htaken.filter _) hgiven]
    intro k
    simp only [List.mem_filter, decide_eq_true_eq, and_iff_right_iff_imp]
    exact fun hk => hsubset hk
  rw [← hback.length_eq, Nat.add_comm]
  simp only [← List.countP_eq_length_filter]
  rw [List.length_eq_countP_add_countP (fun k => decide (k ∈ given))]
  simp

namespace Program

variable {S : Signature} {α K : Type} [DecidableEq K]

/-- An action with a key comes after more events that have it by `before` than
by `key`. -/
def Covered (before key : Event S → Option K) (history : List (Event S)) (op : S.Op) : Prop :=
  ∀ reply k, key ⟨op, reply⟩ = some k →
    (history.filterMap key).count k < (history.filterMap before).count k

/-- An action with a key comes after an event that has it by `before`. -/
def Preceded (before key : Event S → Option K) (history : List (Event S)) (op : S.Op) : Prop :=
  ∀ reply k, key ⟨op, reply⟩ = some k → k ∈ history.filterMap before

variable {guard : List (Event S) → S.Op → Prop} {post : List (Event S) → α → Prop}
  {before key : Event S → Option K}

theorem Covered.preceded {history : List (Event S)} {op : S.Op}
    (hcovered : Covered before key history op) : Preceded before key history op := by
  intro reply k hkey
  have hlt := hcovered reply k hkey
  exact List.count_pos_iff.mp (by omega)

theorem Always.count_le {p q : Program S α} {trace : List (Event S)}
    (halways : Always guard post [] p)
    (hcovered : ∀ history op, guard history op → Covered before key history op)
    (hpath : Reaches p trace q) (k : K) :
    (trace.filterMap key).count k ≤ (trace.filterMap before).count k := by
  induction trace using List.reverseRecOn generalizing q with
  | nil => simp
  | append_singleton trace event ih =>
      obtain ⟨next, hprefix, _⟩ := hpath.split
      have hle := ih hprefix
      have hguard := (halways.at_reached hprefix).1
      rw [List.nil_append] at hguard
      simp only [List.filterMap_append, List.count_append]
      cases hkey : key event with
      | none =>
          simp only [List.filterMap_cons, hkey, List.filterMap_nil, List.count_nil]
          omega
      | some k' =>
          by_cases heq : k' = k
          · subst heq
            have hlt := hcovered trace event.op hguard event.reply k' hkey
            simp only [List.filterMap_cons, hkey, List.filterMap_nil, List.count_singleton_self]
            omega
          · simp only [List.filterMap_cons, hkey, List.filterMap_nil, List.count_singleton,
              beq_iff_eq, heq, if_false]
            omega

end Program

namespace System

variable {M : System} {K : Type} {key : Event M.sig → Option K}

/-- The keys that the events of all threads have. -/
def tally (key : Event M.sig → Option K) (c : Config M) : List K :=
  c.threads.flatMap fun thread => thread.trace.filterMap key

/-- The keys that a step adds. -/
def yield (key : Event M.sig → Option K) : Action M → List K
  | .run _ event => (key event).toList
  | .spawn _ | .disturb _ => []

theorem mem_tally {c : Config M} {k : K} :
    k ∈ tally key c ↔ ∃ i event, Performed c i event ∧ key event = some k := by
  simp only [tally, List.mem_flatMap, List.mem_filterMap, Performed]
  constructor
  · rintro ⟨thread, hthread, event, hevent, hkey⟩
    obtain ⟨i, hi⟩ := List.mem_iff_getElem?.mp hthread
    exact ⟨i, event, ⟨thread, hi, hevent⟩, hkey⟩
  · rintro ⟨i, event, ⟨thread, hi, hevent⟩, hkey⟩
    exact ⟨thread, List.mem_of_getElem? hi, event, hevent, hkey⟩

/-- A step adds its keys and no others. -/
theorem tally_step {c c' : Config M} {action : Action M} (hstep : M.step c action = some c') :
    (tally key c').Perm (yield key action ++ tally key c) := by
  cases action with
  | spawn call =>
      simp only [step, Option.some.injEq] at hstep
      subst hstep
      simp [tally, yield, start]
  | disturb disturbance =>
      simp only [step, Option.map_eq_some_iff] at hstep
      obtain ⟨state, _, rfl⟩ := hstep
      exact .refl _
  | run i event =>
      obtain ⟨thread, next, state, hthread, _, _, rfl⟩ := step_run_eq_some.mp hstep
      obtain ⟨hlt, hget⟩ := List.getElem?_eq_some_iff.mp hthread
      have hsplit : c.threads = c.threads.take i ++ thread :: c.threads.drop (i + 1) := by
        rw [← hget, List.getElem_cons_drop, List.take_append_drop]
      have hyield : [event].filterMap key = (key event).toList := by
        cases hkey : key event <;> simp [hkey]
      simp only [tally, yield]
      rw [List.set_eq_take_append_cons_drop, if_pos hlt]
      conv_rhs => rw [hsplit]
      simp only [List.flatMap_append, List.flatMap_cons, List.filterMap_append, hyield,
        List.append_assoc]
      exact (List.Perm.append_left _ (List.perm_append_comm_assoc ..)).trans
        (List.perm_append_comm_assoc ..)

theorem mem_tally_step {c c' : Config M} {action : Action M} (hstep : M.step c action = some c')
    {k : K} : k ∈ tally key c' ↔ k ∈ yield key action ∨ k ∈ tally key c := by
  rw [(tally_step hstep).mem_iff, List.mem_append]

/-- A key that comes once tells the thread. -/
theorem tally_thread_unique {c : Config M} (hnodup : (tally key c).Nodup) {i j : Nat}
    {thread thread' : Thread M} (hi : c.threads[i]? = some thread)
    (hj : c.threads[j]? = some thread') {k : K} (hk : k ∈ thread.trace.filterMap key)
    (hk' : k ∈ thread'.trace.filterMap key) : i = j := by
  obtain ⟨hlt, rfl⟩ := List.getElem?_eq_some_iff.mp hi
  obtain ⟨hlt', rfl⟩ := List.getElem?_eq_some_iff.mp hj
  have hdisjoint := List.pairwise_iff_getElem.mp (List.nodup_flatMap.mp hnodup).2
  rcases Nat.lt_trichotomy i j with hij | hij | hij
  · exact absurd hk' (hdisjoint i j hlt hlt' hij hk)
  · exact hij
  · exact absurd hk (hdisjoint j i hlt' hlt hij hk')

theorem mem_tally_of_thread {c : Config M} {i : Nat} {thread : Thread M}
    (hthread : c.threads[i]? = some thread) {k : K} (hk : k ∈ thread.trace.filterMap key) :
    k ∈ tally key c :=
  List.mem_flatMap.mpr ⟨thread, List.mem_of_getElem? hthread, hk⟩

theorem tally_length {c c' : Config M} {action : Action M} (hstep : M.step c action = some c') :
    (tally key c').length = (yield key action).length + (tally key c).length := by
  rw [(tally_step hstep).length_eq, List.length_append]

/-- What was performed stays performed. -/
theorem run_tally_length_le {c c' : Config M} {schedule : List (Action M)}
    (hrun : M.run c schedule = some c') : (tally key c).length ≤ (tally key c').length := by
  apply run_invariant (fun c' => (tally key c).length ≤ (tally key c').length) ?_ le_rfl hrun
  intro middle action next hle hstep
  rw [tally_length hstep]
  omega

/-- What can be taken only while it is free, and stays taken, is taken once. -/
theorem run_tally_nodup (taken : M.State → K → Prop)
    (hperform : ∀ op state reply state', M.perform op state reply = some state' →
      ∀ k, taken state k → taken state' k)
    (hdisturb : ∀ state disturbance state', M.disturb state disturbance = some state' →
      ∀ k, taken state k → taken state' k)
    (htake : ∀ op state reply state' k, M.perform op state reply = some state' →
      key ⟨op, reply⟩ = some k → ¬ taken state k ∧ taken state' k)
    {state : M.State} {c : Config M} {schedule : List (Action M)}
    (hrun : M.run ⟨state, []⟩ schedule = some c) :
    (tally key c).Nodup ∧ ∀ k ∈ tally key c, taken c.state k := by
  refine run_invariant
    (fun c => (tally key c).Nodup ∧ ∀ k ∈ tally key c, taken c.state k) ?_ (by simp [tally]) hrun
  rintro c action c' ⟨hnodup, htaken⟩ hstep
  have htally : (tally key c').Perm (yield key action ++ tally key c) := tally_step hstep
  rw [htally.nodup_iff]
  cases action with
  | spawn call =>
      simp only [step, Option.some.injEq] at hstep
      subst hstep
      exact ⟨hnodup, fun k hk => htaken k (htally.mem_iff.mp hk)⟩
  | disturb disturbance =>
      simp only [step, Option.map_eq_some_iff] at hstep
      obtain ⟨state, hstate, rfl⟩ := hstep
      exact ⟨hnodup, fun k hk => hdisturb _ _ _ hstate k (htaken k (htally.mem_iff.mp hk))⟩
  | run i event =>
      obtain ⟨thread, next, state, _, _, hstate, rfl⟩ := step_run_eq_some.mp hstep
      cases hkey : key event with
      | none =>
          simp only [yield, hkey, Option.toList_none, List.nil_append] at htally ⊢
          exact ⟨hnodup, fun k hk => hperform _ _ _ _ hstate k (htaken k (htally.mem_iff.mp hk))⟩
      | some k =>
          obtain ⟨hfree, htook⟩ := htake _ _ _ _ k hstate hkey
          simp only [yield, hkey, Option.toList_some, List.singleton_append] at htally ⊢
          refine ⟨List.nodup_cons.mpr ⟨fun hk => hfree (htaken k hk), hnodup⟩, ?_⟩
          intro k' hk'
          rcases List.mem_cons.mp (htally.mem_iff.mp hk') with rfl | hold
          · exact htook
          · exact hperform _ _ _ _ hstate k' (htaken k' hold)

/-- What actions take in by `key` and give out by `spent` is in the state in
between. -/
theorem run_ledger {spent : Event M.sig → Option K} (held : M.State → List K)
    (hperform : ∀ op state reply state', M.perform op state reply = some state' →
      ((spent ⟨op, reply⟩).toList ++ held state').Perm ((key ⟨op, reply⟩).toList ++ held state))
    (hdisturb : ∀ state disturbance state', M.disturb state disturbance = some state' →
      held state' = held state)
    {state : M.State} (hheld : held state = []) {c : Config M} {schedule : List (Action M)}
    (hrun : M.run ⟨state, []⟩ schedule = some c) :
    (tally spent c ++ held c.state).Perm (tally key c) := by
  refine run_invariant (fun c => (tally spent c ++ held c.state).Perm (tally key c)) ?_
    (by simp [tally, hheld]) hrun
  intro c action c' hc hstep
  have hspent : (tally spent c').Perm (yield spent action ++ tally spent c) := tally_step hstep
  have hkey : (tally key c').Perm (yield key action ++ tally key c) := tally_step hstep
  refine (hspent.append_right _).trans (.trans ?_ hkey.symm)
  cases action with
  | spawn call =>
      simp only [step, Option.some.injEq] at hstep
      subst hstep
      exact hc
  | disturb disturbance =>
      simp only [step, Option.map_eq_some_iff] at hstep
      obtain ⟨state, hstate, rfl⟩ := hstep
      rw [hdisturb _ _ _ hstate]
      exact hc
  | run i event =>
      obtain ⟨thread, next, state, _, _, hstate, rfl⟩ := step_run_eq_some.mp hstep
      have hmoved := hperform _ _ _ _ hstate
      calc (yield spent (.run i event) ++ tally spent c) ++ held state
        _ = (spent event).toList ++ (tally spent c ++ held state) := List.append_assoc ..
        _ |>.Perm (tally spent c ++ ((spent event).toList ++ held state)) :=
            List.perm_append_comm_assoc ..
        _ |>.Perm (tally spent c ++ ((key event).toList ++ held c.state)) :=
            hmoved.append_left _
        _ |>.Perm ((key event).toList ++ (tally spent c ++ held c.state)) :=
            List.perm_append_comm_assoc ..
        _ |>.Perm ((key event).toList ++ tally key c) := hc.append_left _

section Covered

variable [DecidableEq K] {before : Event M.sig → Option K}
  {guard : M.Call → List (Event M.sig) → M.sig.Op → Prop}
  {post : List (Event M.sig) → M.Result → Prop}

/-- In all threads together there are as many events by `before` as by `key`. -/
theorem tally_count_le (hprogram : ∀ call, (M.program call).Always (guard call) post [])
    (hcovered : ∀ call history op, guard call history op →
      Program.Covered before key history op) {c : Config M} (hc : Faithful c) (k : K) :
    (tally key c).count k ≤ (tally before c).count k := by
  simp only [tally, List.count_flatMap]
  refine List.sum_le_sum fun thread hthread => ?_
  exact (hprogram thread.call).count_le (hcovered thread.call) (hc thread hthread) k

omit [DecidableEq K] in
theorem mem_tally_of_preceded (hprogram : ∀ call, (M.program call).Always (guard call) post [])
    (hpreceded : ∀ call history op, guard call history op →
      Program.Preceded before key history op) {c : Config M} (hc : Faithful c) {k : K}
    (hk : k ∈ tally key c) : k ∈ tally before c := by
  obtain ⟨i, event, ⟨thread, hthread, hevent⟩, hkey⟩ := mem_tally.mp hk
  have hmem := List.mem_of_getElem? hthread
  obtain ⟨earlier, later, htrace, hguard⟩ := guarded_of_mem hprogram hc hmem hevent
  have hearlier := hpreceded thread.call earlier event.op hguard event.reply k hkey
  refine List.mem_flatMap.mpr ⟨thread, hmem, ?_⟩
  rw [htrace, List.filterMap_append]
  exact List.mem_append_left _ hearlier

/-- Keys that come once by `before` come at most once by `key`. -/
theorem tally_nodup_of_covered (hprogram : ∀ call, (M.program call).Always (guard call) post [])
    (hcovered : ∀ call history op, guard call history op →
      Program.Covered before key history op) {c : Config M} (hc : Faithful c)
    (hnodup : (tally before c).Nodup) : (tally key c).Nodup := by
  rw [List.nodup_iff_count_le_one] at hnodup ⊢
  intro k
  exact (tally_count_le hprogram hcovered hc k).trans (hnodup k)

/-- There are more by `before` while a thread is about to perform one by `key`. -/
theorem tally_count_lt (hprogram : ∀ call, (M.program call).Always (guard call) post [])
    (hcovered : ∀ call history op, guard call history op →
      Program.Covered before key history op) {c : Config M} (hc : Faithful c)
    {thread : Thread M} (hthread : thread ∈ c.threads) {op : M.sig.Op}
    {next : M.sig.Reply op → Program M.sig M.Result} (hrest : thread.rest = .act op next)
    {reply : M.sig.Reply op} {k : K} (hkey : key ⟨op, reply⟩ = some k) :
    (tally key c).count k < (tally before c).count k := by
  simp only [tally, List.count_flatMap]
  refine List.sum_lt_sum _ _ (fun thread hthread => ?_) ⟨thread, hthread, ?_⟩
  · exact (hprogram thread.call).count_le (hcovered thread.call) (hc thread hthread) k
  · have hpath := hc thread hthread
    rw [hrest] at hpath
    have hguard := ((hprogram thread.call).at_reached hpath).1
    exact hcovered thread.call _ op hguard reply k hkey

end Covered

end System

end Interaction
