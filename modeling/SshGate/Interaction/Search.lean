import Mathlib.Order.Lattice
import Mathlib.Data.List.Nodup

/-! # Minimum search with a sentinel

A loop over a list looks for the key with the least value. One key stands for
"none yet", so the search starts over whenever it has just picked that key. It
finds a least key unless the sentinel is in the list and has the strictly least
value; then it ends with a key after the sentinel, or with the sentinel.
-/

namespace Interaction.Search

variable {K T : Type} [DecidableEq K] [LinearOrder T]

/-- The body of the loop: the best key so far with its value, and the next key. -/
def visit (sentinel : K) (value : K → T) (best : K × T) (key : K) : K × T :=
  if best.1 = sentinel ∨ value key < best.2 then (key, value key) else best

/-- Of the keys in the list this one has the least value. -/
structure Least (value : K → T) (keys : List K) (key : K) : Prop where
  mem : key ∈ keys
  le : ∀ other ∈ keys, value key ≤ value other

section Found

variable {sentinel : K} (value : K → T) {keys : List K}

/-- Without the sentinel a search that has found something goes on to the
least key. -/
theorem foldl_visit_of_ne {best : K} (hbest : best ≠ sentinel) (hkeys : sentinel ∉ keys) :
    ∃ found, keys.foldl (visit sentinel value) (best, value best) = (found, value found) ∧
      found ≠ sentinel ∧ Least value (best :: keys) found := by
  induction keys generalizing best with
  | nil => exact ⟨best, rfl, hbest, List.mem_cons_self, by simp⟩
  | cons key rest ih =>
      obtain ⟨hkey, hrest⟩ := List.ne_and_not_mem_of_not_mem_cons hkeys
      by_cases hless : value key < value best
      · obtain ⟨found, hfound, hne, hleast⟩ := ih hkey.symm hrest
        refine ⟨found, ?_, hne, List.mem_cons_of_mem _ hleast.mem, ?_⟩
        · rwa [List.foldl_cons, visit, if_pos (.inr hless)]
        · intro other hother
          rcases List.mem_cons.mp hother with rfl | hother
          · exact (hleast.le key List.mem_cons_self).trans hless.le
          · exact hleast.le other hother
      · obtain ⟨found, hfound, hne, hleast⟩ := ih hbest hrest
        refine ⟨found, ?_, hne, ?_, ?_⟩
        · rwa [List.foldl_cons, visit, if_neg (by simp [hbest, hless])]
        · rcases List.mem_cons.mp hleast.mem with rfl | hmem
          · exact List.mem_cons_self
          · exact List.mem_cons_of_mem _ (List.mem_cons_of_mem _ hmem)
        · intro other hother
          rcases List.mem_cons.mp hother with rfl | hother
          · exact hleast.le other List.mem_cons_self
          · rcases List.mem_cons.mp hother with rfl | hother
            · exact (hleast.le best List.mem_cons_self).trans (not_lt.mp hless)
            · exact hleast.le other (List.mem_cons_of_mem _ hother)

/-- From the sentinel on, the search is for the least of the rest. -/
theorem foldl_visit_sentinel (hsome : keys ≠ []) (hkeys : sentinel ∉ keys) (start : T) :
    ∃ found, keys.foldl (visit sentinel value) (sentinel, start) = (found, value found) ∧
      found ≠ sentinel ∧ Least value keys found := by
  cases keys with
  | nil => exact absurd rfl hsome
  | cons key rest =>
      obtain ⟨hkey, hrest⟩ := List.ne_and_not_mem_of_not_mem_cons hkeys
      rw [List.foldl_cons, visit, if_pos (.inl rfl)]
      exact foldl_visit_of_ne value hkey.symm hrest

end Found

variable {sentinel : K} {value : K → T} {keys : List K}

/-- A sentinel that is less than all before it is picked, and the search starts
over. -/
theorem foldl_visit_restart {first second : List K} (hfirst : sentinel ∉ first)
    (hless : ∀ key ∈ first, value sentinel < value key) (start : T) :
    (first ++ sentinel :: second).foldl (visit sentinel value) (sentinel, start) =
      second.foldl (visit sentinel value) (sentinel, value sentinel) := by
  rw [List.foldl_append, List.foldl_cons]
  cases first with
  | nil => rw [List.foldl_nil, visit, if_pos (.inl rfl)]
  | cons key rest =>
      obtain ⟨found, hfound, _, hleast⟩ :=
        foldl_visit_sentinel value (List.cons_ne_nil key rest) hfirst start
      rw [hfound, visit, if_pos (.inr (hless found hleast.mem))]

/-- A sentinel that is not less than all before it is passed over. -/
theorem foldl_visit_pass {first second : List K} (hfirst : sentinel ∉ first)
    (hsecond : sentinel ∉ second) {key : K} (hkey : key ∈ first)
    (hle : value key ≤ value sentinel) (start : T) :
    ∃ found, (first ++ sentinel :: second).foldl (visit sentinel value) (sentinel, start) =
        (found, value found) ∧
      found ≠ sentinel ∧ Least value (first ++ sentinel :: second) found := by
  obtain ⟨best, hbest, hne, hleast⟩ :=
    foldl_visit_sentinel value (List.ne_nil_of_mem hkey) hfirst start
  have hsentinel : value best ≤ value sentinel := (hleast.le key hkey).trans hle
  obtain ⟨found, hfound, hne', hleast'⟩ := foldl_visit_of_ne value hne hsecond
  refine ⟨found, ?_, hne', ?_, ?_⟩
  · rw [List.foldl_append, List.foldl_cons, hbest, visit, if_neg, hfound]
    simp [hne, hsentinel]
  · rcases List.mem_cons.mp hleast'.mem with rfl | hmem
    · exact List.mem_append_left _ hleast.mem
    · exact List.mem_append_right _ (List.mem_cons_of_mem _ hmem)
  · have hbetter : value found ≤ value best := hleast'.le best List.mem_cons_self
    intro other hother
    rcases List.mem_append.mp hother with hother | hother
    · exact hbetter.trans (hleast.le other hother)
    · rcases List.mem_cons.mp hother with rfl | hother
      · exact hbetter.trans hsentinel
      · exact hleast'.le other (List.mem_cons_of_mem _ hother)

omit [DecidableEq K] in
theorem not_mem_of_nodup {first second : List K} (hnodup : (first ++ sentinel :: second).Nodup) :
    sentinel ∉ first ∧ sentinel ∉ second := by
  simp only [List.nodup_append, List.nodup_cons, List.mem_cons] at hnodup
  exact ⟨fun h => hnodup.2.2 sentinel h sentinel (.inl rfl) rfl, hnodup.2.1.1⟩

/-- The search finds a least key if another one is not greater than the
sentinel. -/
theorem search_least (hsome : keys ≠ []) (hnodup : keys.Nodup) (start : T)
    (hother : sentinel ∈ keys → ∃ key ∈ keys, key ≠ sentinel ∧ value key ≤ value sentinel) :
    ∃ found, keys.foldl (visit sentinel value) (sentinel, start) = (found, value found) ∧
      found ≠ sentinel ∧ Least value keys found := by
  by_cases hmem : sentinel ∈ keys
  · obtain ⟨first, second, rfl⟩ := List.append_of_mem hmem
    obtain ⟨hfirst, hsecond⟩ := not_mem_of_nodup hnodup
    by_cases hpass : ∃ key ∈ first, value key ≤ value sentinel
    · obtain ⟨key, hkey, hle⟩ := hpass
      exact foldl_visit_pass hfirst hsecond hkey hle start
    · have hless : ∀ key ∈ first, value sentinel < value key := by
        intro key hkey
        by_contra hle
        exact hpass ⟨key, hkey, not_lt.mp hle⟩
      obtain ⟨key, hkey, hne, hle⟩ := hother hmem
      have hkey : key ∈ second := by
        rcases List.mem_append.mp hkey with hkey | hkey
        · exact absurd hle (not_le.mpr (hless key hkey))
        · exact (List.mem_cons.mp hkey).resolve_left hne
      rw [foldl_visit_restart hfirst hless]
      obtain ⟨found, hfound, hne', hleast⟩ :=
        foldl_visit_sentinel value (List.ne_nil_of_mem hkey) hsecond (value sentinel)
      refine ⟨found, hfound, hne', List.mem_append_right _ (List.mem_cons_of_mem _ hleast.mem), ?_⟩
      have hfound' : value found ≤ value sentinel := (hleast.le key hkey).trans hle
      intro other hother
      rcases List.mem_append.mp hother with hother | hother
      · exact hfound'.trans (hless other hother).le
      · rcases List.mem_cons.mp hother with rfl | hother
        · exact hfound'
        · exact hleast.le other hother
  · exact foldl_visit_sentinel value hsome hmem start

/-- If the sentinel is strictly the least key, the search ends with it, where it
comes last, or with a key after it. -/
theorem search_sentinel {first second : List K} (hnodup : (first ++ sentinel :: second).Nodup)
    (hless : ∀ key ∈ first ++ sentinel :: second, key ≠ sentinel → value sentinel < value key)
    (start : T) :
    (second = [] ∧
        ((first ++ sentinel :: second).foldl (visit sentinel value) (sentinel, start)).1 =
          sentinel) ∨
      second ≠ [] ∧
        ((first ++ sentinel :: second).foldl (visit sentinel value) (sentinel, start)).1 ∈
          second := by
  obtain ⟨hfirst, hsecond⟩ := not_mem_of_nodup hnodup
  rw [foldl_visit_restart hfirst fun key hkey => hless key (List.mem_append_left _ hkey)
    (ne_of_mem_of_not_mem hkey hfirst)]
  by_cases hlast : second = []
  · subst hlast
    exact .inl ⟨rfl, rfl⟩
  · obtain ⟨found, hfound, _, hleast⟩ :=
      foldl_visit_sentinel value hlast hsecond (value sentinel)
    rw [hfound]
    exact .inr ⟨hlast, hleast.mem⟩

end Interaction.Search
