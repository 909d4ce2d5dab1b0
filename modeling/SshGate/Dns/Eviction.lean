import SshGate.Interaction.Search
import SshGate.Steps

/-! # The bound of the cache

A store into a full cache makes room by erasing the entry it takes for the
oldest one. The loop that looks for it visits the map in any order and uses
the empty key for "none yet", and the empty key can be in the map.
-/

namespace SshGate

open Go Interaction Program System

/-! ## Maps -/

section Maps

variable {α : Type} {β : α → Type} (entries : AList β)

theorem length_keys : entries.keys.length = entries.entries.length := by
  rw [AList.keys, List.keys, List.length_map]

variable [DecidableEq α]

theorem length_erase_of_mem {key : α} (hkey : key ∈ entries.keys) :
    (entries.erase key).entries.length + 1 = entries.entries.length := by
  rw [← length_keys, ← length_keys, AList.keys_erase]
  exact List.length_erase_add_one hkey

theorem length_erase_le (key : α) :
    (entries.erase key).entries.length ≤ entries.entries.length := by
  rw [← length_keys, ← length_keys, AList.keys_erase]
  exact List.length_erase_le

theorem length_insert_le (key : α) (value : β key) :
    (entries.insert key value).entries.length ≤ entries.entries.length + 1 := by
  rw [← length_keys, ← length_keys, AList.keys_insert, List.length_cons]
  exact Nat.succ_le_succ List.length_erase_le

theorem insert_erase (key : α) (value : β key) :
    (entries.erase key).insert key value = entries.insert key value := by
  apply AList.ext
  rw [AList.entries_insert, AList.entries_insert]
  congr 1
  exact List.kerase_of_notMem_keys (List.notMem_keys_kerase key entries.nodupKeys)

theorem keys_insert_of_not_mem {key : α} (hkey : key ∉ entries.keys) (value : β key) :
    (entries.insert key value).keys = key :: entries.keys := by
  rw [AList.keys_insert, List.erase_of_not_mem hkey]

end Maps

namespace Cache

/-- The cache is at its limit. -/
def Full (cache : Cache) : Prop := dnsCacheMaxSize ≤ cache.entries.length

/-- No entry expires before this one. -/
structure IsOldest (cache : Cache) (key : Text) (cell : Cell) : Prop where
  lookup : cache.lookup key = some cell
  le : ∀ key' cell', cache.lookup key' = some cell' → cell.entry.expires ≤ cell'.entry.expires

/-- All other entries expire after the one of the empty key. -/
def EmptyOldest (cache : Cache) : Prop :=
  ∃ cell, cache.lookup [] = some cell ∧ ∀ key cell', key ≠ [] →
    cache.lookup key = some cell' → cell.entry.expires < cell'.entry.expires

/-- The new entry takes the place of exactly one, the oldest; while an expired
entry is left, that one has expired too. -/
def ReplacesOldest (cache : Cache) (key : Text) (cell : Cell) (next : Cache) : Prop :=
  ∃ old oldCell, cache.IsOldest old oldCell ∧
    (∀ now key' cell', cache.lookup key' = some cell' → cell'.entry.expires < now →
      oldCell.entry.expires < now) ∧
    next = (cache.erase old).insert key cell

/-! ## The loop -/

/-- The expiry that the loop reads. -/
def expiry (cache : Cache) (key : Text) : Nat :=
  ((cache.lookup key).map fun cell => cell.entry.expires).getD 0

theorem expiry_eq {cache : Cache} {key : Text} {cell : Cell}
    (hlookup : cache.lookup key = some cell) : cache.expiry key = cell.entry.expires := by
  rw [expiry, hlookup, Option.map_some, Option.getD_some]

theorem exists_lookup {cache : Cache} {key : Text} (hkey : key ∈ cache.keys) :
    ∃ cell, cache.lookup key = some cell :=
  Option.isSome_iff_exists.mp (AList.lookup_isSome.mpr hkey)

theorem mem_keys_of_lookup {cache : Cache} {key : Text} {cell : Cell}
    (hlookup : cache.lookup key = some cell) : key ∈ cache.keys :=
  AList.lookup_isSome.mp (Option.isSome_of_eq_some hlookup)

theorem oldest_eq_search {cache : Cache} {order : List Text} (hperm : order.Perm cache.keys) :
    cache.oldest order = order.foldl (Search.visit [] cache.expiry) ([], 0) := by
  refine List.foldl_ext _ _ _ fun best key hkey => ?_
  obtain ⟨cell, hcell⟩ := exists_lookup (hperm.mem_iff.mp hkey)
  rw [hcell, Search.visit, expiry_eq hcell]

theorem Full.ne_nil {cache : Cache} {order : List Text} (hfull : cache.Full)
    (hperm : order.Perm cache.keys) : order ≠ [] := by
  intro hnil
  have hlength := hperm.length_eq
  rw [hnil, length_keys] at hlength
  rw [Full, ← hlength] at hfull
  exact absurd hfull (by decide)

theorem evict_eq {cache : Cache} {order : List Text} (hfull : cache.Full) :
    cache.evict order =
      if (cache.oldest order).1 ≠ [] then cache.erase (cache.oldest order).1 else cache :=
  if_pos hfull

/-- The loop finds an oldest entry if the empty key is not strictly the oldest. -/
theorem evict_of_not_emptyOldest {cache : Cache} {order : List Text}
    (hperm : order.Perm cache.keys) (hfull : cache.Full) (hempty : ¬cache.EmptyOldest) :
    ∃ old oldCell, cache.IsOldest old oldCell ∧ cache.evict order = cache.erase old := by
  have hother : [] ∈ order → ∃ key ∈ order, key ≠ [] ∧ cache.expiry key ≤ cache.expiry [] := by
    intro hmem
    obtain ⟨cell, hcell⟩ := exists_lookup (hperm.mem_iff.mp hmem)
    by_contra hnone
    refine hempty ⟨cell, hcell, fun key cell' hkey hcell' => ?_⟩
    rw [← expiry_eq hcell, ← expiry_eq hcell']
    by_contra hle
    exact hnone ⟨key, hperm.mem_iff.mpr (mem_keys_of_lookup hcell'), hkey, not_lt.mp hle⟩
  obtain ⟨found, hfound, hne, hleast⟩ := Search.search_least (hfull.ne_nil hperm)
    (hperm.nodup_iff.mpr cache.nodupKeys) 0 hother
  obtain ⟨cell, hcell⟩ := exists_lookup (hperm.mem_iff.mp hleast.mem)
  refine ⟨found, cell, ⟨hcell, fun key cell' hcell' => ?_⟩, ?_⟩
  · rw [← expiry_eq hcell, ← expiry_eq hcell']
    exact hleast.le key (hperm.mem_iff.mpr (mem_keys_of_lookup hcell'))
  · rw [evict_eq hfull, oldest_eq_search hperm, hfound, if_pos hne]

/-- Otherwise it passes by the oldest entry: it erases nothing where the empty
key comes last, and an entry that comes after it where it does not. -/
theorem evict_of_emptyOldest {cache : Cache} {order : List Text}
    (hperm : order.Perm cache.keys) (hfull : cache.Full) (hempty : cache.EmptyOldest) :
    order.getLast? = some [] ∧ cache.evict order = cache ∨
      order.getLast? ≠ some [] ∧ ∃ found cell, found ≠ [] ∧ cache.lookup found = some cell ∧
        cache.evict order = cache.erase found := by
  obtain ⟨emptyCell, hlookup, hless⟩ := hempty
  obtain ⟨first, second, rfl⟩ :=
    List.append_of_mem (hperm.mem_iff.mpr (mem_keys_of_lookup hlookup))
  have hnodup := hperm.nodup_iff.mpr cache.nodupKeys
  have hexpiry : ∀ key ∈ first ++ [] :: second, key ≠ [] →
      cache.expiry [] < cache.expiry key := by
    intro key hkey hne
    obtain ⟨cell, hcell⟩ := exists_lookup (hperm.mem_iff.mp hkey)
    rw [expiry_eq hlookup, expiry_eq hcell]
    exact hless key cell hne hcell
  have hsearch := Search.search_sentinel hnodup hexpiry 0
  rw [← oldest_eq_search hperm] at hsearch
  rw [evict_eq hfull]
  have hsecond := (Search.not_mem_of_nodup hnodup).2
  rcases hsearch with ⟨rfl, hfound⟩ | ⟨hsome, hfound⟩
  · exact .inl ⟨List.getLast?_append_cons .., if_neg (not_not.mpr hfound)⟩
  · refine .inr ⟨fun hlast => hsecond ?_, ?_⟩
    · rw [List.getLast?_append_cons, List.getLast?_cons_of_ne_nil hsome] at hlast
      exact List.mem_of_getLast? hlast
    have hne := ne_of_mem_of_not_mem hfound hsecond
    obtain ⟨cell, hcell⟩ := exists_lookup
      (hperm.mem_iff.mp (List.mem_append_right _ (List.mem_cons_of_mem _ hfound)))
    exact ⟨_, cell, hne, hcell, if_pos hne⟩

/-! ## One store -/

theorem IsOldest.eq_nil {cache : Cache} {key : Text} {cell : Cell} (hempty : cache.EmptyOldest)
    (hold : cache.IsOldest key cell) : key = [] := by
  obtain ⟨emptyCell, hlookup, hless⟩ := hempty
  by_contra hkey
  exact absurd (hold.le [] emptyCell hlookup) (not_le.mpr (hless key cell hkey hold.lookup))

theorem ReplacesOldest.of_isOldest {cache next : Cache} {key old : Text} {cell oldCell : Cell}
    (hold : cache.IsOldest old oldCell) (hnext : next = (cache.erase old).insert key cell) :
    cache.ReplacesOldest key cell next :=
  ⟨old, oldCell, hold, fun _ key' cell' hcell' => (hold.le key' cell' hcell').trans_lt, hnext⟩

/-- A store into a full cache goes right exactly if the empty key is not
strictly the oldest, or if it is stored again and comes last in the loop. -/
theorem store_replacesOldest_iff {cache : Cache} {key : Text} {cell : Cell} {order : List Text}
    (hperm : order.Perm cache.keys) (hfull : cache.Full) :
    cache.ReplacesOldest key cell (cache.store key cell order) ↔
      (cache.EmptyOldest → key = [] ∧ order.getLast? = some []) := by
  constructor
  · rintro ⟨old, oldCell, hold, -, hnext⟩ hempty
    rw [hold.eq_nil hempty, store] at hnext
    have hlookup := fun key' => congrArg (AList.lookup key') hnext
    have hevicted := evict_of_emptyOldest hperm hfull hempty
    obtain ⟨emptyCell, hcell, -⟩ := hempty
    rcases hevicted with ⟨hlast, hevict⟩ | ⟨-, found, cell', hfound, hcell', hevict⟩
    · refine ⟨?_, hlast⟩
      by_contra hkey
      have hgone := hlookup []
      rw [hevict, AList.lookup_insert_ne (Ne.symm hkey), AList.lookup_insert_ne (Ne.symm hkey),
        AList.lookup_erase, hcell] at hgone
      cases hgone
    · by_cases hkey : key = []
      · have hgone := hlookup found
        rw [hevict, AList.lookup_insert_ne (hkey ▸ hfound), AList.lookup_insert_ne (hkey ▸ hfound),
          AList.lookup_erase, AList.lookup_erase_ne hfound, hcell'] at hgone
        cases hgone
      · have hgone := hlookup []
        rw [hevict, AList.lookup_insert_ne (Ne.symm hkey), AList.lookup_insert_ne (Ne.symm hkey),
          AList.lookup_erase, AList.lookup_erase_ne (Ne.symm hfound), hcell] at hgone
        cases hgone
  · intro hspared
    by_cases hempty : cache.EmptyOldest
    · obtain ⟨rfl, hlast⟩ := hspared hempty
      have hevicted := evict_of_emptyOldest hperm hfull hempty
      have hevict : cache.evict order = cache := by
        rcases hevicted with ⟨-, hevict⟩ | ⟨hother, -⟩
        · exact hevict
        · exact absurd hlast hother
      obtain ⟨emptyCell, hlookup, hless⟩ := hempty
      refine .of_isOldest ⟨hlookup, fun key' cell' hcell' => ?_⟩ ?_
      · by_cases hkey : key' = []
        · rw [hkey, hlookup, Option.some.injEq] at hcell'
          rw [hcell']
        · exact (hless key' cell' hkey hcell').le
      · rw [store, hevict, insert_erase]
    · obtain ⟨old, oldCell, hold, hevict⟩ := evict_of_not_emptyOldest hperm hfull hempty
      exact .of_isOldest hold (by rw [store, hevict])

/-! ## The size -/

theorem length_purge_le (cache : Cache) (now : Nat) :
    (cache.purge now).entries.length ≤ cache.entries.length := by
  rw [purge]
  generalize cache.keys.filter _ = keys
  induction keys generalizing cache with
  | nil => exact le_rfl
  | cons key rest ih => exact (ih (cache.erase key)).trans (length_erase_le cache key)

theorem ReplacesOldest.length_le {cache next : Cache} {key : Text} {cell : Cell}
    (h : cache.ReplacesOldest key cell next) : next.entries.length ≤ cache.entries.length := by
  obtain ⟨old, oldCell, hold, -, rfl⟩ := h
  have herased := length_erase_of_mem cache (mem_keys_of_lookup hold.lookup)
  exact herased ▸ length_insert_le ..

theorem length_store_le {cache : Cache} (key : Text) (cell : Cell) (order : List Text)
    (hfull : ¬cache.Full) : (cache.store key cell order).entries.length ≤ dnsCacheMaxSize := by
  have hevict : cache.evict order = cache := if_neg hfull
  rw [store, hevict]
  exact (length_insert_le cache key cell).trans (not_le.mp hfull)

end Cache

/-! ## Sequences of calls -/

/-- A call that changes the cache; `order` is the iteration order of the map. -/
inductive CacheCall where
  | store (key : Text) (cell : Cell) (order : List Text)
  | purge (now : Nat)
  deriving Repr, DecidableEq

namespace CacheCall

def run (cache : Cache) : CacheCall → Option Cache
  | store key cell order =>
      if order.Perm cache.keys then some (cache.store key cell order) else none
  | purge now => some (cache.purge now)

def runs (cache : Cache) : List CacheCall → Option Cache
  | [] => some cache
  | call :: rest => (call.run cache).bind fun next => runs next rest

/-- `ok` holds of every call of the sequence, with the caches before and after
it. -/
def Along (ok : Cache → CacheCall → Cache → Prop) : Cache → List CacheCall → Prop
  | _, [] => True
  | cache, call :: rest => ∀ next, call.run cache = some next →
      ok cache call next ∧ Along ok next rest

/-- The bound holds after the call; a store into a full cache replaced the
oldest entry. -/
def Bounded (cache : Cache) (call : CacheCall) (next : Cache) : Prop :=
  next.entries.length ≤ dnsCacheMaxSize ∧
    ∀ key cell order, call = .store key cell order → cache.Full →
      cache.ReplacesOldest key cell next

/-- No store into a full cache whose strictly oldest entry is the one of the
empty key, unless it stores that key and the loop visits it last. -/
def SparesEmpty (cache : Cache) (call : CacheCall) (_ : Cache) : Prop :=
  ∀ key cell order, call = .store key cell order → cache.Full → cache.EmptyOldest →
    key = [] ∧ order.getLast? = some []

theorem run_bounded_iff {cache next : Cache} {call : CacheCall}
    (hsize : cache.entries.length ≤ dnsCacheMaxSize) (hrun : call.run cache = some next) :
    Bounded cache call next ↔ SparesEmpty cache call next := by
  cases call with
  | purge now =>
      cases hrun
      exact ⟨nofun, fun _ => ⟨(cache.length_purge_le now).trans hsize, nofun⟩⟩
  | store key cell order =>
      obtain ⟨hperm, hnext⟩ := Option.ite_none_right_eq_some.mp hrun
      cases hnext
      constructor
      · rintro ⟨-, hreplaces⟩ _ _ _ ⟨⟩ hfull
        exact (Cache.store_replacesOldest_iff hperm hfull).mp (hreplaces _ _ _ rfl hfull)
      · intro hspares
        have hreplaces : cache.Full → cache.ReplacesOldest key cell (cache.store key cell order) :=
          fun hfull =>
            (Cache.store_replacesOldest_iff hperm hfull).mpr (hspares _ _ _ rfl hfull)
        constructor
        · by_cases hfull : cache.Full
          · exact (hreplaces hfull).length_le.trans hsize
          · exact Cache.length_store_le key cell order hfull
        · rintro _ _ _ ⟨⟩
          exact hreplaces

theorem along_bounded_iff {cache : Cache} (hsize : cache.entries.length ≤ dnsCacheMaxSize)
    (calls : List CacheCall) :
    Along Bounded cache calls ↔ Along SparesEmpty cache calls := by
  induction calls generalizing cache with
  | nil => rfl
  | cons call rest ih =>
      refine forall₂_congr fun next hrun => ?_
      have hcall := run_bounded_iff hsize hrun
      -- The bound of the call's own result is what the rest starts from.
      constructor
      · rintro ⟨hbounded, hrest⟩
        exact ⟨hcall.mp hbounded, (ih hbounded.1).mp hrest⟩
      · rintro ⟨hspares, hrest⟩
        have hbounded := hcall.mpr hspares
        exact ⟨hbounded, (ih hbounded.1).mpr hrest⟩

theorem runs_append (first second : List CacheCall) (cache : Cache) :
    runs cache (first ++ second) = (runs cache first).bind fun next => runs next second := by
  induction first generalizing cache with
  | nil => rfl
  | cons call rest ih =>
      simp only [List.cons_append, runs, Option.bind_assoc, ih]

end CacheCall

/-- Exactly the sequences that spare the empty key keep the bound and evict the
oldest. -/
theorem cacheCalls_bounded_iff (calls : List CacheCall) :
    CacheCall.Along CacheCall.Bounded ∅ calls ↔ CacheCall.Along CacheCall.SparesEmpty ∅ calls :=
  CacheCall.along_bounded_iff (Nat.zero_le _) calls

/-! ### A sequence that never evicts

The empty key is stored first and expires first; the loop visits the newest key
first. -/

def emptyCell : Cell := ⟨{ expires := 0 }, ⟨.tunnel, []⟩⟩

def fillName (n : Nat) : Text := List.replicate (n + 1) 0

def fillCell (n : Nat) : Cell := ⟨{ expires := 1 }, ⟨.tunnel, fillName n⟩⟩

def fillNames : Nat → List Text
  | 0 => [[]]
  | n + 1 => fillName n :: fillNames n

def fillCalls : Nat → List CacheCall
  | 0 => [.store [] emptyCell []]
  | n + 1 => fillCalls n ++ [.store (fillName n) (fillCell n) (fillNames n)]

def filled : Nat → Cache
  | 0 => AList.insert [] emptyCell ∅
  | n + 1 => (filled n).insert (fillName n) (fillCell n)

theorem length_le_of_mem_fillNames {n : Nat} {name : Text} (hname : name ∈ fillNames n) :
    name.length ≤ n := by
  induction n with
  | zero =>
      rw [fillNames, List.mem_singleton] at hname
      rw [hname, List.length_nil]
  | succ n ih =>
      rcases List.mem_cons.mp hname with rfl | hname
      · rw [fillName, List.length_replicate]
      · exact (ih hname).trans n.le_succ

theorem filled_keys (n : Nat) : (filled n).keys = fillNames n := by
  induction n with
  | zero => rfl
  | succ n ih =>
      rw [filled, keys_insert_of_not_mem, ih, fillNames]
      intro hmem
      have hlength := length_le_of_mem_fillNames (ih ▸ hmem)
      rw [fillName, List.length_replicate] at hlength
      exact absurd hlength n.not_succ_le_self

theorem fillNames_getLast (n : Nat) : (fillNames n).getLast? = some [] := by
  induction n with
  | zero => rfl
  | succ n ih =>
      have hsome : fillNames n ≠ [] := by
        intro hnil
        rw [hnil] at ih
        cases ih
      rw [fillNames, List.getLast?_cons_of_ne_nil hsome, ih]

theorem length_fillNames (n : Nat) : (fillNames n).length = n + 1 := by
  induction n with
  | zero => rfl
  | succ n ih => rw [fillNames, List.length_cons, ih]

theorem filled_emptyOldest (n : Nat) : (filled n).EmptyOldest := by
  refine ⟨emptyCell, ?_, ?_⟩
  · induction n with
    | zero => exact AList.lookup_insert _
    | succ n ih => rw [filled, AList.lookup_insert_ne (by simp [fillName]), ih]
  · intro key cell hkey hcell
    induction n with
    | zero =>
        rw [filled, AList.lookup_insert_ne hkey] at hcell
        cases hcell
    | succ n ih =>
        rw [filled] at hcell
        by_cases hname : key = fillName n
        · rw [hname, AList.lookup_insert, Option.some.injEq] at hcell
          exact hcell ▸ Nat.zero_lt_one
        · rw [AList.lookup_insert_ne hname] at hcell
          exact ih hcell

theorem fill_run (n : Nat) :
    (CacheCall.store (fillName n) (fillCell n) (fillNames n)).run (filled n) =
      some (filled (n + 1)) := by
  have hperm : (fillNames n).Perm (filled n).keys := .of_eq (filled_keys n).symm
  have hevict : (filled n).evict (fillNames n) = filled n := by
    by_cases hfull : (filled n).Full
    · rcases Cache.evict_of_emptyOldest hperm hfull (filled_emptyOldest n) with h | h
      · exact h.2
      · exact absurd (fillNames_getLast n) h.1
    · exact if_neg hfull
  rw [CacheCall.run, if_pos hperm, Cache.store, hevict, filled]

theorem fill_runs (n : Nat) : CacheCall.runs ∅ (fillCalls n) = some (filled n) := by
  induction n with
  | zero => rfl
  | succ n ih =>
      rw [fillCalls, CacheCall.runs_append, ih, Option.bind_some, CacheCall.runs, fill_run]
      rfl

theorem emptyKey_overflows :
    ∃ cache, CacheCall.runs ∅ (fillCalls dnsCacheMaxSize) = some cache ∧
      cache.entries.length = dnsCacheMaxSize + 1 := by
  refine ⟨filled dnsCacheMaxSize, fill_runs _, ?_⟩
  rw [← length_keys, filled_keys, length_fillNames]

/-! ## The cache of the gate -/

variable {o : Opener}

/-- The cache of a run of the gate comes from a sequence of such calls. -/
theorem run_cacheCalls {c : Config (gate o)} {schedule : List (Action (gate o))}
    (hrun : (gate o).run ⟨{}, []⟩ schedule = some c) :
    ∃ calls, CacheCall.runs ∅ calls = some c.state.cache := by
  refine System.run_invariant (fun c : Config (gate o) =>
    ∃ calls, CacheCall.runs ∅ calls = some c.state.cache) ?_ ⟨[], rfl⟩ hrun
  rintro c action c' ⟨calls, hcalls⟩ hstep
  rcases step_cache hstep with hsame | ⟨i, req, entry, order, -, hperm, hstore⟩ | ⟨-, hpurge⟩
  · exact ⟨calls, by rw [hcalls, hsame]⟩
  · refine ⟨calls ++ [.store req.key ⟨entry, req⟩ order], ?_⟩
    rw [CacheCall.runs_append, hcalls, Option.bind_some, CacheCall.runs, CacheCall.run,
      if_pos hperm, hstore]
    rfl
  · refine ⟨calls ++ [.purge c.state.clock], ?_⟩
    rw [CacheCall.runs_append, hcalls, Option.bind_some, hpurge]
    rfl

end SshGate
