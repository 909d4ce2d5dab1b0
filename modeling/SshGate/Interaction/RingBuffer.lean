import Mathlib.Data.List.OfFn
import Mathlib.Data.Nat.ModEq

/-! # Circular buffers

A buffer of fixed capacity that overwrites its oldest element when it is full.
The elements are the `count` cells from `head` on, wrapping around; what the
other cells hold is never read.
-/

namespace Interaction

/-- A circular buffer. Its indices are in range by construction. -/
structure RingBuffer (α : Type) where
  cells : List α
  head : Nat
  count : Nat
  head_lt : head < cells.length
  count_le : count ≤ cells.length

namespace RingBuffer

variable {α : Type}

/-- A buffer of a positive capacity with no element; `blank` fills the cells. -/
def empty (capacity : Nat) (blank : α) (hcapacity : 0 < capacity) : RingBuffer α where
  cells := List.replicate capacity blank
  head := 0
  count := 0
  head_lt := by simpa using hcapacity
  count_le := Nat.zero_le _

variable (r : RingBuffer α)

def capacity : Nat := r.cells.length

theorem capacity_pos : 0 < r.capacity := Nat.zero_lt_of_lt r.head_lt

/-- The cell of the `i`-th oldest element. -/
def index (i : Nat) : Nat := (r.head + i) % r.capacity

theorem index_lt (i : Nat) : r.index i < r.cells.length := Nat.mod_lt _ r.capacity_pos

/-- The elements, oldest first. -/
def contents : List α :=
  List.ofFn fun i : Fin r.count => r.cells.get ⟨r.index i, r.index_lt i⟩

def oldest : α := r.cells.get ⟨r.head, r.head_lt⟩

def dropOldest : RingBuffer α where
  cells := r.cells
  head := (r.head + 1) % r.capacity
  count := r.count - 1
  head_lt := Nat.mod_lt _ r.capacity_pos
  count_le := (Nat.sub_le _ _).trans r.count_le

/-- Append an element; a full buffer gives up its oldest one. -/
def push (a : α) : RingBuffer α :=
  if hfull : r.count = r.capacity then
    { cells := r.cells.set r.head a
      head := (r.head + 1) % r.capacity
      count := r.count
      head_lt := by simpa [capacity] using Nat.mod_lt (r.head + 1) r.capacity_pos
      count_le := by simpa using r.count_le }
  else
    { cells := r.cells.set ((r.head + r.count) % r.capacity) a
      head := r.head
      count := r.count + 1
      head_lt := by simpa using r.head_lt
      count_le := by
        rw [List.length_set]
        exact Nat.lt_of_le_of_ne r.count_le hfull }

/-- Drop the oldest element as long as it is one of the `old` ones. -/
def discard (old : α → Bool) : RingBuffer α := go r.count r
where
  go : Nat → RingBuffer α → RingBuffer α
  | 0, r => r
  | n + 1, r => if old r.oldest then go n r.dropOldest else r

/-! ## What the operations do to the elements -/

@[simp] theorem contents_empty (capacity : Nat) (blank : α) (hcapacity : 0 < capacity) :
    (empty capacity blank hcapacity).contents = [] := rfl

@[simp] theorem length_contents : r.contents.length = r.count := List.length_ofFn

@[simp] theorem getElem_contents (i : Nat) (hi : i < r.contents.length) :
    r.contents[i] = r.cells.get ⟨r.index i, r.index_lt i⟩ := by
  simp [contents]

/-- Reading the cells one by one. -/
theorem map_getElem?_cells :
    (List.range r.count).map (fun i => r.cells[(r.head + i) % r.capacity]?) =
      r.contents.map some := by
  apply List.ext_getElem
  · simp
  · intro i hi _
    simp only [List.getElem_map, List.getElem_range, getElem_contents]
    exact List.getElem?_eq_getElem (r.index_lt i)

theorem index_zero : r.index 0 = r.head := Nat.mod_eq_of_lt r.head_lt

/-- Different elements are in different cells. -/
theorem index_injective {i j : Nat} (hi : i < r.capacity) (hj : j < r.capacity)
    (hindex : r.index i = r.index j) : i = j := by
  have hmod : i % r.capacity = j % r.capacity := Nat.ModEq.add_left_cancel' r.head hindex
  rwa [Nat.mod_eq_of_lt hi, Nat.mod_eq_of_lt hj] at hmod

theorem index_capacity : r.index r.capacity = r.head := by
  rw [index, Nat.add_mod_right]
  exact Nat.mod_eq_of_lt r.head_lt

theorem head_contents (hcount : 0 < r.count) : r.contents.head? = some r.oldest := by
  have hlength : 0 < r.contents.length := by rwa [length_contents]
  rw [List.head?_eq_getElem?, List.getElem?_eq_getElem hlength, getElem_contents]
  simp only [index_zero, oldest]

theorem index_dropOldest (i : Nat) : r.dropOldest.index i = r.index (i + 1) := by
  simp only [index, dropOldest, capacity, Nat.mod_add_mod]
  rw [Nat.add_assoc, Nat.add_comm 1 i]

theorem contents_dropOldest : r.dropOldest.contents = r.contents.tail := by
  apply List.ext_getElem
  · simp [dropOldest]
  · intro i hi htail
    rw [getElem_contents, List.getElem_tail, getElem_contents]
    simp only [index_dropOldest]
    rfl

@[simp] theorem capacity_push (a : α) : (r.push a).capacity = r.capacity := by
  unfold push
  split <;> simp [capacity]

/-- The cell that `push` writes, full or not. -/
theorem cells_push (a : α) : (r.push a).cells = r.cells.set (r.index r.count) a := by
  unfold push
  split
  next hfull =>
    have hindex : r.index r.count = r.head := hfull ▸ r.index_capacity
    simp only [hindex]
  next => rfl

/-- The new element is the last one of a buffer that has room. -/
theorem contents_push_of_lt (a : α) (hroom : r.count < r.capacity) :
    (r.push a).contents = r.contents ++ [a] := by
  have hcount : (r.push a).count = r.count + 1 := by
    rw [push, dif_neg (Nat.ne_of_lt hroom)]
  have hindex : ∀ i, (r.push a).index i = r.index i := by
    intro i
    rw [index, capacity_push, push, dif_neg (Nat.ne_of_lt hroom), index]
  apply List.ext_getElem
  · simp [hcount]
  · intro i hi happend
    rw [length_contents, hcount] at hi
    simp only [getElem_contents, List.get_eq_getElem, cells_push, hindex]
    rcases Nat.lt_succ_iff_lt_or_eq.mp hi with hlt | rfl
    · -- The cell written is none of those in use.
      have hne : r.index r.count ≠ r.index i := fun heq =>
        Nat.ne_of_gt hlt (r.index_injective hroom (hlt.trans hroom) heq)
      rw [List.getElem_set_ne hne, List.getElem_append_left (by simpa using hlt),
        getElem_contents]
      rfl
    · rw [List.getElem_set_self, List.getElem_append_right (by simp)]
      simp

/-- A full buffer moves on by one. -/
theorem contents_push_of_eq (a : α) (hfull : r.count = r.capacity) :
    (r.push a).contents = r.contents.tail ++ [a] := by
  have hpos := r.capacity_pos
  have hcount : (r.push a).count = r.count := by rw [push, dif_pos hfull]
  have hindex : ∀ i, (r.push a).index i = r.index (i + 1) := by
    intro i
    rw [index, capacity_push, push, dif_pos hfull, ← index_dropOldest]
    rfl
  apply List.ext_getElem
  · simp only [length_contents, hcount, List.length_append, List.length_tail,
      List.length_singleton]
    omega
  · intro i hi happend
    rw [length_contents, hcount] at hi
    simp only [getElem_contents, List.get_eq_getElem, cells_push, hindex]
    by_cases hlast : i + 1 < r.count
    · have hne : r.index r.count ≠ r.index (i + 1) := by
        rw [hfull, index_capacity, ← index_zero]
        intro heq
        have := r.index_injective hpos (hfull ▸ hlast) heq
        omega
      rw [List.getElem_set_ne hne, List.getElem_append_left (by simp; omega),
        List.getElem_tail, getElem_contents]
      rfl
    · have heq : i + 1 = r.count := by omega
      simp only [heq]
      rw [List.getElem_set_self, List.getElem_append_right (by simp; omega)]
      simp

/-- The oldest element leaves when there is no room for a new one. -/
theorem contents_push (a : α) :
    (r.push a).contents =
      (if r.contents.length = r.capacity then r.contents.tail else r.contents) ++ [a] := by
  rw [length_contents]
  split
  next hfull => exact r.contents_push_of_eq a hfull
  next hroom => exact r.contents_push_of_lt a (Nat.lt_of_le_of_ne r.count_le hroom)

theorem contents_go (old : α → Bool) (n : Nat) (hn : n = r.count) :
    (discard.go old n r).contents = r.contents.dropWhile old := by
  induction n generalizing r with
  | zero =>
      have hnil : r.contents = [] := List.length_eq_zero_iff.mp (by rw [length_contents, ← hn])
      rw [discard.go, hnil]
      rfl
  | succ n ih =>
      have hhead := r.head_contents (by omega)
      obtain ⟨rest, hcontents⟩ := List.head?_eq_some_iff.mp hhead
      rw [discard.go, hcontents, List.dropWhile_cons]
      split
      next =>
        have hcount : n = r.dropOldest.count := by
          simp only [dropOldest]
          omega
        rw [ih r.dropOldest hcount, contents_dropOldest, hcontents, List.tail_cons]
      next => exact hcontents

theorem contents_discard (old : α → Bool) :
    (r.discard old).contents = r.contents.dropWhile old := r.contents_go old r.count rfl

@[simp] theorem capacity_discard (old : α → Bool) : (r.discard old).capacity = r.capacity := by
  suffices hgo : ∀ n (r : RingBuffer α), (discard.go old n r).capacity = r.capacity from hgo _ r
  intro n
  induction n with
  | zero => exact fun _ => rfl
  | succ n ih =>
      intro r
      rw [discard.go]
      split
      next => exact ih r.dropOldest
      next => rfl

end RingBuffer

end Interaction
