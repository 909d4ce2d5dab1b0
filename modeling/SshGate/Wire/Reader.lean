import SshGate.Go.Text

/-! # Readers of item sequences

A reader takes one item after the other from the front of a text, until it
finds the end of the items. Every item takes at least one byte, which is all
that is needed for the number of bytes to bound the number of items.
-/

namespace Wire

open Go

/-- What stands at the front of a text: the end of the items, or an item. -/
inductive Next (α : Type) where
  | done (rest : Text)
  | item (value : α) (rest : Text)

structure Reader (α : Type) where
  next : Text → Option (Next α)
  shrinks : ∀ {bytes rest : Text} {value : α},
    next bytes = some (.item value rest) → rest.length < bytes.length

namespace Reader

variable {α : Type} (r : Reader α)

def itemsFrom : (fuel : Nat) → Text → Option (List α × Text)
  | 0, _ => none
  | fuel + 1, bytes =>
      match r.next bytes with
      | none => none
      | some (.done rest) => some ([], rest)
      | some (.item value rest) =>
          (itemsFrom fuel rest).map fun (values, rest) => (value :: values, rest)

/-- The items at the front of a text and what follows their end. -/
def items (bytes : Text) : Option (List α × Text) := r.itemsFrom (bytes.length + 1) bytes

variable {r}

theorem itemsFrom_eq {fuel fuel' : Nat} {bytes : Text} (hfuel : bytes.length < fuel)
    (hfuel' : bytes.length < fuel') : r.itemsFrom fuel bytes = r.itemsFrom fuel' bytes := by
  induction fuel generalizing fuel' bytes with
  | zero => cases hfuel
  | succ fuel ih =>
      cases fuel' with
      | zero => cases hfuel'
      | succ fuel' =>
          simp only [itemsFrom]
          cases hnext : r.next bytes with
          | none => rfl
          | some next =>
              cases next with
              | done rest => rfl
              | item value rest =>
                  have hless := r.shrinks hnext
                  dsimp only
                  congr 1
                  apply ih <;> omega

theorem items_done {bytes rest : Text} (hnext : r.next bytes = some (.done rest)) :
    r.items bytes = some ([], rest) := by
  simp only [items, itemsFrom, hnext]

theorem items_item {bytes rest : Text} {value : α}
    (hnext : r.next bytes = some (.item value rest)) :
    r.items bytes = (r.items rest).map fun (values, rest) => (value :: values, rest) := by
  have hless := r.shrinks hnext
  rw [items, itemsFrom, hnext]
  dsimp only
  rw [itemsFrom_eq hless (Nat.lt_succ_self rest.length)]
  rfl

/-- What every single item satisfies, all items of a text satisfy. -/
theorem forall_mem_items {P : α → Prop}
    (hitem : ∀ {bytes rest : Text} {value : α}, r.next bytes = some (.item value rest) → P value)
    {bytes rest : Text} {values : List α} (hitems : r.items bytes = some (values, rest)) :
    ∀ value ∈ values, P value := by
  unfold items at hitems
  generalize bytes.length + 1 = fuel at hitems
  induction fuel generalizing bytes rest values with
  | zero => cases hitems
  | succ fuel ih =>
      unfold itemsFrom at hitems
      split at hitems
      next => cases hitems
      next =>
        cases hitems
        exact fun _ hmem => absurd hmem List.not_mem_nil
      next value more hnext =>
        obtain ⟨⟨others, last⟩, hothers, hresult⟩ := Option.map_eq_some_iff.mp hitems
        cases hresult
        intro other hmem
        rcases List.mem_cons.mp hmem with rfl | hmem
        · exact hitem hnext
        · exact ih hothers other hmem

/-- Items that are written one after the other are read back, up to what follows
them. -/
theorem items_flatMap {write : α → Text} {values : List α}
    (hwrite : ∀ value ∈ values, ∀ rest, r.next (write value ++ rest) = some (.item value rest))
    (rest : Text) :
    r.items (values.flatMap write ++ rest) =
      (r.items rest).map fun (more, rest) => (values ++ more, rest) := by
  induction values with
  | nil => simp
  | cons value others ih =>
      have hothers := ih fun other hother => hwrite other (List.mem_cons_of_mem value hother)
      rw [List.flatMap_cons, List.append_assoc,
        items_item (hwrite value List.mem_cons_self _), hothers, Option.map_map]
      rfl

end Reader

end Wire
