import SshGate.Wire.Reader

/-! # The native journal protocol

A datagram is a sequence of fields. A field is the line `NAME=value`, or the
line `NAME` without an equals sign, the number of data bytes as eight bytes,
least significant first, the data and a newline.
-/

namespace Wire

open Go

/-! ## Little-endian numbers -/

/-- The number in `width` bytes, least significant first. -/
def encodeLE : (width : Nat) → Nat → Text
  | 0, _ => []
  | width + 1, n => UInt8.ofNat n :: encodeLE width (n / 256)

def decodeLE : Text → Nat
  | [] => 0
  | b :: rest => b.toNat + 256 * decodeLE rest

@[simp]
theorem encodeLE_length (width n : Nat) : (encodeLE width n).length = width := by
  induction width generalizing n with
  | zero => rfl
  | succ width ih => rw [encodeLE, List.length_cons, ih]

theorem decodeLE_encodeLE (width n : Nat) :
    decodeLE (encodeLE width n) = n % 256 ^ width := by
  induction width generalizing n with
  | zero => exact (Nat.mod_one n).symm
  | succ width ih =>
      rw [encodeLE, decodeLE, ih, Nat.pow_succ', Nat.mod_mul]
      simp

/-! ## Fields -/

structure Field where
  name : Text
  value : Text
  deriving Repr, DecidableEq

/-- The first field of a datagram and what follows it. -/
def nextField (bytes : Text) : Option (Field × Text) :=
  match bytes.cut 10 with
  | none => none
  | some (line, rest) =>
      match line.cut 61 with
      | some (name, value) => some (⟨name, value⟩, rest)
      | none =>
          let size := decodeLE (rest.take 8)
          match rest.drop (8 + size) with
          | 10 :: more => some (⟨line, (rest.drop 8).take size⟩, more)
          | _ => none

theorem nextField_length {bytes more : Text} {field : Field}
    (hnext : nextField bytes = some (field, more)) : more.length < bytes.length := by
  unfold nextField at hnext
  split at hnext
  next => cases hnext
  next line rest hline =>
    obtain ⟨rfl, -⟩ := Text.cut_eq_some hline
    rw [List.length_append, List.length_cons]
    split at hnext
    next =>
      cases hnext
      omega
    next =>
      dsimp only at hnext
      split at hnext
      next after hafter =>
        cases hnext
        have hlength := congrArg List.length hafter
        rw [List.length_drop, List.length_cons] at hlength
        omega
      next => cases hnext

/-- The fields of a datagram, which end with it. -/
def fieldReader : Reader Field where
  next
    | [] => some (.done [])
    | b :: rest => (nextField (b :: rest)).map fun (field, more) => .item field more
  shrinks {bytes more field} hnext := by
    cases bytes with
    | nil => cases hnext
    | cons b rest =>
        obtain ⟨⟨field', more'⟩, hfield, hitem⟩ := Option.map_eq_some_iff.mp hnext
        cases hitem
        exact nextField_length hfield

/-- The fields of a datagram that is read to its end. -/
def fields (bytes : Text) : Option (List Field) := (fieldReader.items bytes).map (·.1)

theorem fields_of_nextField {bytes more : Text} {field : Field}
    (hnext : nextField bytes = some (field, more)) :
    fields bytes = (fields more).map (field :: ·) := by
  have hitem : fieldReader.next bytes = some (.item field more) := by
    cases bytes with
    | nil => cases hnext
    | cons b rest => exact congrArg (Option.map _) hnext
  rw [fields, fields, Reader.items_item hitem, Option.map_map, Option.map_map]
  rfl

/-! ## What a writer may rely on -/

/-- A field name has neither an equals sign nor a newline. -/
def IsName (name : Text) : Prop := 61 ∉ name ∧ 10 ∉ name

instance (name : Text) : Decidable (IsName name) := inferInstanceAs (Decidable (_ ∧ _))

theorem fields_text {name value : Text} (rest : Text) (hname : IsName name)
    (hvalue : 10 ∉ value) :
    fields (name ++ 61 :: (value ++ 10 :: rest)) = (fields rest).map (⟨name, value⟩ :: ·) := by
  apply fields_of_nextField
  have hline : 10 ∉ name ++ 61 :: value := by simp [hname.2, hvalue]
  have hshape : name ++ 61 :: (value ++ 10 :: rest) = (name ++ 61 :: value) ++ 10 :: rest := by
    simp
  rw [nextField, hshape, Text.cut_append_cons rest hline]
  dsimp only
  rw [Text.cut_append_cons value hname.1]

/-- The data of a binary field are its bytes, whatever they are. -/
theorem fields_binary {name : Text} (data rest : Text) (hname : IsName name)
    (hdata : data.length < 2 ^ 64) :
    fields (name ++ 10 :: (encodeLE 8 data.length ++ (data ++ 10 :: rest))) =
      (fields rest).map (⟨name, data⟩ :: ·) := by
  apply fields_of_nextField
  have hsize : decodeLE (encodeLE 8 data.length) = data.length := by
    rw [decodeLE_encodeLE]
    exact Nat.mod_eq_of_lt hdata
  rw [nextField, Text.cut_append_cons _ hname.2]
  dsimp only
  rw [Text.cut_eq_none hname.1]
  dsimp only
  rw [List.take_left' (encodeLE_length 8 _), hsize, ← List.drop_drop,
    List.drop_left' (encodeLE_length 8 _)]
  simp

end Wire
