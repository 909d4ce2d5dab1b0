import SshGate.Go.Text

/-! # Runes of a text

Decoding undoes encoding, the bytes of the runes of a text are the text, and
an ASCII character is a rune of its own wherever it stands. Lowering the case
of a text therefore does not look at the spelling of ASCII letters, commutes
with a trailing dot, and is idempotent where the case table is.
-/

namespace Go.Text

/-- A Unicode scalar value. -/
def IsScalar (r : Nat) : Prop := r < 0xD800 ∨ 0xE000 ≤ r ∧ r < 0x110000

/-! ## Decoding -/

/-- A rune that starts with a byte beyond ASCII depends on the following bytes
only as far as they are beyond ASCII. -/
theorem decodeRune_congr {first : UInt8} {rest rest' : Text}
    (h : ∀ i, rest.getD i 0 = rest'.getD i 0 ∨
      (rest.getD i 0).toNat < 0x80 ∧ (rest'.getD i 0).toNat < 0x80) :
    decodeRune (first :: rest) = decodeRune (first :: rest') := by
  have h0 := h 0
  have h1 := h 1
  have h2 := h 2
  simp only [decodeRune]
  generalize first.toNat = b0
  have hlow : 0x80 ≤ if b0 = 0xE0 then 0xA0 else if b0 = 0xF0 then 0x90 else 0x80 := by
    split
    next => decide
    next => split <;> decide
  generalize (if b0 = 0xE0 then 0xA0 else if b0 = 0xF0 then 0x90 else 0x80) = low at hlow ⊢
  generalize rest.getD 0 0 = b1, rest.getD 1 0 = b2, rest.getD 2 0 = b3,
    rest'.getD 0 0 = c1, rest'.getD 1 0 = c2, rest'.getD 2 0 = c3 at h0 h1 h2 ⊢
  rcases h0 with rfl | ⟨hb, hc⟩
  · rcases h1 with rfl | ⟨hb, hc⟩
    · rcases h2 with rfl | ⟨hb, hc⟩
      · rfl
      · simp [Nat.not_le.mpr hb, Nat.not_le.mpr hc]
    · simp [Nat.not_le.mpr hb, Nat.not_le.mpr hc]
  · simp [Nat.not_le.mpr (Nat.lt_of_lt_of_le hb hlow), Nat.not_le.mpr (Nat.lt_of_lt_of_le hc hlow)]

/-- The shapes of a decoded rune: its code and its bytes. -/
inductive Decoded : Nat → Text → Prop
  | ascii {b : UInt8} (h : b.toNat < 0x80) : Decoded b.toNat [b]
  | two {b0 b1 : UInt8} (h0 : 0xC2 ≤ b0.toNat ∧ b0.toNat ≤ 0xDF)
      (h1 : 0x80 ≤ b1.toNat ∧ b1.toNat ≤ 0xBF) :
      Decoded (b0.toNat % 32 * 64 + b1.toNat % 64) [b0, b1]
  | three {b0 b1 b2 : UInt8} (h0 : 0xE0 ≤ b0.toNat ∧ b0.toNat ≤ 0xEF)
      (h1 : 0x80 ≤ b1.toNat ∧ b1.toNat ≤ 0xBF) (hshort : b0.toNat = 0xE0 → 0xA0 ≤ b1.toNat)
      (hsurrogate : b0.toNat = 0xED → b1.toNat ≤ 0x9F)
      (h2 : 0x80 ≤ b2.toNat ∧ b2.toNat ≤ 0xBF) :
      Decoded ((b0.toNat % 16 * 64 + b1.toNat % 64) * 64 + b2.toNat % 64) [b0, b1, b2]
  | four {b0 b1 b2 b3 : UInt8} (h0 : 0xF0 ≤ b0.toNat ∧ b0.toNat ≤ 0xF4)
      (h1 : 0x80 ≤ b1.toNat ∧ b1.toNat ≤ 0xBF) (hshort : b0.toNat = 0xF0 → 0x90 ≤ b1.toNat)
      (hhigh : b0.toNat = 0xF4 → b1.toNat ≤ 0x8F) (h2 : 0x80 ≤ b2.toNat ∧ b2.toNat ≤ 0xBF)
      (h3 : 0x80 ≤ b3.toNat ∧ b3.toNat ≤ 0xBF) :
      Decoded (((b0.toNat % 8 * 64 + b1.toNat % 64) * 64 + b2.toNat % 64) * 64 + b3.toNat % 64)
        [b0, b1, b2, b3]
  | invalid {b : UInt8} (h : 0x80 ≤ b.toNat) : Decoded runeError [b]

theorem exists_decoded {s : Text} (hs : s ≠ []) :
    ∃ bytes rest, s = bytes ++ rest ∧ (decodeRune s).2 = bytes.length ∧
      Decoded (decodeRune s).1 bytes := by
  obtain ⟨b0, rest, rfl⟩ := List.exists_cons_of_ne_nil hs
  by_cases hascii : b0.toNat < 0x80
  · rw [decodeRune_ascii (UInt8.lt_iff_toNat_lt.mpr hascii)]
    exact ⟨[b0], rest, rfl, rfl, .ascii hascii⟩
  simp only [decodeRune, if_neg hascii]
  have hlow : 0x80 ≤ (if b0.toNat = 0xE0 then 0xA0 else if b0.toNat = 0xF0 then 0x90 else 0x80) ∧
      (b0.toNat = 0xE0 →
        (if b0.toNat = 0xE0 then 0xA0 else if b0.toNat = 0xF0 then 0x90 else 0x80) = 0xA0) ∧
      (b0.toNat = 0xF0 →
        (if b0.toNat = 0xE0 then 0xA0 else if b0.toNat = 0xF0 then 0x90 else 0x80) = 0x90) := by
    grind
  have hhigh : (if b0.toNat = 0xED then 0x9F else if b0.toNat = 0xF4 then 0x8F else 0xBF) ≤ 0xBF ∧
      (b0.toNat = 0xED →
        (if b0.toNat = 0xED then 0x9F else if b0.toNat = 0xF4 then 0x8F else 0xBF) = 0x9F) ∧
      (b0.toNat = 0xF4 →
        (if b0.toNat = 0xED then 0x9F else if b0.toNat = 0xF4 then 0x8F else 0xBF) = 0x8F) := by
    grind
  generalize (if b0.toNat = 0xE0 then 0xA0 else if b0.toNat = 0xF0 then 0x90 else 0x80) = low
    at hlow ⊢
  generalize (if b0.toNat = 0xED then 0x9F else if b0.toNat = 0xF4 then 0x8F else 0xBF) = high
    at hhigh ⊢
  obtain ⟨hlow, hshort3, hshort4⟩ := hlow
  obtain ⟨hhigh, hsurrogate, hlast⟩ := hhigh
  split
  next h =>
    simp only [Bool.and_eq_true, decide_eq_true_eq] at h
    cases rest with
    | nil =>
        simp only [List.getD_nil, UInt8.toNat_zero] at h
        omega
    | cons b1 rest =>
        simp only [List.getD_cons_zero] at h ⊢
        exact ⟨[b0, b1], rest, rfl, rfl, .two h.1 (by omega)⟩
  next =>
    split
    next h =>
      simp only [Bool.and_eq_true, decide_eq_true_eq] at h
      -- A missing byte reads as 0, which is no continuation byte.
      rcases rest with _ | ⟨b1, _ | ⟨b2, rest⟩⟩
      · simp at h
      · simp at h
      · simp only [List.getD_cons_zero, List.getD_cons_succ] at h ⊢
        exact ⟨[b0, b1, b2], rest, rfl, rfl,
          .three h.1.1 (by omega) (by omega) (by omega) h.2⟩
    next =>
      split
      next h =>
        simp only [Bool.and_eq_true, decide_eq_true_eq] at h
        rcases rest with _ | ⟨b1, _ | ⟨b2, _ | ⟨b3, rest⟩⟩⟩
        · simp at h
        · simp at h
        · simp at h
        · simp only [List.getD_cons_zero, List.getD_cons_succ] at h ⊢
          exact ⟨[b0, b1, b2, b3], rest, rfl, rfl,
            .four h.1.1.1 (by omega) (by omega) (by omega) h.1.2 h.2⟩
      next => exact ⟨[b0], rest, rfl, rfl, .invalid (Nat.not_lt.mp hascii)⟩

section Decoded

variable {bytes : Text} {code : Nat}

theorem Decoded.isScalar (h : Decoded code bytes) : IsScalar code := by
  unfold IsScalar
  cases h with
  | ascii h => omega
  | two h0 h1 => omega
  | three h0 h1 hshort hsurrogate h2 => omega
  | four h0 h1 hshort hhigh h2 h3 => omega
  | invalid h => decide

theorem Decoded.ne_nil (h : Decoded code bytes) : bytes ≠ [] := by
  cases h <;> exact List.cons_ne_nil _ _

/-- An ASCII code comes from the character itself. -/
theorem Decoded.bytes_eq {b : UInt8} (h : Decoded b.toNat bytes) (hb : b.toNat < 0x80) :
    bytes = [b] := by
  generalize hcode : b.toNat = code at h
  cases h with
  | ascii h => rw [UInt8.toNat_inj.mp hcode]
  | two h0 h1 => omega
  | three h0 h1 hshort hsurrogate h2 => omega
  | four h0 h1 hshort hhigh h2 h3 => omega
  | invalid h =>
      rw [runeError] at hcode
      omega

end Decoded

section Shapes

variable {b0 b1 b2 b3 : UInt8} (rest : Text)

theorem decodeRune_two (h0 : 0xC2 ≤ b0.toNat ∧ b0.toNat ≤ 0xDF)
    (h1 : 0x80 ≤ b1.toNat ∧ b1.toNat ≤ 0xBF) :
    decodeRune (b0 :: b1 :: rest) = (b0.toNat % 32 * 64 + b1.toNat % 64, 2) := by
  simp only [decodeRune, List.getD_cons_zero]
  rw [if_neg (by omega), if_pos]
  simp only [Bool.and_eq_true, decide_eq_true_eq]
  refine ⟨h0, ?_, ?_⟩
  · rw [if_neg (by omega), if_neg (by omega)]
    exact h1.1
  · rw [if_neg (by omega), if_neg (by omega)]
    exact h1.2

theorem decodeRune_three (h0 : 0xE0 ≤ b0.toNat ∧ b0.toNat ≤ 0xEF)
    (h1 : 0x80 ≤ b1.toNat ∧ b1.toNat ≤ 0xBF) (hshort : b0.toNat = 0xE0 → 0xA0 ≤ b1.toNat)
    (hsurrogate : b0.toNat = 0xED → b1.toNat ≤ 0x9F)
    (h2 : 0x80 ≤ b2.toNat ∧ b2.toNat ≤ 0xBF) :
    decodeRune (b0 :: b1 :: b2 :: rest) =
      ((b0.toNat % 16 * 64 + b1.toNat % 64) * 64 + b2.toNat % 64, 3) := by
  simp only [decodeRune, List.getD_cons_zero, List.getD_cons_succ]
  rw [if_neg (by omega), if_neg, if_pos]
  · simp only [Bool.and_eq_true, decide_eq_true_eq]
    refine ⟨⟨h0, ?_, ?_⟩, h2⟩
    · split
      next h => exact hshort h
      next => rw [if_neg (by omega)]; exact h1.1
    · split
      next h => exact hsurrogate h
      next => rw [if_neg (by omega)]; exact h1.2
  · simp only [Bool.and_eq_true, decide_eq_true_eq]
    omega

theorem decodeRune_four (h0 : 0xF0 ≤ b0.toNat ∧ b0.toNat ≤ 0xF4)
    (h1 : 0x80 ≤ b1.toNat ∧ b1.toNat ≤ 0xBF) (hshort : b0.toNat = 0xF0 → 0x90 ≤ b1.toNat)
    (hhigh : b0.toNat = 0xF4 → b1.toNat ≤ 0x8F) (h2 : 0x80 ≤ b2.toNat ∧ b2.toNat ≤ 0xBF)
    (h3 : 0x80 ≤ b3.toNat ∧ b3.toNat ≤ 0xBF) :
    decodeRune (b0 :: b1 :: b2 :: b3 :: rest) =
      (((b0.toNat % 8 * 64 + b1.toNat % 64) * 64 + b2.toNat % 64) * 64 + b3.toNat % 64, 4) := by
  simp only [decodeRune, List.getD_cons_zero, List.getD_cons_succ]
  rw [if_neg (by omega), if_neg, if_neg, if_pos]
  · simp only [Bool.and_eq_true, decide_eq_true_eq]
    refine ⟨⟨⟨h0, ?_, ?_⟩, h2⟩, h3⟩
    · rw [if_neg (by omega)]
      split
      next h => exact hshort h
      next => exact h1.1
    · rw [if_neg (by omega)]
      split
      next h => exact hhigh h
      next => exact h1.2
  · simp only [Bool.and_eq_true, decide_eq_true_eq]
    omega
  · simp only [Bool.and_eq_true, decide_eq_true_eq]
    omega

end Shapes

theorem toNat_ofNat_of_lt {n : Nat} (hn : n < 256) : (UInt8.ofNat n).toNat = n := by
  rw [UInt8.toNat_ofNat', Nat.mod_eq_of_lt hn]

theorem encodeRune_ne_nil (r : Nat) : encodeRune r ≠ [] := by
  unfold encodeRune
  dsimp only
  repeat' split
  all_goals exact List.cons_ne_nil _ _

/-- A scalar value is decoded from its own bytes. -/
theorem decodeRune_encodeRune {r : Nat} (hr : IsScalar r) (rest : Text) :
    decodeRune (encodeRune r ++ rest) = (r, (encodeRune r).length) := by
  unfold IsScalar at hr
  unfold encodeRune
  dsimp only
  split
  next h =>
    have hb : (UInt8.ofNat r).toNat = r := toNat_ofNat_of_lt (by omega)
    have hlt : UInt8.ofNat r < 0x80 := by
      rw [UInt8.lt_iff_toNat_lt, hb]
      exact h
    rw [List.singleton_append, decodeRune_ascii hlt, hb]
    rfl
  next h1 =>
    split
    next h2 =>
      have hb0 : (UInt8.ofNat (0xC0 + r / 64)).toNat = _ := toNat_ofNat_of_lt (by omega)
      have hb1 : (UInt8.ofNat (0x80 + r % 64)).toNat = _ := toNat_ofNat_of_lt (by omega)
      refine (decodeRune_two rest (by omega) (by omega)).trans (Prod.ext ?_ rfl)
      dsimp only
      omega
    next h2 =>
      rw [if_neg (by omega)]
      split
      next h3 =>
        have hb0 : (UInt8.ofNat (0xE0 + r / 4096)).toNat = _ := toNat_ofNat_of_lt (by omega)
        have hb1 : (UInt8.ofNat (0x80 + r / 64 % 64)).toNat = _ := toNat_ofNat_of_lt (by omega)
        have hb2 : (UInt8.ofNat (0x80 + r % 64)).toNat = _ := toNat_ofNat_of_lt (by omega)
        refine (decodeRune_three rest (by omega) (by omega) (by omega) (by omega)
          (by omega)).trans (Prod.ext ?_ rfl)
        dsimp only
        omega
      next h3 =>
        have hb0 : (UInt8.ofNat (0xF0 + r / 262144)).toNat = _ := toNat_ofNat_of_lt (by omega)
        have hb1 : (UInt8.ofNat (0x80 + r / 4096 % 64)).toNat = _ := toNat_ofNat_of_lt (by omega)
        have hb2 : (UInt8.ofNat (0x80 + r / 64 % 64)).toNat = _ := toNat_ofNat_of_lt (by omega)
        have hb3 : (UInt8.ofNat (0x80 + r % 64)).toNat = _ := toNat_ofNat_of_lt (by omega)
        refine (decodeRune_four rest (by omega) (by omega) (by omega) (by omega) (by omega)
          (by omega)).trans (Prod.ext ?_ rfl)
        dsimp only
        omega

/-! ## Runes -/

/-- Any fuel that covers the text gives the same runes. -/
theorem runesFrom_eq {fuel fuel' : Nat} {s : Text} (h : s.length ≤ fuel) (h' : s.length ≤ fuel') :
    runesFrom fuel s = runesFrom fuel' s := by
  induction fuel generalizing fuel' s with
  | zero =>
      obtain rfl := List.length_eq_zero_iff.mp (Nat.le_zero.mp h)
      cases fuel' <;> rfl
  | succ fuel ih =>
      cases s with
      | nil => cases fuel' <;> rfl
      | cons b rest =>
          obtain ⟨n, rfl⟩ := Nat.exists_eq_succ_of_ne_zero (Nat.ne_zero_of_lt h')
          obtain ⟨bytes, more, hsplit, hwidth, hdecoded⟩ := exists_decoded (List.cons_ne_nil b rest)
          have hpositive := List.length_pos_of_ne_nil hdecoded.ne_nil
          have hshorter : ((b :: rest).drop (decodeRune (b :: rest)).2).length ≤ rest.length := by
            rw [hwidth, List.length_drop, List.length_cons]
            omega
          simp only [runesFrom]
          rw [ih (Nat.le_trans hshorter (Nat.le_of_succ_le_succ h))
            (Nat.le_trans hshorter (Nat.le_of_succ_le_succ h'))]

/-- The first rune of a text and the rest of it. -/
theorem runes_append {s bytes rest : Text} (hs : s = bytes ++ rest)
    (hwidth : (decodeRune s).2 = bytes.length) (hbytes : bytes ≠ []) :
    runes s = ⟨(decodeRune s).1, bytes⟩ :: runes rest := by
  have hne : s ≠ [] := by
    rw [hs]
    exact List.append_ne_nil_of_left_ne_nil hbytes rest
  obtain ⟨b, tail, hcons⟩ := List.exists_cons_of_ne_nil hne
  have hpositive := List.length_pos_of_ne_nil hbytes
  have hlength : rest.length ≤ tail.length := by
    have := congrArg List.length (hs.symm.trans hcons)
    simp only [List.length_append, List.length_cons] at this
    omega
  have htake : s.take (decodeRune s).2 = bytes := by
    rw [hwidth, hs, List.take_left']
    rfl
  have hdrop : s.drop (decodeRune s).2 = rest := by
    rw [hwidth, hs, List.drop_left']
    rfl
  have hunfold : runes s = ⟨(decodeRune s).1, s.take (decodeRune s).2⟩ ::
      runesFrom tail.length (s.drop (decodeRune s).2) := by
    rw [runes, hcons]
    rfl
  rw [hunfold, htake, hdrop, runes, runesFrom_eq hlength (Nat.le_refl _)]

/-- Induction over the runes of a text. -/
theorem rune_induction {motive : Text → Prop} (nil : motive [])
    (step : ∀ bytes rest code, Decoded code bytes →
      decodeRune (bytes ++ rest) = (code, bytes.length) → motive rest → motive (bytes ++ rest))
    (s : Text) : motive s := by
  induction hn : s.length using Nat.strongRecOn generalizing s with
  | _ n ih =>
      by_cases hs : s = []
      · rw [hs]
        exact nil
      · obtain ⟨bytes, rest, rfl, hwidth, hdecoded⟩ := exists_decoded hs
        refine step bytes rest _ hdecoded (Prod.ext rfl hwidth) (ih rest.length ?_ rest rfl)
        have hpositive := List.length_pos_of_ne_nil hdecoded.ne_nil
        rw [← hn, List.length_append]
        omega

theorem runes_step {bytes rest : Text} {code : Nat} (hdecoded : Decoded code bytes)
    (hdecode : decodeRune (bytes ++ rest) = (code, bytes.length)) :
    runes (bytes ++ rest) = ⟨code, bytes⟩ :: runes rest := by
  have hrunes := runes_append (s := bytes ++ rest) rfl (by rw [hdecode]) hdecoded.ne_nil
  rwa [hdecode] at hrunes

/-- Each rune was decoded from its bytes. -/
theorem runes_decoded (s : Text) : ∀ rune ∈ runes s, Decoded rune.code rune.bytes := by
  induction s using rune_induction with
  | nil => exact nofun
  | step bytes rest code hdecoded hdecode ih =>
      rw [runes_step hdecoded hdecode]
      exact List.forall_mem_cons.mpr ⟨hdecoded, ih⟩

/-- The bytes of the runes are the text. -/
theorem runes_bytes (s : Text) : (runes s).flatMap Rune.bytes = s := by
  induction s using rune_induction with
  | nil => rfl
  | step bytes rest code hdecoded hdecode ih =>
      rw [runes_step hdecoded hdecode, List.flatMap_cons, ih]

/-- An ASCII character at the end is a rune of its own. -/
theorem runes_snoc {b : UInt8} (hb : b.toNat < 0x80) (s : Text) :
    runes (s ++ [b]) = runes s ++ [⟨b.toNat, [b]⟩] := by
  induction s using rune_induction with
  | nil =>
      exact runes_of_isAscii (s := [b]) fun c hc => by
        rw [List.mem_singleton.mp hc]
        exact UInt8.lt_iff_toNat_lt.mpr hb
  | step bytes rest code hdecoded hdecode ih =>
      have hsame : decodeRune (bytes ++ (rest ++ [b])) = (code, bytes.length) := by
        rw [← hdecode, ← List.append_assoc]
        obtain ⟨first, more, hcons⟩ := List.exists_cons_of_ne_nil
          (List.append_ne_nil_of_left_ne_nil hdecoded.ne_nil rest)
        rw [hcons, List.cons_append]
        apply decodeRune_congr
        intro i
        rcases Nat.lt_trichotomy i more.length with hi | hi | hi
        · exact .inl (by simp [List.getElem?_append_left hi])
        · exact .inr (by simp [hi, hb])
        · have hend : (more ++ [b]).length ≤ i := by
            rw [List.length_append, List.length_singleton]
            exact hi
          exact .inl (by simp [List.getElem?_eq_none hend, List.getElem?_eq_none (Nat.le_of_lt hi)])
      rw [List.append_assoc, runes_step hdecoded hsame, runes_step hdecoded hdecode, ih,
        List.cons_append]

/-- Encoded scalar values are decoded again. -/
theorem runes_encode {codes : List Nat} (hcodes : ∀ r ∈ codes, IsScalar r) :
    (runes (codes.flatMap encodeRune)).map Rune.code = codes := by
  induction codes with
  | nil => rfl
  | cons r rest ih =>
      obtain ⟨hr, hrest⟩ := List.forall_mem_cons.mp hcodes
      have hdecode := decodeRune_encodeRune hr (rest.flatMap encodeRune)
      rw [List.flatMap_cons, runes_append rfl (by rw [hdecode]) (encodeRune_ne_nil r), hdecode,
        List.map_cons, ih hrest]

/-! ## Lower case -/

/-- Lower case of a byte: an upper-case ASCII letter changes, nothing else. -/
def lowerByte (b : UInt8) : UInt8 := if 65 ≤ b ∧ b ≤ 90 then b + 32 else b

/-- The texts differ in the case of ASCII letters at most. -/
def SameCase (s t : Text) : Prop := s.map lowerByte = t.map lowerByte

instance (s t : Text) : Decidable (SameCase s t) := inferInstanceAs (Decidable (_ = _))

/-- What is known of a case table: it gives scalar values, lower case has no
lower case, and nothing beyond ASCII becomes a dot. -/
structure LowerTable (lower : Nat → Nat) : Prop where
  isScalar : ∀ r, 0x80 ≤ r → IsScalar r → IsScalar (lower r)
  idem : ∀ r, 0x80 ≤ r → runeToLower lower (lower r) = lower r
  not_dot : ∀ r, 0x80 ≤ r → lower r ≠ 46

theorem lowerTable_id : LowerTable id where
  isScalar _ _ h := h
  idem _ h := if_neg (Nat.not_lt.mpr h)
  not_dot r h := by
    rw [id]
    omega

theorem toNat_lowerByte (b : UInt8) :
    (lowerByte b).toNat = if 65 ≤ b.toNat ∧ b.toNat ≤ 90 then b.toNat + 32 else b.toNat := by
  have hiff : 65 ≤ b ∧ b ≤ 90 ↔ 65 ≤ b.toNat ∧ b.toNat ≤ 90 := by
    rw [UInt8.le_iff_toNat_le, UInt8.le_iff_toNat_le]
    rfl
  unfold lowerByte
  by_cases h : 65 ≤ b.toNat ∧ b.toNat ≤ 90
  · rw [if_pos (hiff.mpr h), if_pos h, UInt8.toNat_add]
    exact Nat.mod_eq_of_lt (Nat.lt_of_le_of_lt (Nat.add_le_add_right h.2 32) (by decide))
  · rw [if_neg (mt hiff.mp h), if_neg h]

/-- No ASCII letter. -/
def NoLetter (b : UInt8) : Prop := b.toNat < 65 ∨ 90 < b.toNat ∧ b.toNat < 97

instance (b : UInt8) : Decidable (NoLetter b) := inferInstanceAs (Decidable (_ ∨ _))

theorem lowerByte_eq_iff {b c : UInt8} (hb : NoLetter b) : lowerByte c = b ↔ c = b := by
  unfold NoLetter at hb
  rw [← UInt8.toNat_inj, ← UInt8.toNat_inj, toNat_lowerByte]
  split <;> omega

theorem SameCase.symm {s t : Text} (h : SameCase s t) : SameCase t s := Eq.symm h

/-- Both texts have a byte that is no letter at the same places. -/
theorem SameCase.append_cons {s front back : Text} {b : UInt8} (hb : NoLetter b)
    (h : SameCase s (front ++ b :: back)) :
    ∃ front' back', s = front' ++ b :: back' ∧ SameCase front' front ∧ SameCase back' back := by
  rw [SameCase, List.map_append, List.map_cons, List.map_eq_append_iff] at h
  obtain ⟨front', tail, rfl, hfront, htail⟩ := h
  obtain ⟨c, back', rfl, hc, hback⟩ := List.map_eq_cons_iff.mp htail
  have hlower : lowerByte b = b := (lowerByte_eq_iff hb).mpr rfl
  rw [hlower, lowerByte_eq_iff hb] at hc
  subst hc
  exact ⟨front', back', rfl, hfront, hback⟩

theorem SameCase.mem {s t : Text} {b : UInt8} (h : SameCase s t) (hb : NoLetter b)
    (hmem : b ∈ t) : b ∈ s := by
  obtain ⟨front, back, rfl⟩ := List.append_of_mem hmem
  obtain ⟨front', back', rfl, -⟩ := h.append_cons hb
  simp

section Lower

variable {lower : Nat → Nat}

theorem runeToLower_lowerByte {b : UInt8} (hb : b.toNat < 0x80) :
    runeToLower lower (lowerByte b).toNat = runeToLower lower b.toNat := by
  rw [toNat_lowerByte]
  unfold runeToLower
  grind

theorem toLower_step {bytes rest : Text} {code : Nat} (hdecoded : Decoded code bytes)
    (hdecode : decodeRune (bytes ++ rest) = (code, bytes.length)) :
    toLower lower (bytes ++ rest) = encodeRune (runeToLower lower code) ++ toLower lower rest := by
  rw [toLower, runes_step hdecoded hdecode, List.flatMap_cons]
  rfl

theorem toLower_ascii {b : UInt8} (hb : b.toNat < 0x80) (rest : Text) :
    toLower lower (b :: rest) =
      encodeRune (runeToLower lower b.toNat) ++ toLower lower rest :=
  toLower_step (.ascii hb) (decodeRune_ascii (UInt8.lt_iff_toNat_lt.mpr hb))

/-- Beyond ASCII nothing is looked up. -/
theorem toLower_of_isAscii {s : Text} (hs : IsAscii s) : toLower lower s = s.map lowerByte := by
  induction s with
  | nil => rfl
  | cons b rest ih =>
      have hb : b.toNat < 0x80 := UInt8.lt_iff_toNat_lt.mp (hs b List.mem_cons_self)
      have hbyte : encodeRune (runeToLower lower b.toNat) = [lowerByte b] := by
        have hlower : runeToLower lower b.toNat = (lowerByte b).toNat := by
          rw [toNat_lowerByte, runeToLower, if_pos hb]
        have hsmall : (lowerByte b).toNat < 0x80 := by
          rw [toNat_lowerByte]
          split <;> omega
        rw [hlower, encodeRune, if_pos hsmall]
        dsimp only
        rw [UInt8.ofNat_toNat]
      rw [toLower_ascii hb, hbyte, ih fun c hc => hs c (List.mem_cons_of_mem b hc)]
      rfl

/-- The spelling of ASCII letters does not matter. -/
theorem toLower_map_lowerByte (s : Text) :
    toLower lower (s.map lowerByte) = toLower lower s := by
  induction s using rune_induction with
  | nil => rfl
  | step bytes rest code hdecoded hdecode ih =>
      obtain ⟨first, more, hcons⟩ := List.exists_cons_of_ne_nil hdecoded.ne_nil
      by_cases hascii : first.toNat < 0x80
      · have hbytes : bytes = [first] := by
          rw [hcons, List.cons_append,
            decodeRune_ascii (UInt8.lt_iff_toNat_lt.mpr hascii)] at hdecode
          rw [hcons, List.cons.injEq]
          refine ⟨rfl, List.length_eq_zero_iff.mp ?_⟩
          have hlength := congrArg Prod.snd hdecode
          simp only [List.length_cons] at hlength
          omega
        subst hbytes
        have hlowered : (lowerByte first).toNat < 0x80 := by
          rw [toNat_lowerByte]
          split <;> omega
        rw [List.map_append, List.map_singleton, List.singleton_append, List.singleton_append,
          toLower_ascii hlowered, toLower_ascii hascii, runeToLower_lowerByte hascii, ih]
      · -- Only bytes beyond ASCII take part in a longer rune, and those have no case.
        have hfirst : lowerByte first = first := by
          rw [← UInt8.toNat_inj, toNat_lowerByte, if_neg (by omega)]
        have hsame : decodeRune (bytes.map lowerByte ++ rest.map lowerByte) =
            (code, (bytes.map lowerByte).length) := by
          rw [List.length_map, ← hdecode, ← List.map_append, hcons, List.cons_append,
            List.map_cons, hfirst]
          apply decodeRune_congr
          intro i
          have hbyte : ∀ b : UInt8, lowerByte b = b ∨
              (lowerByte b).toNat < 0x80 ∧ b.toNat < 0x80 := by
            intro b
            by_cases hb : b.toNat < 0x80
            · refine .inr ⟨?_, hb⟩
              rw [toNat_lowerByte]
              split <;> omega
            · refine .inl ?_
              rw [← UInt8.toNat_inj, toNat_lowerByte, if_neg (by omega)]
          have hget : ((more ++ rest).map lowerByte).getD i 0 =
              lowerByte ((more ++ rest).getD i 0) := by
            rw [List.getD_eq_getElem?_getD, List.getD_eq_getElem?_getD, List.getElem?_map]
            cases (more ++ rest)[i]? <;> rfl
          rw [hget]
          exact hbyte _
        have hne : bytes.map lowerByte ≠ [] := by
          rw [ne_eq, List.map_eq_nil_iff]
          exact hdecoded.ne_nil
        have hrunes := runes_append (s := bytes.map lowerByte ++ rest.map lowerByte) rfl
          (by rw [hsame]) hne
        rw [hsame] at hrunes
        rw [toLower_step hdecoded hdecode, ← ih, List.map_append, toLower, hrunes,
          List.flatMap_cons]
        rfl

theorem SameCase.toLower_eq {s t : Text} (h : SameCase s t) :
    toLower lower s = toLower lower t := by
  rw [← toLower_map_lowerByte s, h, toLower_map_lowerByte t]

/-- A trailing dot stays. -/
theorem toLower_snoc_dot (s : Text) : toLower lower (s ++ [46]) = toLower lower s ++ [46] := by
  rw [toLower, runes_snoc (by decide), List.flatMap_append]
  rfl

theorem LowerTable.runeToLower_isScalar (htable : LowerTable lower) {r : Nat} (hr : IsScalar r) :
    IsScalar (runeToLower lower r) := by
  unfold runeToLower
  split
  next h =>
    unfold IsScalar
    split <;> omega
  next h => exact htable.isScalar r (Nat.not_lt.mp h) hr

theorem LowerTable.runeToLower_idem (htable : LowerTable lower) (r : Nat) :
    runeToLower lower (runeToLower lower r) = runeToLower lower r := by
  by_cases h : r < 0x80
  · have hlowered : runeToLower lower r = if 65 ≤ r ∧ r ≤ 90 then r + 32 else r := if_pos h
    rw [hlowered]
    unfold runeToLower
    grind
  · have hlowered : runeToLower lower r = lower r := if_neg h
    rw [hlowered]
    exact htable.idem r (Nat.not_lt.mp h)

/-- Lower case is lower case already. -/
theorem LowerTable.toLower_idem (htable : LowerTable lower) (s : Text) :
    toLower lower (toLower lower s) = toLower lower s := by
  have hcodes : toLower lower s =
      ((runes s).map fun rune => runeToLower lower rune.code).flatMap encodeRune := by
    rw [List.flatMap_map]
    rfl
  have hscalar : ∀ r ∈ (runes s).map fun rune => runeToLower lower rune.code, IsScalar r := by
    intro r hr
    obtain ⟨rune, hrune, rfl⟩ := List.mem_map.mp hr
    exact htable.runeToLower_isScalar (runes_decoded s rune hrune).isScalar
  have hrunes : (runes (toLower lower s)).map Rune.code =
      (runes s).map fun rune => runeToLower lower rune.code := by
    rw [hcodes, runes_encode hscalar]
  calc toLower lower (toLower lower s)
      = ((runes (toLower lower s)).map Rune.code).flatMap
          fun r => encodeRune (runeToLower lower r) := by
        rw [List.flatMap_map]
        rfl
    _ = toLower lower s := by
        rw [hrunes, List.flatMap_map]
        simp only [htable.runeToLower_idem]
        rfl

/-- Only a dot is encoded with a dot at the end. -/
theorem encodeRune_dot {r : Nat} (hr : [46] <:+ encodeRune r) : r = 46 := by
  have hlast : (encodeRune r).getLast? = some 46 := by
    obtain ⟨front, hfront⟩ := hr
    exact List.getLast?_eq_some_iff.mpr ⟨front, hfront.symm⟩
  have htail : ∀ n, UInt8.ofNat (0x80 + n % 64) ≠ 46 := by
    intro n h
    have hn := toNat_ofNat_of_lt (show 0x80 + n % 64 < 256 by omega)
    rw [h] at hn
    exact absurd hn (Nat.ne_of_lt (Nat.lt_of_lt_of_le (by decide) (Nat.le_add_right _ _)))
  unfold encodeRune at hlast
  dsimp only at hlast
  split at hlast
  next h =>
    have hbyte : UInt8.ofNat r = 46 := Option.some.inj hlast
    rw [← toNat_ofNat_of_lt (show r < 256 by omega), hbyte]
    rfl
  next =>
    split at hlast
    next => exact absurd (Option.some.inj hlast) (htail _)
    next =>
      split at hlast
      next => cases hlast
      next =>
        split at hlast
        next => exact absurd (Option.some.inj hlast) (htail _)
        next => exact absurd (Option.some.inj hlast) (htail _)

/-- Only a dot becomes one. -/
theorem LowerTable.eq_dot (htable : LowerTable lower) {r : Nat}
    (hr : runeToLower lower r = 46) : r = 46 := by
  unfold runeToLower at hr
  split at hr
  next => split at hr <;> omega
  next hhigh => exact absurd hr (htable.not_dot r (Nat.not_lt.mp hhigh))

/-- Lower case ends with a dot exactly if the text does. -/
theorem LowerTable.toLower_dot_iff (htable : LowerTable lower) (s : Text) :
    [46] <:+ toLower lower s ↔ [46] <:+ s := by
  constructor
  · intro hdot
    rcases List.eq_nil_or_concat (runes s) with hnil | ⟨front, last, hrunes⟩
    · rw [toLower, hnil] at hdot
      cases List.suffix_nil.mp hdot
    · have hlast : encodeRune (runeToLower lower last.code) <:+ toLower lower s := by
        rw [toLower, hrunes, List.concat_eq_append, List.flatMap_append, List.flatMap_singleton]
        exact List.suffix_append _ _
      have hcode : last.code = 46 := by
        apply htable.eq_dot
        apply encodeRune_dot
        exact List.suffix_of_suffix_length_le hdot hlast
          (List.length_pos_of_ne_nil (encodeRune_ne_nil _))
      have hdecoded : Decoded (46 : UInt8).toNat last.bytes := by
        have := runes_decoded s last (by simp [hrunes])
        rwa [hcode] at this
      rw [← runes_bytes s, hrunes, List.concat_eq_append, List.flatMap_append,
        List.flatMap_singleton, hdecoded.bytes_eq (by decide)]
      exact List.suffix_append _ _
  · rintro ⟨front, rfl⟩
    rw [toLower_snoc_dot]
    exact List.suffix_append _ _

end Lower

end Go.Text
