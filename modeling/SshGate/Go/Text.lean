import Mathlib.Algebra.Group.Int.Defs
import Mathlib.Algebra.Group.Nat.Defs
import Mathlib.Data.List.Basic

/-! # Go strings

A Go string is a list of bytes and need not be valid UTF-8. The functions
follow the `strings`, `strconv` and `unicode/utf8` packages; an invalid byte
decodes to the replacement rune, one byte at a time.
-/

namespace Go

/-- A Go string. -/
abbrev Text := List UInt8

/-- The bytes of a string constant. -/
def str (s : String) : Text := s.toUTF8.data.toList

namespace Text

/-! ## Runes -/

def runeError : Nat := 0xFFFD

/-- The first rune of a text and the number of bytes it takes, as
`utf8.DecodeRuneInString`. A missing byte reads as zero, which continues no
sequence. -/
def decodeRune : Text → Nat × Nat
  | [] => (runeError, 0)
  | first :: rest =>
      let b0 := first.toNat
      let b1 := (rest.getD 0 0).toNat
      let b2 := (rest.getD 1 0).toNat
      let b3 := (rest.getD 2 0).toNat
      let continues (b : Nat) : Bool := 0x80 ≤ b && b ≤ 0xBF
      -- E0, ED, F0 and F4 narrow the second byte: no overlong forms, no surrogates.
      let low := if b0 = 0xE0 then 0xA0 else if b0 = 0xF0 then 0x90 else 0x80
      let high := if b0 = 0xED then 0x9F else if b0 = 0xF4 then 0x8F else 0xBF
      let second : Bool := low ≤ b1 && b1 ≤ high
      if b0 < 0x80 then (b0, 1)
      else if 0xC2 ≤ b0 && b0 ≤ 0xDF && second then
        (b0 % 32 * 64 + b1 % 64, 2)
      else if 0xE0 ≤ b0 && b0 ≤ 0xEF && second && continues b2 then
        ((b0 % 16 * 64 + b1 % 64) * 64 + b2 % 64, 3)
      else if 0xF0 ≤ b0 && b0 ≤ 0xF4 && second && continues b2 && continues b3 then
        (((b0 % 8 * 64 + b1 % 64) * 64 + b2 % 64) * 64 + b3 % 64, 4)
      else (runeError, 1)

/-- A decoded rune with the bytes it was decoded from. -/
structure Rune where
  code : Nat
  bytes : Text
  deriving Repr, DecidableEq

/-- Decode at most `fuel` runes. -/
def runesFrom : Nat → Text → List Rune
  | 0, _ => []
  | _ + 1, [] => []
  | fuel + 1, s =>
      let (code, width) := decodeRune s
      ⟨code, s.take width⟩ :: runesFrom fuel (s.drop width)

/-- The runes a `range` loop over the text visits. -/
def runes (s : Text) : List Rune := runesFrom s.length s

/-- The UTF-8 form of a rune, as `utf8.AppendRune`. -/
def encodeRune (r : Nat) : Text :=
  let byte (n : Nat) : UInt8 := UInt8.ofNat n
  let tail (n : Nat) : UInt8 := byte (0x80 + n % 64)
  if r < 0x80 then [byte r]
  else if r < 0x800 then [byte (0xC0 + r / 64), tail r]
  else if 0xD800 ≤ r ∧ r < 0xE000 ∨ 0x10FFFF < r then [0xEF, 0xBF, 0xBD]
  else if r < 0x10000 then [byte (0xE0 + r / 4096), tail (r / 64), tail r]
  else [byte (0xF0 + r / 262144), tail (r / 4096), tail (r / 64), tail r]

/-- `unicode.ToLower`; `lower` is its case table beyond ASCII. -/
def runeToLower (lower : Nat → Nat) (r : Nat) : Nat :=
  if r < 0x80 then (if 65 ≤ r ∧ r ≤ 90 then r + 32 else r) else lower r

/-- `strings.ToLower`. -/
def toLower (lower : Nat → Nat) (s : Text) : Text :=
  s.runes.flatMap fun rune => encodeRune (runeToLower lower rune.code)

/-- `unicode.IsSpace`. -/
def isSpace (r : Nat) : Bool :=
  9 ≤ r && r ≤ 13 || r == 32 || r == 0x85 || r == 0xA0 || r == 0x1680 ||
    0x2000 ≤ r && r ≤ 0x200A || r == 0x2028 || r == 0x2029 || r == 0x202F ||
    r == 0x205F || r == 0x3000

/-- `strings.TrimSpace`. -/
def trimSpace (s : Text) : Text :=
  let left := s.runes.dropWhile fun rune => isSpace rune.code
  let kept := (left.reverse.dropWhile fun rune => isSpace rune.code).reverse
  kept.flatMap Rune.bytes

/-! ## Prefixes, suffixes and separators -/

/-- `strings.HasPrefix`. -/
def startsWith (s start : Text) : Bool := start.isPrefixOf s

/-- `strings.HasSuffix`. -/
def endsWith (s ending : Text) : Bool := ending.isSuffixOf s

/-- `strings.TrimPrefix`. -/
def trimPrefix (s start : Text) : Text :=
  if s.startsWith start then s.drop start.length else s

/-- `strings.TrimSuffix`. -/
def trimSuffix (s ending : Text) : Text :=
  if s.endsWith ending then s.take (s.length - ending.length) else s

theorem trimPrefix_append (s start : Text) : trimPrefix (start ++ s) start = s := by
  have hstarts : Text.startsWith (start ++ s) start = true :=
    List.isPrefixOf_iff_prefix.mpr (List.prefix_append start s)
  rw [trimPrefix, if_pos hstarts]
  exact List.drop_left

theorem trimPrefix_of_not_start {s start : Text} (hstarts : ¬start <+: s) :
    s.trimPrefix start = s :=
  if_neg (mt List.isPrefixOf_iff_prefix.mp hstarts)

theorem trimSuffix_append (s ending : Text) : (s ++ ending).trimSuffix ending = s := by
  have hends : Text.endsWith (s ++ ending) ending = true :=
    List.isSuffixOf_iff_suffix.mpr (List.suffix_append s ending)
  rw [trimSuffix, if_pos hends]
  exact List.take_left' (by simp)

theorem trimSuffix_of_not_suffix {s ending : Text} (hends : ¬ending <:+ s) :
    s.trimSuffix ending = s :=
  if_neg (mt List.isSuffixOf_iff_suffix.mp hends)

theorem idxOf_append_cons {front : Text} {b : UInt8} (back : Text) (hfront : b ∉ front) :
    (front ++ b :: back).idxOf? b = some front.length := by
  induction front with
  | nil => simp [List.idxOf?_cons]
  | cons c rest ih =>
      rw [List.mem_cons, not_or] at hfront
      have hne : (c == b) = false := by simpa using Ne.symm hfront.1
      rw [List.cons_append, List.idxOf?_cons, hne, ih hfront.2]
      rfl

theorem exists_first {s : Text} {b : UInt8} {i : Nat} (hidx : s.idxOf? b = some i) :
    ∃ front back, s = front ++ b :: back ∧ b ∉ front ∧ front.length = i := by
  have hmem : b ∈ s := by
    by_contra hmem
    rw [List.idxOf?_eq_none_iff.mpr hmem] at hidx
    cases hidx
  obtain ⟨front, back, rfl, hfront⟩ := List.eq_append_cons_of_mem hmem
  rw [idxOf_append_cons back hfront] at hidx
  exact ⟨front, back, rfl, hfront, Option.some.inj hidx⟩

/-- `strings.Cut` at a one-byte separator. -/
def cut (s : Text) (sep : UInt8) : Option (Text × Text) :=
  (s.idxOf? sep).map fun i => (s.take i, s.drop (i + 1))

theorem cut_append_cons {front : Text} {sep : UInt8} (back : Text) (hfront : sep ∉ front) :
    cut (front ++ sep :: back) sep = some (front, back) := by
  rw [cut, idxOf_append_cons back hfront]
  simp

theorem cut_eq_none {s : Text} {sep : UInt8} (hmem : sep ∉ s) : s.cut sep = none := by
  rw [cut, List.idxOf?_eq_none_iff.mpr hmem]
  rfl

theorem cut_eq_some {s front back : Text} {sep : UInt8} (hcut : s.cut sep = some (front, back)) :
    s = front ++ sep :: back ∧ sep ∉ front := by
  obtain ⟨i, hi, hparts⟩ := Option.map_eq_some_iff.mp hcut
  obtain ⟨front', back', rfl, hfront, rfl⟩ := exists_first hi
  obtain ⟨rfl, rfl⟩ : front' = front ∧ back' = back := by simpa using hparts
  exact ⟨rfl, hfront⟩

/-- `strings.Split` at a one-byte separator. -/
def split (s : Text) (sep : UInt8) : List Text := s.splitOn sep

theorem split_ne_nil (s : Text) (sep : UInt8) : s.split sep ≠ [] := List.splitOnP_ne_nil _ s

theorem split_cons (b sep : UInt8) (s : Text) :
    split (b :: s) sep =
      if b = sep then [] :: s.split sep else (s.split sep).modifyHead (List.cons b) := by
  simp only [split, List.splitOn, List.splitOnP_cons_eq_if_modifyHead, beq_iff_eq]

theorem split_append_cons (s t : Text) (sep : UInt8) :
    split (s ++ sep :: t) sep = s.split sep ++ t.split sep :=
  List.splitOnP_append_cons s t (beq_self_eq_true sep)

theorem split_injective (sep : UInt8) : Function.Injective fun s : Text => s.split sep :=
  Function.LeftInverse.injective (g := [sep].intercalate) fun _ => List.intercalate_splitOn sep

/-- The pieces of `s` are the last pieces of `t` exactly if `t` is `s`, or ends
with it after a separator. -/
theorem split_suffix_iff (s t : Text) (sep : UInt8) :
    s.split sep <:+ t.split sep ↔ t = s ∨ sep :: s <:+ t := by
  constructor
  · intro h
    induction t with
    | nil =>
        have hsplit : split [] sep = [[]] := rfl
        rw [hsplit, List.suffix_cons_iff, List.suffix_nil] at h
        exact .inl (split_injective sep (h.resolve_right (split_ne_nil s sep)).symm)
    | cons b rest ih =>
        by_cases hb : b = sep
        · subst hb
          rw [split_cons, if_pos rfl, List.suffix_cons_iff] at h
          rcases h with heq | hsuffix
          · refine .inl (split_injective b ?_)
            dsimp only
            rw [split_cons, if_pos rfl, heq]
          · rcases ih hsuffix with rfl | hmore
            · exact .inr (List.suffix_refl _)
            · exact .inr (hmore.trans (List.suffix_cons _ _))
        · obtain ⟨first, others, hrest⟩ := List.exists_cons_of_ne_nil (split_ne_nil rest sep)
          have hsplit := split_cons b sep rest
          rw [if_neg hb, hrest, List.modifyHead_cons] at hsplit
          rw [hsplit, List.suffix_cons_iff] at h
          rcases h with heq | hsuffix
          · exact .inl (split_injective sep (hsplit.trans heq.symm))
          · have hless : s.split sep <:+ split rest sep := by
              rw [hrest]
              exact hsuffix.trans (List.suffix_cons _ _)
            rcases ih hless with rfl | hmore
            · have hlength := hsuffix.length_le
              rw [hrest, List.length_cons] at hlength
              omega
            · exact .inr (hmore.trans (List.suffix_cons _ _))
  · rintro (rfl | ⟨front, rfl⟩)
    · exact List.suffix_refl _
    · rw [split_append_cons]
      exact List.suffix_append _ _

/-- `strings.Contains`. -/
def contains (s part : Text) : Bool := s.tails.any part.isPrefixOf

/-- Decimal digits of a natural number. -/
def digits (n : Nat) : Text := (Nat.toDigits 10 n).map fun c => UInt8.ofNat c.toNat

/-- `strconv.Itoa`. -/
def itoa : Int → Text
  | .ofNat n => digits n
  | .negSucc n => str "-" ++ digits (n + 1)

/-- The value of a text of decimal digits. -/
def parseDigits (s : Text) : Option Nat :=
  if s ≠ [] ∧ s.all fun b => 48 ≤ b && b ≤ 57 then
    some (s.foldl (fun n b => n * 10 + (b.toNat - 48)) 0)
  else none

/-- The value of decimal digits after an optional sign. -/
def parseSigned : Text → Option Int
  | 45 :: rest => (parseDigits rest).map fun n => -n
  | 43 :: rest => (parseDigits rest).map fun n => n
  | s => (parseDigits s).map fun n => n

/-- `strconv.Atoi` with a 64-bit `int`. -/
def atoi (s : Text) : Option Int :=
  s.parseSigned.filter fun n => -2 ^ 63 ≤ n ∧ n < 2 ^ 63

/-- `Atoi` gives values of an `int`. -/
theorem atoi_bounds {s : Text} {n : Int} (hatoi : s.atoi = some n) :
    -2 ^ 63 ≤ n ∧ n < 2 ^ 63 := by
  have hfilter := Option.filter_eq_some_iff.mp hatoi
  simpa using hfilter.2

/-- `strconv.ParseUint` in base ten. -/
def parseUint (s : Text) (bits : Nat) : Option Nat := s.parseDigits.filter (· < 2 ^ bits)

theorem digits_step (n : Nat) :
    digits n = (if n < 10 then [] else digits (n / 10)) ++ [UInt8.ofNat (48 + n % 10)] := by
  have hdigit : ∀ d < 10, UInt8.ofNat (Nat.digitChar d).toNat = UInt8.ofNat (48 + d) := by decide
  unfold digits
  rw [Nat.toDigits_eq_if (by decide)]
  split
  next hsmall =>
    rw [List.map_singleton, hdigit n hsmall, Nat.mod_eq_of_lt hsmall]
    rfl
  next =>
    rw [List.map_append, List.map_singleton, hdigit _ (Nat.mod_lt n (by decide))]

theorem isDigit_digits (n : Nat) : ∀ b ∈ digits n, 48 ≤ b ∧ b ≤ 57 := by
  induction n using Nat.strongRecOn with
  | ind n ih =>
      intro b hb
      rw [digits_step, List.mem_append, List.mem_singleton] at hb
      rcases hb with hfront | rfl
      · split at hfront
        next => cases hfront
        next hlarge => exact ih (n / 10) (by omega) b hfront
      · have hrange : ∀ d < 10, 48 ≤ UInt8.ofNat (48 + d) ∧ UInt8.ofNat (48 + d) ≤ 57 := by decide
        exact hrange _ (Nat.mod_lt n (by decide))

/-- A number is the value of its digits. -/
theorem parseDigits_digits (n : Nat) : (digits n).parseDigits = some n := by
  have hne : digits n ≠ [] := by
    rw [digits_step]
    simp
  have hvalue : (digits n).foldl (fun n b => n * 10 + (b.toNat - 48)) 0 = n := by
    clear hne
    induction n using Nat.strongRecOn with
    | ind n ih =>
        have hdigit : ∀ d < 10, (UInt8.ofNat (48 + d)).toNat - 48 = d := by decide
        rw [digits_step, List.foldl_append, List.foldl_cons, List.foldl_nil,
          hdigit _ (Nat.mod_lt n (by decide))]
        split
        next hsmall => simp [Nat.mod_eq_of_lt hsmall]
        next hlarge =>
          rw [ih (n / 10) (by omega)]
          omega
  have hall : (digits n).all (fun b => 48 ≤ b && b ≤ 57) := by
    rw [List.all_eq_true]
    intro b hb
    simpa using isDigit_digits n b hb
  rw [parseDigits, if_pos ⟨hne, hall⟩, hvalue]

theorem parseDigits_head {s : Text} {n : Nat} (hparse : s.parseDigits = some n) :
    s.head? ≠ some 43 ∧ s.head? ≠ some 45 := by
  unfold parseDigits at hparse
  split at hparse
  next hdigits =>
    have hall := List.all_eq_true.mp hdigits.2
    constructor <;> intro hhead
    · exact absurd (hall _ (List.mem_of_head? hhead)) (by decide)
    · exact absurd (hall _ (List.mem_of_head? hhead)) (by decide)
  next => cases hparse

/-- A text of digits has the same value for `Atoi`. -/
theorem atoi_of_parseDigits {s : Text} {n : Nat} (hparse : s.parseDigits = some n)
    (hsmall : n < 2 ^ 63) : s.atoi = some (n : Int) := by
  obtain ⟨hplus, hminus⟩ := parseDigits_head hparse
  have hsigned : s.parseSigned = some (n : Int) := by
    unfold parseSigned
    split
    next => exact absurd List.head?_cons hminus
    next => exact absurd List.head?_cons hplus
    next => rw [hparse]; rfl
  rw [atoi, hsigned, Option.filter_some, if_pos]
  have hcast : (n : Int) < 2 ^ 63 := by exact_mod_cast hsmall
  simp only [decide_eq_true_eq]
  omega

/-- A positive value comes from digits, after a plus sign at most. -/
theorem parseDigits_of_atoi {s : Text} {n : Int} (hatoi : s.atoi = some n) (hpos : 1 ≤ n)
    (hplus : s.head? ≠ some 43) : s.parseDigits = some n.toNat := by
  have hsigned := (Option.filter_eq_some_iff.mp hatoi).1
  unfold parseSigned at hsigned
  split at hsigned
  next rest =>
    obtain ⟨m, -, rfl⟩ : ∃ m : Nat, parseDigits rest = some m ∧ -(m : Int) = n := by
      simpa [Option.bind_eq_some_iff] using hsigned
    omega
  next => exact absurd List.head?_cons hplus
  next =>
    obtain ⟨m, hm, rfl⟩ : ∃ m : Nat, s.parseDigits = some m ∧ (m : Int) = n := by
      simpa [Option.bind_eq_some_iff] using hsigned
    rw [hm, Int.toNat_natCast]

/-! ## ASCII texts -/

/-- Every byte is an ASCII character. -/
def IsAscii (s : Text) : Prop := ∀ b ∈ s, b < 0x80

theorem decodeRune_ascii {b : UInt8} {rest : Text} (hb : b < 0x80) :
    decodeRune (b :: rest) = (b.toNat, 1) := by
  have hlt : b.toNat < 0x80 := hb
  simp only [decodeRune, hlt, if_true]

/-- An ASCII text decodes byte by byte. -/
theorem runes_of_isAscii {s : Text} (hs : IsAscii s) :
    s.runes = s.map fun b => ⟨b.toNat, [b]⟩ := by
  unfold runes
  induction s with
  | nil => rfl
  | cons b rest ih =>
      have hb : b < 0x80 := hs b List.mem_cons_self
      have hrest := ih fun c hc => hs c (List.mem_cons_of_mem b hc)
      simp only [List.length_cons, runesFrom, decodeRune_ascii hb, List.take_succ_cons,
        List.take_zero, List.drop_succ_cons, List.drop_zero, List.map_cons, hrest]

/-- A text of visible ASCII characters has nothing to trim. -/
theorem trimSpace_of_isAscii {s : Text} (hs : IsAscii s)
    (hspace : ∀ b ∈ s, isSpace b.toNat = false) : s.trimSpace = s := by
  have hkeep : ∀ l : Text, (∀ b ∈ l, isSpace b.toNat = false) →
      (l.map fun b => (⟨b.toNat, [b]⟩ : Rune)).dropWhile (fun rune => isSpace rune.code) =
        l.map fun b => ⟨b.toNat, [b]⟩ := by
    intro l hl
    cases l with
    | nil => rfl
    | cons b rest => simp [hl b List.mem_cons_self]
  have hreverse : ∀ b ∈ s.reverse, isSpace b.toNat = false := by
    intro b hb
    exact hspace b (List.mem_reverse.mp hb)
  dsimp only [trimSpace]
  rw [runes_of_isAscii hs, hkeep s hspace, ← List.map_reverse, hkeep s.reverse hreverse,
    List.map_reverse, List.reverse_reverse, List.flatMap_map]
  simp

/-! ## Base64 -/

/-- A character of the standard alphabet. -/
def base64Char (n : Nat) : UInt8 :=
  if n < 26 then UInt8.ofNat (65 + n)
  else if n < 52 then UInt8.ofNat (97 + (n - 26))
  else if n < 62 then UInt8.ofNat (48 + (n - 52))
  else if n = 62 then 43
  else 47

/-- `base64.StdEncoding.EncodeToString`. -/
def base64 : List UInt8 → Text
  | [] => []
  | [a] => [base64Char (a.toNat / 4), base64Char (a.toNat % 4 * 16), 61, 61]
  | [a, b] =>
      [base64Char (a.toNat / 4), base64Char (a.toNat % 4 * 16 + b.toNat / 16),
        base64Char (b.toNat % 16 * 4), 61]
  | a :: b :: c :: rest =>
      base64Char (a.toNat / 4) :: base64Char (a.toNat % 4 * 16 + b.toNat / 16) ::
        base64Char (b.toNat % 16 * 4 + c.toNat / 64) :: base64Char (c.toNat % 64) :: base64 rest

/-- Visible ASCII characters only. -/
def IsVisible (s : Text) : Prop := ∀ b ∈ s, 33 ≤ b.toNat ∧ b.toNat < 127

theorem IsVisible.append {s t : Text} (hs : IsVisible s) (ht : IsVisible t) :
    IsVisible (s ++ t) := by
  intro b hb
  rcases List.mem_append.mp hb with hleft | hright
  · exact hs b hleft
  · exact ht b hright

theorem base64Char_visible (n : Nat) :
    33 ≤ (base64Char n).toNat ∧ (base64Char n).toNat < 127 := by
  have hofNat : ∀ k, 33 ≤ k → k < 127 →
      33 ≤ (UInt8.ofNat k).toNat ∧ (UInt8.ofNat k).toNat < 127 := by
    intro k hlow hhigh
    rw [UInt8.toNat_ofNat', Nat.mod_eq_of_lt (by omega)]
    exact ⟨hlow, hhigh⟩
  unfold base64Char
  split
  next => exact hofNat _ (by omega) (by omega)
  next =>
    split
    next => exact hofNat _ (by omega) (by omega)
    next =>
      split
      next => exact hofNat _ (by omega) (by omega)
      next => split <;> decide

theorem base64_visible (bytes : List UInt8) : IsVisible (base64 bytes) := by
  have hpad : 33 ≤ (61 : UInt8).toNat ∧ (61 : UInt8).toNat < 127 := by decide
  fun_induction base64 bytes with
  | case1 => exact List.forall_mem_nil _
  | case2 a => simp [IsVisible, base64Char_visible]
  | case3 a b => simp [IsVisible, base64Char_visible]
  | case4 a b c rest ih =>
      intro ch hch
      simp only [List.mem_cons] at hch
      rcases hch with rfl | rfl | rfl | rfl | hrest
      · exact base64Char_visible _
      · exact base64Char_visible _
      · exact base64Char_visible _
      · exact base64Char_visible _
      · exact ih ch hrest

/-- A text of visible characters has nothing to trim. -/
theorem trimSpace_of_isVisible {s : Text} (hs : IsVisible s) : s.trimSpace = s := by
  apply trimSpace_of_isAscii
  · intro b hb
    have hvisible := hs b hb
    exact UInt8.lt_iff_toNat_lt.mpr (by simp; omega)
  · intro b hb
    have hvisible := hs b hb
    simp only [isSpace, Bool.or_eq_false_iff, Bool.and_eq_false_iff, decide_eq_false_iff_not,
      beq_eq_false_iff_ne]
    omega

end Text

end Go
