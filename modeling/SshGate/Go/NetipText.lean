import Mathlib.Data.Nat.Digits.Defs
import SshGate.Go.Netip

/-! # Addresses as text

`netip.ParseAddr` reads back what `Addr.String` writes: dotted decimals, groups of
hexadecimal digits around the longest run of zeros, IPv4-mapped addresses and
zones.
-/

namespace Go.Addr

/-! ## Dotted decimals -/

theorem digit_toNat {d : Nat} (hd : d < 10) : (UInt8.ofNat (48 + d)).toNat - 48 = d := by
  have hall : ∀ d < 10, (UInt8.ofNat (48 + d)).toNat - 48 = d := by decide
  exact hall d hd

theorem parseIPv4Fields_digit {d : Nat} (hd : d < 10) {value count : Nat}
    (hzero : ¬(count = 1 ∧ value = 0)) (hvalue : value * 10 + d ≤ 255) (rest : Text)
    (fields : List UInt8) :
    parseIPv4Fields (UInt8.ofNat (48 + d) :: rest) value count fields =
      parseIPv4Fields rest (value * 10 + d) (count + 1) fields := by
  have hdigit : ∀ d < 10, (48 ≤ UInt8.ofNat (48 + d) && UInt8.ofNat (48 + d) ≤ 57) = true := by
    decide
  rw [parseIPv4Fields, if_pos (hdigit d hd), if_neg hzero, digit_toNat hd,
    if_neg (Nat.not_lt.mpr hvalue)]

/-- A number below 256 is read as one field. -/
theorem parseIPv4Fields_digits {n : Nat} (hn : n < 256) (rest : Text) (fields : List UInt8) :
    ∃ count, 0 < count ∧ parseIPv4Fields (Text.digits n ++ rest) 0 0 fields =
      parseIPv4Fields rest n count fields := by
  rcases Nat.lt_or_ge n 10 with hone | hone
  · refine ⟨1, Nat.one_pos, ?_⟩
    have hdigits : Text.digits n = [UInt8.ofNat (48 + n)] := by
      rw [Text.digits_step, if_pos hone, Nat.mod_eq_of_lt hone]
      rfl
    rw [hdigits, List.singleton_append, parseIPv4Fields_digit hone (by simp) (by omega),
      Nat.zero_mul, Nat.zero_add]
  rcases Nat.lt_or_ge n 100 with htwo | htwo
  · refine ⟨2, Nat.two_pos, ?_⟩
    have hdigits : Text.digits n = [UInt8.ofNat (48 + n / 10), UInt8.ofNat (48 + n % 10)] := by
      rw [Text.digits_step, if_neg (Nat.not_lt.mpr hone), Text.digits_step, if_pos (by omega),
        Nat.mod_eq_of_lt (by omega : n / 10 < 10)]
      rfl
    have hvalue : (0 * 10 + n / 10) * 10 + n % 10 = n := by omega
    rw [hdigits, List.cons_append, List.singleton_append,
      parseIPv4Fields_digit (by omega) (by simp) (by omega),
      parseIPv4Fields_digit (by omega) (by omega) (by omega), hvalue]
  · refine ⟨3, by decide, ?_⟩
    have hdigits : Text.digits n = [UInt8.ofNat (48 + n / 100),
        UInt8.ofNat (48 + n / 10 % 10), UInt8.ofNat (48 + n % 10)] := by
      rw [Text.digits_step, if_neg (Nat.not_lt.mpr hone), Text.digits_step, if_neg (by omega),
        Text.digits_step, if_pos (by omega), Nat.div_div_eq_div_mul,
        Nat.mod_eq_of_lt (by omega : n / (10 * 10) < 10)]
      rfl
    have hvalue : ((0 * 10 + n / 100) * 10 + n / 10 % 10) * 10 + n % 10 = n := by omega
    rw [hdigits, List.cons_append, List.cons_append, List.singleton_append,
      parseIPv4Fields_digit (by omega) (by simp) (by omega),
      parseIPv4Fields_digit (by omega) (by omega) (by omega),
      parseIPv4Fields_digit (by omega) (by omega) (by omega), hvalue]

/-- A dot ends the field. -/
theorem parseIPv4Fields_dot {value count : Nat} (hcount : 0 < count) {rest : Text}
    (hrest : rest ≠ []) {fields : List UInt8} (hfields : fields.length ≠ 3) :
    parseIPv4Fields (46 :: rest) value count fields =
      parseIPv4Fields rest 0 0 (fields ++ [UInt8.ofNat value]) := by
  rw [parseIPv4Fields, if_neg (by decide), if_pos rfl,
    if_neg (not_or.mpr ⟨Nat.ne_of_gt hcount, hrest⟩), if_neg hfields]

theorem digits_ne_nil (n : Nat) : Text.digits n ≠ [] := by
  rw [Text.digits_step]
  simp

/-- Four numbers below 256 with dots between them. -/
def dotted (a b c d : Nat) : Text :=
  Text.digits a ++ 46 :: (Text.digits b ++ 46 :: (Text.digits c ++ 46 :: Text.digits d))

theorem parseIPv4Fields_dotted {a b c d : Nat} (ha : a < 256) (hb : b < 256) (hc : c < 256)
    (hd : d < 256) :
    parseIPv4Fields (dotted a b c d) 0 0 [] =
      some [UInt8.ofNat a, UInt8.ofNat b, UInt8.ofNat c, UInt8.ofNat d] := by
  have hmore : ∀ (n : Nat) (rest : Text), Text.digits n ++ rest ≠ [] := fun n rest h =>
    digits_ne_nil n (List.append_eq_nil_iff.mp h).1
  unfold dotted
  obtain ⟨_, hpos, hread⟩ := parseIPv4Fields_digits ha
    (46 :: (Text.digits b ++ 46 :: (Text.digits c ++ 46 :: Text.digits d))) []
  rw [hread, parseIPv4Fields_dot hpos (hmore b _) (by simp)]
  obtain ⟨_, hpos, hread⟩ := parseIPv4Fields_digits hb
    (46 :: (Text.digits c ++ 46 :: Text.digits d)) ([] ++ [UInt8.ofNat a])
  rw [hread, parseIPv4Fields_dot hpos (hmore c _) (by simp)]
  obtain ⟨_, hpos, hread⟩ := parseIPv4Fields_digits hc (46 :: Text.digits d)
    ([] ++ [UInt8.ofNat a] ++ [UInt8.ofNat b])
  rw [hread, parseIPv4Fields_dot hpos (digits_ne_nil d) (by simp)]
  obtain ⟨_, hpos, hread⟩ := parseIPv4Fields_digits hd []
    ([] ++ [UInt8.ofNat a] ++ [UInt8.ofNat b] ++ [UInt8.ofNat c])
  rw [← List.append_nil (Text.digits d), hread, parseIPv4Fields, if_neg (by simp)]
  rfl

/-- The octet of an IPv4 address that starts at a bit. -/
def octet (bits : BitVec 32) (shift : Nat) : Nat := (bits >>> shift).toNat % 256

theorem octet_lt (bits : BitVec 32) (shift : Nat) : octet bits shift < 256 :=
  Nat.mod_lt _ (by decide)

theorem string4_eq (bits : BitVec 32) :
    string4 bits = dotted (octet bits 24) (octet bits 16) (octet bits 8) (octet bits 0) := by
  have hdot : str "." = [46] := by decide
  simp [string4, hdot, dotted, octet]

/-- The bytes of an IPv4 address. -/
def bytes4 (bits : BitVec 32) : List UInt8 :=
  [24, 16, 8, 0].map fun shift => UInt8.ofNat (octet bits shift)

theorem parseIPv4Fields_string4 (bits : BitVec 32) :
    parseIPv4Fields (string4 bits) 0 0 [] = some (bytes4 bits) := by
  rw [string4_eq]
  exact parseIPv4Fields_dotted (octet_lt _ _) (octet_lt _ _) (octet_lt _ _) (octet_lt _ _)

theorem ofBytes_bytes4 (bits : BitVec 32) : ofBytes (bytes4 bits) = bits.toNat := by
  have hlt := bits.isLt
  simp only [bytes4, ofBytes, octet, List.map_cons, List.map_nil, List.foldl_cons,
    List.foldl_nil, UInt8.toNat_ofNat', BitVec.toNat_ushiftRight, Nat.shiftRight_eq_div_pow]
  omega

/-! ## The first special byte -/

/-- The bytes that tell the family. -/
def isMark (b : UInt8) : Bool := decide (b = 46 ∨ b = 58 ∨ b = 37)

theorem find_mark {front : Text} (hfront : ∀ b ∈ front, isMark b = false) {mark : UInt8}
    (hmark : isMark mark = true) (rest : Text) :
    (front ++ mark :: rest).find? (fun c => c = 46 ∨ c = 58 ∨ c = 37) = some mark := by
  induction front with
  | nil => exact List.find?_cons_of_pos hmark
  | cons b more ih =>
      rw [List.cons_append, List.find?_cons_of_neg]
      · exact ih fun b' hb' => hfront b' (List.mem_cons_of_mem _ hb')
      · rw [show decide (b = 46 ∨ b = 58 ∨ b = 37) = false from hfront b List.mem_cons_self]
        exact Bool.false_ne_true

theorem digits_unmarked (n : Nat) : ∀ b ∈ Text.digits n, isMark b = false := by
  intro b hb
  have hrange := Text.isDigit_digits n b hb
  have hall : ∀ b : UInt8, 48 ≤ b ∧ b ≤ 57 → isMark b = false := by
    have hfin : ∀ i : Fin 256, 48 ≤ UInt8.ofNat i ∧ UInt8.ofNat i ≤ 57 →
        isMark (UInt8.ofNat i) = false := by decide +kernel
    intro b hb
    simpa using hfin ⟨b.toNat, b.toNat_lt⟩ (by simpa using hb)
  exact hall b hrange

theorem parse_string4 (bits : BitVec 32) : parse (string4 bits) = some (.v4 bits) := by
  have hfind : (string4 bits).find? (fun c => c = 46 ∨ c = 58 ∨ c = 37) = some 46 := by
    rw [string4_eq]
    exact find_mark (digits_unmarked _) (by decide) _
  rw [parse, hfind]
  show parseIPv4 (string4 bits) = some (.v4 bits)
  rw [parseIPv4, parseIPv4Fields_string4, Option.map_some, ofBytes_bytes4, BitVec.ofNat_toNat,
    BitVec.setWidth_eq]

/-! ## Groups of hexadecimal digits -/

/-- A hexadecimal digit. -/
def hexByte (d : Nat) : UInt8 := UInt8.ofNat (Nat.digitChar d).toNat

theorem hexDigit_hexByte {d : Nat} (hd : d < 16) : hexDigit (hexByte d) = some d := by
  have hall : ∀ d < 16, hexDigit (hexByte d) = some d := by decide
  exact hall d hd

theorem hexDigits_step (n : Nat) :
    hexDigits n = (if n < 16 then [] else hexDigits (n / 16)) ++ [hexByte (n % 16)] := by
  unfold hexDigits
  rw [Nat.toDigits_eq_if (by decide)]
  split
  next hsmall => rw [List.map_singleton, Nat.mod_eq_of_lt hsmall, List.nil_append, hexByte]
  next => rw [List.map_append, List.map_singleton, hexByte]

theorem hexDigits_ne_nil (n : Nat) : hexDigits n ≠ [] := by
  rw [hexDigits_step]
  simp

theorem length_hexDigits {n : Nat} (hn : n < 65536) : (hexDigits n).length ≤ 4 := by
  rw [hexDigits, List.length_map]
  exact Nat.toDigits_length 16 n 4 (by decide) hn

theorem hexDigits_hex (n : Nat) : ∀ b ∈ hexDigits n, ∃ d < 16, b = hexByte d := by
  induction n using Nat.strongRecOn with
  | ind n ih =>
      intro b hb
      rw [hexDigits_step, List.mem_append, List.mem_singleton] at hb
      rcases hb with hfront | rfl
      · split at hfront
        next => cases hfront
        next hlarge => exact ih (n / 16) (by omega) b hfront
      · exact ⟨n % 16, Nat.mod_lt _ (by decide), rfl⟩

/-- The value of hexadecimal digits, from a value on. -/
def hexValue (value : Nat) (digits : Text) : Nat :=
  digits.foldl (fun value b => value * 16 + (hexDigit b).getD 0) value

theorem hexValue_hexDigits (n : Nat) : hexValue 0 (hexDigits n) = n := by
  induction n using Nat.strongRecOn with
  | ind n ih =>
      rw [hexDigits_step, hexValue, List.foldl_append, List.foldl_cons, List.foldl_nil,
        hexDigit_hexByte (Nat.mod_lt _ (by decide)), Option.getD_some]
      split
      next hsmall => simp [Nat.mod_eq_of_lt hsmall]
      next hlarge =>
        have hfront := ih (n / 16) (by omega)
        rw [hexValue] at hfront
        rw [hfront]
        omega

theorem parseGroup_append {digits : Text} (hdigits : ∀ b ∈ digits, ∃ d < 16, b = hexByte d)
    (rest : Text) {value count : Nat} (hcount : count + digits.length ≤ 4) :
    parseGroup (digits ++ rest) value count =
      parseGroup rest (hexValue value digits) (count + digits.length) := by
  induction digits generalizing value count with
  | nil => rfl
  | cons b more ih =>
      obtain ⟨d, hd, rfl⟩ := hdigits b List.mem_cons_self
      rw [List.length_cons] at hcount ⊢
      rw [List.cons_append, parseGroup, hexDigit_hexByte hd]
      dsimp only
      rw [if_neg (by omega), ih (fun b' hb' => hdigits b' (List.mem_cons_of_mem _ hb')) (by omega),
        hexValue, hexValue, List.foldl_cons, hexDigit_hexByte hd, Option.getD_some]
      congr 1
      omega

/-- What can follow a group. -/
def EndsGroup (rest : Text) : Prop := ∀ b ∈ rest.head?, hexDigit b = none

theorem endsGroup_colon (rest : Text) : EndsGroup (58 :: rest) := by
  rintro _ ⟨⟩
  decide

/-- A group is read up to the byte that ends it. -/
theorem parseGroup_hexDigits {g : Nat} (hg : g < 65536) {rest : Text} (hrest : EndsGroup rest) :
    ∃ count, parseGroup (hexDigits g ++ rest) 0 0 = some (g, count + 1, rest) := by
  obtain ⟨count, hcount⟩ := Nat.exists_eq_succ_of_ne_zero
    (List.length_pos_iff.mpr (hexDigits_ne_nil g)).ne'
  refine ⟨count, ?_⟩
  rw [parseGroup_append (hexDigits_hex g) rest (by have := length_hexDigits hg; omega),
    hexValue_hexDigits, Nat.zero_add, hcount]
  cases rest with
  | nil => rfl
  | cons b more => rw [parseGroup, hrest b rfl]

/-- The two bytes of a group. -/
def pair (g : Nat) : List UInt8 := [UInt8.ofNat (g / 256), UInt8.ofNat g]

section Groups

variable {fuel g : Nat} {ip : List UInt8} {ellipsis : Option Nat} {rest : Text}

theorem parseGroups_last (hg : g < 65536) :
    parseGroups (fuel + 1) (hexDigits g) ip ellipsis = some ([], ip ++ pair g, ellipsis) := by
  have hend : EndsGroup [] := by rintro _ ⟨⟩
  obtain ⟨count, hread⟩ := parseGroup_hexDigits hg hend
  rw [List.append_nil] at hread
  rw [parseGroups, hread]
  rfl

theorem parseGroups_colon (hg : g < 65536) (hrest : rest ≠ []) (hcolon : rest.head? ≠ some 58) :
    parseGroups (fuel + 1) (hexDigits g ++ 58 :: rest) ip ellipsis =
      parseGroups fuel rest (ip ++ pair g) ellipsis := by
  obtain ⟨count, hread⟩ := parseGroup_hexDigits hg (endsGroup_colon rest)
  cases rest with
  | nil => exact absurd rfl hrest
  | cons b more =>
      have hb : b ≠ 58 := fun h => hcolon (by rw [h]; rfl)
      simp [parseGroups, hread, hb, pair]

theorem parseGroups_ellipsis (hg : g < 65536) :
    parseGroups (fuel + 1) (hexDigits g ++ 58 :: 58 :: rest) ip none =
      if rest = [] then some ([], ip ++ pair g, some (ip ++ pair g).length)
      else parseGroups fuel rest (ip ++ pair g) (some (ip ++ pair g).length) := by
  obtain ⟨count, hread⟩ := parseGroup_hexDigits hg (endsGroup_colon (58 :: rest))
  rw [parseGroups, hread]
  rfl

end Groups

/-- Groups with colons between them. -/
def joined (groups : List Nat) : Text := (str ":").intercalate (groups.map hexDigits)

theorem joined_cons_cons (g h : Nat) (groups : List Nat) :
    joined (g :: h :: groups) = hexDigits g ++ 58 :: joined (h :: groups) := by
  have hcolon : str ":" = [58] := by decide
  simp [joined, hcolon, List.intercalate]

theorem joined_singleton (g : Nat) : joined [g] = hexDigits g := by
  simp [joined, List.intercalate]

theorem joined_eq_nil {groups : List Nat} : joined groups = [] ↔ groups = [] := by
  cases groups with
  | nil => simp [joined, List.intercalate]
  | cons g more =>
      refine ⟨fun h => absurd h ?_, by rintro ⟨⟩⟩
      cases more with
      | nil =>
          rw [joined_singleton]
          exact hexDigits_ne_nil g
      | cons g' more =>
          rw [joined_cons_cons]
          simp

/-- A text of groups starts with a digit. -/
theorem head_joined {groups : List Nat} : (joined groups).head? ≠ some 58 := by
  have hdigits : ∀ (g : Nat) (rest : Text), (hexDigits g ++ rest).head? ≠ some 58 := by
    intro g rest hhead
    rw [List.head?_append_of_ne_nil _ (hexDigits_ne_nil g)] at hhead
    obtain ⟨d, hd, hb⟩ := hexDigits_hex g 58 (List.mem_of_head? hhead)
    have hall : ∀ d < 16, (58 : UInt8) ≠ hexByte d := by decide
    exact hall d hd hb
  cases groups with
  | nil => simp [joined, List.intercalate]
  | cons g more =>
      cases more with
      | nil =>
          rw [joined_singleton, ← List.append_nil (hexDigits g)]
          exact hdigits g []
      | cons g' more =>
          rw [joined_cons_cons]
          exact hdigits g _

/-- The bytes of the groups. -/
def groupBytes (groups : List Nat) : List UInt8 := groups.flatMap pair

theorem length_groupBytes (groups : List Nat) : (groupBytes groups).length = 2 * groups.length := by
  induction groups with
  | nil => rfl
  | cons g more ih =>
      rw [groupBytes, List.flatMap_cons, List.length_append, ← groupBytes, ih, List.length_cons]
      show 2 + 2 * more.length = _
      omega

section Lists

variable {groups back : List Nat} {ip : List UInt8} {ellipsis : Option Nat} {fuel : Nat}

/-- Groups up to the end of the text. -/
theorem parseGroups_joined (hne : groups ≠ []) (hgroups : ∀ g ∈ groups, g < 65536)
    (hfuel : groups.length ≤ fuel) :
    parseGroups fuel (joined groups) ip ellipsis =
      some ([], ip ++ groupBytes groups, ellipsis) := by
  induction groups generalizing fuel ip with
  | nil => exact absurd rfl hne
  | cons g more ih =>
      obtain ⟨fuel, rfl⟩ := Nat.exists_eq_succ_of_ne_zero (n := fuel) (by
        rw [List.length_cons] at hfuel
        omega)
      have hg := hgroups g List.mem_cons_self
      cases more with
      | nil =>
          rw [joined_singleton, parseGroups_last hg]
          simp [groupBytes]
      | cons g' more =>
          rw [joined_cons_cons,
            parseGroups_colon hg (mt joined_eq_nil.mp (by rintro ⟨⟩)) head_joined,
            ih (by rintro ⟨⟩) (fun x hx => hgroups x (List.mem_cons_of_mem _ hx))
              (Nat.le_of_succ_le_succ hfuel)]
          simp [groupBytes]

/-- Groups on both sides of the ellipsis. -/
theorem parseGroups_split (hne : groups ≠ []) (hgroups : ∀ g ∈ groups, g < 65536)
    (hback : ∀ g ∈ back, g < 65536) (hfuel : groups.length + back.length ≤ fuel) :
    parseGroups fuel (joined groups ++ 58 :: 58 :: joined back) ip none =
      some ([], ip ++ groupBytes groups ++ groupBytes back,
        some (ip ++ groupBytes groups).length) := by
  induction groups generalizing fuel ip with
  | nil => exact absurd rfl hne
  | cons g more ih =>
      rw [List.length_cons] at hfuel
      obtain ⟨fuel, rfl⟩ := Nat.exists_eq_succ_of_ne_zero (n := fuel) (by omega)
      have hg := hgroups g List.mem_cons_self
      cases more with
      | nil =>
          rw [joined_singleton, parseGroups_ellipsis hg]
          split
          next hempty =>
            rw [joined_eq_nil.mp hempty]
            simp [groupBytes]
          next hsome =>
            rw [parseGroups_joined (mt joined_eq_nil.mpr hsome) hback (by simp at hfuel; omega)]
            simp [groupBytes]
      | cons g' more =>
          rw [joined_cons_cons, List.append_assoc, List.cons_append, parseGroups_colon hg (by simp)
            (by
              rw [List.head?_append_of_ne_nil _ (mt joined_eq_nil.mp (by rintro ⟨⟩))]
              exact head_joined),
            ih (by rintro ⟨⟩) (fun x hx => hgroups x (List.mem_cons_of_mem _ hx)) (by omega)]
          simp [groupBytes]

end Lists

/-! ## The ellipsis -/

/-- What is written as an ellipsis is a run of zeros, and the rest is around it. -/
theorem zeroRun_spec {groups : List Nat} {start stop : Nat}
    (hrun : zeroRun groups = some (start, stop)) :
    start + 2 ≤ stop ∧
      groups = groups.take start ++ List.replicate (stop - start) 0 ++ groups.drop stop := by
  let Good (best : Option (Nat × Nat)) : Prop := ∀ start stop, best = some (start, stop) →
    start + 2 ≤ stop ∧
      groups = groups.take start ++ List.replicate (stop - start) 0 ++ groups.drop stop
  have hgood : Good (zeroRun groups) := by
    refine List.foldlRecOn _ _ (motive := Good) (by rintro _ _ ⟨⟩) fun best hbest i _ => ?_
    dsimp only
    split
    next hlonger =>
      rintro start stop ⟨⟩
      refine ⟨by omega, ?_⟩
      have hzeros : (groups.drop i).takeWhile (· = 0) =
          List.replicate ((groups.drop i).takeWhile (· = 0)).length 0 := by
        refine List.eq_replicate_iff.mpr ⟨rfl, fun x hx => ?_⟩
        simpa using List.all_eq_true.mp List.all_takeWhile x hx
      have hsplit : (groups.drop i).takeWhile (· = 0) ++ (groups.drop i).dropWhile (· = 0) =
          groups.drop i := List.takeWhile_append_dropWhile
      generalize (groups.drop i).takeWhile (· = 0) = zeros at hzeros hsplit ⊢
      generalize (groups.drop i).dropWhile (· = 0) = others at hsplit
      have hback : groups.drop (i + zeros.length) = others := by
        rw [← List.drop_drop, ← hsplit, List.drop_left]
      rw [Nat.add_sub_cancel_left, ← hzeros, hback, List.append_assoc, hsplit,
        List.take_append_drop]
    next => exact hbest
  exact hgood start stop hrun

/-- The groups of an address. -/
def hextets (bits : BitVec 128) : List Nat := (List.range 8).map (hextet bits)

/-- Groups as they are written. -/
def groupText (groups : List Nat) : Text :=
  match zeroRun groups with
  | none => joined groups
  | some (start, stop) => joined (groups.take start) ++ 58 :: 58 :: joined (groups.drop stop)

theorem string6_eq (bits : BitVec 128) : string6 bits = groupText (hextets bits) := by
  have hcolons : ∀ back : Text, str "::" ++ back = 58 :: 58 :: back := by
    intro back
    rw [show str "::" = [58, 58] by decide]
    rfl
  show (match zeroRun (hextets bits) with
    | none => joined (hextets bits)
    | some (start, stop) =>
        joined ((hextets bits).take start) ++ str "::" ++ joined ((hextets bits).drop stop)) = _
  rw [groupText]
  cases zeroRun (hextets bits) with
  | none => rfl
  | some run =>
      dsimp only
      rw [List.append_assoc, hcolons]

theorem hextets_lt {bits : BitVec 128} : ∀ g ∈ hextets bits, g < 65536 := by
  intro g hg
  obtain ⟨i, -, rfl⟩ := List.mem_map.mp hg
  exact Nat.mod_lt _ (by decide)

theorem ofBytes_pair {g : Nat} (hg : g < 65536) (front : List UInt8) :
    ofBytes (front ++ pair g) = ofBytes front * 65536 + g := by
  simp only [ofBytes, pair, List.foldl_append, List.foldl_cons, List.foldl_nil,
    UInt8.toNat_ofNat']
  omega

/-- The first groups of an address spell its leading bits. -/
theorem ofBytes_hextets_take (bits : BitVec 128) {n : Nat} (hn : n ≤ 8) :
    ofBytes (groupBytes ((List.range n).map (hextet bits))) =
      bits.toNat / 2 ^ (128 - 16 * n) := by
  induction n with
  | zero => exact (Nat.div_eq_of_lt bits.isLt).symm
  | succ n ih =>
      have hlast : hextet bits n = bits.toNat / 2 ^ (112 - 16 * n) % 65536 := by
        rw [hextet, BitVec.toNat_ushiftRight, Nat.shiftRight_eq_div_pow]
      have hpower : 2 ^ (128 - 16 * n) = 2 ^ (112 - 16 * n) * 65536 := by
        rw [show 128 - 16 * n = 112 - 16 * n + 16 by omega, Nat.pow_add]
      have hsplit : groupBytes ((List.range (n + 1)).map (hextet bits)) =
          groupBytes ((List.range n).map (hextet bits)) ++ pair (hextet bits n) := by
        simp [groupBytes, List.range_succ]
      have hlt : hextet bits n < 65536 := Nat.mod_lt _ (by decide)
      rw [hsplit, ofBytes_pair hlt, ih (by omega), hlast, hpower, ← Nat.div_div_eq_div_mul,
        show 128 - 16 * (n + 1) = 112 - 16 * n by omega, Nat.div_add_mod']

theorem ofBytes_hextets (bits : BitVec 128) : ofBytes (groupBytes (hextets bits)) = bits.toNat := by
  have hall := ofBytes_hextets_take bits (le_refl 8)
  rwa [Nat.sub_self, Nat.pow_zero, Nat.div_one] at hall

/-- Zeros in place of the ellipsis. -/
theorem expandEllipsis_split {front back : List Nat}
    (hlength : front.length + back.length < 8) :
    expandEllipsis (groupBytes front ++ groupBytes back) (some (groupBytes front).length) =
      some (groupBytes (front ++ List.replicate (8 - (front.length + back.length)) 0 ++ back)) := by
  have htotal : (groupBytes front ++ groupBytes back).length =
      2 * (front.length + back.length) := by
    rw [List.length_append, length_groupBytes, length_groupBytes]
    omega
  have hzeros : ∀ n, groupBytes (List.replicate n 0) = List.replicate (2 * n) 0 := by
    intro n
    induction n with
    | zero => rfl
    | succ n ih =>
        rw [List.replicate_succ, groupBytes, List.flatMap_cons, ← groupBytes, ih, Nat.mul_add,
          Nat.add_comm, List.replicate_add]
        rfl
  rw [expandEllipsis, if_pos (by omega), List.take_left, List.drop_left, htotal,
    show 16 - 2 * (front.length + back.length) = 2 * (8 - (front.length + back.length)) by omega,
    ← hzeros]
  simp [groupBytes]

/-! ## Zones -/

/-- How a zone is written. -/
def zoneText (zone : Text) : Text := if zone = [] then [] else 37 :: zone

/-- The text behind a leading ellipsis. -/
def lead (body : Text) : Text × Option Nat :=
  match body with
  | 58 :: 58 :: rest => (rest, some 0)
  | _ => (body, none)

/-- The part before the zone is read on its own. -/
theorem parseIPv6_body {body : Text} (hbody : 37 ∉ body) (zone : Text) :
    parseIPv6 (body ++ zoneText zone) =
      if (lead body).2.isSome ∧ (lead body).1 = [] then some (ipv6Unspecified.withZone zone)
      else
        match parseGroups 8 (lead body).1 [] (lead body).2 with
        | some ([], ip, ellipsis) =>
            (expandEllipsis ip ellipsis).map fun ip => .v6 (BitVec.ofNat 128 (ofBytes ip)) zone
        | _ => none := by
  have htake : (body ++ zoneText zone).takeWhile (· ≠ 37) = body := by
    have hall : ∀ b ∈ body, decide (b ≠ 37) = true := fun b hb =>
      decide_eq_true fun h => hbody (h ▸ hb)
    rw [List.takeWhile_append_of_pos hall]
    unfold zoneText
    split
    next => simp
    next => simp
  have hzone : ((body ++ zoneText zone).drop body.length).drop 1 = zone := by
    rw [List.drop_left]
    unfold zoneText
    split
    next hempty => rw [hempty]; rfl
    next => rfl
  have hcomplete : ¬(body.length < (body ++ zoneText zone).length ∧ zone = []) := by
    rintro ⟨hlt, rfl⟩
    simp [zoneText] at hlt
  unfold parseIPv6
  simp only [htake, hzone]
  rw [if_neg hcomplete]
  rfl

theorem parseIPv6_of_groups {body rest : Text} {ellipsis ellipsis' : Option Nat}
    {ip bytes : List UInt8} (hbody : 37 ∉ body) (hlead : lead body = (rest, ellipsis))
    (hrest : rest ≠ []) (hgroups : parseGroups 8 rest [] ellipsis = some ([], ip, ellipsis'))
    (hbytes : expandEllipsis ip ellipsis' = some bytes) (zone : Text) :
    parseIPv6 (body ++ zoneText zone) = some (.v6 (BitVec.ofNat 128 (ofBytes bytes)) zone) := by
  rw [parseIPv6_body hbody, hlead]
  dsimp only
  rw [if_neg fun h => hrest h.2, hgroups]
  simp [hbytes]

theorem hexDigits_unmarked (n : Nat) : ∀ b ∈ hexDigits n, isMark b = false := by
  have hall : ∀ d < 16, isMark (hexByte d) = false := by decide
  intro b hb
  obtain ⟨d, hd, rfl⟩ := hexDigits_hex n b hb
  exact hall d hd

theorem not_percent_joined (groups : List Nat) : 37 ∉ joined groups := by
  have hdigits : ∀ g, 37 ∉ hexDigits g := fun g h =>
    Bool.false_ne_true (hexDigits_unmarked g 37 h).symm
  induction groups with
  | nil => simp [joined, List.intercalate]
  | cons g more ih =>
      cases more with
      | nil =>
          rw [joined_singleton]
          exact hdigits g
      | cons g' more =>
          rw [joined_cons_cons]
          simp [hdigits g, ih]

theorem lead_of_head {body : Text} (hhead : body.head? ≠ some 58) : lead body = (body, none) := by
  unfold lead
  split
  next => exact absurd rfl hhead
  next => rfl

theorem parseIPv6_groupText {groups : List Nat} (hlength : groups.length = 8)
    (hlt : ∀ g ∈ groups, g < 65536) (zone : Text) :
    parseIPv6 (groupText groups ++ zoneText zone) =
      some (.v6 (BitVec.ofNat 128 (ofBytes (groupBytes groups))) zone) := by
  unfold groupText
  split
  next =>
    -- eight groups, none left out
    have hne : groups ≠ [] := by
      rintro rfl
      cases hlength
    have hgroups : parseGroups 8 (joined groups) [] none = some ([], groupBytes groups, none) :=
      parseGroups_joined hne hlt (le_of_eq hlength)
    have hbytes : expandEllipsis (groupBytes groups) none = some (groupBytes groups) := by
      rw [expandEllipsis, if_neg (by rw [length_groupBytes, hlength]; decide)]
    exact parseIPv6_of_groups (not_percent_joined _) (lead_of_head head_joined)
      (mt joined_eq_nil.mp hne) hgroups hbytes zone
  next start stop hrun =>
    obtain ⟨hlong, hsplit⟩ := zeroRun_spec hrun
    have hfront : ∀ g ∈ groups.take start, g < 65536 := fun g hg => hlt g (List.mem_of_mem_take hg)
    have hback : ∀ g ∈ groups.drop stop, g < 65536 := fun g hg => hlt g (List.mem_of_mem_drop hg)
    have hsum : (groups.take start).length + (stop - start) + (groups.drop stop).length = 8 := by
      have htotal := congrArg List.length hsplit
      rw [List.length_append, List.length_append, List.length_replicate, hlength] at htotal
      exact htotal.symm
    generalize groups.take start = front at hfront hsum hsplit
    generalize groups.drop stop = back at hback hsum hsplit
    have hbytes : expandEllipsis (groupBytes front ++ groupBytes back)
        (some (groupBytes front).length) = some (groupBytes groups) := by
      rw [expandEllipsis_split (by omega),
        show 8 - (front.length + back.length) = stop - start by omega, ← hsplit]
    have hpercent : 37 ∉ joined front ++ 58 :: 58 :: joined back := by
      simp [not_percent_joined]
    by_cases hempty : front = []
    · subst hempty
      by_cases hall : back = []
      · -- the unspecified address
        subst hall
        rw [List.length_nil, Nat.add_zero, Nat.zero_add] at hsum
        rw [List.nil_append, List.append_nil, hsum] at hsplit
        subst hsplit
        rw [parseIPv6_body (by decide)]
        rfl
      · have hgroups : parseGroups 8 (joined back) [] (some 0) =
            some ([], groupBytes back, some 0) :=
          parseGroups_joined hall hback (by rw [List.length_nil] at hsum; omega)
        exact parseIPv6_of_groups hpercent rfl (mt joined_eq_nil.mp hall) hgroups hbytes zone
    · have hgroups : parseGroups 8 (joined front ++ 58 :: 58 :: joined back) [] none =
          some ([], groupBytes front ++ groupBytes back, some (groupBytes front).length) :=
        parseGroups_split hempty hfront hback (by omega)
      have hhead : (joined front ++ 58 :: 58 :: joined back).head? ≠ some 58 := by
        rw [List.head?_append_of_ne_nil _ (mt joined_eq_nil.mp hempty)]
        exact head_joined
      exact parseIPv6_of_groups hpercent (lead_of_head hhead) (by simp) hgroups hbytes zone

/-! ## IPv4-mapped addresses -/

theorem hexDigit_of_digit {b : UInt8} (hb : 48 ≤ b ∧ b ≤ 57) : ∃ d < 16, b = hexByte d := by
  have hall : ∀ i : Fin 256, 48 ≤ UInt8.ofNat i ∧ UInt8.ofNat i ≤ 57 →
      ∃ d < 16, UInt8.ofNat i = hexByte d := by decide +kernel
  simpa using hall ⟨b.toNat, b.toNat_lt⟩ (by simpa using hb)

/-- The groups in front of a dotted IPv4 address. -/
theorem parseGroups_string4 (bits : BitVec 32) (fuel : Nat) {ip : List UInt8}
    (hip : ip.length + 4 ≤ 16) (at' : Nat) :
    parseGroups (fuel + 1) (string4 bits) ip (some at') =
      some ([], ip ++ bytes4 bits, some at') := by
  have hdigits : ∀ b ∈ Text.digits (octet bits 24), ∃ d < 16, b = hexByte d := fun b hb =>
    hexDigit_of_digit (Text.isDigit_digits _ b hb)
  have hlength : (Text.digits (octet bits 24)).length ≤ 3 := by
    rw [Text.digits, List.length_map]
    exact Nat.toDigits_length 10 _ 3 (by decide) (lt_trans (octet_lt bits 24) (by decide))
  obtain ⟨count, hcount⟩ := Nat.exists_eq_succ_of_ne_zero
    (List.length_pos_iff.mpr (digits_ne_nil (octet bits 24))).ne'
  have hfields := parseIPv4Fields_string4 bits
  rw [string4_eq] at hfields ⊢
  have hread : parseGroup (dotted (octet bits 24) (octet bits 16) (octet bits 8) (octet bits 0))
      0 0 = some (hexValue 0 (Text.digits (octet bits 24)), count + 1,
        46 :: (Text.digits (octet bits 16) ++ 46 :: (Text.digits (octet bits 8) ++
          46 :: Text.digits (octet bits 0)))) := by
    rw [dotted, parseGroup_append hdigits _ (by omega), Nat.zero_add, hcount]
    rfl
  simp [parseGroups, hread, hfields, Nat.not_lt.mpr hip]

theorem not_percent_string4 (bits : BitVec 32) : 37 ∉ string4 bits := by
  have hdigits : ∀ n, 37 ∉ Text.digits n := fun n h =>
    Bool.false_ne_true (digits_unmarked n 37 h).symm
  simp [string4_eq, dotted, hdigits]

theorem head_string4 (bits : BitVec 32) : (string4 bits).head? ≠ some 58 := by
  rw [string4_eq, dotted, List.head?_append_of_ne_nil _ (digits_ne_nil _)]
  exact fun h => Bool.false_ne_true (digits_unmarked _ 58 (List.mem_of_head? h)).symm

theorem ofBytes_append (front back : List UInt8) :
    ofBytes (front ++ back) = ofBytes front * 256 ^ back.length + ofBytes back := by
  have hlast : ∀ (bytes : List UInt8) (b : UInt8),
      ofBytes (bytes ++ [b]) = ofBytes bytes * 256 + b.toNat := fun bytes b => by
    rw [ofBytes, List.foldl_append, ← ofBytes]
    rfl
  induction back using List.reverseRecOn with
  | nil => simp [ofBytes]
  | append_singleton back b ih =>
      rw [← List.append_assoc, hlast, hlast, ih, List.length_append, List.length_singleton]
      ring

theorem ofBytes_mapped {bits : BitVec 128} (hmapped : bits >>> 32 = 0xFFFF#128) :
    ofBytes (List.replicate 10 0 ++ pair 65535 ++ bytes4 (bits.setWidth 32)) = bits.toNat := by
  have hhigh : bits.toNat / 2 ^ 32 = 65535 := by
    rw [← Nat.shiftRight_eq_div_pow, ← BitVec.toNat_ushiftRight, hmapped]
    rfl
  have hfront : ofBytes (List.replicate 10 0 ++ pair 65535) = 65535 := by decide
  have hpower : 256 ^ (bytes4 (bits.setWidth 32)).length = 2 ^ 32 := by
    rw [bytes4, List.length_map]
    decide
  calc ofBytes (List.replicate 10 0 ++ pair 65535 ++ bytes4 (bits.setWidth 32))
      = 65535 * 2 ^ 32 + bits.toNat % 2 ^ 32 := by
        rw [ofBytes_append, hfront, ofBytes_bytes4, BitVec.toNat_setWidth, hpower]
    _ = bits.toNat := by rw [← hhigh, Nat.div_add_mod']

theorem parseIPv6_mapped {bits : BitVec 128} (hmapped : bits >>> 32 = 0xFFFF#128) (zone : Text) :
    parseIPv6 (str "::ffff:" ++ string4 (bits.setWidth 32) ++ zoneText zone) =
      some (.v6 bits zone) := by
  have hfront : str "::ffff:" ++ string4 (bits.setWidth 32) =
      58 :: 58 :: (hexDigits 65535 ++ 58 :: string4 (bits.setWidth 32)) := by
    rw [show str "::ffff:" = 58 :: 58 :: (hexDigits 65535 ++ [58]) by decide]
    simp
  have hgroups : parseGroups 8 (hexDigits 65535 ++ 58 :: string4 (bits.setWidth 32)) [] (some 0) =
      some ([], pair 65535 ++ bytes4 (bits.setWidth 32), some 0) := by
    have hne : string4 (bits.setWidth 32) ≠ [] := by
      rw [string4_eq, dotted]
      simp
    rw [parseGroups_colon (by decide) hne (head_string4 _),
      parseGroups_string4 _ _ (by decide), List.nil_append]
  have hbytes : expandEllipsis (pair 65535 ++ bytes4 (bits.setWidth 32)) (some 0) =
      some (List.replicate 10 0 ++ pair 65535 ++ bytes4 (bits.setWidth 32)) := rfl
  have hpercent : 37 ∉ str "::ffff:" ++ string4 (bits.setWidth 32) := by
    rw [List.mem_append]
    exact not_or.mpr ⟨by decide, not_percent_string4 _⟩
  rw [parseIPv6_of_groups hpercent (by rw [hfront]; rfl) (by simp) hgroups hbytes,
    ofBytes_mapped hmapped, BitVec.ofNat_toNat, BitVec.setWidth_eq]

/-! ## Round trip -/

/-- The first special byte of a joined text is the colon after its first group. -/
theorem joined_mark {groups : List Nat} (hlong : 2 ≤ groups.length) :
    ∃ front rest, joined groups = front ++ 58 :: rest ∧ ∀ b ∈ front, isMark b = false := by
  rcases groups with _ | ⟨g, _ | ⟨g', more⟩⟩
  · simp at hlong
  · simp at hlong
  · exact ⟨hexDigits g, joined (g' :: more), joined_cons_cons g g' more, hexDigits_unmarked g⟩

theorem groupText_mark {groups : List Nat} (hlength : groups.length = 8) :
    ∃ front rest, groupText groups = front ++ 58 :: rest ∧ ∀ b ∈ front, isMark b = false := by
  unfold groupText
  split
  next => exact joined_mark (by omega)
  next start stop _ =>
    generalize groups.take start = early
    rcases early with _ | ⟨g, _ | ⟨g', more⟩⟩
    · exact ⟨[], _, rfl, by rintro _ ⟨⟩⟩
    · exact ⟨hexDigits g, _, by rw [joined_singleton], hexDigits_unmarked g⟩
    · rw [joined_cons_cons, List.append_assoc, List.cons_append]
      exact ⟨hexDigits g, _, rfl, hexDigits_unmarked g⟩

/-- `netip.ParseAddr` reads what `Addr.String` writes. -/
theorem parse_string (a : Addr) : parse a.string = some a := by
  cases a with
  | v4 bits => exact parse_string4 bits
  | v6 bits zone =>
      have hlength : (hextets bits).length = 8 := by simp [hextets]
      -- both forms of an IPv6 address have a colon before any other mark
      have hread : ∀ text : Text, parseIPv6 (text ++ zoneText zone) = some (.v6 bits zone) →
          (∃ front rest, text = front ++ 58 :: rest ∧ ∀ b ∈ front, isMark b = false) →
          parse (text ++ zoneText zone) = some (.v6 bits zone) := by
        rintro _ hparse ⟨front, rest, rfl, hfront⟩
        rw [parse, List.append_assoc, List.cons_append, find_mark hfront (by decide)]
        rwa [List.append_assoc, List.cons_append] at hparse
      have hstring : (Addr.v6 bits zone).string =
          (if bits >>> 32 = 0xFFFF#128 then str "::ffff:" ++ string4 (bits.setWidth 32)
            else groupText (hextets bits)) ++ zoneText zone := by
        rw [string, string6_eq]
        rfl
      rw [hstring]
      split
      next hmapped =>
        have hcolon : str "::ffff:" = 58 :: str ":ffff:" := by decide
        refine hread _ (parseIPv6_mapped hmapped zone)
          ⟨[], str ":ffff:" ++ string4 (bits.setWidth 32), by rw [hcolon]; rfl, by rintro _ ⟨⟩⟩
      next =>
        refine hread _ ?_ (groupText_mark hlength)
        rw [parseIPv6_groupText hlength hextets_lt, ofBytes_hextets, BitVec.ofNat_toNat,
          BitVec.setWidth_eq]

end Go.Addr
