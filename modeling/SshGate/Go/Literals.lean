import SshGate.Go.HostPort
import SshGate.Go.NetipText
import SshGate.Go.Utf8

/-! # The texts of address literals

What `netip.ParseAddr` accepts is a text of hexadecimal digits, colons and dots
that does not end with a dot, and for IPv6 an optional zone, which is any text.
In lower case it is accepted as well.
-/

namespace Go

open Text

/-! ## Bytes -/

/-- A byte that can stand in a literal before its zone. -/
def Addr.InLiteral (b : UInt8) : Prop := (Addr.hexDigit b).isSome ∨ b = 46 ∨ b = 58

namespace Text

theorem lowerByte_upper {b : UInt8} (hb : 65 ≤ b.toNat ∧ b.toNat ≤ 90) :
    (lowerByte b).toNat = b.toNat + 32 := by
  rw [toNat_lowerByte, if_pos hb]

theorem lowerByte_other {b : UInt8} (hb : ¬(65 ≤ b.toNat ∧ b.toNat ≤ 90)) : lowerByte b = b := by
  rw [← UInt8.toNat_inj, toNat_lowerByte, if_neg hb]

theorem lowerByte_idem (b : UInt8) : lowerByte (lowerByte b) = lowerByte b := by
  by_cases hb : 65 ≤ b.toNat ∧ b.toNat ≤ 90
  · apply lowerByte_other
    rw [lowerByte_upper hb]
    omega
  · rw [lowerByte_other hb, lowerByte_other hb]

theorem lowerByte_dot {b : UInt8} : lowerByte b = 46 ↔ b = 46 := by
  by_cases hb : 65 ≤ b.toNat ∧ b.toNat ≤ 90
  · have hupper := lowerByte_upper hb
    constructor
    · intro hdot
      rw [hdot] at hupper
      change 46 = b.toNat + 32 at hupper
      omega
    · rintro rfl
      rfl
  · rw [lowerByte_other hb]

/-- The ASCII bytes at the front of a text are lowered one by one. -/
theorem toLower_append {lower : Nat → Nat} {front : Text} (hfront : IsAscii front) (rest : Text) :
    toLower lower (front ++ rest) = front.map lowerByte ++ toLower lower rest := by
  induction front with
  | nil => rfl
  | cons b front ih =>
      have hb := hfront b List.mem_cons_self
      have hbyte : toLower lower [b] = [lowerByte b] :=
        toLower_of_isAscii (by simpa [IsAscii] using hb)
      have hnil : toLower lower [] = [] := rfl
      rw [toLower_ascii (UInt8.lt_iff_toNat_lt.mp hb), hnil, List.append_nil] at hbyte
      rw [List.cons_append, toLower_ascii (UInt8.lt_iff_toNat_lt.mp hb), hbyte,
        ih fun c hc => hfront c (List.mem_cons_of_mem b hc)]
      rfl

theorem toLower_ne_nil {lower : Nat → Nat} {s : Text} (hs : s ≠ []) : toLower lower s ≠ [] := by
  obtain ⟨bytes, rest, rfl, hwidth, hdecoded⟩ := exists_decoded hs
  rw [toLower_step hdecoded (Prod.ext rfl hwidth)]
  exact List.append_ne_nil_of_left_ne_nil (encodeRune_ne_nil _) _

end Text

namespace Addr

/-- A property of bytes can be checked on all of them. -/
theorem forall_byte {P : UInt8 → Prop} (h : ∀ n < 256, P (UInt8.ofNat n)) (b : UInt8) : P b := by
  simpa using h b.toNat b.toNat_lt

theorem hexDigit_lowerByte (b : UInt8) : hexDigit (lowerByte b) = hexDigit b :=
  forall_byte (P := fun b => hexDigit (lowerByte b) = hexDigit b) (by decide +kernel) b

theorem hexDigit_ascii (b : UInt8) : (hexDigit b).isSome → b < 0x80 :=
  forall_byte (P := fun b => (hexDigit b).isSome → b < 0x80) (by decide +kernel) b

theorem InLiteral.ascii {b : UInt8} (hb : InLiteral b) : b < 0x80 := by
  rcases hb with hdigit | rfl | rfl
  · exact hexDigit_ascii b hdigit
  · decide
  · decide

/-- What stands before the zone of a literal. -/
structure Body (s : Text) : Prop where
  bytes : ∀ b ∈ s, InLiteral b
  last : s.getLast? ≠ some 46

theorem Body.ascii {s : Text} (hs : Body s) : IsAscii s := fun b hb => (hs.bytes b hb).ascii

theorem Body.percent_ascii {s : Text} (hs : Body s) : IsAscii (s ++ [37]) := by
  intro b hb
  rcases List.mem_append.mp hb with hold | hmark
  · exact hs.ascii b hold
  · rw [List.mem_singleton.mp hmark]
    decide

theorem Body.append (front : Text) {s : Text} (hfront : ∀ b ∈ front, InLiteral b) (hs : Body s)
    (hne : s ≠ []) : Body (front ++ s) where
  bytes := by
    intro b hb
    rcases List.mem_append.mp hb with hold | hnew
    · exact hfront b hold
    · exact hs.bytes b hnew
  last := by
    rw [List.getLast?_append_of_ne_nil _ hne]
    exact hs.last

theorem InLiteral.lower {b : UInt8} (hb : InLiteral b) : InLiteral (lowerByte b) := by
  rcases hb with hdigit | rfl | rfl
  · left
    rwa [hexDigit_lowerByte]
  · exact .inr (.inl rfl)
  · exact .inr (.inr rfl)

theorem Body.lower {s : Text} (hs : Body s) : Body (s.map lowerByte) where
  bytes := by
    intro b hb
    obtain ⟨b, hmem, rfl⟩ := List.mem_map.mp hb
    exact (hs.bytes b hmem).lower
  last := by
    rw [List.getLast?_map]
    intro hdot
    obtain ⟨b, hlast, hb⟩ := Option.map_eq_some_iff.mp hdot
    rw [lowerByte_dot.mp hb] at hlast
    exact hs.last hlast

/-! ## What is read -/

theorem parseIPv4Fields_body {s : Text} {value digits : Nat} {fields ip : List UInt8}
    (hparse : parseIPv4Fields s value digits fields = some ip) : Body s := by
  induction s generalizing value digits fields with
  | nil => exact ⟨by simp, by simp⟩
  | cons c rest ih =>
      unfold parseIPv4Fields at hparse
      split at hparse
      next hdigit =>
        have hc : InLiteral c := .inl (by simp [hexDigit, hdigit])
        split at hparse
        next => cases hparse
        next =>
          dsimp only at hparse
          split at hparse
          next => cases hparse
          next =>
            have hrest := ih hparse
            by_cases hend : rest = []
            · subst hend
              refine ⟨by simpa using hc, ?_⟩
              rintro ⟨⟩
              revert hdigit
              decide
            · exact Body.append [c] (by simpa using hc) hrest hend
      next =>
        split at hparse
        next hdot =>
          split at hparse
          next => cases hparse
          next hmore =>
            split at hparse
            next => cases hparse
            next =>
              refine Body.append [c] ?_ (ih hparse) fun hend => hmore (.inr hend)
              simp [InLiteral, hdot]
        next => cases hparse

theorem parseGroup_digits {s rest : Text} {value count value' count' : Nat}
    (hparse : parseGroup s value count = some (value', count', rest)) :
    ∃ digits, s = digits ++ rest ∧ ∀ b ∈ digits, (hexDigit b).isSome := by
  induction s generalizing value count with
  | nil =>
      cases hparse
      exact ⟨[], rfl, by simp⟩
  | cons c tail ih =>
      unfold parseGroup at hparse
      split at hparse
      next =>
        cases hparse
        exact ⟨[], rfl, by simp⟩
      next d hdigit =>
        split at hparse
        next => cases hparse
        next =>
          obtain ⟨digits, rfl, hdigits⟩ := ih hparse
          refine ⟨c :: digits, rfl, ?_⟩
          rintro b (_ | ⟨_, hb⟩)
          · simp [hdigit]
          · exact hdigits b hb

/-- The rounds of `parseGroups`, one case for each way a group can be followed. -/
inductive ReadsGroups : Nat → Text → List UInt8 → Option Nat → Text × List UInt8 × Option Nat → Prop
  | full {s : Text} {ip : List UInt8} {ellipsis : Option Nat} :
      ReadsGroups 0 s ip ellipsis (s, ip, ellipsis)
  | last {fuel value count : Nat} {s : Text} {ip : List UInt8} {ellipsis : Option Nat}
      (hgroup : parseGroup s 0 0 = some (value, count + 1, [])) :
      ReadsGroups (fuel + 1) s ip ellipsis ([], ip ++ pair value, ellipsis)
  | quad {fuel value count : Nat} {s tail : Text} {ip bytes : List UInt8} {ellipsis : Option Nat}
      (hgroup : parseGroup s 0 0 = some (value, count + 1, 46 :: tail))
      (hplace : ¬(ellipsis = none ∧ ip.length ≠ 12)) (hroom : ¬16 < ip.length + 4)
      (hquad : parseIPv4Fields s 0 0 [] = some bytes) :
      ReadsGroups (fuel + 1) s ip ellipsis ([], ip ++ bytes, ellipsis)
  | ends {fuel value count : Nat} {s : Text} {ip : List UInt8}
      (hgroup : parseGroup s 0 0 = some (value, count + 1, [58, 58])) :
      ReadsGroups (fuel + 1) s ip none ([], ip ++ pair value, some (ip ++ pair value).length)
  | ellipsis {fuel value count : Nat} {s tail : Text} {ip : List UInt8}
      {result : Text × List UInt8 × Option Nat}
      (hgroup : parseGroup s 0 0 = some (value, count + 1, 58 :: 58 :: tail)) (htail : tail ≠ [])
      (hrest : ReadsGroups fuel tail (ip ++ pair value) (some (ip ++ pair value).length) result) :
      ReadsGroups (fuel + 1) s ip none result
  | colon {fuel value count : Nat} {s tail : Text} {ip : List UInt8} {ellipsis : Option Nat}
      {result : Text × List UInt8 × Option Nat}
      (hgroup : parseGroup s 0 0 = some (value, count + 1, 58 :: tail)) (htail : tail ≠ [])
      (hhead : tail.head? ≠ some 58)
      (hrest : ReadsGroups fuel tail (ip ++ pair value) ellipsis result) :
      ReadsGroups (fuel + 1) s ip ellipsis result

theorem readsGroups_of_parseGroups {fuel : Nat} {s : Text} {ip : List UInt8}
    {ellipsis : Option Nat} {result : Text × List UInt8 × Option Nat}
    (hparse : parseGroups fuel s ip ellipsis = some result) :
    ReadsGroups fuel s ip ellipsis result := by
  induction fuel generalizing s ip ellipsis with
  | zero =>
      cases hparse
      exact .full
  | succ fuel ih =>
      unfold parseGroups at hparse
      split at hparse
      next => cases hparse
      next => cases hparse
      next value count rest hcount hgroup =>
        obtain ⟨count, rfl⟩ := Nat.exists_eq_succ_of_ne_zero hcount
        dsimp only at hparse
        split at hparse
        next =>
          cases hparse
          exact .last hgroup
        next c tail =>
          split at hparse
          next hdot =>
            subst hdot
            split at hparse
            next => cases hparse
            next hplace =>
              split at hparse
              next => cases hparse
              next hroom =>
                obtain ⟨bytes, hquad, rfl⟩ := Option.map_eq_some_iff.mp hparse
                exact .quad hgroup hplace hroom hquad
          next =>
            split at hparse
            next => cases hparse
            next hcolon =>
              obtain rfl := Decidable.not_not.mp hcolon
              split at hparse
              next => cases hparse
              next more =>
                split at hparse
                next => cases hparse
                next hfirst =>
                  obtain rfl : ellipsis = none := by simpa using hfirst
                  split at hparse
                  next hend =>
                    subst hend
                    cases hparse
                    exact .ends hgroup
                  next hend => exact .ellipsis hgroup hend (ih hparse)
              next hend hhead =>
                refine .colon hgroup hend ?_ (ih hparse)
                cases tail with
                | nil => exact absurd rfl hend
                | cons d more =>
                    rintro ⟨⟩
                    exact hhead more rfl

theorem parseGroups_of_readsGroups {fuel : Nat} {s : Text} {ip : List UInt8}
    {ellipsis : Option Nat} {result : Text × List UInt8 × Option Nat}
    (hreads : ReadsGroups fuel s ip ellipsis result) :
    parseGroups fuel s ip ellipsis = some result := by
  induction hreads with
  | full => rfl
  | last hgroup => rw [parseGroups, hgroup]; rfl
  | quad hgroup hplace hroom hquad =>
      simp only [parseGroups, hgroup, if_true, if_neg hplace, if_neg hroom, hquad]
      rfl
  | ends hgroup => rw [parseGroups, hgroup]; rfl
  | ellipsis hgroup htail _ ih =>
      have hdot : (58 : UInt8) ≠ 46 := by decide
      simp only [parseGroups, hgroup, if_neg hdot, ne_eq, not_true, if_false, Option.isSome_none,
        Bool.false_eq_true, if_neg htail]
      exact ih
  | @colon _ _ _ _ tail _ _ _ hgroup htail hhead _ ih =>
      have hdot : (58 : UInt8) ≠ 46 := by decide
      simp only [parseGroups, hgroup, if_neg hdot, ne_eq, not_true, if_false]
      split
      next => exact absurd rfl htail
      next => exact absurd rfl hhead
      next => exact ih

theorem Body.of_digits {digits s : Text} (hdigits : ∀ b ∈ digits, (hexDigit b).isSome)
    (marks : Text) (hmarks : ∀ b ∈ marks, b = 58) (hs : Body s) (hne : s ≠ []) :
    Body (digits ++ (marks ++ s)) := by
  have hfront : ∀ b ∈ digits ++ marks, InLiteral b := by
    intro b hb
    rcases List.mem_append.mp hb with hdigit | hmark
    · exact .inl (hdigits b hdigit)
    · exact .inr (.inr (hmarks b hmark))
  rw [← List.append_assoc]
  exact Body.append _ hfront hs hne

theorem ReadsGroups.body {fuel : Nat} {s : Text} {ip : List UInt8} {ellipsis : Option Nat}
    {result : Text × List UInt8 × Option Nat} (hreads : ReadsGroups fuel s ip ellipsis result)
    (hresult : result.1 = []) : Body s := by
  induction hreads with
  | full =>
      dsimp only at hresult
      rw [hresult]
      exact ⟨by simp, by simp⟩
  | last hgroup =>
      obtain ⟨digits, rfl, hdigits⟩ := parseGroup_digits hgroup
      rw [List.append_nil]
      refine ⟨fun b hb => .inl (hdigits b hb), fun hlast => ?_⟩
      have hdot := hdigits 46 (List.mem_of_getLast? hlast)
      revert hdot
      decide
  | quad _ _ _ hquad => exact parseIPv4Fields_body hquad
  | ends hgroup =>
      obtain ⟨digits, rfl, hdigits⟩ := parseGroup_digits hgroup
      exact Body.of_digits hdigits [58] (by simp)
        ⟨by simp [InLiteral], by simp⟩ (by simp)
  | ellipsis hgroup htail _ ih =>
      obtain ⟨digits, rfl, hdigits⟩ := parseGroup_digits hgroup
      exact Body.of_digits hdigits [58, 58] (by simp) (ih hresult) htail
  | colon hgroup htail _ _ ih =>
      obtain ⟨digits, rfl, hdigits⟩ := parseGroup_digits hgroup
      exact Body.of_digits hdigits [58] (by simp) (ih hresult) htail

/-! ## Lower case -/

theorem parseIPv4Fields_lower (s : Text) (value digits : Nat) (fields : List UInt8) :
    parseIPv4Fields (s.map lowerByte) value digits fields =
      parseIPv4Fields s value digits fields := by
  induction s generalizing value digits fields with
  | nil => rfl
  | cons c rest ih =>
      by_cases hc : 65 ≤ c.toNat ∧ c.toNat ≤ 90
      · -- A letter stops the parser in either case.
        have hdigit : ∀ b : UInt8, 65 ≤ b.toNat → (48 ≤ b && b ≤ 57) = false ∧ b ≠ 46 := by
          intro b hb
          constructor
          · simp only [Bool.and_eq_false_iff, decide_eq_false_iff_not, UInt8.le_iff_toNat_le]
            right
            simp
            omega
          · rintro rfl
            revert hb
            decide
        obtain ⟨hno, hdot⟩ := hdigit c hc.1
        obtain ⟨hno', hdot'⟩ := hdigit (lowerByte c) (by rw [lowerByte_upper hc]; omega)
        rw [List.map_cons, parseIPv4Fields, parseIPv4Fields, hno, hno', if_neg hdot, if_neg hdot']
        rfl
      · simp only [List.map_cons, lowerByte_other hc, parseIPv4Fields, ih, List.map_eq_nil_iff]

theorem parseGroup_lower {s rest : Text} {value count value' count' : Nat}
    (hparse : parseGroup s value count = some (value', count', rest)) :
    parseGroup (s.map lowerByte) value count = some (value', count', rest.map lowerByte) := by
  induction s generalizing value count with
  | nil =>
      cases hparse
      rfl
  | cons c tail ih =>
      rw [List.map_cons]
      unfold parseGroup at hparse ⊢
      rw [hexDigit_lowerByte]
      split at hparse
      next =>
        cases hparse
        rfl
      next d hdigit =>
        split at hparse
        next => cases hparse
        next hfits =>
          rw [if_neg hfits]
          exact ih hparse

theorem ReadsGroups.lower {fuel : Nat} {s : Text} {ip : List UInt8} {ellipsis : Option Nat}
    {result : Text × List UInt8 × Option Nat} (hreads : ReadsGroups fuel s ip ellipsis result) :
    ReadsGroups fuel (s.map lowerByte) ip ellipsis (result.1.map lowerByte, result.2) := by
  induction hreads with
  | full => exact .full
  | last hgroup => exact .last (parseGroup_lower hgroup)
  | quad hgroup hplace hroom hquad =>
      refine .quad (parseGroup_lower hgroup) hplace hroom ?_
      rw [parseIPv4Fields_lower, hquad]
  | ends hgroup => exact .ends (parseGroup_lower hgroup)
  | ellipsis hgroup htail _ ih =>
      exact .ellipsis (parseGroup_lower hgroup) (by simpa using htail) ih
  | colon hgroup htail hhead _ ih =>
      refine .colon (parseGroup_lower hgroup) (by simpa using htail) ?_ ih
      rw [List.head?_map]
      intro hcolon
      obtain ⟨d, hd, hlower⟩ := Option.map_eq_some_iff.mp hcolon
      rw [lowerByte_eq_iff (by decide)] at hlower
      exact hhead (hlower ▸ hd)

/-! ## Literals -/

/-- The zone has no part in whether an IPv6 literal is accepted. -/
theorem parseIPv6_zoneText {body : Text} (hbody : 37 ∉ body) (zone : Text) :
    (parseIPv6 (body ++ zoneText zone)).isSome = (parseIPv6 body).isSome := by
  have hplain := parseIPv6_body hbody []
  rw [zoneText, if_pos rfl, List.append_nil] at hplain
  rw [parseIPv6_body hbody, hplain]
  split
  next => rfl
  next =>
    split
    next => simp
    next => rfl

/-- A percent sign with nothing behind it is refused. -/
theorem parseIPv6_percent {body : Text} (hbody : 37 ∉ body) : parseIPv6 (body ++ [37]) = none := by
  have htake : (body ++ [37]).takeWhile (· ≠ 37) = body := by
    have hall : ∀ b ∈ body, decide (b ≠ 37) = true := fun b hb =>
      decide_eq_true fun h => hbody (h ▸ hb)
    rw [List.takeWhile_append_of_pos hall]
    simp
  unfold parseIPv6
  simp only [htake]
  rw [if_pos (by simp)]

/-- The text of an IPv6 literal: what is before the zone, and the zone. -/
theorem exists_zoneText {s : Text} (hparse : (parseIPv6 s).isSome) :
    ∃ body zone, s = body ++ zoneText zone ∧ 37 ∉ body ∧ (parseIPv6 body).isSome := by
  by_cases hpercent : 37 ∈ s
  · obtain ⟨body, zone, rfl, hbody⟩ := List.eq_append_cons_of_mem hpercent
    have hzone : zone ≠ [] := by
      rintro rfl
      rw [parseIPv6_percent hbody] at hparse
      cases hparse
    have htext : 37 :: zone = zoneText zone := (if_neg hzone).symm
    rw [htext] at hparse ⊢
    rw [parseIPv6_zoneText hbody] at hparse
    exact ⟨body, zone, rfl, hbody, hparse⟩
  · exact ⟨s, [], by simp [zoneText], hpercent, hparse⟩

theorem lead_cases (body : Text) :
    (∃ rest, body = 58 :: 58 :: rest ∧ lead body = (rest, some 0)) ∨ lead body = (body, none) := by
  unfold lead
  split
  next rest => exact .inl ⟨rest, rfl, rfl⟩
  next => exact .inr rfl

theorem lead_lower (body : Text) :
    lead (body.map lowerByte) = ((lead body).1.map lowerByte, (lead body).2) := by
  have hcolon : lowerByte 58 = 58 := by decide
  rcases lead_cases body with ⟨rest, rfl, hlead⟩ | hlead
  · rw [hlead, List.map_cons, List.map_cons, hcolon]
    rfl
  · rcases lead_cases (body.map lowerByte) with ⟨rest, hmap, -⟩ | hlower
    · obtain ⟨c, tail, rfl, hc, htail⟩ := List.map_eq_cons_iff.mp hmap
      obtain ⟨d, more, rfl, hd, -⟩ := List.map_eq_cons_iff.mp htail
      rw [lowerByte_eq_iff (by decide)] at hc hd
      subst hc hd
      cases hlead
    · rw [hlower, hlead]

theorem parseIPv6_isSome_iff {body : Text} (hbody : 37 ∉ body) :
    (parseIPv6 body).isSome ↔ ((lead body).2.isSome ∧ (lead body).1 = []) ∨
      ∃ ip ellipsis bytes, ReadsGroups 8 (lead body).1 [] (lead body).2 ([], ip, ellipsis) ∧
        expandEllipsis ip ellipsis = some bytes := by
  have hparse := parseIPv6_body hbody []
  rw [zoneText, if_pos rfl, List.append_nil] at hparse
  rw [hparse]
  constructor
  · intro hsome
    split at hsome
    next hempty => exact .inl hempty
    next =>
      split at hsome
      next ip ellipsis hgroups =>
        rw [Option.isSome_map] at hsome
        obtain ⟨bytes, hbytes⟩ := Option.isSome_iff_exists.mp hsome
        exact .inr ⟨ip, ellipsis, bytes, readsGroups_of_parseGroups hgroups, hbytes⟩
      next => cases hsome
  · rintro (hempty | ⟨ip, ellipsis, bytes, hgroups, hbytes⟩)
    · rw [if_pos hempty]
      rfl
    · split
      next => rfl
      next => simp [parseGroups_of_readsGroups hgroups, hbytes]

theorem lowerByte_percent {body : Text} (hbody : 37 ∉ body) : 37 ∉ body.map lowerByte := by
  intro hmem
  obtain ⟨b, hb, hpercent⟩ := List.mem_map.mp hmem
  rw [lowerByte_eq_iff (by decide)] at hpercent
  exact hbody (hpercent ▸ hb)

theorem parseIPv6_lower {body : Text} (hbody : 37 ∉ body) (hparse : (parseIPv6 body).isSome) :
    (parseIPv6 (body.map lowerByte)).isSome := by
  rw [parseIPv6_isSome_iff (lowerByte_percent hbody), lead_lower]
  rcases (parseIPv6_isSome_iff hbody).mp hparse with ⟨hsome, hempty⟩ | ⟨ip, ellipsis, bytes, h⟩
  · exact .inl ⟨hsome, by rw [hempty]; rfl⟩
  · exact .inr ⟨ip, ellipsis, bytes, h.1.lower, h.2⟩

theorem parseIPv6_isBody {body : Text} (hbody : 37 ∉ body) (hparse : (parseIPv6 body).isSome) :
    Body body := by
  have hrest : Body (lead body).1 := by
    rcases (parseIPv6_isSome_iff hbody).mp hparse with ⟨-, hempty⟩ | ⟨ip, ellipsis, bytes, h, -⟩
    · rw [hempty]
      exact ⟨by simp, by simp⟩
    · exact h.body rfl
  rcases lead_cases body with ⟨rest, rfl, hlead⟩ | hlead
  · rw [hlead] at hrest
    by_cases hend : rest = []
    · subst hend
      exact ⟨by simp [InLiteral], by simp⟩
    · exact Body.append [58, 58] (by simp [InLiteral]) hrest hend
  · rwa [hlead] at hrest

/-- The first mark of a text tells the family; lower case keeps it. -/
theorem find_mark_lower (s : Text) :
    (s.map lowerByte).find? (fun c => c = 46 ∨ c = 58 ∨ c = 37) =
      s.find? fun c => c = 46 ∨ c = 58 ∨ c = 37 := by
  induction s with
  | nil => rfl
  | cons c rest ih =>
      by_cases hc : 65 ≤ c.toNat ∧ c.toNat ≤ 90
      · have hno : ∀ b : UInt8, 65 ≤ b.toNat → ¬(b = 46 ∨ b = 58 ∨ b = 37) := by
          rintro b hb (rfl | rfl | rfl) <;> revert hb <;> decide
        have hlower := hno (lowerByte c) (by rw [lowerByte_upper hc]; omega)
        rw [List.map_cons, List.find?_cons_of_neg (by simpa using hlower),
          List.find?_cons_of_neg (by simpa using hno c hc.1), ih]
      · rw [List.map_cons, lowerByte_other hc, List.find?_cons, List.find?_cons, ih]

theorem parse_of_mark6 {s : Text}
    (hmark : s.find? (fun c => c = 46 ∨ c = 58 ∨ c = 37) = some 58) : parse s = parseIPv6 s := by
  rw [parse, hmark]
  rfl

/-- The parts of a literal. In lower case they make a literal as well; where there
is a zone, it may be any other one. -/
theorem exists_literal {s : Text} (hparse : (parse s).isSome) :
    ∃ body zone, s = body ++ zoneText zone ∧ Body body ∧ (parse (body.map lowerByte)).isSome ∧
      (zone ≠ [] → ∀ zone', (parse (body.map lowerByte ++ zoneText zone')).isSome) := by
  unfold parse at hparse
  split at hparse
  next hmark =>
    rw [parseIPv4, Option.isSome_map] at hparse
    obtain ⟨ip, hip⟩ := Option.isSome_iff_exists.mp hparse
    refine ⟨s, [], by simp [zoneText], parseIPv4Fields_body hip, ?_, fun h => absurd rfl h⟩
    rw [parse, find_mark_lower, hmark]
    change (parseIPv4 (s.map lowerByte)).isSome
    rw [parseIPv4, parseIPv4Fields_lower, hip]
    rfl
  next hmark =>
    obtain ⟨body, zone, rfl, hpercent, hbody⟩ := exists_zoneText hparse
    -- The colon that tells the family stands before the zone.
    have hfirst : body.find? (fun c => c = 46 ∨ c = 58 ∨ c = 37) = some 58 := by
      rw [List.find?_append] at hmark
      cases hfind : body.find? (fun c => c = 46 ∨ c = 58 ∨ c = 37) with
      | some mark => rwa [hfind] at hmark
      | none =>
          obtain ⟨a, ha⟩ := Option.isSome_iff_exists.mp hbody
          have hcolon : 58 ∈ body :=
            List.count_pos_iff.mp (Nat.lt_of_lt_of_le Nat.two_pos (parseIPv6_colons ha))
          exact absurd (List.find?_eq_none.mp hfind 58 hcolon) (by simp)
    have hlower : ∀ zone', (parse (body.map lowerByte ++ zoneText zone')).isSome := by
      intro zone'
      rw [parse_of_mark6 (by rw [List.find?_append, find_mark_lower, hfirst]; rfl),
        parseIPv6_zoneText (lowerByte_percent hpercent)]
      exact parseIPv6_lower hpercent hbody
    refine ⟨body, zone, rfl, parseIPv6_isBody hpercent hbody, ?_, fun _ => hlower⟩
    simpa [zoneText] using hlower []
  next => cases hparse

end Addr

end Go
