import Mathlib.Data.BitVec
import SshGate.Go.Text

/-! # IP addresses and prefixes

The part of `net/netip` that routing decisions use: parsing, unmapping, zones
and prefix membership. `Prefix.Contains` never matches an address with a zone
or of the other family.
-/

namespace Go

/-- A valid `netip.Addr`; an IPv6 address without zone has the empty zone. -/
inductive Addr where
  | v4 (bits : BitVec 32)
  | v6 (bits : BitVec 128) (zone : Text)
  deriving Repr, DecidableEq

namespace Addr

def is4 : Addr → Bool
  | .v4 _ => true
  | .v6 _ _ => false

def hasZone : Addr → Bool
  | .v4 _ => false
  | .v6 _ zone => !zone.isEmpty

def withZone : Addr → Text → Addr
  | .v4 bits, _ => .v4 bits
  | .v6 bits _, zone => .v6 bits zone

/-- An IPv4-mapped IPv6 address, `::ffff:0:0/96`. -/
def is4In6 : Addr → Bool
  | .v4 _ => false
  | .v6 bits _ => bits >>> 32 == 0xFFFF#128

/-- The IPv4 address inside a mapped one; unmapping drops the zone. -/
def unmap : Addr → Addr
  | .v4 bits => .v4 bits
  | .v6 bits zone =>
      if bits >>> 32 = 0xFFFF#128 then .v4 (bits.setWidth 32) else .v6 bits zone

def ipv6Unspecified : Addr := .v6 0 []

/-- The sixteen-bit group `i` of an IPv6 address, counted from the left. -/
def hextet (bits : BitVec 128) (i : Nat) : Nat := (bits >>> (112 - 16 * i)).toNat % 65536

def isLoopback (a : Addr) : Bool :=
  match a.unmap with
  | .v4 bits => bits >>> 24 == 127#32
  | .v6 bits _ => bits == 1#128

def isLinkLocalUnicast (a : Addr) : Bool :=
  match a.unmap with
  | .v4 bits => bits >>> 16 == 0xA9FE#32
  | .v6 bits _ => bits >>> 118 == 0x3FA#128

/-- The number a list of bytes spells, most significant first. -/
def ofBytes (bytes : List UInt8) : Nat := bytes.foldl (fun n b => n * 256 + b.toNat) 0

/-- `netip.AddrFromSlice`. -/
def fromSlice (bytes : List UInt8) : Option Addr :=
  if bytes.length = 4 then some (.v4 (BitVec.ofNat 32 (ofBytes bytes)))
  else if bytes.length = 16 then some (.v6 (BitVec.ofNat 128 (ofBytes bytes)) [])
  else none

/-! ## Parsing -/

/-- The value of a hexadecimal digit of either case. -/
def hexDigit (c : UInt8) : Option Nat :=
  if 48 ≤ c && c ≤ 57 then some (c.toNat - 48)
  else if 97 ≤ c && c ≤ 102 then some (c.toNat - 87)
  else if 65 ≤ c && c ≤ 70 then some (c.toNat - 55)
  else none

/-- `parseIPv4Fields`: dotted decimal without leading zeros. `value` and
`digits` describe the field being read. -/
def parseIPv4Fields : Text → (value digits : Nat) → (fields : List UInt8) → Option (List UInt8)
  | [], value, _, fields =>
      if fields.length < 3 then none else some (fields ++ [UInt8.ofNat value])
  | c :: rest, value, digits, fields =>
      if 48 ≤ c && c ≤ 57 then
        if digits = 1 ∧ value = 0 then none
        else
          let value := value * 10 + (c.toNat - 48)
          if 255 < value then none else parseIPv4Fields rest value (digits + 1) fields
      else if c = 46 then
        -- No digit since the start or the last dot, or nothing after this dot.
        if digits = 0 ∨ rest = [] then none
        else if fields.length = 3 then none
        else parseIPv4Fields rest 0 0 (fields ++ [UInt8.ofNat value])
      else none

/-- The leading hexadecimal digits of a group: value, count and the rest. A
fifth digit is an error. -/
def parseGroup : Text → (value count : Nat) → Option (Nat × Nat × Text)
  | [], value, count => some (value, count, [])
  | c :: rest, value, count =>
      match hexDigit c with
      | none => some (value, count, c :: rest)
      | some d => if 3 < count then none else parseGroup rest (value * 16 + d) (count + 1)

/-- The group loop of `parseIPv6`: the unread text, the bytes read and the
position of the ellipsis. `fuel` is the number of groups that still fit. -/
def parseGroups : Nat → Text → List UInt8 → Option Nat →
    Option (Text × List UInt8 × Option Nat)
  | 0, s, ip, ellipsis => some (s, ip, ellipsis)
  | fuel + 1, s, ip, ellipsis =>
      match parseGroup s 0 0 with
      | none => none
      | some (_, 0, _) => none
      | some (value, _, rest) =>
          let ip' := ip ++ [UInt8.ofNat (value / 256), UInt8.ofNat value]
          match rest with
          | [] => some ([], ip', ellipsis)
          | c :: rest' =>
              if c = 46 then
                if ellipsis = none ∧ ip.length ≠ 12 then none
                else if 16 < ip.length + 4 then none
                else (parseIPv4Fields s 0 0 []).map fun tail => ([], ip ++ tail, ellipsis)
              else if c ≠ 58 then none
              else
                match rest' with
                | [] => none
                | 58 :: rest'' =>
                    if ellipsis.isSome then none
                    else if rest'' = [] then some ([], ip', some ip'.length)
                    else parseGroups fuel rest'' ip' (some ip'.length)
                | _ => parseGroups fuel rest' ip' ellipsis

/-- Fill the ellipsis with zero bytes; it must stand for at least one group. -/
def expandEllipsis (ip : List UInt8) : Option Nat → Option (List UInt8)
  | none => if ip.length < 16 then none else some ip
  | some at' =>
      if ip.length < 16 then
        some (ip.take at' ++ List.replicate (16 - ip.length) 0 ++ ip.drop at')
      else none

def parseIPv6 (s : Text) : Option Addr :=
  let body := s.takeWhile (· ≠ 37)
  let zone := (s.drop body.length).drop 1
  if body.length < s.length ∧ zone = [] then none
  else
    let (rest, ellipsis) : Text × Option Nat :=
      match body with
      | 58 :: 58 :: rest => (rest, some 0)
      | _ => (body, none)
    if ellipsis.isSome ∧ rest = [] then some (ipv6Unspecified.withZone zone)
    else
      match parseGroups 8 rest [] ellipsis with
      | some ([], ip, ellipsis) =>
          (expandEllipsis ip ellipsis).map fun ip => .v6 (BitVec.ofNat 128 (ofBytes ip)) zone
      | _ => none

def parseIPv4 (s : Text) : Option Addr :=
  (parseIPv4Fields s 0 0 []).map fun ip => .v4 (BitVec.ofNat 32 (ofBytes ip))

/-- `netip.ParseAddr`: the first of `.`, `:` and `%` tells the family. -/
def parse (s : Text) : Option Addr :=
  match s.find? fun c => c = 46 ∨ c = 58 ∨ c = 37 with
  | some 46 => parseIPv4 s
  | some 58 => parseIPv6 s
  | _ => none

/-! ## Printing -/

def hexDigits (n : Nat) : Text := (Nat.toDigits 16 n).map fun c => UInt8.ofNat c.toNat

def string4 (bits : BitVec 32) : Text :=
  let octet (shift : Nat) : Text := Text.digits ((bits >>> shift).toNat % 256)
  octet 24 ++ str "." ++ octet 16 ++ str "." ++ octet 8 ++ str "." ++ octet 0

/-- The longest run of at least two zero groups, the first of equal length:
its start and end. -/
def zeroRun (groups : List Nat) : Option (Nat × Nat) :=
  (List.range 8).foldl (fun best i =>
    let length := ((groups.drop i).takeWhile (· = 0)).length
    let bestLength := (best.map fun run => run.2 - run.1).getD 0
    if 2 ≤ length ∧ bestLength < length then some (i, i + length) else best) none

def string6 (bits : BitVec 128) : Text :=
  let groups := (List.range 8).map (hextet bits)
  let join (gs : List Nat) : Text := (str ":").intercalate (gs.map hexDigits)
  match zeroRun groups with
  | none => join groups
  | some (start, stop) => join (groups.take start) ++ str "::" ++ join (groups.drop stop)

/-- `Addr.String`. -/
def string : Addr → Text
  | .v4 bits => string4 bits
  | .v6 bits zone =>
      (if bits >>> 32 = 0xFFFF#128 then str "::ffff:" ++ string4 (bits.setWidth 32)
        else string6 bits) ++
      (if zone = [] then [] else str "%" ++ zone)

/-- `net.JoinHostPort`: a host with a colon is written in brackets. -/
def joinHostPort (host port : Text) : Text :=
  if 58 ∈ host then str "[" ++ host ++ str "]:" ++ port
  else host ++ str ":" ++ port

end Addr

/-- The number of bits of an address of this family. -/
def Addr.bitLen : Addr → Nat
  | .v4 _ => 32
  | .v6 _ _ => 128

/-- A valid `netip.Prefix`: the length fits the family and there is no zone.
The host bits of `addr` are kept as written. -/
structure Prefix where
  addr : Addr
  bits : Nat
  fits : bits ≤ addr.bitLen
  zoneless : addr.hasZone = false
  deriving DecidableEq

namespace Prefix

/-- `Prefix.Contains`. -/
def contains (p : Prefix) (ip : Addr) : Bool :=
  match p.addr, ip with
  | .v4 net, .v4 a => (a ^^^ net) >>> (32 - p.bits) == 0
  | .v6 net _, .v6 a zone => zone.isEmpty && (a ^^^ net) >>> (128 - p.bits) == 0
  | _, _ => false

/-- `netip.ParsePrefix`. -/
def parse (s : Text) : Option Prefix :=
  match (s.reverse.idxOf? 47).map (fun i => s.length - 1 - i) with
  | none => none
  | some slash =>
      match Addr.parse (s.take slash) with
      | none => none
      | some addr =>
          let length := s.drop (slash + 1)
          if hzone : addr.hasZone = false then
            -- A sign or a leading zero is refused before the number is read.
            if 1 < length.length ∧ length.head? = some 48 then none
            else
              match Text.parseDigits length with
              | none => none
              | some bits =>
                  if hbits : bits ≤ addr.bitLen then some ⟨addr, bits, hbits, hzone⟩ else none
          else none

theorem shiftRight_xor_eq_zero {w : Nat} (a b : BitVec w) (k : Nat) :
    (a ^^^ b) >>> k = 0 ↔ a.toNat / 2 ^ k = b.toNat / 2 ^ k := by
  rw [BitVec.ushiftRight_xor_distrib]
  constructor
  · intro h
    have heq : a >>> k = b >>> k := by
      simpa using BitVec.xor_eq_zero_iff.mp h
    simpa [BitVec.toNat_ushiftRight, Nat.shiftRight_eq_div_pow] using
      congrArg BitVec.toNat heq
  · intro h
    have heq : a >>> k = b >>> k := by
      apply BitVec.eq_of_toNat_eq
      simpa [BitVec.toNat_ushiftRight, Nat.shiftRight_eq_div_pow] using h
    rw [heq]
    exact BitVec.xor_self

/-- Membership in an IPv4 prefix is equality of the leading bits. -/
theorem contains_v4 {net a : BitVec 32} {bits : Nat} {hfits hzone} :
    (⟨.v4 net, bits, hfits, hzone⟩ : Prefix).contains (.v4 a) = true ↔
      a.toNat / 2 ^ (32 - bits) = net.toNat / 2 ^ (32 - bits) := by
  simp only [contains, beq_iff_eq]
  exact shiftRight_xor_eq_zero a net (32 - bits)

/-- Membership in an IPv6 prefix is equality of the leading bits; an address
with a zone is in none. -/
theorem contains_v6 {net a : BitVec 128} {bits : Nat} {zone zone' : Text} {hfits hzone} :
    (⟨.v6 net zone', bits, hfits, hzone⟩ : Prefix).contains (.v6 a zone) = true ↔
      zone = [] ∧ a.toNat / 2 ^ (128 - bits) = net.toNat / 2 ^ (128 - bits) := by
  simp only [contains, Bool.and_eq_true, List.isEmpty_iff, beq_iff_eq]
  exact and_congr_right fun _ => shiftRight_xor_eq_zero a net (128 - bits)

end Prefix

end Go
