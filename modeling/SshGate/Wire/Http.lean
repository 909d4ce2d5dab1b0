import SshGate.Go.Utf8
import SshGate.Wire.Reader

/-! # HTTP/1.1 requests

A request as the recipient reads it: the request line, header lines up to an
empty line, and as many bytes of body as `Content-Length` says. A header name
is a token, so no blank stands before its colon. A message with a transfer
coding is not read.
-/

namespace Wire

open Go

/-! ## Lines -/

/-- The text before the first line end and what follows it. -/
def cutLine : Text → Option (Text × Text)
  | [] => none
  | 13 :: 10 :: rest => some ([], rest)
  | b :: rest => (cutLine rest).map fun (line, more) => (b :: line, more)

def crlf : Text := [13, 10]

theorem cutLine_append {line : Text} (hline : 13 ∉ line) (rest : Text) :
    cutLine (line ++ (crlf ++ rest)) = some (line, rest) := by
  induction line with
  | nil => rfl
  | cons b more ih =>
      rw [List.mem_cons, not_or] at hline
      rw [List.cons_append, cutLine, ih hline.2]
      · rfl
      · intro _ hb
        exact absurd hb.symm hline.1

theorem cutLine_length {bytes line rest : Text} (hcut : cutLine bytes = some (line, rest)) :
    rest.length < bytes.length := by
  induction bytes using cutLine.induct generalizing line rest with
  | case1 => cases hcut
  | case2 more =>
      cases hcut
      simp only [List.length_cons]
      omega
  | case3 b more hb ih =>
      rw [cutLine] at hcut
      · obtain ⟨⟨line', rest'⟩, hmore, hresult⟩ := Option.map_eq_some_iff.mp hcut
        cases hresult
        have hless := ih hmore
        rw [List.length_cons]
        omega
      · exact hb

/-! ## Headers -/

def isTokenByte (b : UInt8) : Bool :=
  65 ≤ b && b ≤ 90 || 97 ≤ b && b ≤ 122 || 48 ≤ b && b ≤ 57 ||
    [33, 35, 36, 37, 38, 39, 42, 43, 45, 46, 94, 95, 96, 124, 126].contains b

theorem isTokenByte_ascii {b : UInt8} (hb : isTokenByte b = true) : b < 0x80 := by
  have hall : ∀ i : Fin 256, isTokenByte (UInt8.ofNat i) = true → UInt8.ofNat i < 0x80 := by
    decide +kernel
  simpa using hall ⟨b.toNat, b.toNat_lt⟩ (by simpa using hb)

def IsToken (s : Text) : Prop := s ≠ [] ∧ ∀ b ∈ s, isTokenByte b = true

instance (s : Text) : Decidable (IsToken s) :=
  decidable_of_iff (s ≠ [] ∧ s.all isTokenByte = true) (by rw [List.all_eq_true]; rfl)

theorem IsToken.not_mem {s : Text} (hs : IsToken s) {b : UInt8} (hb : isTokenByte b = false) :
    b ∉ s := by
  intro hmem
  have htoken := hs.2 b hmem
  rw [hb] at htoken
  cases htoken

/-- A name is a token in any letter case. -/
theorem IsToken.of_lower {s : Text} (hs : IsToken (s.map Text.lowerByte)) : IsToken s := by
  constructor
  · rintro rfl
    exact hs.1 rfl
  · intro b hb
    have htoken := hs.2 _ (List.mem_map_of_mem hb)
    unfold Text.lowerByte at htoken
    split at htoken
    next hletter => simp [isTokenByte, hletter]
    next => exact htoken

structure Header where
  name : Text
  value : Text
  deriving Repr, DecidableEq

def isBlank (b : UInt8) : Bool := b == 32 || b == 9

/-- Remove the blanks around a value. -/
def trimBlanks (s : Text) : Text := ((s.dropWhile isBlank).reverse.dropWhile isBlank).reverse

/-- A value that stands in one line and has no blanks around it. -/
structure IsValue (value : Text) : Prop where
  no_cr : 13 ∉ value
  no_lf : 10 ∉ value
  trimmed : trimBlanks value = value

instance (value : Text) : Decidable (IsValue value) :=
  decidable_of_iff (13 ∉ value ∧ 10 ∉ value ∧ trimBlanks value = value)
    ⟨fun h => ⟨h.1, h.2.1, h.2.2⟩, fun h => ⟨h.no_cr, h.no_lf, h.trimmed⟩⟩

theorem trimBlanks_of_forall {s : Text} (hs : ∀ b ∈ s, isBlank b = false) : trimBlanks s = s := by
  have hkeep : ∀ t : Text, (∀ b ∈ t, isBlank b = false) → t.dropWhile isBlank = t := by
    intro t ht
    cases t with
    | nil => rfl
    | cons b rest => rw [List.dropWhile_cons, if_neg (by simp [ht b List.mem_cons_self])]
  have hreverse : ∀ b ∈ s.reverse, isBlank b = false := fun b hb =>
    hs b (List.mem_reverse.mp hb)
  rw [trimBlanks, hkeep s hs, hkeep s.reverse hreverse, List.reverse_reverse]

/-- A number is a value. -/
theorem isValue_digits (n : Nat) : IsValue (Text.digits n) := by
  have hdigits := Text.isDigit_digits n
  refine ⟨?_, ?_, trimBlanks_of_forall ?_⟩
  · intro hmem
    exact absurd (hdigits 13 hmem).1 (by decide)
  · intro hmem
    exact absurd (hdigits 10 hmem).1 (by decide)
  · intro b hb
    have hlow := (hdigits b hb).1
    rw [UInt8.le_iff_toNat_le] at hlow
    rw [isBlank, Bool.or_eq_false_iff, beq_eq_false_iff_ne, beq_eq_false_iff_ne]
    constructor <;> rintro rfl <;> exact absurd hlow (by decide)

def parseHeader (line : Text) : Option Header :=
  match line.cut 58 with
  | none => none
  | some (name, value) =>
      if IsToken name ∧ 13 ∉ value ∧ 10 ∉ value then some ⟨name, trimBlanks value⟩ else none

/-- The header lines, which an empty line ends. -/
def headerReader : Reader Header where
  next bytes :=
    match cutLine bytes with
    | none => none
    | some ([], rest) => some (.done rest)
    | some (b :: line, rest) => (parseHeader (b :: line)).map fun header => .item header rest
  shrinks {bytes rest header} hnext := by
    split at hnext
    next => cases hnext
    next => cases hnext
    next hcut =>
      obtain ⟨header', -, hitem⟩ := Option.map_eq_some_iff.mp hnext
      cases hitem
      exact cutLine_length hcut

def writeHeader (header : Header) : Text :=
  header.name ++ str ": " ++ header.value ++ crlf

/-- A header that is read back as it is written. -/
structure WellFormed (header : Header) : Prop where
  name : IsToken header.name
  value : IsValue header.value

theorem parseHeader_line {header : Header} (hheader : WellFormed header) :
    parseHeader (header.name ++ 58 :: 32 :: header.value) = some header := by
  obtain ⟨hcr, hlf, htrimmed⟩ := hheader.value
  have hblank : trimBlanks (32 :: header.value) = header.value := htrimmed
  rw [parseHeader, Text.cut_append_cons _ (hheader.name.not_mem (by decide))]
  dsimp only
  rw [if_pos ⟨hheader.name, by simp [hcr], by simp [hlf]⟩, hblank]

theorem headerReader_next_write {header : Header} (hheader : WellFormed header) (rest : Text) :
    headerReader.next (writeHeader header ++ rest) = some (.item header rest) := by
  obtain ⟨b, name, hname⟩ := List.exists_cons_of_ne_nil hheader.name.1
  have hline : 13 ∉ header.name ++ 58 :: 32 :: header.value := by
    simp [hheader.name.not_mem, hheader.value.no_cr, isTokenByte]
  have hshape : writeHeader header ++ rest =
      (header.name ++ 58 :: 32 :: header.value) ++ (crlf ++ rest) := by
    have hcolon : str ": " = [58, 32] := by decide
    rw [writeHeader, hcolon]
    simp
  have hparse := parseHeader_line hheader
  rw [hname, List.cons_append] at hline hparse hshape
  simp only [headerReader]
  rw [hshape, cutLine_append hline]
  dsimp only
  rw [hparse]
  rfl

/-- Header lines up to the empty line are read back as the headers. -/
theorem headerReader_items_write {headers : List Header}
    (hheaders : ∀ header ∈ headers, WellFormed header) (rest : Text) :
    headerReader.items (headers.flatMap writeHeader ++ (crlf ++ rest)) =
      some (headers, rest) := by
  have hend : headerReader.items (crlf ++ rest) = some ([], rest) :=
    Reader.items_done rfl
  rw [Reader.items_flatMap fun header hheader => headerReader_next_write (hheaders header hheader),
    hend]
  simp

theorem headerReader_items_token {bytes rest : Text} {headers : List Header}
    (hitems : headerReader.items bytes = some (headers, rest)) :
    ∀ header ∈ headers, IsToken header.name := by
  refine Reader.forall_mem_items (P := fun header => IsToken header.name) ?_ hitems
  intro bytes rest header hnext
  simp only [headerReader] at hnext
  split at hnext
  next => cases hnext
  next => cases hnext
  next =>
    obtain ⟨header', hparse, hitem⟩ := Option.map_eq_some_iff.mp hnext
    cases hitem
    unfold parseHeader at hparse
    split at hparse
    next => cases hparse
    next =>
      split at hparse
      next hvalid =>
        cases hparse
        exact hvalid.1
      next => cases hparse

/-- The values of the headers with this name, which is in lower case. -/
def valuesOf (name : Text) (headers : List Header) : List Text :=
  (headers.filter fun header => header.name.map Text.lowerByte = name).map Header.value

@[simp]
theorem valuesOf_append (name : Text) (front back : List Header) :
    valuesOf name (front ++ back) = valuesOf name front ++ valuesOf name back := by
  simp [valuesOf]

theorem valuesOf_singleton (name : Text) (header : Header) :
    valuesOf name [header] =
      if header.name.map Text.lowerByte = name then [header.value] else [] := by
  by_cases h : header.name.map Text.lowerByte = name
  · simp [valuesOf, h]
  · simp [valuesOf, h]

/-! ## Requests -/

structure Message where
  method : Text
  target : Text
  headers : List Header
  body : Text
  deriving Repr, DecidableEq

/-- A target is not empty and has neither blanks nor control characters. -/
def IsTarget (target : Text) : Prop := target ≠ [] ∧ ∀ b ∈ target, 32 < b ∧ b ≠ 127

instance (target : Text) : Decidable (IsTarget target) :=
  decidable_of_iff (target ≠ [] ∧ target.all (fun b => 32 < b ∧ b ≠ 127) = true)
    (by simp only [List.all_eq_true, decide_eq_true_eq]; rfl)

def parseRequestLine (line : Text) : Option (Text × Text) :=
  match line.cut 32 with
  | none => none
  | some (method, rest) =>
      match rest.cut 32 with
      | none => none
      | some (target, version) =>
          if IsToken method ∧ IsTarget target ∧ version = str "HTTP/1.1" then
            some (method, target)
          else none

/-- The number of bytes of the body; two lengths are an error. -/
def bodyLength (headers : List Header) : Option Nat :=
  if valuesOf (str "transfer-encoding") headers ≠ [] then none
  else
    match valuesOf (str "content-length") headers with
    | [] => some 0
    | [value] => value.parseDigits
    | _ => none

/-- The request at the front of a byte stream and what follows it. -/
def parseRequest (bytes : Text) : Option (Message × Text) := do
  let (line, rest) ← cutLine bytes
  let (method, target) ← parseRequestLine line
  let (headers, rest) ← headerReader.items rest
  let size ← bodyLength headers
  if rest.length < size then none
  else some (⟨method, target, headers, rest.take size⟩, rest.drop size)

def writeHead (method target : Text) (headers : List Header) : Text :=
  method ++ str " " ++ target ++ str " HTTP/1.1\r\n" ++ headers.flatMap writeHeader ++ crlf

theorem parseRequestLine_write {method target : Text} (hmethod : IsToken method)
    (htarget : IsTarget target) :
    parseRequestLine (method ++ 32 :: (target ++ 32 :: str "HTTP/1.1")) =
      some (method, target) := by
  have hblank : 32 ∉ target := fun hmem => absurd (htarget.2 32 hmem).1 (by decide)
  rw [parseRequestLine, Text.cut_append_cons _ (hmethod.not_mem (by decide))]
  dsimp only
  rw [Text.cut_append_cons _ hblank]
  dsimp only
  rw [if_pos ⟨hmethod, htarget, rfl⟩]

/-- A written request is read back, with what follows it left over. -/
theorem parseRequest_write {method target : Text} {headers : List Header} {body : Text}
    (hmethod : IsToken method) (htarget : IsTarget target)
    (hheaders : ∀ header ∈ headers, WellFormed header)
    (hlength : bodyLength headers = some body.length) (rest : Text) :
    parseRequest (writeHead method target headers ++ (body ++ rest)) =
      some (⟨method, target, headers, body⟩, rest) := by
  have hshape : writeHead method target headers ++ (body ++ rest) =
      (method ++ 32 :: (target ++ 32 :: str "HTTP/1.1")) ++
        (crlf ++ (headers.flatMap writeHeader ++ (crlf ++ (body ++ rest)))) := by
    have hblank : str " " = [32] := by decide
    have hversion : str " HTTP/1.1\r\n" = 32 :: (str "HTTP/1.1" ++ crlf) := by decide
    rw [writeHead, hblank, hversion]
    simp
  have hline : 13 ∉ method ++ 32 :: (target ++ 32 :: str "HTTP/1.1") := by
    have hcr : 13 ∉ target := fun hmem => absurd (htarget.2 13 hmem).1 (by decide)
    have hversion : 13 ∉ str "HTTP/1.1" := by decide
    simp [hmethod.not_mem, hcr, hversion, isTokenByte]
  rw [parseRequest, hshape, cutLine_append hline]
  simp only [Option.bind_eq_bind, Option.bind_some, parseRequestLine_write hmethod htarget,
    headerReader_items_write hheaders, hlength]
  rw [if_neg (by simp)]
  simp

theorem parseRequest_token {bytes rest : Text} {message : Message}
    (hparse : parseRequest bytes = some (message, rest)) :
    ∀ header ∈ message.headers, IsToken header.name := by
  simp only [parseRequest, Option.bind_eq_bind, Option.bind_eq_some_iff] at hparse
  obtain ⟨line, -, requestLine, -, headers, hitems, size, -, hresult⟩ := hparse
  split at hresult
  next => cases hresult
  next =>
    cases hresult
    exact headerReader_items_token hitems

end Wire
