import SshGate.Wire.Http

/-! # Forwarding HTTP requests

`handleHTTP` forwards one absolute-form request: it rewrites the request line,
copies the header map and sends the body with a `Content-Length`, after reading
it to its end where it was framed in another way. What it writes is compared
with the request the upstream reads.
-/

namespace SshGate.Http

open Go Wire

/-! ## The handler -/

/-- What the handler reads of the URL: `Hostname()`, `Port()`, `Host` and
`RequestURI()`. -/
structure Url where
  hostname : Text
  port : Text
  host : Text
  requestURI : Text
  deriving Repr, DecidableEq

/-- The decoded body as its reader gives it: bytes, then the end or an error. -/
structure Body where
  data : Text
  failed : Bool
  deriving Repr, DecidableEq

/-- An `http.Request`. The header map is in the order in which `range` visits
it. -/
structure Request where
  method : Text
  url : Url
  host : Text
  header : List (Text × List Text)
  transferEncoding : List Text
  contentLength : Int
  body : Body
  deriving Repr, DecidableEq

inductive Status where
  | badRequest
  | requestEntityTooLarge
  | requestHeaderFieldsTooLarge
  | badGateway
  | gatewayTimeout
  deriving Repr, DecidableEq

def Status.code : Status → Nat
  | .badRequest => 400
  | .requestEntityTooLarge => 413
  | .requestHeaderFieldsTooLarge => 431
  | .badGateway => 502
  | .gatewayTimeout => 504

/-- `http.StatusText`. -/
def Status.text : Status → Text
  | .badRequest => str "Bad Request"
  | .requestEntityTooLarge => str "Request Entity Too Large"
  | .requestHeaderFieldsTooLarge => str "Request Header Fields Too Large"
  | .badGateway => str "Bad Gateway"
  | .gatewayTimeout => str "Gateway Timeout"

def writeHTTPErr (status : Status) (msg : Text) : Text :=
  let body := msg ++ str "\r\n"
  str "HTTP/1.1 " ++ Text.digits status.code ++ str " " ++ status.text ++
    str "\r\nContent-Length: " ++ Text.digits body.length ++
    str "\r\nConnection: close\r\n\r\n" ++ body

/-- What the handler does with its two connections. -/
inductive Step where
  | client (bytes : Text)
  | upstream (bytes : Text)
  /-- `io.Copy(client, upstream)` -/
  | relayResponse
  deriving Repr, DecidableEq

/-- The other side: what `openUpstream` gives, with the `Timeout()` of its error,
and whether the upstream takes the body. -/
structure Peer where
  dialError : (host : Text) → (port : Int) → Option Bool
  takesBody : Bool

def statusForDialErr (timeout : Bool) : Status :=
  if timeout then .gatewayTimeout else .badGateway

/-- `32 << 20` -/
def maxReframedBody : Nat := 33554432

/-- `io.ReadAll(io.LimitReader(body, limit))`. -/
def readLimited (body : Body) (limit : Nat) : Option Text :=
  if body.data.length < limit ∧ body.failed then none else some (body.data.take limit)

def targetPort (u : Url) : Option Int :=
  if u.port = [] then some 80
  else
    match u.port.atoi with
    | none => none
    | some port => if port < 1 ∨ 65535 < port then none else some port

/-- The names the header loop skips. -/
def skippedNames : List Text :=
  [str "host", str "connection", str "proxy-connection", str "proxy-authorization",
    str "transfer-encoding"]

section Handler

variable (lower : Nat → Nat)

/-- The header loop. -/
def headerLines : List (Text × List Text) → Text
  | [] => []
  | (k, vs) :: rest =>
      (if skippedNames.contains (k.toLower lower) then []
        else vs.flatMap fun v => k ++ str ": " ++ v ++ str "\r\n") ++
        headerLines rest

/-- The head of the request; `body` is the one that was read to be framed anew. -/
def requestHead (req : Request) (body : Option Text) : Text :=
  req.method ++ str " " ++ req.url.requestURI ++ str " HTTP/1.1\r\n" ++
    str "Host: " ++ (if req.host = [] then req.url.host else req.host) ++ str "\r\n" ++
    (match body with
      | some b => str "Content-Length: " ++ Text.digits b.length ++ str "\r\n"
      | none => []) ++
    headerLines lower req.header ++
    str "Connection: close\r\n\r\n"

/-- What follows the body. -/
def afterBody (sent : Bool) : Step :=
  if sent then .relayResponse
  else .client (writeHTTPErr .badGateway (str "Body transfer failed"))

/-- `handleHTTP` once the upstream connection is open. -/
def forwardRequest (peer : Peer) (req : Request) : List Step :=
  let chunked := req.transferEncoding ≠ []
  let closeDelimited := req.contentLength < 0
  let hasBody := req.contentLength ≠ 0
  if hasBody ∧ (chunked ∨ closeDelimited) then
    match readLimited req.body (maxReframedBody + 1) with
    | none => [.client (writeHTTPErr .requestEntityTooLarge (str "Body read failed"))]
    | some b =>
        if maxReframedBody < b.length then
          [.client (writeHTTPErr .requestEntityTooLarge (str "Body too large"))]
        else
          [.upstream (requestHead lower req (some b)), .upstream b, afterBody peer.takesBody]
  else if hasBody then
    [.upstream (requestHead lower req none), .upstream req.body.data,
      afterBody (peer.takesBody && !req.body.failed)]
  else [.upstream (requestHead lower req none), .relayResponse]

def handleHTTP (peer : Peer) (req : Request) : List Step :=
  match targetPort req.url with
  | none => [.client (writeHTTPErr .badRequest (str "Bad target port"))]
  | some port =>
      if req.transferEncoding ≠ [] ∧ req.transferEncoding ≠ [str "chunked"] then
        [.client (writeHTTPErr .badRequest (str "Unsupported Transfer-Encoding"))]
      else
        match peer.dialError req.url.hostname port with
        | some timeout => [.client (writeHTTPErr (statusForDialErr timeout) (str "Connect failed"))]
        | none => forwardRequest lower peer req

end Handler

/-- What is written to the upstream. One that does not take the body gets only a
part of it. -/
def upstreamBytes : List Step → Text
  | [] => []
  | .upstream bytes :: rest => bytes ++ upstreamBytes rest
  | .client _ :: rest => upstreamBytes rest
  | .relayResponse :: rest => upstreamBytes rest

/-! ## What `http.ReadRequest` gives -/

/-- The lines of a header map. -/
def headerFields (header : List (Text × List Text)) : List Header :=
  header.flatMap fun (k, vs) => vs.map fun v => ⟨k, v⟩

/-- A name as `net/textproto` takes it: token characters, and blanks that keep it
from being put into canonical form. -/
def IsMimeName (name : Text) : Prop := name ≠ [] ∧ ∀ b ∈ name, isTokenByte b ∨ b = 32

instance (name : Text) : Decidable (IsMimeName name) :=
  decidable_of_iff (name ≠ [] ∧ name.all (fun b => isTokenByte b ∨ b = 32) = true)
    (by simp only [List.all_eq_true, decide_eq_true_eq]; rfl)

/-- The three framings of a request body. -/
inductive Framing (req : Request) : Prop
  | chunked (hencoding : req.transferEncoding = [str "chunked"])
      (hlength : req.contentLength = -1)
      (hvalues : valuesOf (str "content-length") (headerFields req.header) = [])
  | sized {value : Text} {size : Nat} (hencoding : req.transferEncoding = [])
      (hvalues : valuesOf (str "content-length") (headerFields req.header) = [value])
      (hsize : value.parseDigits = some size) (hlength : req.contentLength = size)
      (hdata : req.body.failed = false → req.body.data.length = size)
  | absent (hencoding : req.transferEncoding = []) (hlength : req.contentLength = 0)
      (hvalues : valuesOf (str "content-length") (headerFields req.header) = [])
      (hdata : req.body.data = [])

/-- An absolute-form request with a host, as `http.ReadRequest` gives it. The blanks
around a header value were cut off when it was read. -/
structure Parsed (req : Request) : Prop where
  method : IsToken req.method
  target : IsTarget req.url.requestURI
  originForm : req.url.requestURI.head? = some 47
  host : req.host = req.url.host ∧ req.url.host ≠ []
  hostValue : IsValue req.host
  names : ∀ entry ∈ req.header, IsMimeName entry.1
  values : ∀ entry ∈ req.header, ∀ value ∈ entry.2, IsValue value
  framing : Framing req

/-! ## What the upstream has to read -/

/-- The names whose headers are described one by one. -/
def framingNames : List Text :=
  [str "host", str "connection", str "transfer-encoding", str "content-length"]

def isOther (header : Header) : Bool := !framingNames.contains (header.name.map Text.lowerByte)

/-- The other headers of the map, without those meant for the proxy. -/
def passedFields (req : Request) : List Header :=
  (headerFields req.header).filter fun header => isOther header && !List.contains
    [str "proxy-connection", str "proxy-authorization"] (header.name.map Text.lowerByte)

/-- The message is the request. -/
structure Carries (req : Request) (message : Message) : Prop where
  method : message.method = req.method
  target : message.target = req.url.requestURI
  originForm : message.target.head? = some 47
  host : valuesOf (str "host") message.headers = [req.host]
  body : message.body = req.body.data
  unencoded : valuesOf (str "transfer-encoding") message.headers = []
  length_le : (valuesOf (str "content-length") message.headers).length ≤ 1
  length_eq : ∀ value ∈ valuesOf (str "content-length") message.headers,
    value.parseDigits = some message.body.length
  length_present : message.body ≠ [] ∨ req.transferEncoding ≠ [] →
    (valuesOf (str "content-length") message.headers).length = 1
  connection : valuesOf (str "connection") message.headers = [str "close"]
  others : message.headers.filter isOther = passedFields req

/-- The bytes are the request and nothing more. -/
def Delivered (req : Request) (bytes : Text) : Prop :=
  ∃ message, parseRequest bytes = some (message, []) ∧ Carries req message

/-! ## The head as a list of headers -/

/-- The lines the header loop writes. -/
def forwardedFields (req : Request) : List Header :=
  (headerFields req.header).filter fun header =>
    !skippedNames.contains (header.name.map Text.lowerByte)

def lengthHeader : Option Text → List Header
  | some b => [⟨str "Content-Length", Text.digits b.length⟩]
  | none => []

def sentHeaders (req : Request) (body : Option Text) : List Header :=
  [⟨str "Host", req.host⟩] ++ lengthHeader body ++ forwardedFields req ++
    [⟨str "Connection", str "close"⟩]

theorem IsMimeName.isAscii {name : Text} (hname : IsMimeName name) : Text.IsAscii name := by
  intro b hb
  rcases hname.2 b hb with htoken | rfl
  · exact isTokenByte_ascii htoken
  · decide

theorem flatMap_writeHeader_values (k : Text) (vs : List Text) :
    (vs.map fun v => (⟨k, v⟩ : Header)).flatMap writeHeader =
      vs.flatMap fun v => k ++ str ": " ++ v ++ str "\r\n" := by
  rw [List.flatMap_map]
  rfl

theorem headerLines_eq {lower : Nat → Nat} {header : List (Text × List Text)}
    (hnames : ∀ entry ∈ header, IsMimeName entry.1) :
    headerLines lower header = ((headerFields header).filter fun field =>
      !skippedNames.contains (field.name.map Text.lowerByte)).flatMap writeHeader := by
  induction header with
  | nil => rfl
  | cons entry rest ih =>
      obtain ⟨k, vs⟩ := entry
      have hk := @Text.toLower_of_isAscii lower k (hnames (k, vs) List.mem_cons_self).isAscii
      have hrest := ih fun entry hentry => hnames entry (List.mem_cons_of_mem _ hentry)
      have hfields : headerFields ((k, vs) :: rest) =
          (vs.map fun v => ⟨k, v⟩) ++ headerFields rest := rfl
      rw [headerLines, hk, hrest, hfields, List.filter_append, List.flatMap_append]
      congr 1
      -- All lines of the entry have its name, so they are skipped or kept together.
      split
      next hskip =>
        rw [List.filter_eq_nil_iff.mpr, List.flatMap_nil]
        intro field hfield
        obtain ⟨v, -, rfl⟩ := List.mem_map.mp hfield
        rw [hskip]
        decide
      next hkeep =>
        rw [List.filter_eq_self.mpr, flatMap_writeHeader_values]
        intro field hfield
        obtain ⟨v, -, rfl⟩ := List.mem_map.mp hfield
        exact Bool.not_eq_true' _ |>.mpr (Bool.eq_false_iff.mpr hkeep)

theorem requestHead_eq {lower : Nat → Nat} {req : Request} (hreq : Parsed req)
    (body : Option Text) :
    requestHead lower req body =
      writeHead req.method req.url.requestURI (sentHeaders req body) := by
  have hhost : req.host ≠ [] := hreq.host.1 ▸ hreq.host.2
  have hhostName : str "Host: " = str "Host" ++ str ": " := by decide
  have hend : str "Connection: close\r\n\r\n" =
      writeHeader ⟨str "Connection", str "close"⟩ ++ crlf := by decide
  have hlength : (match body with
      | some b => str "Content-Length: " ++ Text.digits b.length ++ str "\r\n"
      | none => []) = (lengthHeader body).flatMap writeHeader := by
    cases body with
    | none => rfl
    | some b =>
        have hname : str "Content-Length: " = str "Content-Length" ++ str ": " := by decide
        rw [hname, lengthHeader, List.flatMap_singleton]
        rfl
  unfold requestHead
  rw [if_neg hhost, hlength, headerLines_eq hreq.names, hhostName, hend, writeHead, sentHeaders]
  have hline : writeHeader ⟨str "Host", req.host⟩ =
      str "Host" ++ (str ": " ++ (req.host ++ str "\r\n")) := by
    simp only [writeHeader, List.append_assoc]
    rfl
  simp only [List.flatMap_append, List.flatMap_singleton, List.append_assoc, hline]
  rfl

/-! ## The values the upstream reads -/

/-- The header loop drops exactly the skipped names. -/
theorem valuesOf_forwardedFields (req : Request) (name : Text) :
    valuesOf name (forwardedFields req) =
      if name ∈ skippedNames then [] else valuesOf name (headerFields req.header) := by
  unfold valuesOf forwardedFields
  rw [List.filter_filter]
  split
  next hskip =>
    rw [List.map_eq_nil_iff, List.filter_eq_nil_iff]
    intro header _ hboth
    simp only [Bool.and_eq_true, decide_eq_true_eq, List.contains_eq_mem, Bool.not_eq_true',
      decide_eq_false_iff_not] at hboth
    exact hboth.2 (hboth.1 ▸ hskip)
  next hkeep =>
    congr 1
    apply List.filter_congr
    intro header _
    by_cases hname : header.name.map Text.lowerByte = name
    · simp [hname, hkeep]
    · simp [hname]

/-- The values of a name in the four parts of the head. -/
theorem valuesOf_sentHeaders (req : Request) (body : Option Text) (name : Text) :
    valuesOf name (sentHeaders req body) =
      (if str "host" = name then [req.host] else []) ++
        (if str "content-length" = name then (lengthHeader body).map Header.value else []) ++
        (if name ∈ skippedNames then [] else valuesOf name (headerFields req.header)) ++
        (if str "connection" = name then [str "close"] else []) := by
  have hhost : (str "Host").map Text.lowerByte = str "host" := by decide
  have hlength : (str "Content-Length").map Text.lowerByte = str "content-length" := by decide
  have hconnection : (str "Connection").map Text.lowerByte = str "connection" := by decide
  have hbody : valuesOf name (lengthHeader body) =
      if str "content-length" = name then (lengthHeader body).map Header.value else [] := by
    cases body with
    | none => split <;> rfl
    | some b =>
        rw [lengthHeader, valuesOf_singleton, hlength]
        rfl
  rw [sentHeaders, valuesOf_append, valuesOf_append, valuesOf_append, valuesOf_singleton,
    valuesOf_singleton, hbody, valuesOf_forwardedFields, hhost, hconnection]

theorem filter_isOther_sentHeaders (req : Request) (body : Option Text) :
    (sentHeaders req body).filter isOther = passedFields req := by
  have hhost : isOther ⟨str "Host", req.host⟩ = false := by
    have hlower : (str "Host").map Text.lowerByte = str "host" := by decide
    simp [isOther, hlower, framingNames]
  have hlength : (lengthHeader body).filter isOther = [] := by
    cases body with
    | none => rfl
    | some b =>
        have hlower : (str "Content-Length").map Text.lowerByte = str "content-length" := by
          decide
        simp [lengthHeader, isOther, hlower, framingNames]
  have hconnection : isOther ⟨str "Connection", str "close"⟩ = false := by decide
  rw [sentHeaders, List.filter_append, List.filter_append, List.filter_append, hlength]
  simp only [List.filter_cons, List.filter_nil, hhost, hconnection, Bool.false_eq_true, if_false,
    List.append_nil, List.nil_append, forwardedFields, passedFields, List.filter_filter]
  apply List.filter_congr
  intro header _
  -- A name is skipped as a framing name or as one of the proxy's own.
  rw [Bool.eq_iff_iff]
  simp only [isOther, framingNames, skippedNames, List.contains_eq_mem, List.mem_cons,
    List.not_mem_nil, or_false, Bool.and_eq_true, Bool.not_eq_true', decide_eq_false_iff_not]
  tauto

/-- The length of the head: none for an empty body, or that of the body. -/
def LengthFits (req : Request) (body : Option Text) : Prop :=
  let lengths := (lengthHeader body).map Header.value ++
    valuesOf (str "content-length") (headerFields req.header)
  lengths = [] ∧ req.body.data = [] ∧ req.transferEncoding = [] ∨
    ∃ value, lengths = [value] ∧ value.parseDigits = some req.body.data.length

theorem wellFormed_sentHeaders {req : Request} (hreq : Parsed req) (body : Option Text)
    (htokens : ∀ header ∈ passedFields req, IsToken header.name) :
    ∀ header ∈ sentHeaders req body, WellFormed header := by
  intro header hmem
  simp only [sentHeaders, List.mem_append, List.mem_singleton] at hmem
  rcases hmem with ((rfl | hlength) | hforwarded) | rfl
  · have hname : IsToken (str "Host") := by decide
    exact ⟨hname, hreq.hostValue⟩
  · cases body with
    | none => cases hlength
    | some b =>
        obtain rfl := List.mem_singleton.mp hlength
        have hname : IsToken (str "Content-Length") := by decide
        exact ⟨hname, isValue_digits b.length⟩
  · obtain ⟨hfield, hkept⟩ := List.mem_filter.mp hforwarded
    obtain ⟨⟨k, vs⟩, hentry, hvalue⟩ := List.mem_flatMap.mp hfield
    obtain ⟨v, hv, rfl⟩ := List.mem_map.mp hvalue
    refine ⟨?_, hreq.values (k, vs) hentry v hv⟩
    by_cases hlength : k.map Text.lowerByte = str "content-length"
    · apply IsToken.of_lower
      rw [hlength]
      decide
    · apply htokens ⟨k, v⟩
      -- What the loop keeps is a length or one of the other headers.
      simp only [skippedNames, List.contains_eq_mem, List.mem_cons, List.not_mem_nil, or_false,
        not_or, Bool.not_eq_true', decide_eq_false_iff_not] at hkept
      simp only [passedFields, List.mem_filter, isOther, framingNames, List.contains_eq_mem,
        List.mem_cons, List.not_mem_nil, or_false, not_or, Bool.and_eq_true, Bool.not_eq_true',
        decide_eq_false_iff_not]
      tauto
  · exact ⟨by decide, by decide⟩

/-- With token names and a fitting length, the head and the body are the request. -/
theorem delivered_of_tokens {lower : Nat → Nat} {req : Request} (hreq : Parsed req)
    (htokens : ∀ header ∈ passedFields req, IsToken header.name) {body : Option Text}
    (hfits : LengthFits req body) :
    Delivered req (requestHead lower req body ++ req.body.data) := by
  have hhost : valuesOf (str "host") (sentHeaders req body) = [req.host] := by
    rw [valuesOf_sentHeaders]
    rfl
  have hencoding : valuesOf (str "transfer-encoding") (sentHeaders req body) = [] := by
    rw [valuesOf_sentHeaders]
    rfl
  have hconnection : valuesOf (str "connection") (sentHeaders req body) = [str "close"] := by
    rw [valuesOf_sentHeaders]
    rfl
  have hlengths : valuesOf (str "content-length") (sentHeaders req body) =
      (lengthHeader body).map Header.value ++
        valuesOf (str "content-length") (headerFields req.header) := by
    rw [valuesOf_sentHeaders]
    exact List.append_nil _
  have hsize : bodyLength (sentHeaders req body) = some req.body.data.length := by
    rw [bodyLength, hencoding, if_neg (by simp), hlengths]
    rcases hfits with ⟨hnone, hdata, -⟩ | ⟨value, hone, hvalue⟩
    · rw [hnone, hdata]
      rfl
    · rw [hone]
      exact hvalue
  have hparse := parseRequest_write hreq.method hreq.target
    (wellFormed_sentHeaders hreq body htokens) hsize []
  rw [List.append_nil, ← requestHead_eq hreq] at hparse
  refine ⟨_, hparse, rfl, rfl, hreq.originForm, hhost, rfl, hencoding, ?_, ?_, ?_, hconnection,
    filter_isOther_sentHeaders req body⟩
  · rw [hlengths]
    rcases hfits with ⟨hnone, -⟩ | ⟨value, hone, -⟩
    · simp [hnone]
    · simp [hone]
  · rw [hlengths]
    rcases hfits with ⟨hnone, -⟩ | ⟨value, hone, hvalue⟩
    · simp [hnone]
    · simpa [hone] using hvalue
  · intro hpresent
    rw [hlengths]
    rcases hfits with ⟨-, hdata, hplain⟩ | ⟨value, hone, -⟩
    · rcases hpresent with hbody | hchunked
      · exact absurd hdata hbody
      · exact absurd hplain hchunked
    · simp [hone]

/-! ## What is sent -/

theorem upstreamBytes_afterBody (sent : Bool) : upstreamBytes [afterBody sent] = [] := by
  cases sent <;> rfl

/-- Without an error the head and the whole body are sent, or nothing is. -/
theorem upstreamBytes_forwardRequest {lower : Nat → Nat} (peer : Peer) {req : Request}
    (hreq : Parsed req) (hread : req.body.failed = false) :
    upstreamBytes (forwardRequest lower peer req) = [] ∨
      ∃ body, LengthFits req body ∧
        upstreamBytes (forwardRequest lower peer req) =
          requestHead lower req body ++ req.body.data := by
  unfold forwardRequest
  dsimp only
  cases hreq.framing with
  | chunked hencoding hlength hvalues =>
      rw [if_pos (by simp [hencoding, hlength])]
      have hlimited : readLimited req.body (maxReframedBody + 1) =
          some (req.body.data.take (maxReframedBody + 1)) := by
        rw [readLimited, if_neg (by simp [hread])]
      rw [hlimited]
      dsimp only
      split
      next => exact .inl rfl
      next hsmall =>
        have hall : req.body.data.take (maxReframedBody + 1) = req.body.data := by
          apply List.take_of_length_le
          rw [List.length_take] at hsmall
          omega
        rw [hall]
        refine .inr ⟨some req.body.data, ?_, ?_⟩
        · exact .inr ⟨_, by rw [hvalues]; rfl, Text.parseDigits_digits _⟩
        · simp only [upstreamBytes, upstreamBytes_afterBody, List.append_nil]
  | @sized value size hencoding hvalues hsize hlength hdata =>
      have hfits : LengthFits req none :=
        .inr ⟨value, hvalues, hsize.trans (congrArg some (hdata hread).symm)⟩
      refine .inr ⟨none, hfits, ?_⟩
      rw [if_neg (by simp [hencoding, hlength])]
      split
      next => simp only [upstreamBytes, upstreamBytes_afterBody, List.append_nil]
      next hzero =>
        have hnone : req.body.data = [] := by
          apply List.length_eq_zero_iff.mp
          rw [hdata hread]
          rw [hlength, Decidable.not_not] at hzero
          exact_mod_cast hzero
        rw [hnone]
        rfl
  | absent hencoding hlength hvalues hdata =>
      refine .inr ⟨none, .inl ⟨hvalues, hdata, hencoding⟩, ?_⟩
      rw [if_neg (by simp [hlength]), if_neg (by simp [hlength]), hdata]
      rfl

/-- Only an open upstream gets anything. -/
theorem upstreamBytes_handleHTTP (lower : Nat → Nat) (peer : Peer) (req : Request) :
    upstreamBytes (handleHTTP lower peer req) = [] ∨
      upstreamBytes (handleHTTP lower peer req) =
        upstreamBytes (forwardRequest lower peer req) := by
  unfold handleHTTP
  split
  next => exact .inl rfl
  next =>
    split
    next => exact .inl rfl
    next =>
      split
      next => exact .inl rfl
      next => exact .inr rfl

theorem upstreamBytes_tooLarge {lower : Nat → Nat} (peer : Peer) {req : Request}
    (hlength : req.contentLength ≠ 0) (hencoding : req.transferEncoding ≠ [])
    (hlarge : maxReframedBody < req.body.data.length) :
    upstreamBytes (forwardRequest lower peer req) = [] := by
  unfold forwardRequest
  dsimp only
  rw [if_pos ⟨hlength, .inl hencoding⟩]
  split
  next => rfl
  next b hread =>
    have hb : maxReframedBody < b.length := by
      rw [readLimited, if_neg (by omega)] at hread
      rw [← Option.some.inj hread, List.length_take]
      omega
    rw [if_pos hb]
    rfl

/-- What is written to the upstream is one request, the client's, exactly if the names of its
headers are tokens; a chunked body over the limit is not sent at all. -/
theorem handleHTTP_delivers_iff (lower : Nat → Nat) (peer : Peer) (req : Request)
    (hreq : Parsed req) :
    (req.body.failed = false → upstreamBytes (handleHTTP lower peer req) ≠ [] →
      (Delivered req (upstreamBytes (handleHTTP lower peer req)) ↔
        ∀ header ∈ passedFields req, IsToken header.name)) ∧
    (req.transferEncoding ≠ [] → maxReframedBody < req.body.data.length →
      upstreamBytes (handleHTTP lower peer req) = []) := by
  have hsent := upstreamBytes_handleHTTP lower peer req
  constructor
  · intro hread hforwarded
    constructor
    · rintro ⟨message, hparse, hcarries⟩ header hheader
      rw [← hcarries.others] at hheader
      exact parseRequest_token hparse header (List.mem_of_mem_filter hheader)
    · intro htokens
      have hbytes := hsent.resolve_left hforwarded
      rw [hbytes] at hforwarded ⊢
      obtain ⟨body, hfits, hhead⟩ :=
        (upstreamBytes_forwardRequest peer hreq hread).resolve_left hforwarded
      rw [hhead]
      exact delivered_of_tokens hreq htokens hfits
  · intro hencoding hlarge
    have hlength : req.contentLength ≠ 0 := by
      cases hreq.framing with
      | chunked _ hlength _ => rw [hlength]; decide
      | sized hplain => exact absurd hplain hencoding
      | absent hplain => exact absurd hplain hencoding
    rcases hsent with hnothing | hsame
    · exact hnothing
    · rw [hsame]
      exact upstreamBytes_tooLarge peer hlength hencoding hlarge

/-- An upstream that is reached and takes everything. -/
def openPeer : Peer := ⟨fun _ _ => none, true⟩

/-- `POST http://h/submit` with a chunked body. -/
def chunkedPost : Request where
  method := str "POST"
  url := ⟨str "h", [], str "h", str "/submit"⟩
  host := str "h"
  header := [(str "Accept", [str "*/*"]), (str "Proxy-Connection", [str "keep-alive"])]
  transferEncoding := [str "chunked"]
  contentLength := -1
  body := ⟨str "hello", false⟩

theorem chunkedPost_parsed : Parsed chunkedPost where
  method := by decide
  target := by decide
  originForm := by decide
  host := by decide
  hostValue := by decide
  names := by decide
  values := by decide
  framing := .chunked rfl rfl (by decide)

theorem chunkedPost_delivered :
    upstreamBytes (handleHTTP id openPeer chunkedPost) =
        str "POST /submit HTTP/1.1\r\nHost: h\r\nContent-Length: 5\r\nAccept: */*\r\n" ++
          str "Connection: close\r\n\r\nhello" ∧
      Delivered chunkedPost (upstreamBytes (handleHTTP id openPeer chunkedPost)) := by
  have hbytes : upstreamBytes (handleHTTP id openPeer chunkedPost) =
      str "POST /submit HTTP/1.1\r\nHost: h\r\nContent-Length: 5\r\nAccept: */*\r\n" ++
        str "Connection: close\r\n\r\nhello" := by
    decide +kernel
  have hforwarded : upstreamBytes (handleHTTP id openPeer chunkedPost) ≠ [] := by
    rw [hbytes]
    decide
  have htokens : ∀ header ∈ passedFields chunkedPost, IsToken header.name := by decide +kernel
  exact ⟨hbytes, ((handleHTTP_delivers_iff id openPeer chunkedPost chunkedPost_parsed).1 rfl
    hforwarded).mpr htokens⟩

/-- `GET http://h/` with a blank before the colon of `Transfer-Encoding : chunked`. -/
def blankedGet : Request where
  method := str "GET"
  url := ⟨str "h", [], str "h", str "/"⟩
  host := str "h"
  header := [(str "Transfer-Encoding ", [str "chunked"])]
  transferEncoding := []
  contentLength := 0
  body := ⟨[], false⟩

theorem blankedGet_parsed : Parsed blankedGet where
  method := by decide
  target := by decide
  originForm := by decide
  host := by decide
  hostValue := by decide
  names := by decide
  values := by decide
  framing := .absent rfl rfl (by decide) rfl

/-- The line is forwarded as it came, and what the upstream gets is no request. -/
theorem blankedGet_not_delivered :
    Parsed blankedGet ∧
      upstreamBytes (handleHTTP id openPeer blankedGet) =
        str "GET / HTTP/1.1\r\nHost: h\r\nTransfer-Encoding : chunked\r\n" ++
          str "Connection: close\r\n\r\n" ∧
      ¬Delivered blankedGet (upstreamBytes (handleHTTP id openPeer blankedGet)) := by
  refine ⟨blankedGet_parsed, by decide +kernel, ?_⟩
  rintro ⟨message, hparse, -⟩
  have hnone : parseRequest (upstreamBytes (handleHTTP id openPeer blankedGet)) = none := by
    decide +kernel
  rw [hnone] at hparse
  cases hparse

end SshGate.Http
