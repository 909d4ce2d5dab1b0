import SshGate.Go.Bufio
import SshGate.Go.HostPort
import SshGate.Interaction.RelyGuarantee
import SshGate.Proxy.Forward
import SshGate.Routing

/-! # The CONNECT tunnel

`handleConn` reads the head of a request through a buffered and limited reader,
and `handleConnect` relays what follows: one goroutine copies from that reader
to the upstream, another one copies back, and the handler closes the `logConn`
when both are through. Of `http.ReadRequest` only this is fixed: it reads through
the methods of the buffered reader.
-/

namespace SshGate.Connect

open Go Interaction Program

/-! ## Actions -/

/-- From the client to the upstream, or back. -/
inductive Direction where
  | up
  | down
  deriving Repr, DecidableEq

/-- What the access line tells of the connection. -/
structure ConnInfo where
  id : Nat
  host : Text
  port : Int
  dialMS : Nat
  deriving Repr, DecidableEq

inductive AccessLine where
  /-- `logFailure("dial_error", err)` -/
  | dialError (info : ConnInfo)
  /-- The line of `logConn.Close`, with the result `relay_error` or `ok`. -/
  | closed (info : ConnInfo) (relayError : Bool) (ms bytesUp bytesDown : Nat)
  deriving Repr, DecidableEq

/-- The fields of a `logConn` that its mutex guards. -/
structure Counts where
  up : Nat
  down : Nat
  firstErr : Option IoErr
  deriving Repr, DecidableEq

inductive Op where
  | setReadDeadline (armed : Bool)
  | read (d : Direction) (room : Nat)
  | write (d : Direction) (bytes : Text)
  /-- `CloseWrite` of the destination. -/
  | closeWrite (d : Direction)
  | nextConnID
  | now
  | openUpstream (host : Text) (port : Int)
  | wgAdd (n : Nat)
  | wgDone (d : Direction)
  | wgWait
  | goUp (src : Bufio.Reader)
  | goDown
  | startUp
  | startDown
  /-- The section of the mutex in `logConn.Read` and `logConn.Write`. -/
  | count (d : Direction) (n : Nat) (err : Option IoErr)
  | casClosed
  | loadCounts
  | closeUpstream
  /-- The request goes to `handleHTTP`, which reads its body from `src`. What comes
  of it has a model of its own. -/
  | handleHTTP (src : Bufio.Reader)
  | closeClient
  | logAccess (line : AccessLine)
  deriving Repr, DecidableEq

@[reducible] def Op.Reply : Op → Type
  | .read _ _ => Chunk
  | .write _ _ => Written
  | .nextConnID | .now => Nat
  /- the error with its `Timeout()` -/
  | .openUpstream _ _ => Option Bool
  | .startUp => Bufio.Reader
  | .casClosed => Bool
  | .loadCounts => Counts
  | .setReadDeadline _ | .closeWrite _ | .wgAdd _ | .wgDone _ | .wgWait | .goUp _ | .goDown
  | .startDown | .count _ _ _ | .closeUpstream | .handleHTTP _ | .closeClient
  | .logAccess _ => Unit

@[reducible] def sig : Signature := ⟨Op, Op.Reply⟩

abbrev Prog (α : Type) := Program sig α

abbrev act (op : Op) : Prog op.Reply := Program.perform (S := sig) op

/-! ## The handler -/

def readClient (room : Nat) : Prog Chunk := act (.read .up room)

def writeClient (bytes : Text) : Prog Written := act (.write .down bytes)

/-- `logConn.Write` -/
def lcWrite (bytes : Text) : Prog Written := do
  let put ← act (.write .up bytes)
  let _ ← act (.count .up put.n put.err)
  return put

/-- `logConn.Read` -/
def lcRead (room : Nat) : Prog Chunk := do
  let got ← act (.read .down room)
  let _ ← act (.count .down got.bytes.length got.err)
  return got

def relayErr : Option IoErr → Bool
  | none | some .eof | some .closed => false
  | some .noProgress | some .other => true

/-- What is left of a relay goroutine once its copy has ended. -/
def finish (d : Direction) : CopyEnd → Prog Unit
  | .unfinished => return ()
  | .sourceOver _ | .writeFailed => do
      let _ ← act (.closeWrite d)
      act (.wgDone d)

/-- `io.Copy(lc, src)` in its goroutine; `src` is the buffered reader. -/
def relayUp (rounds : Nat) : Prog Unit := do
  let src ← act .startUp
  let ended ← Bufio.writeTo readClient lcWrite rounds src
  finish .up ended

/-- `io.Copy(client, lc)` in its goroutine. -/
def relayDown (rounds : Nat) : Prog Unit := do
  let _ ← act .startDown
  let ended ← copy lcRead writeClient rounds
  finish .down ended

/-- `logConn.Close`; a `logConn` of this server has no `onClose`. -/
def logConnClose (info : ConnInfo) (t0 : Nat) : Prog Unit := do
  let first ← act .casClosed
  if first then do
    let _ ← act .closeUpstream
    let counts ← act .loadCounts
    let t ← act .now
    act (.logAccess (.closed info counts.firstErr.isSome ((t - t0) / millisecond) counts.up
      counts.down))
  else act .closeUpstream

def badHead : Text := Http.writeHTTPErr .badRequest (str "Bad Request")

def headTooLarge : Text :=
  Http.writeHTTPErr .requestHeaderFieldsTooLarge (str "Request Header Fields Too Large")

def writeErr (response : Text) : Prog Unit := do
  let _ ← writeClient response
  return ()

/-- `openUpstream`: the connection with the time it was opened at, or the
`Timeout()` of the error. -/
def openUpstream (host : Text) (port : Int) : Prog (Except Bool (ConnInfo × Nat)) := do
  let id ← act .nextConnID
  let start ← act .now
  let err ← act (.openUpstream host port)
  let opened ← act .now
  match err with
  | some timeout => do
      let _ ← act (.logAccess (.dialError ⟨id, host, port, (opened - start) / millisecond⟩))
      return .error timeout
  | none => do
      let t0 ← act .now
      return .ok (⟨id, host, port, (opened - start) / millisecond⟩, t0)

def established : Text := str "HTTP/1.1 200 Connection Established\r\n\r\n"

/-- The relay of an open tunnel, as far as the handler runs it. -/
def tunnel (src : Bufio.Reader) (info : ConnInfo) (t0 : Nat) : Prog Unit := do
  let _ ← writeClient established
  let _ ← act (.wgAdd 2)
  let _ ← act (.goUp src)
  let _ ← act .goDown
  let _ ← act .wgWait
  logConnClose info t0

def connectTo (src : Bufio.Reader) (host : Text) (port : Int) : Prog Unit := do
  let opened ← openUpstream host port
  match opened with
  | .error timeout =>
      writeErr (Http.writeHTTPErr (Http.statusForDialErr timeout) (str "Connect failed"))
  | .ok (info, t0) => tunnel src info t0

def handleConnect (src : Bufio.Reader) (urlHost : Text) : Prog Unit :=
  match splitHostPort urlHost with
  | none => writeErr (Http.writeHTTPErr .badRequest (str "Bad CONNECT target"))
  | some (host, port) =>
      match port.atoi with
      | none => writeErr (Http.writeHTTPErr .badRequest (str "Bad CONNECT target port"))
      | some port =>
          if port < 1 ∨ 65535 < port then
            writeErr (Http.writeHTTPErr .badRequest (str "Bad CONNECT target port"))
          else connectTo src host port

/-- What the handler looks at in a request. -/
structure Request where
  method : Text
  urlHost : Text
  /-- `URL.IsAbs()` with the scheme `http` -/
  absoluteHttp : Bool
  deriving Repr, DecidableEq

/-- `http.ReadRequest`: any program over the reader. -/
abbrev ReadRequest := Program Bufio.sig (Option Request)

/-- `http.DefaultMaxHeaderBytes` -/
def maxHeaderBytes : Nat := 1048576

/-- `math.MaxInt64` -/
def maxInt64 : Nat := 2 ^ 63 - 1

/-- `handleConn` after `ReadRequest`. -/
def answer (req : Option Request) (src : Bufio.Reader) : Prog Unit :=
  match req with
  | none => writeErr (if src.left = 0 then headTooLarge else badHead)
  | some req => do
      let _ ← act (.setReadDeadline false)
      if req.method = str "CONNECT" then handleConnect { src with left := maxInt64 } req.urlHost
      else if req.absoluteHttp then act (.handleHTTP { src with left := maxInt64 })
      else writeErr (Http.writeHTTPErr .badRequest
        (str "HTTP absolute-form or CONNECT requests only"))

def handleConn (readRequest : ReadRequest) : Prog Unit := do
  let _ ← act (.setReadDeadline true)
  let (req, src) ← Bufio.run readClient readRequest (Bufio.newReader maxHeaderBytes)
  let _ ← answer req src
  act .closeClient

/-! ## The connections and the shared state -/

/-- Who works on a direction: the handler, nobody yet, the goroutine, or nobody
any more. -/
inductive Stage where
  | waiting
  | handed
  | running
  | done
  deriving Repr, DecidableEq

/-- One direction: the bytes read from its source and whether that ended, the
bytes its destination took, whether a write failed and whether it was closed for
writing; and what the `logConn` counted. -/
structure Flow where
  taken : Text := []
  spent : Bool := false
  put : Text := []
  broken : Bool := false
  fin : Bool := false
  /-- The upstream returned an error that `relayErr` reports. -/
  failed : Bool := false
  counted : Nat := 0
  stage : Stage := .waiting
  deriving Repr, DecidableEq

structure World where
  clock : Nat
  ids : Nat := 0
  deadline : Bool := false
  up : Flow := {}
  down : Flow := {}
  /-- Where in the client's bytes the tunnel begins. -/
  head : Option Nat := none
  src : Option Bufio.Reader := none
  /-- The connections are those of `handleHTTP` now. -/
  forwarded : Bool := false
  asked : Bool := false
  added : Nat := 0
  wg : Nat := 0
  firstErr : Option IoErr := none
  closed : Bool := false
  upstreamClosed : Bool := false
  clientClosed : Bool := false
  access : List AccessLine := []
  deriving Repr, DecidableEq

namespace Flow

/-- A read of the source. -/
def take (f : Flow) (got : Chunk) (fails : Bool) : Flow :=
  { f with
    taken := f.taken ++ got.bytes
    spent := f.spent || got.err.isSome
    failed := f.failed || fails }

/-- A write to the destination. -/
def give (f : Flow) (bytes : Text) (put : Written) (fails : Bool) : Flow :=
  { f with
    put := f.put ++ bytes.take put.n
    broken := f.broken || put.err.isSome
    failed := f.failed || fails }

/-- What a write can return: a connection that failed once takes nothing more. -/
def Takes (f : Flow) (bytes : Text) (put : Written) : Prop :=
  put.n ≤ bytes.length ∧ (put.err = none → put.n = bytes.length) ∧
    (f.broken = true → put.n = 0 ∧ put.err ≠ none)

instance (f : Flow) (bytes : Text) (put : Written) : Decidable (f.Takes bytes put) :=
  inferInstanceAs (Decidable (_ ∧ _ ∧ _))

end Flow

namespace World

def flow (w : World) : Direction → Flow
  | .up => w.up
  | .down => w.down

def setFlow (w : World) (d : Direction) (f : Flow) : World :=
  match d with
  | .up => { w with up := f }
  | .down => { w with down := f }

def perform : (op : Op) → World → op.Reply → Option World
  | .setReadDeadline armed, w, () => some { w with deadline := armed }
  | .read d room, w, got =>
      if got.bytes.length ≤ room ∧ (got.bytes = [] → got.err ≠ none) then
        some (w.setFlow d ((w.flow d).take got (d = .down && relayErr got.err)))
      else none
  | .write d bytes, w, put =>
      if (w.flow d).Takes bytes put then
        some (w.setFlow d ((w.flow d).give bytes put (d = .up && relayErr put.err)))
      else none
  | .closeWrite d, w, () => some (w.setFlow d { w.flow d with fin := true })
  | .nextConnID, w, id => if id = w.ids + 1 then some { w with ids := id } else none
  | .now, w, t => if t = w.clock then some w else none
  | .openUpstream _ _, w, _ => some { w with asked := true }
  | .wgAdd n, w, () => some { w with added := w.added + n, wg := w.wg + n }
  | .wgDone d, w, () =>
      if 0 < w.wg then
        some { w.setFlow d { w.flow d with stage := .done } with wg := w.wg - 1 }
      else none
  | .wgWait, w, () => if w.wg = 0 then some w else none
  | .goUp src, w, () =>
      some { w with
        head := some (w.up.taken.length - src.unread.length)
        src := some src
        up := { w.up with stage := .handed } }
  | .goDown, w, () => some { w with down := { w.down with stage := .handed } }
  | .startUp, w, src =>
      if w.up.stage = .handed ∧ w.src = some src then
        some { w with up := { w.up with stage := .running } }
      else none
  | .startDown, w, () =>
      if w.down.stage = .handed then some { w with down := { w.down with stage := .running } }
      else none
  | .count d n err, w, () =>
      some { w.setFlow d { w.flow d with counted := (w.flow d).counted + n } with
        firstErr := w.firstErr.or (if relayErr err then err else none) }
  | .casClosed, w, first => if first = !w.closed then some { w with closed := true } else none
  | .loadCounts, w, counts =>
      if counts = ⟨w.up.counted, w.down.counted, w.firstErr⟩ then some w else none
  | .closeUpstream, w, () => some { w with upstreamClosed := true }
  | .handleHTTP _, w, () => some { w with forwarded := true }
  | .closeClient, w, () => some { w with clientClosed := true }
  | .logAccess line, w, () => some { w with access := w.access ++ [line] }

/-- Time passes, or another request takes an id. -/
inductive Disturbance where
  | tick (elapsed : Nat)
  | nextConnID
  deriving Repr, DecidableEq

def disturb (w : World) : Disturbance → Option World
  | .tick elapsed => some { w with clock := w.clock + elapsed }
  | .nextConnID => some { w with ids := w.ids + 1 }

end World

inductive Call where
  | handle
  | relayUp (rounds : Nat)
  | relayDown (rounds : Nat)
  deriving Repr, DecidableEq

@[reducible] def tunnelling (readRequest : ReadRequest) : System where
  sig := sig
  Call := Call
  Result := Unit
  program
    | .handle => handleConn readRequest
    | .relayUp rounds => relayUp rounds
    | .relayDown rounds => relayDown rounds
  State := World
  Disturbance := World.Disturbance
  perform := World.perform
  disturb := World.disturb

/-- A connection was accepted; the goroutines wait for the handler to start them. -/
def accepted (readRequest : ReadRequest) (clock : Nat) (rounds rounds' : Nat) :
    Config (tunnelling readRequest) where
  state := { clock }
  threads := [(tunnelling readRequest).start .handle,
    (tunnelling readRequest).start (.relayUp rounds),
    (tunnelling readRequest).start (.relayDown rounds')]

end SshGate.Connect
