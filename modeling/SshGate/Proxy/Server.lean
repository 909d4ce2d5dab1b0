import Mathlib.Logic.Function.Basic
import SshGate.Go.Text
import SshGate.Interaction.Tally

/-! # The proxy servers

The accept loops, the connection handlers and `Shutdown` of both proxies, with
the listener wrapper and the connection wrapper they share. What clients, the
network, the SOCKS5 library and the deadlines of the callers do is in the
replies. A goroutine starts with the connection or channel that its `go`
statement gave it.
-/

namespace SshGate.Proxy

open Go Interaction

inductive Server where
  | socks5
  | http
  deriving Repr, DecidableEq

/-- An accepted connection with the text of its remote address. -/
structure Conn where
  id : Nat
  remoteAddr : Text
  deriving Repr, DecidableEq, Inhabited

inductive AcceptError where
  | closed
  | other (err : Text)
  deriving Repr, DecidableEq

/-- A SOCKS5 request as it gets to the dial callback: with an address that does
not split, with a name that was not resolved, or one to dial. -/
inductive DialRequest where
  | badAddress
  | unresolved
  | dial
  deriving Repr, DecidableEq

/-- What becomes of an HTTP request: it cannot be read, it is answered with an
error before anything is dialed, or it is forwarded. -/
inductive HttpRequest where
  | malformed
  | refused
  | forwarded
  deriving Repr, DecidableEq

inductive Op where
  /-- `closed.Load()` of the `resilientListener`. -/
  | loadClosed
  | accept
  | sleep (delay : Nat)
  | swapClosed
  | closeListener
  | goHandler (conn : Conn)
  | startHandler
  | setDeadline (conn : Nat)
  | clearDeadline (conn : Nat)
  | storeHandshake (src : Text) (conn : Nat)
  | loadHandshake (src : Text)
  | deleteHandshake (src : Text)
  /-- The library reads the greeting and the request; the reply is what gets
  to the dial callback, if anything does. -/
  | readHandshake (conn : Nat)
  | readRequest (conn : Nat)
  /-- `Open` of the shared opener; the reply is whether it succeeds. -/
  | openUpstream (conn : Nat)
  | newLogConn (conn : Nat)
  /-- The library's success reply to the client. -/
  | sendReply (conn : Nat)
  | relayBegin (conn : Nat)
  | relayEnd (conn : Nat)
  /-- `closed.CompareAndSwap(false, true)` of a `logConn`. -/
  | casClosed (conn : Nat)
  | closeUpstream (conn : Nat)
  | closeClient (conn : Nat)
  /-- `Add(1)` and `Done` of the server's wait group. -/
  | add (conn : Nat)
  | done (conn : Nat)
  | onceEnter
  | onceExit
  | makeDone
  | goDrain (drained : Nat)
  | startDrain
  | wait
  | closeDone (drained : Nat)
  /-- The `select` of `Shutdown`: whether the wait is over, or else the context. -/
  | select (drained : Nat)
  | poll (drained : Nat)
  deriving Repr, DecidableEq

@[reducible] def Op.Reply : Op → Type
  | .loadClosed | .swapClosed => Bool
  | .accept => Except AcceptError Conn
  | .closeListener | .closeUpstream _ => Except Text Unit
  | .startHandler => Conn
  | .loadHandshake _ => Option Nat
  | .readHandshake _ => Option DialRequest
  | .readRequest _ => HttpRequest
  | .openUpstream _ | .sendReply _ | .casClosed _ | .onceEnter => Bool
  | .makeDone | .startDrain => Nat
  | .select _ | .poll _ => Bool
  | .sleep _ | .goHandler _ | .setDeadline _ | .clearDeadline _ | .storeHandshake _ _
  | .deleteHandshake _ | .newLogConn _ | .relayBegin _ | .relayEnd _ | .closeClient _ | .add _
  | .done _ | .onceExit | .goDrain _ | .wait | .closeDone _ => Unit

@[reducible] def sig : Signature := ⟨Op, Op.Reply⟩

abbrev Prog (α : Type) := Program sig α

abbrev act (op : Op) : Prog op.Reply := Program.perform (S := sig) op

/-- How a call ends. -/
inductive Outcome where
  | stopped
  | handled
  | drained
  | timedOut
  | failed (err : Text)
  deriving Repr, DecidableEq

/-! ## Accepting -/

def minDelay : Nat := 5000000

def maxDelay : Nat := 1000000000

/-- The goroutine for a connection. Only the HTTP proxy counts it here. -/
def goHandle : Server → Conn → Prog Unit
  | .socks5, conn => act (.goHandler conn)
  | .http, conn => do
      let _ ← act (.add conn.id)
      act (.goHandler conn)

/-- The first `rounds` rounds of the accept loop, with the retry loop of
`resilientListener.Accept` in it. -/
def acceptLoop (server : Server) : (rounds : Nat) → (delay : Nat) → Prog Outcome
  | 0, _ => return .stopped
  | rounds + 1, delay => do
      let closed ← act .loadClosed
      if closed then return .stopped
      else do
        let accepted ← act .accept
        match accepted with
        | .ok conn => do
            let _ ← goHandle server conn
            acceptLoop server rounds minDelay
        | .error .closed => return .stopped
        | .error (.other _) => do
            let _ ← act (.sleep delay)
            acceptLoop server rounds (min (delay * 2) maxDelay)

/-! ## Connections -/

/-- `logConn.Close`; only the SOCKS5 server sets `onClose`. -/
def logConnClose (server : Server) (conn : Nat) : Prog Unit := do
  let first ← act (.casClosed conn)
  let _ ← act (.closeUpstream conn)
  if first && server = .socks5 then act (.done conn) else return ()

def clearFound : Option Nat → Prog Unit
  | some conn => act (.clearDeadline conn)
  | none => return ()

/-- The dial callback of the SOCKS5 server; the result is whether it returns a
`logConn`. -/
def dialCallback (conn : Conn) : DialRequest → Prog Bool
  | .badAddress => return false
  | request => do
      let found ← act (.loadHandshake conn.remoteAddr)
      let _ ← clearFound found
      if request = .unresolved then return false
      else do
        let opened ← act (.openUpstream conn.id)
        if opened then do
          let _ ← act (.add conn.id)
          let _ ← act (.newLogConn conn.id)
          return true
        else return false

def relay (conn : Nat) : Bool → Prog Unit
  | true => do
      let _ ← act (.relayBegin conn)
      act (.relayEnd conn)
  | false => return ()

/-- What is assumed of the library's `ServeConn`: it calls the dial callback at
most once, replies and relays only with the connection that this returned, closes
that connection once, when the reply fails or the relay ends, and then the
client. -/
def libraryServeConn (conn : Conn) : Prog Unit := do
  let request ← act (.readHandshake conn.id)
  match request with
  | none => act (.closeClient conn.id)
  | some request => do
      let dialed ← dialCallback conn request
      if dialed then do
        let replied ← act (.sendReply conn.id)
        let _ ← relay conn.id replied
        let _ ← logConnClose .socks5 conn.id
        act (.closeClient conn.id)
      else act (.closeClient conn.id)

def serveConn (conn : Conn) : Prog Outcome := do
  let _ ← act (.setDeadline conn.id)
  let _ ← act (.storeHandshake conn.remoteAddr conn.id)
  let _ ← libraryServeConn conn
  let _ ← act (.deleteHandshake conn.remoteAddr)
  return .handled

/-- `handleConnect` and `handleHTTP` once the request is accepted. -/
def forward (conn : Nat) : Prog Unit := do
  let opened ← act (.openUpstream conn)
  if opened then do
    let _ ← act (.newLogConn conn)
    let _ ← relay conn true
    logConnClose .http conn
  else return ()

def answer (conn : Nat) : HttpRequest → Prog Unit
  | .malformed => return ()
  | .refused => act (.clearDeadline conn)
  | .forwarded => do
      let _ ← act (.clearDeadline conn)
      forward conn

def handleConn (conn : Conn) : Prog Outcome := do
  let _ ← act (.setDeadline conn.id)
  let request ← act (.readRequest conn.id)
  let _ ← answer conn.id request
  let _ ← act (.closeClient conn.id)
  let _ ← act (.done conn.id)
  return .handled

/-- The goroutine of a connection. -/
def handler (server : Server) : Prog Outcome := do
  let conn ← act .startHandler
  match server with
  | .socks5 => serveConn conn
  | .http => handleConn conn

/-! ## Shutdown -/

/-- `resilientListener.Close`. -/
def closeResilient : Prog (Option Text) := do
  let closed ← act .swapClosed
  if closed then return none
  else do
    let result ← act .closeListener
    match result with
    | .ok () => return none
    | .error err => return some err

/-- What `closeOnce` does for the call that enters it first, and for the others. -/
def closeOnce : Bool → Prog (Option Text)
  | true => do
      let err ← closeResilient
      let _ ← act .onceExit
      return err
  | false => return none

/-- The drain wait of `Shutdown`. -/
def awaitDrain : Prog Outcome := do
  let drained ← act .makeDone
  let _ ← act (.goDrain drained)
  let ended ← act (.select drained)
  if ended then return .drained
  else do
    let late ← act (.poll drained)
    return if late then .drained else .timedOut

def shutdown : Prog Outcome := do
  let first ← act .onceEnter
  let err ← closeOnce first
  match err with
  | some err => return .failed err
  | none => awaitDrain

/-- The goroutine that `Shutdown` waits for. -/
def drain : Prog Outcome := do
  let drained ← act .startDrain
  let _ ← act .wait
  let _ ← act (.closeDone drained)
  return .handled

/-- Somebody else closes a `logConn`. -/
def closeAgain (server : Server) (conn : Nat) : Prog Outcome := do
  let _ ← logConnClose server conn
  return .handled

/-! ## The state -/

inductive Once where
  | fresh
  | running
  | done
  deriving Repr, DecidableEq

inductive LogConn where
  | absent
  | opened
  | closed
  deriving Repr, DecidableEq

/-- `starting` and `draining` are the goroutines that have not begun; `armed`
tells the connections that have a deadline. -/
structure World where
  closed : Bool := false
  listening : Bool := true
  nextConn : Nat := 0
  starting : List Conn := []
  armed : Nat → Bool := fun _ => false
  handshakes : Text → Option Nat := fun _ => none
  logConns : Nat → LogConn := fun _ => .absent
  count : Int := 0
  once : Once := .fresh
  nextDone : Nat := 0
  draining : List Nat := []
  overs : Nat → Bool := fun _ => false

/-- A failed `Close` leaves the listener as it is. A connection has one
`logConn`, which is new when its handler makes it. A `Wait` passes while the
counter is zero, a second caller of `closeOnce` waits for the first one, and
the context of a `Shutdown` may end at any time. -/
def World.perform : (op : Op) → World → op.Reply → Option World
  | .loadClosed, w, closed => if closed = w.closed then some w else none
  | .accept, w, .ok conn =>
      if w.listening = true ∧ conn.id = w.nextConn then
        some { w with nextConn := w.nextConn + 1 }
      else none
  | .accept, w, .error .closed => if w.listening = true then none else some w
  | .accept, w, .error (.other _) => some w
  | .swapClosed, w, closed => if closed = w.closed then some { w with closed := true } else none
  | .closeListener, w, .ok () => some { w with listening := false }
  | .closeListener, w, .error _ => some w
  | .goHandler conn, w, () => some { w with starting := conn :: w.starting }
  | .startHandler, w, conn =>
      if conn ∈ w.starting then some { w with starting := w.starting.erase conn } else none
  | .setDeadline conn, w, () => some { w with armed := Function.update w.armed conn true }
  | .clearDeadline conn, w, () => some { w with armed := Function.update w.armed conn false }
  | .storeHandshake src conn, w, () =>
      some { w with handshakes := Function.update w.handshakes src (some conn) }
  | .loadHandshake src, w, found => if found = w.handshakes src then some w else none
  | .deleteHandshake src, w, () =>
      some { w with handshakes := Function.update w.handshakes src none }
  | .newLogConn conn, w, () =>
      if w.logConns conn = .absent then
        some { w with logConns := Function.update w.logConns conn .opened }
      else none
  | .casClosed conn, w, true =>
      if w.logConns conn = .opened then
        some { w with logConns := Function.update w.logConns conn .closed }
      else none
  | .casClosed conn, w, false => if w.logConns conn = .closed then some w else none
  | .add _, w, () => some { w with count := w.count + 1 }
  | .done _, w, () => some { w with count := w.count - 1 }
  | .onceEnter, w, true => if w.once = .fresh then some { w with once := .running } else none
  | .onceEnter, w, false => if w.once = .done then some w else none
  | .onceExit, w, () => some { w with once := .done }
  | .makeDone, w, drained =>
      if drained = w.nextDone then some { w with nextDone := drained + 1 } else none
  | .goDrain drained, w, () => some { w with draining := drained :: w.draining }
  | .startDrain, w, drained =>
      if drained ∈ w.draining then some { w with draining := w.draining.erase drained } else none
  | .wait, w, () => if w.count = 0 then some w else none
  | .closeDone drained, w, () => some { w with overs := Function.update w.overs drained true }
  | .select drained, w, ended => if ended = true → w.overs drained = true then some w else none
  | .poll drained, w, ended => if ended = w.overs drained then some w else none
  | .sleep _, w, _ | .readHandshake _, w, _ | .readRequest _, w, _ | .openUpstream _, w, _
  | .sendReply _, w, _ | .relayBegin _, w, _ | .relayEnd _, w, _ | .closeUpstream _, w, _
  | .closeClient _, w, _ => some w

inductive Call where
  | acceptLoop (rounds : Nat)
  | handler
  | shutdown
  | drain
  | closeAgain (conn : Nat)
  deriving Repr, DecidableEq

def Call.program (server : Server) : Call → Prog Outcome
  | .acceptLoop rounds => Proxy.acceptLoop server rounds minDelay
  | .handler => Proxy.handler server
  | .shutdown => Proxy.shutdown
  | .drain => Proxy.drain
  | .closeAgain conn => Proxy.closeAgain server conn

/-- A server with any number of accepted connections and calls of `Shutdown`. -/
@[reducible] def proxying (server : Server) : System where
  sig := sig
  Call := Call
  Result := Outcome
  program := Call.program server
  State := World
  Disturbance := Empty
  perform := World.perform
  disturb _ disturbance := disturbance.elim

end SshGate.Proxy
