import SshGate.Go.HostPort
import SshGate.Interaction.Embedding
import SshGate.Steps

/-! # The DNS part of the status page

`DNSStatus` of `dns.go`, next to the calls that resolve names. It holds no lock
from one reading to the next: it reads the clock, the two counters of the
fallback and then every tunnel resolver under the resolver's own lock, while
lookups go on.

The fallback's counter and its time are two atomics. `lookup` adds to the one,
reads the clock and writes the other, and the page may read them in between.
-/

namespace SshGate.DnsReport

open Go Interaction

/-- What the status page shows of one tunnel resolver. -/
structure ServerStatus where
  name : Text
  ok : Nat
  fail : Nat
  rttMs : Nat
  lastOKAt : Nat
  lastFailed : Bool
  paused : Bool
  error : Text
  deriving Repr, DecidableEq

structure DnsStatus where
  mode : Text
  degraded : Bool
  localFallbacks : Nat
  lastFallbackAt : Nat
  servers : List ServerStatus
  deriving Repr, DecidableEq

def dnsDegradedWindow : Nat := 60 * second

/-- The name of a tunnel resolver: a server on port 53 goes without its port. -/
def nameOf : Endpoint → Text
  | .doh host => host
  | .server addr =>
      match splitHostPort addr with
      | some (host, port) => if port = str "53" then host else addr
      | none => addr

/-- `upstream.status`. -/
def serverStatus (name : Text) (u : Upstream) (now : Nat) : ServerStatus where
  name
  ok := u.ok
  fail := u.fail
  rttMs := u.lastRTT / millisecond
  lastOKAt := (u.lastOKAt.map fun at' => at' / second).getD 0
  lastFailed := u.lastFailed
  paused := u.pausedUntil.any fun pausedUntil => decide (now < pausedUntil)
  error := u.lastErr

/-- The mode: the DoH client is there if and only if the resolver is the
endpoint. -/
def modeOf (c : DnsCache) : Text :=
  if c.tunnel.any fun endpoint => endpoint matches .doh _ then str "doh" else str "servers"

/-! ## The program -/

inductive Op where
  | gate (op : SshGate.Op)
  | now
  | fallbacks
  | lastFallback
  /-- The locked reading of a tunnel resolver. -/
  | server (u : Nat)
  deriving Repr, DecidableEq

@[reducible] def Op.Reply : Op → Type
  | .gate op => op.Reply
  | .now => Nat
  | .fallbacks => Nat
  | .lastFallback => Option Nat
  | .server _ => Upstream

@[reducible] def sig : Signature := ⟨Op, Op.Reply⟩

abbrev Prog := Program sig

abbrev act (op : Op) : Prog op.Reply := Program.perform (S := sig) op

/-- The loop over the tunnel resolvers, from number `u` on. -/
def readServers (now : Nat) : List Endpoint → (u : Nat) → Prog (List ServerStatus)
  | [], _ => return []
  | endpoint :: rest, u => do
      let upstream ← act (.server u)
      let servers ← readServers now rest (u + 1)
      return serverStatus (nameOf endpoint) upstream now :: servers

/-- Whether a fallback at `last` is recent. `Sub` of a later time is negative. -/
def recent (now : Nat) (last : Option Nat) : Bool :=
  last.any fun (last : Nat) => decide ((now : Int) - last < dnsDegradedWindow)

def dnsStatus (c : DnsCache) : Prog DnsStatus := do
  let now ← act .now
  let localFallbacks ← act .fallbacks
  let last ← act .lastFallback
  let servers ← readServers now c.tunnel 0
  return {
    mode := modeOf c
    degraded := recent now last || servers.any ServerStatus.paused
    localFallbacks
    lastFallbackAt := (last.map fun last => last / second).getD 0
    servers }

/-! ## The system -/

/-- The events of the calls that resolve and dial. -/
def baseEvent : Event sig → Option (Event SshGate.sig)
  | ⟨.gate op, reply⟩ => some ⟨op, reply⟩
  | _ => none

/-- The gate's actions. -/
def gateEmbedding : Embedding SshGate.sig sig where
  op := .gate
  reply _ r := r
  project := baseEvent
  project_op _ _ := rfl

inductive Call where
  | gate (call : SshGate.Call)
  | status
  deriving Repr, DecidableEq

inductive Result where
  | gate (result : SshGate.Result)
  | status (status : DnsStatus)
  deriving DecidableEq

def Call.program (o : Opener) : Call → Prog Result
  | .gate call => do
      let result ← (call.program o).embed gateEmbedding
      return .gate result
  | .status => do
      let status ← dnsStatus o.rules.dns
      return .status status

/-- The status page only reads. -/
def perform : (op : Op) → World → op.Reply → Option World
  | .gate op, w, reply => World.perform op w reply
  | .now, w, reading => if reading = w.clock then some w else none
  | .fallbacks, w, count => if count = w.fallbacks then some w else none
  | .lastFallback, w, last => if last = w.lastFallback then some w else none
  | .server u, w, upstream => if upstream = w.upstreams u then some w else none

/-- Any number of calls and of readings of the status. -/
@[reducible] def reporting (o : Opener) : System where
  sig := sig
  Call := Call
  Result := Result
  program := Call.program o
  State := World
  Disturbance := Disturbance
  perform := perform
  disturb := World.disturb

end SshGate.DnsReport
