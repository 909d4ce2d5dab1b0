import SshGate.Interaction.System
import SshGate.Routing

/-! # Atomic actions of resolving and dialing

Every locked section, clock reading and outside effect of a connection is one
action. What foreign code does (Go's resolver, the HTTP client, the local
resolver, the network) is in the replies. `Request`, `Cell` and `Shared` carry
the request that produced an answer, so that answers can be traced to it; the
programs never look at that.
-/

namespace SshGate

open Go Interaction

/-- The two resolve policies, each with its own lookup function. -/
inductive Policy where
  | tunnel
  | local
  deriving Repr, DecidableEq

/-- A cached lookup of a normalized host under one policy. -/
structure Request where
  policy : Policy
  host : Text
  deriving Repr, DecidableEq

/-- The cache and singleflight key. -/
def Request.key (req : Request) : Text :=
  match req.policy with
  | .tunnel => req.host
  | .local => str "local:" ++ req.host

structure LookupResult where
  addrs : List Addr := []
  authoritative : Bool := false
  localDirect : Bool := false
  deriving Repr, DecidableEq

/-- What a lookup function returns: Go code reads both parts. -/
structure Answer where
  res : LookupResult
  err : Option Err
  deriving Repr, DecidableEq

structure CacheEntry where
  addrs : List Addr := []
  expires : Nat
  neg : Bool := false
  localDirect : Bool := false
  deriving Repr, DecidableEq

/-- A cache entry with the request whose lookup stored it. -/
structure Cell where
  entry : CacheEntry
  origin : Request
  deriving Repr, DecidableEq

/-- The result of a finished flight with the request whose lookup gave it. -/
structure Shared where
  answer : Answer
  origin : Request
  deriving Repr, DecidableEq

/-- `singleflight.Do`: start a flight or join the one of the key. -/
inductive Flight where
  | lead (flight : Nat)
  | join (flight : Nat)
  deriving Repr, DecidableEq

/-- The result of `upstream.claim`, with the branch that granted it: the
resolver was not paused, or its pause had passed and this is the probe. -/
inductive Grant where
  | refused
  | open
  | probe
  deriving Repr, DecidableEq

def Grant.granted : Grant → Bool
  | .refused => false
  | .open | .probe => true

/-- One dial through the SSH tunnel to a tunnel resolver. -/
inductive DialReply where
  | notConnected
  | failed
  | opened
  deriving Repr, DecidableEq

/-- `net.IPAddr`. -/
structure IPAddr where
  ip : List UInt8
  zone : Text := []
  deriving Repr, DecidableEq

/-- An error of Go's resolver. -/
inductive ResolverError where
  | dns (isNotFound : Bool) (err : Text)
  | other (err : Text)
  deriving Repr, DecidableEq

inductive DohQuery where
  | A
  | AAAA
  deriving Repr, DecidableEq

/-- The record type wanted in the answers. -/
def DohQuery.want : DohQuery → Int
  | .A => 1
  | .AAAA => 28

structure DohRecord where
  type : Int
  data : Text
  deriving Repr, DecidableEq

/-- What became of one dns-json request: an error before a decoded body, or
the HTTP status code with the decoded body. -/
inductive DohOutcome where
  | failed (err : Text)
  | response (statusCode status : Int) (records : List DohRecord)
  deriving Repr, DecidableEq

/-- One dns-json request; `gotConn` is whether the trace hook ran. -/
structure DohReply where
  gotConn : Bool
  outcome : DohOutcome
  deriving Repr, DecidableEq

/-- Metadata that a tunnel dial carries to the connection tracker. -/
structure ConnMeta where
  proto : Text
  src : Text
  host : Text
  deriving Repr, DecidableEq

inductive Op where
  /-- `time.Now`. -/
  | now
  /-- The locked cache read: an entry that has not expired. -/
  | cacheGet (req : Request)
  | sfDo (req : Request)
  /-- Wait for the flight that was joined. -/
  | sfWait (req : Request) (flight : Nat)
  | sfEnd (req : Request) (flight : Nat) (answer : Answer)
  | lookupsAdd
  /-- The locked store; the reply is the iteration order of the map. -/
  | store (req : Request) (entry : CacheEntry)
  | claim (u : Nat) (now : Nat)
  /-- A tunnel resolver is asked for a name within a time share; the reply is
  how often its dial hook is called. -/
  | ask (u : Nat) (name : Text) (share : Int)
  | dialServer (u : Nat)
  | resolverReply (u : Nat) (name : Text)
  | dohReply (u : Nat) (name : Text) (query : DohQuery)
  | answered (u : Nat) (rtt : Nat)
  | tunnelUp
  /-- The locked part of `upstreamFailed`; the reply is the clock reading. -/
  | failed (u : Nat) (err : Err)
  | releaseProbes (claimed : List Nat)
  /-- `fallbacks.Add(1)` -/
  | fallback
  /-- `lastFallback.Store` of a clock reading. -/
  | lastFallback (t : Nat)
  | localLookup (host : Text)
  | dialTunnel (info : ConnMeta) (ip : Addr) (port : Int)
  | dialDirect (ip : Addr) (port : Int)
  deriving Repr, DecidableEq

@[reducible] def Op.Reply : Op → Type
  | .now => Nat
  | .cacheGet _ => Option Cell
  | .sfDo _ => Flight
  | .sfWait _ _ => Shared
  | .sfEnd _ _ _ => Unit
  | .lookupsAdd => Unit
  | .store _ _ => List Text
  | .claim _ _ => Grant
  | .ask _ _ _ => Nat
  | .dialServer _ => DialReply
  | .resolverReply _ _ => Except ResolverError (List IPAddr)
  | .dohReply _ _ _ => DohReply
  | .answered _ _ => Unit
  | .tunnelUp => Bool
  | .failed _ _ => Nat
  | .releaseProbes _ => Unit
  | .fallback | .lastFallback _ => Unit
  | .localLookup _ => Except Text (List IPAddr)
  | .dialTunnel _ _ _ => Except Err Nat
  | .dialDirect _ _ => Except Err Nat

/-- The signature of all programs of a connection. -/
@[reducible] def sig : Signature := ⟨Op, Op.Reply⟩

abbrev Prog (α : Type) := Program sig α

end SshGate
