import Mathlib.Data.List.AList
import Mathlib.Logic.Function.Basic
import SshGate.Opener

/-! # The shared state of all connections

One resolver state, one clock and one tunnel are shared by all calls. The
clock only moves forward; the tunnel goes up and down at any time; expired
cache entries are purged at any time.
-/

namespace SshGate

open Go Interaction

/-- The changing part of a tunnel resolver. -/
structure Upstream where
  pausedUntil : Option Nat := none
  probing : Bool := false
  ok : Nat := 0
  fail : Nat := 0
  lastOKAt : Option Nat := none
  lastRTT : Nat := 0
  lastFailed : Bool := false
  lastErr : Text := []
  deriving Repr, DecidableEq

namespace Upstream

def claim (u : Upstream) (now : Nat) : Grant × Upstream :=
  match u.pausedUntil with
  | none => (.open, u)
  | some pausedUntil =>
      if u.probing || now < pausedUntil then (.refused, u)
      else (.probe, { u with probing := true })

def answered (u : Upstream) (now rtt : Nat) : Upstream :=
  { u with pausedUntil := none, ok := u.ok + 1, lastOKAt := some now, lastRTT := rtt,
           lastFailed := false }

def failed (u : Upstream) (now : Nat) (err : Err) : Upstream :=
  { u with fail := u.fail + 1, lastFailed := true, lastErr := err.error,
           pausedUntil := if err.isUnreachable then some (now + upstreamPause) else none }

end Upstream

abbrev Cache := AList fun _ : Text => Cell

namespace Cache

/-- The loop of `store` over the map in some iteration order: the key it ends
with and its expiry. The empty key also stands for "none yet". -/
def oldest (cache : Cache) (order : List Text) : Text × Nat :=
  order.foldl (fun best key =>
    match cache.lookup key with
    | none => best
    | some cell =>
        if best.1 = [] ∨ cell.entry.expires < best.2 then (key, cell.entry.expires) else best)
    ([], 0)

/-- Make room for one entry. -/
def evict (cache : Cache) (order : List Text) : Cache :=
  if dnsCacheMaxSize ≤ cache.entries.length then
    if (cache.oldest order).1 ≠ [] then cache.erase (cache.oldest order).1 else cache
  else cache

def store (cache : Cache) (key : Text) (cell : Cell) (order : List Text) : Cache :=
  (cache.evict order).insert key cell

def purge (cache : Cache) (now : Nat) : Cache :=
  (cache.keys.filter fun key =>
    (cache.lookup key).any fun cell => decide (cell.entry.expires < now)).foldl
    (fun kept key => kept.erase key) cache

end Cache

/-- A flight: the request that leads it, and its result once it has ended. -/
structure FlightState where
  leader : Request
  result : Option Answer
  deriving Repr, DecidableEq

structure World where
  clock : Nat := 0
  up : Bool := false
  cache : Cache := ∅
  inflight : AList (fun _ : Text => Nat) := ∅
  flights : Nat → Option FlightState := fun _ => none
  nextFlight : Nat := 0
  upstreams : Nat → Upstream := fun _ => {}
  lookups : Nat := 0
  fallbacks : Nat := 0
  lastFallback : Option Nat := none

namespace World

/-- The unexpired entry of a key. -/
def hit (w : World) (key : Text) : Option Cell :=
  (w.cache.lookup key).filter fun cell => decide (w.clock < cell.entry.expires)

@[simps] def setUpstream (w : World) (u : Nat) (state : Upstream) : World :=
  { w with upstreams := Function.update w.upstreams u state }

@[simps] def releaseProbes (w : World) (claimed : List Nat) : World :=
  { w with upstreams := fun u =>
      if u ∈ claimed then { w.upstreams u with probing := false } else w.upstreams u }

/-- Start a flight of a key that has none. -/
@[simps] def takeOff (w : World) (req : Request) : World :=
  { w with inflight := w.inflight.insert req.key w.nextFlight
           flights := Function.update w.flights w.nextFlight (some ⟨req, none⟩)
           nextFlight := w.nextFlight + 1 }

/-- End a flight: its result becomes visible and the key is free again. -/
@[simps] def land (w : World) (req : Request) (flight : Nat) (answer : Answer) : World :=
  { w with inflight := w.inflight.erase req.key
           flights := Function.update w.flights flight (some ⟨req, some answer⟩) }

attribute [grind =] setUpstream_cache setUpstream_flights setUpstream_inflight
  setUpstream_nextFlight setUpstream_clock releaseProbes_cache releaseProbes_flights
  releaseProbes_inflight releaseProbes_nextFlight releaseProbes_clock takeOff_cache
  takeOff_upstreams takeOff_clock land_cache land_upstreams land_clock

/-- The effect of an action with its reply, where the reply is possible. -/
def perform : (op : Op) → World → op.Reply → Option World
  | .now, w, reading => if reading = w.clock then some w else none
  | .cacheGet req, w, cell => if cell = w.hit req.key then some w else none
  | .sfDo req, w, .join flight =>
      if w.inflight.lookup req.key = some flight then some w else none
  | .sfDo req, w, .lead flight =>
      if w.inflight.lookup req.key = none ∧ flight = w.nextFlight then some (w.takeOff req)
      else none
  | .sfWait _ flight, w, shared =>
      if w.flights flight = some ⟨shared.origin, some shared.answer⟩ then some w else none
  | .sfEnd req flight answer, w, () => some (w.land req flight answer)
  | .lookupsAdd, w, () => some { w with lookups := w.lookups + 1 }
  | .store req entry, w, order =>
      if order.Perm w.cache.keys then
        some { w with cache := w.cache.store req.key ⟨entry, req⟩ order }
      else none
  | .claim u now, w, grant =>
      if grant = ((w.upstreams u).claim now).1 then
        some (w.setUpstream u ((w.upstreams u).claim now).2)
      else none
  | .ask _ _ _, w, _ => some w
  | .dialServer _, w, reply => if reply = .notConnected ↔ w.up = false then some w else none
  | .resolverReply _ _, w, _ => some w
  | .dohReply _ _ _, w, _ => some w
  | .answered u rtt, w, () => some (w.setUpstream u ((w.upstreams u).answered w.clock rtt))
  | .tunnelUp, w, up => if up = w.up then some w else none
  | .failed u err, w, reading =>
      if reading = w.clock then some (w.setUpstream u ((w.upstreams u).failed w.clock err))
      else none
  | .releaseProbes claimed, w, () => some (w.releaseProbes claimed)
  | .fallback, w, () => some { w with fallbacks := w.fallbacks + 1 }
  | .lastFallback t, w, () => some { w with lastFallback := some t }
  | .localLookup _, w, _ => some w
  | .dialTunnel _ _ _, w, reply => if reply.isOk = true → w.up = true then some w else none
  | .dialDirect _ _, w, _ => some w

end World

/-- What happens to the shared state outside all calls. -/
inductive Disturbance where
  | tick (elapsed : Nat)
  | tunnel (up : Bool)
  | purge
  deriving Repr, DecidableEq

def World.disturb (w : World) : Disturbance → Option World
  | .tick elapsed => some { w with clock := w.clock + elapsed }
  | .tunnel up => some { w with up }
  | .purge => some { w with cache := w.cache.purge w.clock }

/-- The entry points of the resolver and the opener. -/
inductive Call where
  | resolveTunnel (host : Text)
  | localResolveAll (host : Text)
  | decide (host : Text)
  | candidates (host : Text)
  | openConn (src proto host : Text) (port : Int)
  deriving Repr, DecidableEq

inductive Result where
  | answer (answer : Answer)
  | decision (route : Route) (reason : Text)
  | candidates (found : Candidates)
  | opened (opened : Opened)
  deriving DecidableEq

/-- The program of a call. -/
def Call.program (o : Opener) : Call → Prog Result
  | .resolveTunnel host => do return .answer (← SshGate.resolveTunnel o.rules.dns host)
  | .localResolveAll host => do return .answer (← SshGate.localResolveAll o.rules.dns host)
  | .decide host => do
      let decision ← o.rules.decide host
      return .decision decision.1 decision.2
  | .candidates host => do return .candidates (← SshGate.candidates o host)
  | .openConn src proto host port => do
      return .opened (← SshGate.openConn o src proto host port)

/-- Any number of calls over one shared state. -/
@[reducible] def gate (o : Opener) : System where
  sig := sig
  Call := Call
  Result := Result
  program := Call.program o
  State := World
  Disturbance := Disturbance
  perform := World.perform
  disturb := World.disturb

/-! ## Runs on concrete inputs -/

/-- An opener without rules and with one tunnel resolver. -/
def sampleOpener (localOnNXDomain : Bool) : Opener where
  rules :=
    { rules := []
      ipLast := by simp [IPLast]
      dns :=
        { tunnel := [.server (str "1.1.1.1:53")], localOnNXDomain, ttl := dnsCacheTTL,
          negativeTTL := dnsNegativeTTL, lower := id } }
  family := .both

/-- The first flight of a sample run, at time 0: the tunnel resolver is asked
for the name and gives `reply` after the `dials`. -/
def sampleAttempt (req : Request) (dials : List DialReply)
    (reply : Except ResolverError (List IPAddr)) : List (Event sig) :=
  [⟨.cacheGet req, none⟩, ⟨.sfDo req, .lead 0⟩, ⟨.now, 0⟩, ⟨.lookupsAdd, ()⟩, ⟨.now, 0⟩,
    ⟨.claim 0 0, .open⟩, ⟨.now, 0⟩, ⟨.now, 0⟩, ⟨.now, 0⟩,
    ⟨.ask 0 (req.host ++ str ".") tunnelLookupTimeout, dials.length⟩] ++
  dials.map (fun dial => ⟨.dialServer 0, dial⟩) ++
  [⟨.resolverReply 0 (req.host ++ str "."), reply⟩, ⟨.now, 0⟩]

end SshGate
