import SshGate.Dns.Actions
import SshGate.Rules

/-! # The caching resolver

The programs of `dns.go`: the walk over the tunnel resolvers with its fallback
to the local resolver, and the cache with singleflight in front of it.
-/

namespace SshGate

open Go Interaction

/-- How a tunnel resolver is reached: a DNS server over TCP, or DNS over HTTPS. -/
inductive Endpoint where
  | server (addr : Text)
  | doh (host : Text)
  deriving Repr, DecidableEq

/-- The settings of the resolver; they do not change while it runs. `lower` is
Go's case table beyond ASCII. -/
structure DnsCache where
  tunnel : List Endpoint
  localOnNXDomain : Bool
  ttl : Nat
  negativeTTL : Nat
  lower : Nat → Nat

def dnsCacheMaxSize : Nat := 1000
def dnsCacheTTL : Nat := 30 * second
def dnsNegativeTTL : Nat := 10 * second
def lookupTimeout : Nat := 5 * second
def tunnelLookupTimeout : Nat := 3 * second
def upstreamPause : Nat := 10 * second

/-- `TUNNEL_DNS`: the given DNS servers in order. -/
def setTunnelDNS (servers : List Text) (c : DnsCache) : DnsCache :=
  { c with tunnel := servers.map .server }

/-- `DOH_HOST`: the endpoint is the only tunnel resolver. -/
def setDOH (host : Text) (c : DnsCache) : DnsCache :=
  { c with tunnel := [.doh host] }

abbrev act (op : Op) : Prog op.Reply := Program.perform (S := sig) op

/-- Resolver results as unmapped addresses; a zone is not taken over. -/
def toNetip (addrs : List IPAddr) : List Addr :=
  addrs.filterMap fun a => (Addr.fromSlice a.ip).map Addr.unmap

/-! ## One attempt on a tunnel resolver -/

/-- The dial hook is called `n` times; whether a channel was opened. -/
def dialHook (u : Nat) : Nat → Prog Bool
  | 0 => return false
  | n + 1 => do
      let reply ← act (.dialServer u)
      let opened ← dialHook u n
      return reply == .opened || opened

/-- Interpret what Go's resolver returned for a DNS server. -/
def classifyServer (opened : Bool) : Except ResolverError (List IPAddr) → Except Err (List Addr)
  | .ok addrs => .ok (toNetip addrs)
  | .error (.other err) => .error (.text err)
  | .error (.dns isNotFound err) =>
      if isNotFound then .error .notFound
      else if !opened then .error (.unreachable err)
      else .error (.text err)

def dnsServerLookup (u : Nat) (share : Int) (host : Text) : Prog (Except Err (List Addr)) := do
  let dials ← act (.ask u (host ++ str ".") share)
  let opened ← dialHook u dials
  let reply ← act (.resolverReply u (host ++ str "."))
  return classifyServer opened reply

/-- Interpret one dns-json answer. -/
def classifyDoh (q : DohQuery) : DohOutcome → Except Err (List Addr)
  | .failed err => .error (.text err)
  | .response statusCode status records =>
      if status = 3 then .error .notFound
      else if statusCode ≠ 200 ∨ status ≠ 0 then
        .error (.text (str "doh: status " ++ Text.itoa statusCode ++ str "/" ++ Text.itoa status))
      else
        .ok (records.filterMap fun r =>
          if r.type = q.want then (Addr.parse r.data).map Addr.unmap else none)

/-- One dns-json query: whether the connection hook ran, and the addresses. -/
def dohJSONQuery (u : Nat) (share : Int) (host : Text) (q : DohQuery) :
    Prog (Bool × Except Err (List Addr)) := do
  let dials ← act (.ask u host share)
  let _ ← dialHook u dials
  let reply ← act (.dohReply u host q)
  return (reply.gotConn, classifyDoh q reply.outcome)

/-- The loop of `dohLookup`; `connected` and `out` are its variables. -/
def dohQueries (u : Nat) (share : Int) (host : Text) :
    List DohQuery → (connected : Bool) → (out : List Addr) → Prog (Except Err (List Addr))
  | [], _, out => return if out = [] then .error .notFound else .ok out
  | q :: rest, connected, out => do
      let (gotConn, result) ← dohJSONQuery u share host q
      match result with
      | .error err =>
          if !(connected || gotConn) && !err.isNotFound then
            return .error (.unreachable err.error)
          else return .error err
      | .ok addrs => dohQueries u share host rest (connected || gotConn) (out ++ addrs)

def dohLookup (u : Nat) (share : Int) (host : Text) : Prog (Except Err (List Addr)) :=
  dohQueries u share host [.A, .AAAA] false []

/-- The lookup function of upstream `u`. -/
def upstreamLookup (c : DnsCache) (u : Nat) (share : Int) (host : Text) :
    Prog (Except Err (List Addr)) :=
  match c.tunnel[u]? with
  | some (.doh _) => dohLookup u share host
  | _ => dnsServerLookup u share host

/-! ## The walk over the tunnel resolvers -/

def lookupLocal (host : Text) : Prog (Except Err (List Addr)) := do
  let reply ← act (.localLookup host)
  match reply with
  | .error err => return .error (.text err)
  | .ok addrs => return .ok (toNetip addrs)

def notFound (c : DnsCache) (host : Text) : Prog Answer :=
  if c.localOnNXDomain then do
    let result ← lookupLocal host
    match result with
    | .ok addrs => return ⟨{ addrs, authoritative := true, localDirect := true }, none⟩
    | .error _ => return ⟨{ authoritative := true }, some .notFound⟩
  else return ⟨{ authoritative := true }, some .notFound⟩

/-- With the tunnel down a failure says nothing about the server. -/
def upstreamFailed (u : Nat) (err : Err) : Prog Unit := do
  let up ← act .tunnelUp
  if up then do
    let _ ← act (.failed u err)
    return ()
  else return ()

/-- The claims of a lookup that starts at `now`; the result is `active`. -/
def claimAll (now : Nat) : List Nat → Prog (List Nat)
  | [] => return []
  | u :: rest => do
      let grant ← act (.claim u now)
      let active ← claimAll now rest
      return if grant.granted then u :: active else active

/-- Ask the claimed resolvers in order until one answers; `none` when none
did. Each gets an equal share of the time left until `deadline`. -/
def walk (c : DnsCache) (deadline : Nat) (host : Text) : List Nat → Prog (Option Answer)
  | [] => return none
  | u :: rest => do
      let reading ← act .now
      let share := Int.tdiv (deadline - reading) (rest.length + 1)
      let start ← act .now
      let result ← upstreamLookup c u share host
      let stop ← act .now
      match result with
      | .ok addrs => do
          let _ ← act (.answered u (stop - start))
          return some ⟨{ addrs, authoritative := true }, none⟩
      | .error err =>
          if err.isNotFound then do
            let _ ← act (.answered u (stop - start))
            let answer ← notFound c host
            return some answer
          else do
            upstreamFailed u err
            walk c deadline host rest

/-- With the setting on, a fallback answer may go direct while the tunnel is
down. -/
def fallbackDirect (c : DnsCache) : Prog Bool :=
  if c.localOnNXDomain then do
    let up ← act .tunnelUp
    return !up
  else return false

/-- No tunnel resolver answered: ask the local one. The tunnel state is read
after its answer arrived. -/
def lookupFallback (c : DnsCache) (host : Text) : Prog Answer := do
  let _ ← act .fallback
  let t ← act .now
  let _ ← act (.lastFallback t)
  let result ← lookupLocal host
  let localDirect ← fallbackDirect c
  match result with
  | .ok addrs => return ⟨{ addrs, localDirect }, none⟩
  | .error err => return ⟨{ localDirect }, some err⟩

def orFallback (c : DnsCache) (host : Text) : Option Answer → Prog Answer
  | some answer => return answer
  | none => lookupFallback c host

/-- The tunnel policy's lookup; `ctx` is the deadline of the caller's context. -/
def lookup (c : DnsCache) (ctx : Nat) (host : Text) : Prog Answer := do
  let now ← act .now
  let active ← claimAll now (List.range c.tunnel.length)
  let start ← act .now
  let walked ← walk c (min ctx (start + tunnelLookupTimeout)) host active
  let answer ← orFallback c host walked
  -- The deferred release: it runs after the fallback's local lookup too.
  let _ ← act (.releaseProbes active)
  return answer

/-- The local policy's lookup. -/
def localLookup (host : Text) : Prog Answer := do
  let result ← lookupLocal host
  match result with
  | .ok addrs => return ⟨{ addrs, authoritative := true }, none⟩
  | .error err => return ⟨{ authoritative := true }, some err⟩

def Policy.lookup (c : DnsCache) (ctx : Nat) (host : Text) : Policy → Prog Answer
  | .tunnel => SshGate.lookup c ctx host
  | .local => localLookup host

/-! ## The cache -/

/-- Store what an executed lookup returned, if it is worth caching, and give
the caller its result. -/
def settle (c : DnsCache) (req : Request) (answer : Answer) : Prog Answer :=
  match answer.err with
  | some err =>
      if answer.res.authoritative && err.isNotFound then do
        let now ← act .now
        let _ ← act (.store req { expires := now + c.negativeTTL, neg := true })
        return ⟨{}, some (.dns req.host err)⟩
      else return ⟨{}, some (.dns req.host err)⟩
  | none =>
      if answer.res.addrs = [] then return ⟨{}, some (.noAddress req.host)⟩
      else if answer.res.authoritative then do
        let now ← act .now
        let _ ← act (.store req { addrs := answer.res.addrs, expires := now + c.ttl,
                                  localDirect := answer.res.localDirect })
        return answer
      else return answer

/-- The function `singleflight.Do` runs. -/
def fly (c : DnsCache) (req : Request) : Prog Answer := do
  let start ← act .now
  let _ ← act .lookupsAdd
  let answer ← req.policy.lookup c (start + lookupTimeout) req.host
  settle c req answer

/-- The answer a cache entry stands for. -/
def CacheEntry.answer (entry : CacheEntry) (host : Text) : Answer :=
  if entry.neg then ⟨{}, some (.dns host .notFound)⟩
  else ⟨{ addrs := entry.addrs, authoritative := true, localDirect := entry.localDirect }, none⟩

def cachedLookup (c : DnsCache) (req : Request) : Prog Answer :=
  match Addr.parse req.host with
  | some ip => return ⟨{ addrs := [ip.unmap] }, none⟩
  | none => do
      let hit ← act (.cacheGet req)
      match hit with
      | some cell => return cell.entry.answer req.host
      | none => do
          let flight ← act (.sfDo req)
          match flight with
          | .join id => do
              let shared ← act (.sfWait req id)
              return shared.answer
          | .lead id => do
              let answer ← fly c req
              let _ ← act (.sfEnd req id answer)
              return answer

/-- The requests the two entry points make for a host. -/
def DnsCache.request (c : DnsCache) (policy : Policy) (host : Text) : Request :=
  ⟨policy, normalizeHost c.lower host⟩

/-- Addresses under the tunnel policy, with the mark that private ones may go
direct. -/
def resolveTunnel (c : DnsCache) (host : Text) : Prog Answer :=
  cachedLookup c (c.request .tunnel host)

def localResolveAll (c : DnsCache) (host : Text) : Prog Answer :=
  cachedLookup c (c.request .local host)

/-- `ResolveAll`: the tunnel policy without the mark. -/
def resolveAll (c : DnsCache) (host : Text) : Prog (Except Err (List Addr)) := do
  let answer ← resolveTunnel c host
  match answer.err with
  | some err => return .error err
  | none => return .ok answer.res.addrs

end SshGate
