import SshGate.Dns.Lookup

/-! # The opener

Every upstream connection is opened here: decide the route, resolve by the
route's policy, dial down the address list. A tunnel route may still turn
direct after the lookup.
-/

namespace SshGate

open Go Interaction

/-- The rules in the order they are tried, with the resolver they use. -/
structure RuleEngine where
  rules : List RuleEntry
  ipLast : IPLast rules
  dns : DnsCache

def newRuleEngine (compile : Text → Option (Text → Bool)) (direct : Text) (dns : DnsCache) :
    Except RuleError RuleEngine :=
  match h : parseRules compile dns.lower direct with
  | .error e => .error e
  | .ok rules => .ok ⟨rules, parseRules_ipLast h, dns⟩

structure Opener where
  rules : RuleEngine
  family : IPFamily

/-! ## Deciding the route -/

/-- An `ip:` rule resolves by the tunnel policy: the name is not known to be
direct yet. -/
def RuleEntry.matches (r : RuleEntry) (c : DnsCache) (host : Text) : Prog Bool :=
  match r.matcher with
  | .ip net => do
      let result ← resolveAll c host
      match result with
      | .error _ => return false
      | .ok addrs => return addrs.any net.contains
  | _ => return r.matchesName host

def firstMatch (c : DnsCache) (host : Text) : List RuleEntry → Prog (Option RuleEntry)
  | [] => return none
  | r :: rest => do
      let matched ← r.matches c host
      if matched then return some r else firstMatch c host rest

/-- The route of a rule search that ended with `found`. -/
def routeOf : Option RuleEntry → Route × Text
  | some r => (.direct, str "direct:" ++ r.raw)
  | none => (.tunnel, str "fallback")

/-- The host is an address literal in a private range. -/
def isPrivateLiteral (host : Text) : Bool := (Addr.parse host).any isPrivate

def RuleEngine.decide (e : RuleEngine) (host : Text) : Prog (Route × Text) :=
  if isPrivateLiteral (normalizeHost e.dns.lower host) then return (.direct, str "private")
  else do
    let found ← firstMatch e.dns (normalizeHost e.dns.lower host) e.rules
    return routeOf found

/-! ## Candidate addresses -/

structure Candidates where
  addrs : Except Err (List Addr)
  route : Route
  reason : Text
  deriving DecidableEq

def directCandidates (family : IPFamily) (host : Text) (addrs : List Addr) (reason : Text) :
    Candidates :=
  let out := addrs.filter (familyMatches family)
  if out = [] then ⟨.error (.noFamily host family), .direct, reason⟩
  else ⟨.ok out, .direct, reason⟩

/-- Private addresses never go to the tunnel. If nothing else is left, a local
answer that may go direct does, without the addresses of this machine. -/
def tunnelCandidates (family : IPFamily) (host : Text) (addrs : List Addr) (localDirect : Bool)
    (reason : Text) : Candidates :=
  let publicAddrs := addrs.filter fun a => !isPrivate a
  if publicAddrs ≠ [] then
    match pickTunnelAddr publicAddrs with
    | none => ⟨.error (.text (str "no address")), .tunnel, reason⟩
    | some head => ⟨.ok (head :: publicAddrs.filter (· ≠ head)), .tunnel, reason⟩
  else
    let reachable := dropHostLocal addrs
    if !localDirect || reachable.isEmpty then
      match addrs with
      | [] => ⟨.error .indexOutOfRange, .tunnel, reason⟩
      | first :: _ => ⟨.error (.onlyPrivate host first), .tunnel, reason⟩
    else directCandidates family host reachable (str "local-private")

/-- The candidates that an answer of the route's policy leads to. -/
def candidatesOf (family : IPFamily) (host : Text) (route : Route) (reason : Text)
    (answer : Answer) : Candidates :=
  match answer.err, route with
  | some err, _ => ⟨.error err, route, reason⟩
  | none, .direct => directCandidates family host answer.res.addrs reason
  | none, .tunnel =>
      tunnelCandidates family host answer.res.addrs answer.res.localDirect reason

/-- Resolve by the policy of the route. -/
def resolveFor (c : DnsCache) (host : Text) : Route → Prog Answer
  | .direct => localResolveAll c host
  | .tunnel => resolveTunnel c host

def candidates (o : Opener) (host : Text) : Prog Candidates := do
  let decision ← o.rules.decide host
  let answer ← resolveFor o.rules.dns host decision.1
  return candidatesOf o.family host decision.1 decision.2 answer

/-- The head of the candidates, for the SOCKS5 handshake. -/
def resolveAddr (o : Opener) (host : Text) : Prog (Except Err Addr × Route × Text) := do
  let found ← candidates o host
  match found.addrs with
  | .error err => return (.error err, found.route, found.reason)
  | .ok [] => return (.error .indexOutOfRange, found.route, found.reason)
  | .ok (ip :: _) => return (.ok ip, found.route, found.reason)

/-! ## Dialing -/

def dialDirectIP (family : IPFamily) (ip : Addr) (port : Int) : Prog (Except Err Nat) :=
  if familyMatches family ip then do
    let reply ← act (.dialDirect ip port)
    match reply with
    | .ok conn => return .ok conn
    | .error err => return .error (.dial ip port err)
  else return .error (.dialNoFamily ip port family)

/-- The connection with the dialed address, or the first error. -/
abbrev Dialed := Except (Option (Addr × Err)) (Nat × Text)

def dialDirectAll (family : IPFamily) (port : Int) :
    List Addr → (firstErr : Option (Addr × Err)) → Prog Dialed
  | [], firstErr => return .error firstErr
  | ip :: rest, firstErr => do
      let reply ← dialDirectIP family ip port
      match reply with
      | .ok conn => return .ok (conn, ip.string)
      | .error err => dialDirectAll family port rest (firstErr <|> some (ip, err))

def dialTunnelAll (info : ConnMeta) (port : Int) :
    List Addr → (firstErr : Option (Addr × Err)) → Prog Dialed
  | [], firstErr => return .error firstErr
  | ip :: rest, firstErr => do
      let reply ← act (.dialTunnel info ip port)
      match reply with
      | .ok conn => return .ok (conn, ip.string)
      | .error err => dialTunnelAll info port rest (firstErr <|> some (ip, err))

structure Opened where
  conn : Except Err (Nat × Text)
  route : Route
  reason : Text
  deriving DecidableEq

/-- The error of a direct route whose dials all failed. -/
def directFailure (host : Text) (port : Int) (count : Nat) (firstErr : Option (Addr × Err)) : Err :=
  withAttempts (.directDial host port ((firstErr.map Prod.snd).getD (.text (str "<nil>")))) count

/-- The error of a tunnel route whose dials all failed. -/
def tunnelFailure (port : Int) (count : Nat) (firstErr : Option (Addr × Err)) : Err :=
  let address := (firstErr.map fun first =>
    Addr.joinHostPort first.1.string (Text.itoa port)).getD []
  withAttempts (.network (str "SSH dial") address
    ((firstErr.map Prod.snd).getD (.text (str "<nil>")))) count

/-- Dial down the candidates of one route. -/
def dialAll (o : Opener) (info : ConnMeta) (port : Int) (found : Candidates)
    (addrs : List Addr) : Prog Opened :=
  match found.route with
  | .direct => do
      let dialed ← dialDirectAll o.family port addrs none
      match dialed with
      | .ok conn => return ⟨.ok conn, .direct, found.reason⟩
      | .error first =>
          return ⟨.error (directFailure info.host port addrs.length first), .direct, found.reason⟩
  | .tunnel => do
      let dialed ← dialTunnelAll info port addrs none
      match dialed with
      | .ok conn => return ⟨.ok conn, .tunnel, found.reason⟩
      | .error first =>
          return ⟨.error (tunnelFailure port addrs.length first), .tunnel, found.reason⟩

/-- Open a connection for a client: `src` and `proto` travel with tunnel dials. -/
def openConn (o : Opener) (src proto host : Text) (port : Int) : Prog Opened := do
  let found ← candidates o host
  match found.addrs with
  | .error err => return ⟨.error err, found.route, found.reason⟩
  | .ok addrs => dialAll o ⟨proto, src, host⟩ port found addrs

end SshGate
