import SshGate.World

/-! # What the calls are made of

Every entry point asks for names only through `cachedLookup`, and
`cachedLookup` runs at most one flight. A law about resolving is proved about
one flight and carried from there to every call.
-/

namespace SshGate

open Go Interaction Program

/-- A dial to a destination; every other action belongs to resolving. -/
def Op.isDial : Op → Bool
  | .dialTunnel _ _ _ | .dialDirect _ _ => true
  | _ => false

/-- The program performs actions of `kind` only inside cached lookups of
`allowed` requests. -/
abbrev CallsFor (c : DnsCache) (allowed : Request → Prop) (kind : Op → Prop) {α : Type}
    (p : Prog α) : Prop :=
  Calls (fun req : { req // allowed req } => cachedLookup c req) kind p

section CallsFor

variable {c : DnsCache} {allowed allowed' : Request → Prop} {kind : Op → Prop} {α : Type}

theorem CallsFor.call {req : Request} (hreq : allowed req) {f : Answer → Prog α}
    (hf : ∀ answer, CallsFor c allowed kind (f answer)) :
    CallsFor c allowed kind (cachedLookup c req >>= f) :=
  Calls.call (⟨req, hreq⟩ : { req // allowed req }) hf

theorem CallsFor.self {req : Request} (hreq : allowed req) :
    CallsFor c allowed kind (cachedLookup c req) :=
  Calls.sub_self (⟨req, hreq⟩ : { req // allowed req })

theorem CallsFor.mono {p : Prog α} (hp : CallsFor c allowed kind p)
    (hallowed : ∀ req, allowed req → allowed' req) : CallsFor c allowed' kind p :=
  Calls.trans hp (fun req => CallsFor.self (hallowed req req.2)) fun _ hop => hop

end CallsFor

/-- The requests a call can make. The rules see a host that was normalized
once before; `resolveAll` normalizes it again. -/
def Call.requests (c : DnsCache) : Call → List Request
  | .resolveTunnel host => [c.request .tunnel host]
  | .localResolveAll host => [c.request .local host]
  | .decide host => [c.request .tunnel (normalizeHost c.lower host)]
  | .candidates host | .openConn _ _ host _ =>
      [c.request .tunnel (normalizeHost c.lower host), c.request .local host,
        c.request .tunnel host]

section Candidates

-- Up to the candidate addresses a call does nothing but call `cachedLookup`.
variable {kind : Op → Prop}

theorem resolveAll_calls (c : DnsCache) (host : Text) :
    CallsFor c (· = c.request .tunnel host) kind (resolveAll c host) := by
  unfold resolveAll resolveTunnel
  apply CallsFor.call
  · rfl
  · intro answer
    cases answer.err with
    | none => exact .ret _
    | some err => exact .ret _

theorem RuleEntry.matches_calls (r : RuleEntry) (c : DnsCache) (host : Text) :
    CallsFor c (· = c.request .tunnel host) kind (r.matches c host) := by
  unfold RuleEntry.matches
  split
  next net hmatcher =>
    apply (resolveAll_calls c host).bind
    intro result
    cases result with
    | error err => exact .ret _
    | ok addrs => exact .ret _
  next => exact .ret _

theorem firstMatch_calls (c : DnsCache) (host : Text) (rules : List RuleEntry) :
    CallsFor c (· = c.request .tunnel host) kind (firstMatch c host rules) := by
  induction rules with
  | nil => exact .ret _
  | cons r rest ih =>
      apply (r.matches_calls c host).bind
      intro matched
      cases matched with
      | false => exact ih
      | true => exact .ret _

theorem RuleEngine.decide_calls (e : RuleEngine) (host : Text) :
    CallsFor e.dns (· = e.dns.request .tunnel (normalizeHost e.dns.lower host)) kind
      (e.decide host) := by
  unfold RuleEngine.decide
  split
  next => exact .ret _
  next => exact (firstMatch_calls e.dns _ e.rules).bind fun found => .ret _

/-- The resolve policy of a route. -/
def Route.policy : Route → Policy
  | .direct => .local
  | .tunnel => .tunnel

theorem resolveFor_eq (c : DnsCache) (host : Text) (route : Route) :
    resolveFor c host route = cachedLookup c (c.request route.policy host) := by
  cases route with
  | direct => rfl
  | tunnel => rfl

theorem resolveFor_calls (c : DnsCache) (host : Text) (route : Route) :
    CallsFor c (· = c.request route.policy host) kind (resolveFor c host route) := by
  rw [resolveFor_eq]
  exact CallsFor.self rfl

theorem candidates_calls (o : Opener) (host : Text) :
    CallsFor o.rules.dns (· ∈ (Call.candidates host).requests o.rules.dns) kind
      (candidates o host) := by
  refine Calls.bind ((o.rules.decide_calls host).mono ?_) fun decision => ?_
  · rintro req rfl
    simp [Call.requests]
  · refine Calls.bind ((resolveFor_calls o.rules.dns host decision.1).mono ?_) fun answer => .ret _
    rintro req rfl
    cases decision.1 <;> simp [Call.requests, Route.policy]

end Candidates

theorem dialDirectAll_calls {ι : Type} {sub : ι → Prog Answer} (family : IPFamily) (port : Int)
    (addrs : List Addr) (firstErr : Option (Addr × Err)) :
    Calls sub (fun op : Op => op.isDial = false) (dialDirectAll family port addrs firstErr) := by
  induction addrs generalizing firstErr with
  | nil => exact .ret _
  | cons ip rest ih =>
      have hdial : Calls sub (fun op : Op => op.isDial = false) (dialDirectIP family ip port) := by
        unfold dialDirectIP
        split
        next =>
          refine .perform (by simp [Op.isDial]) fun reply => ?_
          cases reply with
          | error err => exact .ret _
          | ok conn => exact .ret _
        next => exact .ret _
      apply hdial.bind
      intro reply
      cases reply with
      | error err => exact ih _
      | ok conn => exact .ret _

theorem dialTunnelAll_calls {ι : Type} {sub : ι → Prog Answer} (info : ConnMeta) (port : Int)
    (addrs : List Addr) (firstErr : Option (Addr × Err)) :
    Calls sub (fun op : Op => op.isDial = false) (dialTunnelAll info port addrs firstErr) := by
  induction addrs generalizing firstErr with
  | nil => exact .ret _
  | cons ip rest ih =>
      refine .perform (by simp [Op.isDial]) fun reply => ?_
      cases reply with
      | error err => exact ih _
      | ok conn => exact .ret _

theorem dialAll_calls {ι : Type} {sub : ι → Prog Answer} (o : Opener) (info : ConnMeta)
    (port : Int) (found : Candidates) (addrs : List Addr) :
    Calls sub (fun op : Op => op.isDial = false) (dialAll o info port found addrs) := by
  unfold dialAll
  split
  next =>
    apply (dialDirectAll_calls o.family port addrs none).bind
    intro dialed
    cases dialed with
    | error first => exact .ret _
    | ok conn => exact .ret _
  next =>
    apply (dialTunnelAll_calls info port addrs none).bind
    intro dialed
    cases dialed with
    | error first => exact .ret _
    | ok conn => exact .ret _

theorem openConn_calls (o : Opener) (src proto host : Text) (port : Int) :
    CallsFor o.rules.dns (· ∈ (Call.openConn src proto host port).requests o.rules.dns)
      (fun op => op.isDial = false) (openConn o src proto host port) := by
  refine Calls.bind (candidates_calls o host) fun found => ?_
  cases found.addrs with
  | error err => exact .ret _
  | ok addrs => exact dialAll_calls o _ port found addrs

/-- Every call asks for names through cached lookups of its requests only. -/
theorem program_calls (o : Opener) (call : Call) :
    CallsFor o.rules.dns (· ∈ call.requests o.rules.dns) (fun op => op.isDial = false)
      (call.program o) := by
  cases call with
  | resolveTunnel host => exact CallsFor.call (by simp [Call.requests]) fun answer => .ret _
  | localResolveAll host => exact CallsFor.call (by simp [Call.requests]) fun answer => .ret _
  | decide host =>
      refine Calls.bind ((o.rules.decide_calls host).mono ?_) fun decision => .ret _
      rintro req rfl
      simp [Call.requests]
  | candidates host => exact Calls.bind (candidates_calls o host) fun found => .ret _
  | openConn src proto host port =>
      exact Calls.bind (openConn_calls o src proto host port) fun opened => .ret _

/-! ## Flights and lookups -/

/-- The actions of one attempt on a tunnel resolver. -/
def Op.inAttempt : Op → Bool
  | .ask _ _ _ | .dialServer _ | .resolverReply _ _ | .dohReply _ _ _ => true
  | _ => false

/-- The actions of one attempt on resolver `u` with a given share. -/
def Op.InAttemptOf (u : Nat) (share : Int) : Op → Prop
  | .ask v _ given => v = u ∧ given = share
  | op => op.inAttempt = true

/-- The actions of one flight that no other part of a call performs. -/
def Op.inFlight : Op → Bool
  | .cacheGet _ | .sfDo _ | .sfWait _ _ | .sfEnd _ _ _ | .dialTunnel _ _ _ | .dialDirect _ _ =>
      false
  | _ => true

/-- The actions of a flight's lookup. -/
def Op.inLookup : Op → Bool
  | .lookupsAdd | .store _ _ => false
  | op => op.inFlight

/-- The actions of a lookup between its claims and their release, without the
fallback. -/
def Op.inWalk : Op → Bool
  | .claim _ _ | .releaseProbes _ | .fallback | .lastFallback _ => false
  | op => op.inLookup

def Op.inFallback : Op → Bool
  | .fallback | .now | .lastFallback _ | .localLookup _ | .tunnelUp => true
  | _ => false

theorem Op.inLookup_of_inFallback {op : Op} (hop : op.inFallback = true) : op.inLookup = true := by
  cases op <;> simp_all [Op.inFallback, Op.inLookup, Op.inFlight]

theorem Op.InAttemptOf.inAttempt {op : Op} {u : Nat} {share : Int}
    (hop : op.InAttemptOf u share) : op.inAttempt = true := by
  cases op with
  | ask v name given => rfl
  | _ => exact hop

theorem Op.inWalk_of_inAttempt {op : Op} (hop : op.inAttempt = true) : op.inWalk = true := by
  cases op <;> simp_all [Op.inAttempt, Op.inWalk, Op.inLookup, Op.inFlight]

theorem Op.inLookup_of_inWalk {op : Op} (hop : op.inWalk = true) : op.inLookup = true := by
  cases op <;> simp_all [Op.inWalk]

theorem dialHook_confined (u dials : Nat) :
    Confined (fun op : Op => op = Op.dialServer u) (dialHook u dials) := by
  induction dials with
  | zero => trivial
  | succ n ih => exact .perform rfl fun reply => ih.bind fun opened => trivial

theorem dialHook_inAttemptOf (u dials : Nat) (share : Int) :
    Confined (Op.InAttemptOf u share) (dialHook u dials) := by
  apply (dialHook_confined u dials).imp
  rintro op rfl
  rfl

theorem dohQueries_inAttemptOf (u : Nat) (share : Int) (host : Text) (queries : List DohQuery)
    (connected : Bool) (out : List Addr) :
    Confined (Op.InAttemptOf u share) (dohQueries u share host queries connected out) := by
  induction queries generalizing connected out with
  | nil => trivial
  | cons q rest ih =>
      refine Confined.bind ?_ ?_
      · refine .perform ⟨rfl, rfl⟩ fun dials => (dialHook_inAttemptOf u dials share).bind ?_
        exact fun opened => .perform rfl fun reply => trivial
      · rintro ⟨gotConn, result⟩
        cases result with
        | error err =>
            dsimp only
            split
            next => trivial
            next => trivial
        | ok addrs => exact ih _ _

theorem upstreamLookup_inAttemptOf (c : DnsCache) (u : Nat) (share : Int) (host : Text) :
    Confined (Op.InAttemptOf u share) (upstreamLookup c u share host) := by
  unfold upstreamLookup
  split
  next => exact dohQueries_inAttemptOf u share host _ _ _
  next =>
    refine .perform ⟨rfl, rfl⟩ fun dials => (dialHook_inAttemptOf u dials share).bind ?_
    exact fun opened => .perform rfl fun reply => trivial

theorem upstreamLookup_inAttempt (c : DnsCache) (u : Nat) (share : Int) (host : Text) :
    Confined (fun op : Op => op.inAttempt = true) (upstreamLookup c u share host) :=
  (upstreamLookup_inAttemptOf c u share host).imp fun _ => Op.InAttemptOf.inAttempt

theorem lookupLocal_confined (host : Text) :
    Confined (fun op : Op => op = Op.localLookup host) (lookupLocal host) := by
  refine .perform rfl fun reply => ?_
  cases reply with
  | error err => trivial
  | ok addrs => trivial

theorem notFound_confined (c : DnsCache) (host : Text) :
    Confined (fun op : Op => op = Op.localLookup host) (notFound c host) := by
  unfold notFound
  split
  next =>
    apply (lookupLocal_confined host).bind
    intro result
    cases result with
    | error err => trivial
    | ok addrs => trivial
  next => trivial

theorem upstreamFailed_confined (u : Nat) (err : Err) :
    Confined (fun op : Op => op = .tunnelUp ∨ op = .failed u err) (upstreamFailed u err) := by
  refine .perform (.inl rfl) fun up => ?_
  cases up with
  | false => trivial
  | true => exact .perform (.inr rfl) fun reading => trivial

theorem upstreamFailed_inWalk (u : Nat) (err : Err) :
    Confined (fun op : Op => op.inWalk = true) (upstreamFailed u err) := by
  apply (upstreamFailed_confined u err).imp
  rintro op (rfl | rfl)
  · rfl
  · rfl

theorem walk_inWalk (c : DnsCache) (deadline : Nat) (host : Text) (us : List Nat) :
    Confined (fun op : Op => op.inWalk = true) (walk c deadline host us) := by
  induction us with
  | nil => trivial
  | cons u rest ih =>
      refine .perform rfl fun reading => .perform rfl fun start => Confined.bind ?_ fun result => ?_
      · exact (upstreamLookup_inAttempt c u _ host).imp fun op => Op.inWalk_of_inAttempt
      refine .perform rfl fun stop => ?_
      cases result with
      | ok addrs => exact .perform rfl fun _ => trivial
      | error err =>
          dsimp only
          split
          next =>
            refine .perform rfl fun _ => Confined.bind ?_ fun answer => trivial
            apply (notFound_confined c host).imp
            rintro op rfl
            rfl
          next => exact (upstreamFailed_inWalk u err).bind fun _ => ih

theorem lookupFallback_inFallback (c : DnsCache) (host : Text) :
    Confined (fun op : Op => op.inFallback = true) (lookupFallback c host) := by
  have hlocal : Confined (fun op : Op => op.inFallback = true) (lookupLocal host) := by
    apply (lookupLocal_confined host).imp
    rintro op rfl
    rfl
  refine .perform rfl fun _ => .perform rfl fun t => .perform rfl fun _ => ?_
  refine hlocal.bind fun result => Confined.bind ?_ ?_
  · unfold fallbackDirect
    split
    next => exact .perform rfl fun up => trivial
    next => trivial
  · intro localDirect
    cases result with
    | error err => trivial
    | ok addrs => trivial

theorem orFallback_inFallback (c : DnsCache) (host : Text) (walked : Option Answer) :
    Confined (fun op : Op => op.inFallback = true) (orFallback c host walked) := by
  cases walked with
  | none => exact lookupFallback_inFallback c host
  | some answer => trivial

theorem localLookup_confined (host : Text) :
    Confined (fun op : Op => op = Op.localLookup host) (localLookup host) := by
  apply (lookupLocal_confined host).bind
  intro result
  cases result with
  | error err => trivial
  | ok addrs => trivial

theorem claimAll_confined (now : Nat) (us : List Nat) :
    Confined (fun op : Op => ∃ u, op = .claim u now) (claimAll now us) := by
  induction us with
  | nil => trivial
  | cons u rest ih => exact .perform ⟨u, rfl⟩ fun grant => ih.bind fun active => trivial

theorem policyLookup_inLookup (c : DnsCache) (ctx : Nat) (host : Text) (policy : Policy) :
    Confined (fun op : Op => op.inLookup = true) (policy.lookup c ctx host) := by
  cases policy with
  | tunnel =>
      refine .perform rfl fun now => Confined.bind ?_ fun active => .perform rfl fun start => ?_
      · apply (claimAll_confined now _).imp
        rintro op ⟨u, rfl⟩
        rfl
      refine ((walk_inWalk c _ host active).imp fun op => Op.inLookup_of_inWalk).bind ?_
      intro walked
      refine ((orFallback_inFallback c host walked).imp fun op => Op.inLookup_of_inFallback).bind ?_
      exact fun answer => .perform rfl fun _ => trivial
  | «local» =>
      apply (localLookup_confined host).imp
      rintro op rfl
      rfl

/-- Settling a flight reads the clock and stores. -/
theorem settle_confined (c : DnsCache) (req : Request) (answer : Answer) :
    Confined (fun op : Op => op = .now ∨ ∃ entry, op = .store req entry) (settle c req answer) := by
  unfold settle
  split
  next err _ =>
    split
    next => exact .perform (.inl rfl) fun now => .perform (.inr ⟨_, rfl⟩) fun order => trivial
    next => trivial
  next =>
    split
    next => trivial
    next =>
      split
      next => exact .perform (.inl rfl) fun now => .perform (.inr ⟨_, rfl⟩) fun order => trivial
      next => trivial

theorem settle_inFlight (c : DnsCache) (req : Request) (answer : Answer) :
    Confined (fun op : Op => op.inFlight = true) (settle c req answer) := by
  apply (settle_confined c req answer).imp
  rintro op (rfl | ⟨entry, rfl⟩)
  · rfl
  · rfl

theorem fly_inFlight (c : DnsCache) (req : Request) :
    Confined (fun op : Op => op.inFlight = true) (fly c req) := by
  refine .perform rfl fun start => .perform rfl fun _ => Confined.bind ?_ (settle_inFlight c req)
  apply (policyLookup_inLookup c _ req.host req.policy).imp
  intro op hop
  cases op <;> simp_all [Op.inLookup, Op.inFlight]

theorem cachedLookup_not_isDial (c : DnsCache) (req : Request) :
    Confined (fun op : Op => op.isDial = false) (cachedLookup c req) := by
  unfold cachedLookup
  split
  next => trivial
  next =>
    refine .perform rfl fun hit => ?_
    cases hit with
    | some cell => trivial
    | none =>
        refine .perform rfl fun flight => ?_
        cases flight with
        | join id => exact .perform rfl fun shared => trivial
        | lead id =>
            refine Confined.bind ?_ fun answer => .perform rfl fun _ => trivial
            apply (fly_inFlight c req).imp
            intro op hop
            cases op <;> simp_all [Op.isDial, Op.inFlight]

/-- The actions that only the tunnel policy's lookup performs. -/
def Op.inTunnelLookup : Op → Bool
  | .claim _ _ | .ask _ _ _ | .dialServer _ | .resolverReply _ _ | .dohReply _ _ _
  | .answered _ _ | .tunnelUp | .failed _ _ | .releaseProbes _ | .fallback
  | .lastFallback _ => true
  | _ => false

theorem settle_callsLookup {ι : Type} {sub : ι → Prog Answer} (c : DnsCache) (req : Request)
    (answer : Answer) :
    Calls sub (fun op : Op => op.inTunnelLookup = true) (settle c req answer) := by
  have hstore : ∀ (entry : Nat → CacheEntry) (result : Answer),
      Calls sub (fun op : Op => op.inTunnelLookup = true)
        (act .now >>= fun now => act (.store req (entry now)) >>= fun _ => pure result) :=
    fun entry result => .perform (by simp [Op.inTunnelLookup]) fun now =>
      .perform (by simp [Op.inTunnelLookup]) fun order => .ret _
  unfold settle
  split
  next err _ =>
    split
    next => exact hstore _ _
    next => exact .ret _
  next =>
    split
    next => exact .ret _
    next =>
      split
      next => exact hstore _ _
      next => exact .ret _

/-- A cached lookup runs a tunnel lookup as a whole, or none. -/
theorem cachedLookup_callsLookup (c : DnsCache) (req : Request) :
    Calls (fun asked : Nat × Text => lookup c asked.1 asked.2)
      (fun op : Op => op.inTunnelLookup = true) (cachedLookup c req) := by
  unfold cachedLookup
  split
  next => exact .ret _
  next =>
    refine .perform (by simp [Op.inTunnelLookup]) fun hit => ?_
    cases hit with
    | some cell => exact .ret _
    | none =>
        refine .perform (by simp [Op.inTunnelLookup]) fun flight => ?_
        cases flight with
        | join id => exact .perform (by simp [Op.inTunnelLookup]) fun shared => .ret _
        | lead id =>
            refine Calls.bind ?_ fun answer =>
              .perform (by simp [Op.inTunnelLookup]) fun _ => .ret _
            refine .perform (by simp [Op.inTunnelLookup]) fun start =>
              .perform (by simp [Op.inTunnelLookup]) fun _ => ?_
            refine Calls.bind ?_ fun answer => settle_callsLookup c req answer
            cases req.policy with
            | tunnel => exact Calls.sub_self (start + lookupTimeout, req.host)
            | «local» =>
                refine .perform (by simp [Op.inTunnelLookup]) fun reply => ?_
                cases reply with
                | error err => exact .ret _
                | ok addrs => exact .ret _

/-- So does every call, between its other actions. -/
theorem program_callsLookup (o : Opener) (call : Call) :
    Calls (fun asked : Nat × Text => lookup o.rules.dns asked.1 asked.2)
      (fun op : Op => op.inTunnelLookup = true) (call.program o) := by
  refine (program_calls o call).trans (fun req => cachedLookup_callsLookup o.rules.dns req) ?_
  intro op hop
  cases op <;> simp_all [Op.inTunnelLookup, Op.isDial]

/-- Nothing is dialed before the candidates are known. -/
theorem candidates_not_isDial (o : Opener) (host : Text) :
    Confined (fun op : Op => op.isDial = false) (candidates o host) := by
  have hcalls : CallsFor o.rules.dns _ (fun _ => True) (candidates o host) :=
    candidates_calls o host
  exact hcalls.confined (fun req => cachedLookup_not_isDial o.rules.dns req)
    (fun _ hop => absurd trivial hop)

end SshGate
