import SshGate.Go.Literals
import SshGate.Opener.Spellings

/-! # Who learns the name of a destination

Address literals should reach no resolver, names with a direct rule no tunnel
resolver, and other names the local resolver only where the tunnel resolvers
gave nothing or said not-found with the setting on. All of it holds except for
literals that stop being literals when they are normalized: those with the zone
`.`, and where a rule has to resolve them, those with the zone `..`.
-/

namespace SshGate

open Go Interaction Program System

/-- The resolver `u` gets to see a name that it is asked for. Go's resolver
answers an address literal itself; the DoH endpoint is sent every name. -/
def DnsCache.Sends (c : DnsCache) (u : Nat) (name : Text) : Prop :=
  (∃ host, c.tunnel[u]? = some (.doh host)) ∨ Addr.parse name = none

/-- A tunnel resolver was asked. -/
def AskedTunnel (c : DnsCache) (trace : List (Event sig)) : Prop :=
  ∃ u name share dials, (⟨.ask u name share, dials⟩ : Event sig) ∈ trace ∧ c.Sends u name

/-- The local resolver was asked for a name that it `forwards`. Which names the
system's resolver does not answer itself depends on the system: Go's own refuses
what is no domain name, that of the C library takes any text. -/
def AskedLocal (forwards : Text → Prop) (trace : List (Event sig)) : Prop :=
  ∃ name reply, (⟨.localLookup name, reply⟩ : Event sig) ∈ trace ∧ forwards name

/-- An address literal as sent, or once normalized. -/
def IsLiteral (c : DnsCache) (host : Text) : Prop :=
  (Addr.parse host).isSome = true ∨ (Addr.parse (normalizeHost c.lower host)).isSome = true

/-- The privacy of one connection's name. -/
structure NamePrivacy (o : Opener) (forwards : Text → Prop) (host : Text)
    (trace : List (Event sig)) : Prop where
  literal : IsLiteral o.rules.dns host →
    ¬ AskedTunnel o.rules.dns trace ∧ ¬ AskedLocal forwards trace
  named : (∃ r ∈ o.rules.rules, r.matchesName (normalizeHost o.rules.dns.lower host) = true) →
    ¬ AskedTunnel o.rules.dns trace
  tunnel : ∀ first second decision, trace = first ++ second →
    (o.rules.decide host).Returns first decision → decision.1 = .tunnel →
    ∀ before after name reply, trace = before ++ ⟨.localLookup name, reply⟩ :: after →
      ∃ prior seg ctx next, before = prior ++ seg ∧
        (lookup o.rules.dns ctx name).Reaches seg (.act (.localLookup name) next) ∧
        (NoneAnswered o.rules.dns name seg ∨
          NotFoundSeen o.rules.dns name seg ∧ o.rules.dns.localOnNXDomain = true)

/-- What `resolveAll` makes of the host that `Decide` has normalized. -/
def DnsCache.remains (c : DnsCache) (host : Text) : Text :=
  normalizeHost c.lower (normalizeHost c.lower host)

/-- The code looks the host up: to dial it, or to match an `ip:` rule. -/
def Opener.Resolves (o : Opener) (host : Text) : Prop :=
  Addr.parse (normalizeHost o.rules.dns.lower host) = none ∨ o.rules.NeedsLookup host

/-- A literal is not looked up; or nobody gets to see what remains of it: the
local resolver answers that itself, and Go's resolver does so for the DNS servers
or a rule for names keeps it from the tunnel resolvers. -/
def LiteralKept (o : Opener) (forwards : Text → Prop) (host : Text) : Prop :=
  IsLiteral o.rules.dns host → o.Resolves host →
    ¬ forwards (o.rules.dns.remains host) ∧
      ((∀ endpoint ∈ o.rules.dns.tunnel, ∃ addr, endpoint = .server addr) ∨
        ∃ r ∈ o.rules.rules, r.matchesName (normalizeHost o.rules.dns.lower host) = true)

/-! ## What remains of a literal -/

section Remains

variable {lower : Nat → Nat} {c : DnsCache} {host : Text}

theorem trimSuffix_snoc {front : Text} {b : UInt8} (hb : b ≠ 46) :
    (front ++ [b]).trimSuffix (str ".") = front ++ [b] := by
  apply Text.trimSuffix_of_not_suffix
  rintro ⟨before, hbefore⟩
  have hlast := (List.append_inj' hbefore rfl).2
  exact hb (List.singleton_inj.mp hlast).symm

/-- A trailing dot is taken from the second of two texts. -/
theorem trimSuffix_append_dot (front : Text) {back : Text} (hback : back ≠ []) :
    (front ++ back).trimSuffix (str ".") = front ++ back.trimSuffix (str ".") := by
  obtain ⟨before, b, rfl⟩ := (List.eq_nil_or_concat' back).resolve_left hback
  rw [← List.append_assoc]
  by_cases hb : b = 46
  · rw [hb, trimSuffix_snoc_dot, trimSuffix_snoc_dot]
  · rw [trimSuffix_snoc hb, trimSuffix_snoc hb, List.append_assoc]

/-- A literal without a zone does not end with a dot. -/
theorem normalizeHost_body {body : Text} (hbody : Addr.Body body) :
    normalizeHost lower body = body.map Text.lowerByte := by
  rw [normalizeHost, Text.toLower_of_isAscii hbody.ascii]
  rcases List.eq_nil_or_concat' (body.map Text.lowerByte) with hnil | ⟨before, b, hlower⟩
  · rw [hnil]
    rfl
  · have hb := hbody.lower.last
    rw [hlower, List.getLast?_concat, ne_eq, Option.some.injEq] at hb
    rw [hlower, trimSuffix_snoc hb]

/-- Normalizing a literal with a zone normalizes the zone. -/
theorem normalizeHost_zone {body zone : Text} (hbody : Addr.Body body) (hzone : zone ≠ []) :
    normalizeHost lower (body ++ Addr.zoneText zone) =
      body.map Text.lowerByte ++ 37 :: normalizeHost lower zone := by
  rw [Addr.zoneText, if_neg hzone, List.append_cons, normalizeHost,
    Text.toLower_append hbody.percent_ascii,
    trimSuffix_append_dot _ (Text.toLower_ne_nil hzone), normalizeHost, List.map_append,
    List.append_assoc]
  rfl

/-- A literal that normalizing takes apart had the zone `.`: with a dot behind it
the rest is a literal again, and normalizing it once more changes nothing. -/
theorem normalizeHost_lost (hliteral : (Addr.parse host).isSome = true)
    (hlost : Addr.parse (normalizeHost lower host) = none) :
    normalizeHost lower (normalizeHost lower host) = normalizeHost lower host ∧
      (Addr.parse (normalizeHost lower host ++ str ".")).isSome = true := by
  obtain ⟨body, zone, rfl, hbody, hplain, hzoned⟩ := Addr.exists_literal hliteral
  by_cases hzone : zone = []
  · rw [hzone, Addr.zoneText, if_pos rfl, List.append_nil, normalizeHost_body hbody] at hlost
    rw [hlost] at hplain
    cases hplain
  · rw [normalizeHost_zone hbody hzone] at hlost ⊢
    -- Any other zone would have left a literal.
    have hempty : normalizeHost lower zone = [] := by
      by_contra hne
      have hsome := hzoned hzone (normalizeHost lower zone)
      rw [Addr.zoneText, if_neg hne, hlost] at hsome
      cases hsome
    rw [hempty]
    refine ⟨?_, ?_⟩
    · rw [normalizeHost, Text.toLower_of_isAscii hbody.lower.percent_ascii, List.map_append,
        List.map_map]
      simp only [Function.comp_def, Text.lowerByte_idem]
      exact trimSuffix_snoc (by decide)
    · rw [List.append_assoc]
      exact hzoned hzone [46]

/-- For a literal that is looked up: its name is no literal, with a dot it is one,
and dialing uses the same name. -/
theorem remains_of_literal (hliteral : IsLiteral c host)
    (hlost : Addr.parse (normalizeHost c.lower host) = none ∨ Addr.parse (c.remains host) = none) :
    Addr.parse (c.remains host) = none ∧
      (Addr.parse (c.remains host ++ str ".")).isSome = true ∧
      (Addr.parse (normalizeHost c.lower host) = none →
        c.remains host = normalizeHost c.lower host) := by
  by_cases hnone : Addr.parse (normalizeHost c.lower host) = none
  · have hsent : (Addr.parse host).isSome = true := by
      rcases hliteral with hsent | hnormal
      · exact hsent
      · rw [hnone] at hnormal
        cases hnormal
    obtain ⟨hsame, hrooted⟩ := normalizeHost_lost hsent hnone
    unfold DnsCache.remains
    rw [hsame]
    exact ⟨hnone, hrooted, fun _ => rfl⟩
  · have hremains := hlost.resolve_left hnone
    obtain ⟨-, hrooted⟩ := normalizeHost_lost (Option.isSome_iff_ne_none.mpr hnone) hremains
    exact ⟨hremains, hrooted, fun h => absurd h hnone⟩

theorem Opener.Resolves.remains {o : Opener} (hresolves : o.Resolves host)
    (hliteral : IsLiteral o.rules.dns host) :
    Addr.parse (o.rules.dns.remains host) = none ∧
      (Addr.parse (o.rules.dns.remains host ++ str ".")).isSome = true ∧
      (Addr.parse (normalizeHost o.rules.dns.lower host) = none →
        o.rules.dns.remains host = normalizeHost o.rules.dns.lower host) :=
  remains_of_literal hliteral (hresolves.imp_right fun hneeds => hneeds.2.2.2)

end Remains

/-! ## Names in a connection -/

/-- A resolver that the action asks is asked for this name. -/
def Op.AsksFor (c : DnsCache) (name : Text) : Op → Prop
  | .ask u asked _ => asked = askedName c u name
  | .localLookup asked => asked = name
  | _ => True

theorem Op.Serves.asksFor {c : DnsCache} {req : Request} {op : Op} (h : op.Serves c req) :
    op.AsksFor c req.host := by
  cases op with
  | ask u name share => exact h
  | localLookup name => exact h
  | _ => trivial

theorem Op.asksFor_of_isDial {c : DnsCache} {name : Text} {op : Op} (h : op.isDial = true) :
    op.AsksFor c name := by
  cases op with
  | ask u name share => cases h
  | localLookup name => cases h
  | _ => trivial

/-- What is asked for on behalf of a literal is what remains of it. -/
theorem openConn_asksFor {o : Opener} {host : Text} (hliteral : IsLiteral o.rules.dns host)
    (hresolves : o.Resolves host) (src proto : Text) (port : Int) :
    Confined (Op.AsksFor o.rules.dns (o.rules.dns.remains host))
      (openConn o src proto host port) := by
  rw [openConn_eq]
  have hdecide : Confined (Op.AsksFor o.rules.dns (o.rules.dns.remains host))
      (o.rules.decide host) := (decide_serves o.rules host).imp fun op h => h.asksFor
  refine hdecide.bind fun decision => ?_
  refine Confined.bind ?_ fun answer =>
    (dialFound_isDial o _ port _).imp fun op h => Op.asksFor_of_isDial h
  cases hparse : Addr.parse (normalizeHost o.rules.dns.lower host) with
  | none =>
      have hserves := cachedLookup_serves o.rules.dns
        (o.rules.dns.request decision.1.policy host)
      apply hserves.imp
      intro op hop
      have hasks := hop.asksFor
      rwa [DnsCache.request, ← (hresolves.remains hliteral).2.2 hparse] at hasks
  | some addr =>
      obtain ⟨answer, hanswer⟩ := cachedLookup_literal (c := o.rules.dns)
        (show (Addr.parse (o.rules.dns.request decision.1.policy host).host).isSome = true by
          rw [DnsCache.request, hparse]; rfl)
      rw [hanswer]
      trivial

/-- The first lookup for a literal that is looked up. It is made under the tunnel
policy where no rule for names matches. -/
theorem openConn_resolves {o : Opener} {host : Text} (hliteral : IsLiteral o.rules.dns host)
    (hresolves : o.Resolves host) (src proto : Text) (port : Int) :
    ∃ req next, req.host = o.rules.dns.remains host ∧
      ((∀ r ∈ o.rules.rules, r.matchesName (normalizeHost o.rules.dns.lower host) = false) →
        req.policy = .tunnel) ∧
      openConn o src proto host port = cachedLookup o.rules.dns req >>= next := by
  have heq := openConn_eq o src proto host port
  by_cases hneeds : o.rules.NeedsLookup host
  · obtain ⟨next, hnext⟩ := decide_asks hneeds
    rw [hnext, bind_assoc] at heq
    exact ⟨o.rules.dns.request .tunnel (normalizeHost o.rules.dns.lower host), _, rfl,
      fun _ => rfl, heq⟩
  · obtain ⟨decision, hdecision⟩ := decide_ret hneeds
    have hparse := hresolves.resolve_right hneeds
    obtain ⟨hremains, -, hsame⟩ := hresolves.remains hliteral
    rw [hdecision, ret_bind] at heq
    refine ⟨o.rules.dns.request decision.1.policy host, _, (hsame hparse).symm, fun hname => ?_,
      heq⟩
    -- With an `ip:` rule the decision would need a lookup.
    have hips : ∀ r ∈ o.rules.rules, r.isIP = false := by
      intro r hr
      by_contra hip
      refine hneeds ⟨?_, hname, ⟨r, hr, eq_true_of_ne_false hip⟩, hremains⟩
      rw [isPrivateLiteral, hparse]
      rfl
    rw [decide_tunnel hparse hname hips] at hdecision
    cases hdecision
    rfl

/-! ## Runs that ask -/

/-- From the state `w` the program can come to an event of this kind. -/
def CanDo (o : Opener) {α : Type} (w : World) (p : Prog α) (kind : Event sig → Prop) : Prop :=
  ∃ events q w', p.Reaches events q ∧ (gate o).replay w events = some w' ∧
    ∃ event ∈ events, kind event

section CanDo

variable {o : Opener} {α β : Type} {w w' : World} {kind : Event sig → Prop}

theorem CanDo.perform {op : Op} {f : op.Reply → Prog α} (reply : op.Reply)
    (hperform : w.perform op reply = some w') (hnext : CanDo o w' (f reply) kind) :
    CanDo o w (act op >>= f) kind := by
  obtain ⟨events, q, w'', hpath, hreplay, event, hmem, hkind⟩ := hnext
  refine ⟨⟨op, reply⟩ :: events, q, w'', .act hpath, ?_, event, List.mem_cons_of_mem _ hmem,
    hkind⟩
  simp only [replay, hperform, Option.bind_some]
  exact hreplay

theorem CanDo.bind {p : Prog α} {f : α → Prog β} (hp : CanDo o w p kind) :
    CanDo o w (p >>= f) kind := by
  obtain ⟨events, q, w', hpath, hreplay, hevent⟩ := hp
  exact ⟨events, q >>= f, w', hpath.bind_left f, hreplay, hevent⟩

theorem CanDo.first {op : Op} {f : op.Reply → Prog α} (reply : op.Reply)
    (hperform : w.perform op reply = some w') (hkind : kind ⟨op, reply⟩) :
    CanDo o w (act op >>= f) kind :=
  ⟨[⟨op, reply⟩], f reply, w', .act (.refl _), by simp [replay, hperform], _,
    List.mem_singleton_self _, hkind⟩

end CanDo

/-- These resolvers are paused, and the others are not. -/
def World.Pauses (w : World) (paused : Nat → Bool) : Prop :=
  ∀ u, if paused u then ∃ x, (w.upstreams u).pausedUntil = some x ∧ w.clock < x
    else (w.upstreams u).pausedUntil = none

/-- The state after these resolvers were found unreachable. -/
def World.pausing (paused : Nat → Bool) : World :=
  { upstreams := fun u => if paused u then { pausedUntil := some upstreamPause } else {} }

theorem World.pauses_pausing (paused : Nat → Bool) : (World.pausing paused).Pauses paused := by
  intro u
  cases hu : paused u with
  | true => exact ⟨upstreamPause, by simp [World.pausing, hu], show 0 < upstreamPause by decide⟩
  | false => simp [World.pausing, hu]

section Pauses

variable {o : Opener} {α : Type} {w : World} {paused : Nat → Bool} {kind : Event sig → Prop}

theorem World.perform_now (w : World) : w.perform .now w.clock = some w := by
  simp [World.perform]

/-- A paused resolver refuses, another one is open, and nothing changes. -/
theorem World.Pauses.claim (h : w.Pauses paused) (u : Nat) :
    w.perform (.claim u w.clock) (if paused u then .refused else .open) = some w := by
  have hu := h u
  cases hpaused : paused u with
  | true =>
      rw [hpaused, if_pos rfl] at hu
      obtain ⟨x, hx, hlt⟩ := hu
      simp [World.perform, Upstream.claim, hx, hlt, World.setUpstream]
  | false =>
      rw [hpaused, if_neg Bool.false_ne_true] at hu
      simp [World.perform, Upstream.claim, hu, World.setUpstream]

theorem CanDo.claimAll {f : List Nat → Prog α} (us : List Nat) (h : w.Pauses paused)
    (hnext : CanDo o w (f (us.filter fun u => !paused u)) kind) :
    CanDo o w (claimAll w.clock us >>= f) kind := by
  induction us generalizing f with
  | nil => exact hnext
  | cons u rest ih =>
      unfold SshGate.claimAll
      rw [bind_assoc]
      refine CanDo.perform _ (h.claim u) ?_
      rw [bind_assoc]
      apply ih
      cases hu : paused u with
      | true => simpa [hu, Grant.granted] using hnext
      | false => simpa [hu, Grant.granted] using hnext

/-- With every resolver paused the local one is asked. -/
theorem CanDo.lookup_local {c : DnsCache} {ctx : Nat} {host : Text}
    (h : w.Pauses fun _ => true) (hkind : kind ⟨.localLookup host, .error []⟩) :
    CanDo o w (lookup c ctx host) kind := by
  refine CanDo.perform _ w.perform_now (CanDo.claimAll _ h (CanDo.perform _ w.perform_now ?_))
  rw [List.filter_eq_nil_iff.mpr (by simp)]
  change CanDo o w (lookupFallback c host >>= _) kind
  refine CanDo.bind (CanDo.perform () rfl (CanDo.perform _ (World.perform_now _) ?_))
  exact CanDo.perform () rfl (CanDo.bind (CanDo.bind (CanDo.first _ rfl hkind)))

/-- With every other resolver paused the endpoint `u` is asked. -/
theorem CanDo.lookup_doh {c : DnsCache} {ctx u : Nat} {host endpoint : Text}
    (hdoh : c.tunnel[u]? = some (.doh endpoint)) (h : w.Pauses fun v => v != u)
    (hkind : ∀ share, kind ⟨.ask u host share, (0 : Nat)⟩) :
    CanDo o w (lookup c ctx host) kind := by
  refine CanDo.perform _ w.perform_now (CanDo.claimAll _ h (CanDo.perform _ w.perform_now ?_))
  have hmem : u ∈ (List.range c.tunnel.length).filter fun v => !(v != u) := by
    simpa using (List.getElem?_eq_some_iff.mp hdoh).1
  cases hactive : (List.range c.tunnel.length).filter fun v => !(v != u) with
  | nil =>
      rw [hactive] at hmem
      cases hmem
  | cons v rest =>
      obtain rfl : v = u := by
        have hv : v ∈ (List.range c.tunnel.length).filter fun v => !(v != u) := by
          rw [hactive]
          exact List.mem_cons_self
        simpa using (List.mem_filter.mp hv).2
      apply CanDo.bind
      refine CanDo.perform _ w.perform_now (CanDo.perform _ w.perform_now (CanDo.bind ?_))
      simp only [upstreamLookup, hdoh]
      exact CanDo.bind (CanDo.first _ rfl (hkind _))

/-- The first call of a run looks up what is no literal. -/
theorem CanDo.cachedLookup {c : DnsCache} {req : Request} (hparse : Addr.parse req.host = none)
    (hlookup : ∀ w ctx, World.Pauses w paused →
      CanDo o w (req.policy.lookup c ctx req.host) kind) :
    CanDo o (.pausing paused) (cachedLookup c req) kind := by
  have hmiss : World.perform (.cacheGet req) (.pausing paused) none = some (.pausing paused) := rfl
  have hlead : World.perform (.sfDo req) (.pausing paused) (.lead 0) =
      some ((World.pausing paused).takeOff req) := rfl
  simp only [SshGate.cachedLookup, hparse]
  refine CanDo.perform _ hmiss (CanDo.perform _ hlead (CanDo.bind ?_))
  refine CanDo.perform (0 : Nat) rfl (CanDo.perform () rfl (CanDo.bind ?_))
  exact hlookup _ _ (World.pauses_pausing paused)

end Pauses

/-! ## Who is asked -/

section Asked

variable {c : DnsCache} {allowed : Request → Prop} {history : List (Event sig)}

/-- Tunnel resolvers are asked under the tunnel policy only. -/
theorem CallStep.ask {u : Nat} {name : Text} {share : Int}
    (h : CallStep c allowed history (.ask u name share)) :
    ∃ req, allowed req ∧ req.policy = .tunnel := by
  rcases h with hdial | ⟨req, hreq, _, before, trace, _, hstep⟩
  · cases hdial
  cases hstep with
  | flight _ hop =>
      cases hop with
      | lookup hpolicy _ _ _ => exact ⟨req, hreq, hpolicy⟩

/-- The local resolver is asked under the local policy, or inside a lookup
that gives it a reason. -/
theorem CallStep.localLookup {name : Text}
    (h : CallStep c allowed history (.localLookup name)) :
    (∃ req, allowed req ∧ req.policy = .local) ∨
      ∃ prior seg ctx next, history = prior ++ seg ∧
        (lookup c ctx name).Reaches seg (.act (.localLookup name) next) ∧
        (NoneAnswered c name seg ∨ NotFoundSeen c name seg ∧ c.localOnNXDomain = true) := by
  rcases h with hdial | ⟨req, hreq, _, before, trace, rfl, hstep⟩
  · cases hdial
  cases hstep with
  | @flight id _ _ htrace hop =>
      cases hop with
      | localLookup hpolicy => exact .inl ⟨req, hreq, hpolicy⟩
      | @lookup start seg _ _ hflight hlookup hpath =>
          obtain ⟨next, hnext⟩ := hpath
          cases hlookup with
          | attempt hop => cases hop
          | localLookup hwhy =>
              refine .inr ⟨before ++ leadEvents req id ++ takeOffEvents start, seg, _, next, ?_,
                hnext, hwhy⟩
              rw [htrace, hflight]
              simp only [List.append_assoc]

end Asked

theorem dialFound_calls (c : DnsCache) (allowed : Request → Prop) (o : Opener) (info : ConnMeta)
    (port : Int) (found : Candidates) :
    CallsFor c allowed (fun op => op.isDial = false) (dialFound o info port found) := by
  unfold dialFound
  split
  next => exact .ret _
  next addrs _ => exact dialAll_calls o info port found addrs

/-- After a decision for one route only that route's policy resolves. -/
theorem openConn_decided (o : Opener) (src proto host : Text) (port : Int)
    (decision : Route × Text) :
    CallsFor o.rules.dns (fun req => req.policy = decision.1.policy) (fun op => op.isDial = false)
      (cachedLookup o.rules.dns (o.rules.dns.request decision.1.policy host) >>= fun answer =>
        dialFound o ⟨proto, src, host⟩ port
          (candidatesOf o.family host decision.1 decision.2 answer)) := by
  apply CallsFor.call
  · rfl
  · exact fun answer => dialFound_calls _ _ o _ port _

theorem openConn_named_privacy {o : Opener} {src proto host : Text} {port : Int}
    {trace : List (Event sig)} {q : Prog Opened}
    (hpath : (openConn o src proto host port).Reaches trace q)
    (hmatch : ∃ r ∈ o.rules.rules,
      r.matchesName (normalizeHost o.rules.dns.lower host) = true) :
    ¬ AskedTunnel o.rules.dns trace := by
  rintro ⟨u, name, share, dials, hmem, _⟩
  obtain ⟨before, after, rfl⟩ := List.append_of_mem hmem
  obtain ⟨reason, hdecide⟩ := decide_named hmatch
  rw [openConn_eq, hdecide, ret_bind] at hpath
  have hguard :=
    ((openConn_decided o src proto host port (.direct, reason)).always []).of_event hpath
  obtain ⟨req, hlocal, htunnel⟩ := CallStep.ask hguard
  rw [htunnel] at hlocal
  cases hlocal

theorem openConn_tunnel_privacy {o : Opener} {src proto host : Text} {port : Int}
    {first second : List (Event sig)} {q : Prog Opened} {decision : Route × Text}
    (hpath : (openConn o src proto host port).Reaches (first ++ second) q)
    (hdecision : (o.rules.decide host).Returns first decision) (hroute : decision.1 = .tunnel)
    {before after : List (Event sig)} {name : Text} {reply : Except Text (List IPAddr)}
    (hevent : first ++ second = before ++ ⟨.localLookup name, reply⟩ :: after) :
    ∃ prior seg ctx next, before = prior ++ seg ∧
      (lookup o.rules.dns ctx name).Reaches seg (.act (.localLookup name) next) ∧
      (NoneAnswered o.rules.dns name seg ∨
        NotFoundSeen o.rules.dns name seg ∧ o.rules.dns.localOnNXDomain = true) := by
  have hguard : CallStep o.rules.dns (fun req => req.policy = .tunnel) before
      (.localLookup name) := by
    rw [openConn_eq] at hpath
    rcases append_eq_append_cons hevent with ⟨more, rfl, hsecond⟩ | ⟨more, rfl, hafter⟩
    · -- The event comes after the decision.
      have hrest := hpath.after_returns hdecision
      rw [hsecond] at hrest
      have hcalls := openConn_decided o src proto host port decision
      rw [hroute] at hcalls hrest
      exact (hcalls.always first).of_event hrest
    · have hcalls : CallsFor o.rules.dns (fun req => req.policy = .tunnel)
          (fun op => op.isDial = false) (o.rules.decide host) :=
        (o.rules.decide_calls host).mono fun req hreq => by rw [hreq]; rfl
      exact (hcalls.always []).of_event hdecision
  rcases hguard.localLookup with ⟨req, htunnel, hlocal⟩ | hinside
  · rw [htunnel] at hlocal
    cases hlocal
  · exact hinside

/-- Go's resolver sends no literal to a DNS server. -/
theorem DnsCache.not_sends {c : DnsCache} {u : Nat} {name : Text}
    (hservers : ∀ endpoint ∈ c.tunnel, ∃ addr, endpoint = .server addr)
    (hrooted : (Addr.parse (name ++ str ".")).isSome = true) :
    ¬ c.Sends u (askedName c u name) := by
  have hserver : ∀ host, c.tunnel[u]? ≠ some (.doh host) := by
    intro host hdoh
    obtain ⟨addr, haddr⟩ := hservers _ (List.mem_of_getElem? hdoh)
    cases haddr
  rintro (⟨host, hdoh⟩ | hnone)
  · exact hserver host hdoh
  · unfold askedName at hnone
    split at hnone
    next host hdoh => exact hserver host hdoh
    next =>
      rw [hnone] at hrooted
      cases hrooted

/-- A literal that is kept reaches no resolver. -/
theorem openConn_literal_privacy {o : Opener} {forwards : Text → Prop} {host : Text}
    (hkept : LiteralKept o forwards host) (hliteral : IsLiteral o.rules.dns host)
    {src proto : Text} {port : Int} {trace : List (Event sig)} {q : Prog Opened}
    (hpath : (openConn o src proto host port).Reaches trace q) :
    ¬ AskedTunnel o.rules.dns trace ∧ ¬ AskedLocal forwards trace := by
  by_cases hresolves : o.Resolves host
  · have hasks := openConn_asksFor hliteral hresolves src proto port
    obtain ⟨hlocal, htunnel⟩ := hkept hliteral hresolves
    refine ⟨?_, ?_⟩
    · rcases htunnel with hservers | hnamed
      · rintro ⟨u, name, share, dials, hmem, hsends⟩
        obtain rfl : name = askedName o.rules.dns u (o.rules.dns.remains host) :=
          hasks.of_mem hpath hmem
        exact DnsCache.not_sends hservers (hresolves.remains hliteral).2.1 hsends
      · exact openConn_named_privacy hpath hnamed
    · rintro ⟨name, reply, hmem, hforwards⟩
      obtain rfl : name = o.rules.dns.remains host := hasks.of_mem hpath hmem
      exact hlocal hforwards
  · obtain ⟨hparse, hneeds⟩ := not_or.mp hresolves
    have hdials := openConn_isDial (Option.isSome_iff_ne_none.mpr hparse) hneeds src proto port
    refine ⟨?_, ?_⟩
    · rintro ⟨u, name, share, dials, hmem, -⟩
      cases hdials.of_mem hpath hmem
    · rintro ⟨name, reply, hmem, -⟩
      cases hdials.of_mem hpath hmem

/-- A run of one connection that comes to such an event. -/
theorem exists_openConn {o : Opener} {host : Text} {w : World} {kind : Event sig → Prop}
    (hcan : CanDo o w (openConn o [] [] host 0) kind) :
    ∃ schedule c thread, (gate o).run ⟨w, []⟩ schedule = some c ∧ thread ∈ c.threads ∧
      thread.call = .openConn [] [] host 0 ∧ ∃ event ∈ thread.trace, kind event := by
  obtain ⟨events, q, w', hpath, hreplay, hevent⟩ := hcan
  have hprogram : ((gate o).program (.openConn [] [] host 0)).Reaches events
      (q >>= fun opened => .ret (.opened opened)) := hpath.bind_left _
  obtain ⟨schedule, hrun⟩ := Runs.call (M := gate o) (c := ⟨w, []⟩) hprogram hreplay
  exact ⟨schedule, _, _, hrun, List.mem_singleton_self _, rfl, hevent⟩

theorem exists_doh {tunnel : List Endpoint}
    (h : ¬ ∀ endpoint ∈ tunnel, ∃ addr, endpoint = .server addr) :
    ∃ (u : Nat) (host : Text), tunnel[u]? = some (.doh host) := by
  push Not at h
  obtain ⟨endpoint, hmem, hserver⟩ := h
  obtain ⟨u, hu⟩ := List.mem_iff_getElem?.mp hmem
  cases endpoint with
  | server addr => exact absurd rfl (hserver addr)
  | doh host => exact ⟨u, host, hu⟩

/-- What is not kept is asked for in some run. -/
theorem literalKept_of_privacy {o : Opener} {forwards : Text → Prop} {host : Text}
    (hprivacy : ∀ (w : World) (schedule : List (Action (gate o))) (c : Config (gate o)),
      (gate o).run ⟨w, []⟩ schedule = some c → ∀ thread ∈ c.threads, ∀ src proto port,
        thread.call = .openConn src proto host port →
          NamePrivacy o forwards host thread.trace) : LiteralKept o forwards host := by
  intro hliteral hresolves
  obtain ⟨req, next, hhost, hpolicy, heq⟩ := openConn_resolves hliteral hresolves [] [] 0
  have hparse : Addr.parse req.host = none := by
    rw [hhost]
    exact (hresolves.remains hliteral).1
  refine ⟨?_, ?_⟩
  · intro hforwards
    have hcan : CanDo o (.pausing fun _ => true) (openConn o [] [] host 0) fun event =>
        event = ⟨.localLookup req.host, .error []⟩ := by
      rw [heq]
      refine CanDo.bind (CanDo.cachedLookup hparse fun w ctx hpauses => ?_)
      cases req.policy with
      | tunnel => exact CanDo.lookup_local hpauses rfl
      | «local» => exact CanDo.bind (CanDo.bind (CanDo.first _ rfl rfl))
    obtain ⟨schedule, c, thread, hrun, hthread, hcall, event, hmem, rfl⟩ := exists_openConn hcan
    refine ((hprivacy _ _ _ hrun _ hthread _ _ _ hcall).literal hliteral).2 ?_
    exact ⟨req.host, .error [], hmem, hhost ▸ hforwards⟩
  · by_contra hasked
    obtain ⟨hservers, hunnamed⟩ := not_or.mp hasked
    obtain ⟨u, endpoint, hdoh⟩ := exists_doh hservers
    have htunnel : req.policy = .tunnel := by
      apply hpolicy
      intro r hr
      by_contra hname
      exact hunnamed ⟨r, hr, eq_true_of_ne_false hname⟩
    have hcan : CanDo o (.pausing fun v => v != u) (openConn o [] [] host 0) fun event =>
        ∃ share, event = ⟨.ask u req.host share, (0 : Nat)⟩ := by
      rw [heq]
      refine CanDo.bind (CanDo.cachedLookup hparse fun w ctx hpauses => ?_)
      rw [htunnel]
      exact CanDo.lookup_doh hdoh hpauses fun share => ⟨share, rfl⟩
    obtain ⟨schedule, c, thread, hrun, hthread, hcall, event, hmem, share, rfl⟩ :=
      exists_openConn hcan
    refine ((hprivacy _ _ _ hrun _ hthread _ _ _ hcall).literal hliteral).1 ?_
    exact ⟨u, req.host, share, 0, hmem, .inl ⟨endpoint, hdoh⟩⟩

/-- The privacy of a connection's name holds in all runs exactly for the hosts
that are no literals, are not looked up, or of which nobody gets to see what remains. -/
theorem openConn_namePrivacy_iff (o : Opener) (forwards : Text → Prop) (host : Text) :
    (∀ (w : World) (schedule : List (Action (gate o))) (c : Config (gate o)),
      (gate o).run ⟨w, []⟩ schedule = some c → ∀ thread ∈ c.threads, ∀ src proto port,
        thread.call = .openConn src proto host port →
          NamePrivacy o forwards host thread.trace) ↔
      LiteralKept o forwards host := by
  constructor
  · exact literalKept_of_privacy
  · intro hkept w schedule c hrun thread hthread src proto port hcall
    obtain ⟨q, hpath, _⟩ := openConn_thread hrun hthread hcall
    refine ⟨fun hliteral => openConn_literal_privacy hkept hliteral hpath,
      openConn_named_privacy hpath, ?_⟩
    intro first second decision htrace hdecision hroute before after name reply hevent
    rw [htrace] at hpath hevent
    exact openConn_tunnel_privacy hpath hdecision hroute hevent

/-- An opener without rules whose names go to a DoH endpoint. -/
def dohOpener : Opener :=
  { sampleOpener false with
    rules := { (sampleOpener false).rules with
      dns := setDOH (str "dns.example") (sampleOpener false).rules.dns } }

/-- The zone of `fe80::1%.` is a dot, which normalizing takes for the root of a
name: what is left is no literal, and the DoH endpoint is sent it. -/
def zoneDot : List (Event sig) :=
  let req : Request := ⟨.tunnel, str "fe80::1%"⟩
  [⟨.cacheGet req, none⟩, ⟨.sfDo req, .lead 0⟩, ⟨.now, 0⟩, ⟨.lookupsAdd, ()⟩, ⟨.now, 0⟩,
    ⟨.claim 0 0, .open⟩, ⟨.now, 0⟩, ⟨.now, 0⟩, ⟨.now, 0⟩,
    ⟨.ask 0 req.host tunnelLookupTimeout, (1 : Nat)⟩, ⟨.dialServer 0, .opened⟩,
    ⟨.dohReply 0 req.host .A, ⟨true, .response 200 3 []⟩⟩, ⟨.now, 0⟩]

theorem zoneDot_not_namePrivacy :
    ∃ c thread, (gate dohOpener).run ⟨{}, []⟩ ((gate dohOpener).alone [.tunnel true]
        (.openConn (str "client") (str "socks5") (str "fe80::1%.") 443) zoneDot) = some c ∧
      thread ∈ c.threads ∧
      thread.call = .openConn (str "client") (str "socks5") (str "fe80::1%.") 443 ∧
      (Addr.parse (str "fe80::1%.")).isSome = true ∧
      AskedTunnel dohOpener.rules.dns thread.trace ∧
      ∀ forwards, ¬ NamePrivacy dohOpener forwards (str "fe80::1%.") thread.trace := by
  obtain ⟨c, hrun⟩ : ∃ c, (gate dohOpener).run ⟨{}, []⟩ ((gate dohOpener).alone [.tunnel true]
      (.openConn (str "client") (str "socks5") (str "fe80::1%.") 443) zoneDot) = some c :=
    Option.isSome_iff_exists.mp (by decide +kernel)
  obtain ⟨rest, hthreads⟩ := run_alone hrun
  have hliteral : (Addr.parse (str "fe80::1%.")).isSome = true := by decide
  have hasked : AskedTunnel dohOpener.rules.dns zoneDot :=
    ⟨0, str "fe80::1%", tunnelLookupTimeout, 1, by simp [zoneDot], .inl ⟨_, rfl⟩⟩
  exact ⟨c, _, hrun, hthreads ▸ List.mem_singleton_self _, rfl, hliteral, hasked,
    fun forwards hprivacy => (hprivacy.literal (.inl hliteral)).1 hasked⟩

end SshGate
