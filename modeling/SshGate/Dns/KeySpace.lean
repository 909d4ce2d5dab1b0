import SshGate.Dns.Origins

/-! # The two policies in one cache

Both policies keep their answers in one map and fly in one singleflight group;
the local policy marks its keys with `local:`. A tunnel name that begins with
this mark can be the key of a local one. Without such a pair every answer
comes from a lookup of the policy and the name that it was asked for.
-/

namespace SshGate

open Go Interaction Program System

/-- The cache key of the direct name `direct` is the name of the tunnel
request for `name`. Literals have no key. -/
def DnsCache.KeyClash (c : DnsCache) (name direct : Text) : Prop :=
  Addr.parse (normalizeHost c.lower direct) = none ∧
    normalizeHost c.lower name = str "local:" ++ normalizeHost c.lower direct

theorem Request.eq_or_clash {req req' : Request} (hkey : req.key = req'.key) :
    req = req' ∨ (req.policy = .tunnel ∧ req'.policy = .local ∧
        req.host = str "local:" ++ req'.host) ∨
      (req'.policy = .tunnel ∧ req.policy = .local ∧ req'.host = str "local:" ++ req.host) := by
  obtain ⟨policy, host⟩ := req
  obtain ⟨policy', host'⟩ := req'
  cases policy <;> cases policy' <;> simp_all [Request.key]

theorem requests_eq_request {c : DnsCache} {call : Call} {req : Request}
    (hreq : req ∈ call.requests c) : ∃ host, req = c.request req.policy host := by
  cases call with
  | resolveTunnel host => exact ⟨host, by simp_all [Call.requests, DnsCache.request]⟩
  | localResolveAll host => exact ⟨host, by simp_all [Call.requests, DnsCache.request]⟩
  | decide host => exact ⟨normalizeHost c.lower host, by simp_all [Call.requests, DnsCache.request]⟩
  | candidates host | openConn _ _ host _ =>
      simp only [Call.requests, List.mem_cons, List.not_mem_nil, or_false] at hreq
      rcases hreq with rfl | rfl | rfl
      · exact ⟨_, rfl⟩
      · exact ⟨host, rfl⟩
      · exact ⟨host, rfl⟩

/-- The request that an action of the cache or of a flight belongs to. -/
def Op.request : Op → Option Request
  | .cacheGet req | .sfDo req | .sfWait req _ | .sfEnd req _ _ | .store req _ => some req
  | _ => none

theorem Op.request_of_inLookup {op : Op} (hop : op.inLookup = true) : op.request = none := by
  cases op <;> first | rfl | cases hop

theorem ResolveStep.request {c : DnsCache} {req : Request} {history : List (Event sig)} {op : Op}
    (hstep : ResolveStep c req history op) {req' : Request} (hop : op.request = some req') :
    req' = req := by
  cases hstep with
  | flight _ hflight =>
      cases hflight with
      | lookup _ _ hlookup _ =>
          cases (Op.request_of_inLookup hlookup.inLookup).symm.trans hop
      | store => exact (Option.some.inj hop).symm
      | now | lookupsAdd | localLookup => cases hop
  | cacheGet | sfDo | sfWait | sfEnd => exact (Option.some.inj hop).symm

/-- The cache is used for the requests of the call only, never for a literal. -/
theorem CallStep.request {c : DnsCache} {allowed : Request → Prop} {history : List (Event sig)}
    {op : Op} (h : CallStep c allowed history op) {req : Request} (hop : op.request = some req) :
    allowed req ∧ Addr.parse req.host = none := by
  rcases h with hdial | ⟨req', hallowed, hparse, before, trace, rfl, hstep⟩
  · cases op <;> simp_all [Op.isDial, Op.request]
  · obtain rfl := hstep.request hop
    exact ⟨hallowed, hparse⟩

section Runs

variable {o : Opener}

/-- A call of this configuration makes the request, and it is no literal. -/
def Requested (c : Config (gate o)) (req : Request) : Prop :=
  ∃ thread ∈ c.threads, req ∈ thread.call.requests o.rules.dns ∧ Addr.parse req.host = none

theorem requested_of_mem {c : Config (gate o)} (hc : Faithful c) {thread : Thread (gate o)}
    (hthread : thread ∈ c.threads) {event : Event sig} (hevent : event ∈ thread.trace)
    {req : Request} (hop : event.op.request = some req) : Requested c req := by
  obtain ⟨_, _, _, hguard⟩ := guarded_of_mem (program_always o) hc hthread hevent
  exact ⟨thread, hthread, hguard.request hop⟩

/-- The lookup behind an answer was run for a request of the same run. -/
theorem ComputedBy.requested {c : Config (gate o)} (hc : Faithful c) {thread : Thread (gate o)}
    (hthread : thread ∈ c.threads) {req origin : Request}
    {before seg after trace : List (Event sig)} (hsplit : thread.trace = before ++ seg ++ after)
    {looked : Answer} (h : ComputedBy c req seg origin trace looked) : Requested c origin := by
  cases h with
  | led hseg _ =>
      have hmem : (⟨.cacheGet req, none⟩ : Event sig) ∈ thread.trace := by simp [hsplit, hseg]
      exact requested_of_mem hc hthread hmem rfl
  | @hit cell now _ _ _ _ hstored _ _ =>
      obtain ⟨other, hother, b, order, a, hhistory⟩ := hstored
      have hmem : (⟨.store cell.origin cell.entry, order⟩ : Event sig) ∈ other.trace := by
        simp [hhistory]
      exact requested_of_mem hc hother hmem rfl
  | @shared id start shared _ _ _ hlanded _ =>
      obtain ⟨other, hother, b, a, hhistory⟩ := hlanded
      have hmem : (⟨.cacheGet shared.origin, none⟩ : Event sig) ∈ other.trace := by
        simp [hhistory]
      exact requested_of_mem hc hother hmem rfl

/-- A cached lookup of a name begins with a look into the cache. -/
theorem Resolved.cacheGet_mem {c : DnsCache} {req : Request} {seg : List (Event sig)}
    {answer : Answer} (h : Resolved c req seg answer) (hliteral : Addr.parse req.host = none) :
    ∃ hit, (⟨.cacheGet req, hit⟩ : Event sig) ∈ seg := by
  cases h with
  | literal hparse _ =>
      rw [hliteral] at hparse
      cases hparse
  | @hit cell _ htrace => exact ⟨some cell, by simp [htrace]⟩
  | shared _ htrace | led _ htrace _ => exact ⟨none, by simp [htrace]⟩

/-- The answer of every cached lookup, literals aside, comes from a lookup of
the same name under the same policy. -/
def PoliciesApart (c : Config (gate o)) : Prop :=
  ∀ thread ∈ c.threads, ∀ req before seg after answer,
    thread.trace = before ++ seg ++ after →
    (cachedLookup o.rules.dns req).Returns seg answer → Addr.parse req.host = none →
    ∃ trace looked, ComputedBy c req seg req trace looked ∧ Delivered answer looked

/-- Requests with one key are one request where no names clash. -/
theorem Requested.eq_of_key {c : Config (gate o)}
    (hclash : ∀ name direct, Requested c (o.rules.dns.request .tunnel name) →
      Requested c (o.rules.dns.request .local direct) → ¬ o.rules.dns.KeyClash name direct)
    {req req' : Request} (hreq : Requested c req) (hreq' : Requested c req')
    (hkey : req.key = req'.key) : req = req' := by
  have hhost : ∀ req, Requested c req → ∃ host, req = o.rules.dns.request req.policy host := by
    rintro req ⟨thread, _, hmem, _⟩
    exact requests_eq_request hmem
  have hno : ∀ tunnel direct, Requested c tunnel → Requested c direct → tunnel.policy = .tunnel →
      direct.policy = .local → tunnel.host ≠ str "local:" ++ direct.host := by
    intro tunnel direct htunnel hdirect hpolicy hpolicy' heq
    obtain ⟨name, hname⟩ := hhost tunnel htunnel
    obtain ⟨host, hhost⟩ := hhost direct hdirect
    rw [hpolicy] at hname
    rw [hpolicy'] at hhost
    subst hname hhost
    exact hclash name host htunnel hdirect ⟨hdirect.choose_spec.2.2, heq⟩
  rcases Request.eq_or_clash hkey with heq | ⟨htunnel, hlocal, hhosts⟩ | ⟨htunnel, hlocal, hhosts⟩
  · exact heq
  · exact absurd hhosts (hno req req' hreq hreq' htunnel hlocal)
  · exact absurd hhosts (hno req' req hreq' hreq htunnel hlocal)

theorem Traced.policiesApart {c : Config (gate o)} (hc : Traced c)
    (hclash : ∀ name direct, Requested c (o.rules.dns.request .tunnel name) →
      Requested c (o.rules.dns.request .local direct) → ¬ o.rules.dns.KeyClash name direct) :
    PoliciesApart c := by
  intro thread hthread req before seg after answer hsplit hreturns hliteral
  obtain ⟨i, hi⟩ := List.mem_iff_getElem?.mp hthread
  have hresolved := Resolved.of_returns hreturns
  obtain ⟨origin, trace, looked, hkey, hcomputed, hdelivered⟩ :=
    hc.computedBy hi hsplit hresolved hliteral
  obtain ⟨hit, hget⟩ := hresolved.cacheGet_mem hliteral
  have hmem : (⟨.cacheGet req, hit⟩ : Event sig) ∈ thread.trace := by simp [hsplit, hget]
  have hreq := requested_of_mem hc.faithful hthread hmem rfl
  have horigin := hcomputed.requested hc.faithful hthread hsplit
  obtain rfl := Requested.eq_of_key hclash horigin hreq hkey
  exact ⟨trace, looked, hcomputed, hdelivered⟩

/-! ## Names that clash -/

/-- No key of the local policy is a literal. -/
theorem parse_localKey (name : Text) : Addr.parse (str "local:" ++ name) = none := by
  have hmark : str "local:" ++ name = 108 :: 111 :: 99 :: 97 :: 108 :: 58 :: name := rfl
  have hgroups : ∀ rest, Addr.parseGroups 8 (108 :: rest) [] none = none := by
    intro rest
    have hdigit : Addr.hexDigit 108 = none := by decide
    simp [Addr.parseGroups, Addr.parseGroup, hdigit]
  rw [hmark]
  simp [Addr.parse, Addr.parseIPv6, hgroups]

/-- A cached lookup up to the flight it leads. -/
theorem cachedLookup_leads (c : DnsCache) (req : Request) (hparse : Addr.parse req.host = none)
    (id : Nat) :
    (cachedLookup c req).Reaches (leadEvents req id)
      (fly c req >>= fun answer => act (.sfEnd req id answer) >>= fun _ => pure answer) := by
  simp only [cachedLookup, hparse]
  exact .act (.act (.refl _))

/-- What the callers of a failed direct lookup get. -/
abbrev localFailure (req : Request) : Answer := ⟨{}, some (.dns req.host (.text []))⟩

/-- A direct lookup that leads a flight can fail. -/
theorem fly_fails (c : DnsCache) (req : Request) (hpolicy : req.policy = .local) (id : Nat) :
    (fly c req >>= fun answer => act (.sfEnd req id answer) >>= fun _ => pure answer).Reaches
      [⟨.now, 0⟩, ⟨.lookupsAdd, ()⟩, ⟨.localLookup req.host, .error []⟩,
        ⟨.sfEnd req id (localFailure req), ()⟩] (.ret (localFailure req)) := by
  simp only [fly, hpolicy, Policy.lookup]
  exact .act (.act (.act (.act (.refl _))))

/-- The events of a cached lookup that joins flight `id` and gets its result. -/
abbrev joinEvents (req : Request) (id : Nat) (shared : Shared) : List (Event sig) :=
  [⟨.cacheGet req, none⟩, ⟨.sfDo req, .join id⟩, ⟨.sfWait req id, shared⟩]

theorem cachedLookup_shared (c : DnsCache) (req : Request) (hparse : Addr.parse req.host = none)
    (id : Nat) (shared : Shared) :
    (cachedLookup c req).Returns (joinEvents req id shared) shared.answer := by
  simp only [cachedLookup, hparse]
  exact .act (.act (.act (.refl _)))

/-- What a joined flight returned comes from the request that led it. -/
theorem ComputedBy.origin_of_joined {c : Config (gate o)} {req origin : Request} {id : Nat}
    {shared : Shared} {trace : List (Event sig)} {looked : Answer}
    (h : ComputedBy c req (joinEvents req id shared) origin trace looked) :
    origin = shared.origin := by
  cases h with
  | led hseg _ => simp at hseg
  | hit hseg _ _ _ => simp at hseg
  | shared hmem _ _ =>
      simp at hmem
      rw [hmem.2]

/-- What the cache held comes from the request that stored it. -/
theorem ComputedBy.origin_of_hit {c : Config (gate o)} {req origin : Request} {cell : Cell}
    {trace : List (Event sig)} {looked : Answer}
    (h : ComputedBy c req [⟨.cacheGet req, some cell⟩] origin trace looked) :
    origin = cell.origin := by
  cases h with
  | led hseg _ => simp at hseg
  | hit hseg _ _ _ =>
      simp at hseg
      rw [hseg]
  | shared hmem _ _ => simp at hmem

/-- A cached lookup up to the flight it waits for. -/
theorem cachedLookup_joins (c : DnsCache) (req : Request) (hparse : Addr.parse req.host = none)
    (id : Nat) :
    (cachedLookup c req).Reaches [⟨.cacheGet req, none⟩, ⟨.sfDo req, .join id⟩]
      (act (.sfWait req id) >>= fun shared => pure shared.answer) := by
  simp only [cachedLookup, hparse]
  exact .act (.act (.refl _))

/-- A direct lookup leads a flight and fails; a lookup with the same key that
started meanwhile waits for its result and fails with it. -/
theorem sharedFlight_runs {leader waiter : Request} (hpolicy : leader.policy = .local)
    (hleader : Addr.parse leader.host = none) (hwaiter : Addr.parse waiter.host = none)
    (hkey : waiter.key = leader.key) (call call' : Call) {next next' : Answer → Prog Result}
    (hcall : call.program o = cachedLookup o.rules.dns leader >>= next)
    (hcall' : call'.program o = cachedLookup o.rules.dns waiter >>= next') :
    ∃ w rest rest' events, Runs (M := gate o) ⟨{}, []⟩ ⟨w, [⟨call, events, rest⟩,
      ⟨call', joinEvents waiter 0 ⟨localFailure leader, leader⟩, rest'⟩]⟩ := by
  have hlead := (cachedLookup_leads o.rules.dns leader hleader 0).bind_left next
  have hjoin := (cachedLookup_joins o.rules.dns waiter hwaiter 0).bind_left next'
  have hfail := (fly_fails o.rules.dns leader hpolicy 0).bind_left next
  rw [← hcall] at hlead
  rw [← hcall'] at hjoin
  have hwait : ((act (.sfWait waiter 0) >>= fun shared => pure shared.answer) >>= next').Reaches
      [⟨.sfWait waiter 0, ⟨localFailure leader, leader⟩⟩] (next' (localFailure leader)) :=
    .act (.refl _)
  let flying : World := World.takeOff {} leader
  let landed : World := { flying with lookups := 1 }.land leader 0 (localFailure leader)
  have hinflight : flying.inflight.lookup waiter.key = some 0 := by
    rw [hkey]
    exact AList.lookup_insert _
  have hjoined : (gate o).replay flying [⟨.cacheGet waiter, none⟩, ⟨.sfDo waiter, .join 0⟩] =
      some flying := by
    have hmiss : flying.hit waiter.key = none := by simp [flying, World.hit]
    simp only [replay, World.perform, hmiss, hinflight, if_true, Option.bind_some]
  have hanswered : (gate o).replay landed
      [⟨.sfWait waiter 0, ⟨localFailure leader, leader⟩⟩] = some landed := by
    have hflight : landed.flights 0 = some ⟨leader, some (localFailure leader)⟩ := by
      simp [landed]
    simp only [replay, World.perform, hflight, if_true, Option.bind_some]
  have hleads := Runs.call (M := gate o) (c := ⟨{}, []⟩) hlead rfl
  have hjoins := hleads.trans (Runs.call hjoin hjoined)
  have hfails := hjoins.trans (Runs.path (i := 0) rfl hfail rfl)
  have hwaits := hfails.trans (Runs.path (i := 1) rfl hwait hanswered)
  exact ⟨_, _, _, _, hwaits⟩

end Runs

/-- In all runs that resolve nothing but `allowed` requests, every answer comes
from a lookup of its own policy and name, exactly if no two of the names clash. -/
theorem policiesApart_iff (o : Opener) (allowed : Request → Prop) :
    (∀ (schedule : List (Action (gate o))) (c : Config (gate o)),
      (gate o).run ⟨{}, []⟩ schedule = some c →
      (∀ thread ∈ c.threads, ∀ req ∈ thread.call.requests o.rules.dns, allowed req) →
      PoliciesApart c) ↔
    ∀ name direct, allowed (o.rules.dns.request .tunnel name) →
      allowed (o.rules.dns.request .local direct) → ¬ o.rules.dns.KeyClash name direct := by
  constructor
  · intro hapart name direct hname hdirect hclash
    have hparse : Addr.parse (o.rules.dns.request .tunnel name).host = none := by
      have hlocal := parse_localKey (normalizeHost o.rules.dns.lower direct)
      rwa [← hclash.2] at hlocal
    have hkey : (o.rules.dns.request .tunnel name).key =
        (o.rules.dns.request .local direct).key := hclash.2
    obtain ⟨w, rest, rest', events, schedule, hrun⟩ := sharedFlight_runs (o := o) rfl hclash.1
      hparse hkey (.localResolveAll direct) (.resolveTunnel name) rfl rfl
    have hpolicies := hapart schedule _ hrun (by simp [Call.requests, hname, hdirect])
    have hshared := cachedLookup_shared o.rules.dns _ hparse 0
      ⟨localFailure (o.rules.dns.request .local direct), o.rules.dns.request .local direct⟩
    obtain ⟨trace, looked, hcomputed, _⟩ := hpolicies _ (List.mem_cons_of_mem _
      (List.mem_singleton_self _)) _ [] _ [] _ (by simp) hshared hparse
    -- The waiter would have to be the leader itself.
    cases hcomputed.origin_of_joined
  · intro hclash schedule c hrun hallowed
    refine (run_traced hrun).policiesApart fun name direct hname hdirect => ?_
    obtain ⟨thread, hthread, hname, _⟩ := hname
    obtain ⟨thread', hthread', hdirect, _⟩ := hdirect
    exact hclash name direct (hallowed thread hthread _ hname)
      (hallowed thread' hthread' _ hdirect)

/-- What is kept of the not-found for `local:x`. -/
def markedCell : Cell := ⟨{ expires := dnsNegativeTTL, neg := true }, ⟨.tunnel, str "local:x"⟩⟩

/-- `local:x` is no domain name, so that Go's resolver gives not-found without a
dial; then the direct name `x` is looked up. -/
def markedName : List (Action (gate (sampleOpener false))) :=
  (gate (sampleOpener false)).alone [.tunnel true] (.resolveTunnel (str "local:x"))
    (sampleAttempt ⟨.tunnel, str "local:x"⟩ [] (.error (.dns true (str "no such host"))) ++
      [⟨.answered 0 0, ()⟩, ⟨.releaseProbes [0], ()⟩, ⟨.now, 0⟩,
        ⟨.store markedCell.origin markedCell.entry, []⟩]) ++
  [.spawn (.localResolveAll (str "x")), .run 1 ⟨.cacheGet ⟨.local, str "x"⟩, some markedCell⟩]

/-- The direct name fails with the tunnel's answer for another name, and the
local resolver is not asked. -/
theorem markedName_not_policiesApart :
    ∃ c thread, (gate (sampleOpener false)).run ⟨{}, []⟩ markedName = some c ∧
      thread ∈ c.threads ∧ thread.call = .localResolveAll (str "x") ∧
      (localResolveAll (sampleOpener false).rules.dns (str "x")).Returns thread.trace
        ⟨{}, some (.dns (str "x") .notFound)⟩ ∧
      (∀ name reply, ⟨.localLookup name, reply⟩ ∉ thread.trace) ∧ ¬ PoliciesApart c := by
  obtain ⟨c, hrun⟩ : ∃ c, (gate (sampleOpener false)).run ⟨{}, []⟩ markedName = some c :=
    Option.isSome_iff_exists.mp (by decide +kernel)
  obtain ⟨rest, hthread⟩ := run_thread hrun (i := 1) rfl
  have hevents : eventsOf 1 markedName = [⟨.cacheGet ⟨.local, str "x"⟩, some markedCell⟩] := rfl
  rw [hevents] at hthread
  have hmem := List.mem_of_getElem? hthread
  have hreturns : (cachedLookup (sampleOpener false).rules.dns ⟨.local, str "x"⟩).Returns
      [⟨.cacheGet ⟨.local, str "x"⟩, some markedCell⟩] ⟨{}, some (.dns (str "x") .notFound)⟩ :=
    .act (.refl _)
  refine ⟨c, _, hrun, hmem, rfl, hreturns, ?_, ?_⟩
  · intro name reply hlookup
    simp at hlookup
  · intro hapart
    obtain ⟨trace, looked, hcomputed, _⟩ := hapart _ hmem _ [] _ [] _ rfl hreturns (by decide)
    cases hcomputed.origin_of_hit

end SshGate
