import SshGate.Dns.Origins
import SshGate.Opener.Dials

/-! # When a connection goes direct

Traffic goes direct for a private literal, by a rule, or as a private answer
of the local resolver with the setting on. The last case is traced through
cache and flights back to the lookup that asked the local resolver.
-/

namespace SshGate

open Go Interaction Program System

/-! ## Addresses that may go direct without a rule -/

theorem privatePrefixes_cases {p : Prefix} (hp : p ∈ privatePrefixes) :
    p ∈ localPrefixes ∨ p ∈ hostLocalPrefixes := by
  simp only [privatePrefixes, localPrefixes, hostLocalPrefixes, List.mem_cons,
    List.not_mem_nil, or_false] at hp ⊢
  tauto

theorem ushiftRight_eq_iff {w : Nat} (a b : BitVec w) (n : Nat) :
    a >>> n = b ↔ a.toNat / 2 ^ n = b.toNat := by
  rw [← BitVec.toNat_inj, BitVec.toNat_ushiftRight, Nat.shiftRight_eq_div_pow]

theorem Addr.isLoopback_v4 {a : BitVec 32} :
    (Addr.v4 a).isLoopback = true ↔ a.toNat / 2 ^ 24 = 127 := by
  simp only [Addr.isLoopback, Addr.unmap, beq_iff_eq]
  exact ushiftRight_eq_iff a 127#32 24

theorem Addr.isLinkLocalUnicast_v4 {a : BitVec 32} :
    (Addr.v4 a).isLinkLocalUnicast = true ↔ a.toNat / 2 ^ 16 = 0xA9FE := by
  simp only [Addr.isLinkLocalUnicast, Addr.unmap, beq_iff_eq]
  exact ushiftRight_eq_iff a 0xA9FE#32 16

/-- An IPv6 address whose leading bits say link-local is not a mapped one. -/
theorem Addr.isLinkLocalUnicast_v6 {a : BitVec 128} {zone : Text}
    (hbits : a.toNat / 2 ^ 118 = 0x3FA) : (Addr.v6 a zone).isLinkLocalUnicast = true := by
  have hmapped : a >>> 32 ≠ 0xFFFF#128 := by
    rw [Ne, ushiftRight_eq_iff]
    change a.toNat / 2 ^ 32 ≠ 0xFFFF
    omega
  simp only [Addr.isLinkLocalUnicast, Addr.unmap, if_neg hmapped, beq_iff_eq]
  exact (ushiftRight_eq_iff a 0x3FA#128 118).mpr hbits

/-- What `dropHostLocal` tests covers the host-local ranges. -/
theorem hostLocal_of_contains {p : Prefix} (hp : p ∈ hostLocalPrefixes) {ip : Addr}
    (hcontains : p.contains ip = true) :
    ip.isLoopback = true ∨ ip.isLinkLocalUnicast = true ∨ hostLocalV4.contains ip = true ∨
      ip = .ipv6Unspecified := by
  simp only [hostLocalPrefixes, List.mem_cons, List.not_mem_nil, or_false] at hp
  rcases hp with rfl | rfl | rfl | rfl | rfl | rfl
  · exact .inr (.inr (.inl hcontains))
  · cases ip with
    | v4 a => exact .inl (Addr.isLoopback_v4.mpr (Prefix.contains_v4.mp hcontains))
    | v6 a zone => cases hcontains
  · cases ip with
    | v4 a => cases hcontains
    | v6 a zone =>
        obtain ⟨hzone, hnet⟩ := Prefix.contains_v6.mp hcontains
        have hbits : a.toNat / 2 ^ 0 = (0 : BitVec 128).toNat := hnet
        rw [pow_zero, Nat.div_one] at hbits
        rw [hzone, BitVec.eq_of_toNat_eq hbits]
        exact .inr (.inr (.inr rfl))
  · cases ip with
    | v4 a => cases hcontains
    | v6 a zone =>
        obtain ⟨hzone, hnet⟩ := Prefix.contains_v6.mp hcontains
        have hbits : a.toNat / 2 ^ 0 = (1 : BitVec 128).toNat := hnet
        rw [pow_zero, Nat.div_one] at hbits
        rw [hzone, BitVec.eq_of_toNat_eq hbits]
        exact .inl rfl
  · cases ip with
    | v4 a =>
        exact .inr (.inl (Addr.isLinkLocalUnicast_v4.mpr (Prefix.contains_v4.mp hcontains)))
    | v6 a zone => cases hcontains
  · cases ip with
    | v4 a => cases hcontains
    | v6 a zone =>
        exact .inr (.inl (Addr.isLinkLocalUnicast_v6 (Prefix.contains_v6.mp hcontains).2))

/-- A private address that `dropHostLocal` keeps belongs to another machine. -/
theorem mem_dropHostLocal {addrs : List Addr} (hprivate : ∀ a ∈ addrs, isPrivate a = true)
    {ip : Addr} (hip : ip ∈ dropHostLocal addrs) :
    (∃ a ∈ addrs, ip = a.unmap.withZone []) ∧ (∃ p ∈ localPrefixes, p.contains ip = true) ∧
      ∀ p ∈ hostLocalPrefixes, p.contains ip = false := by
  simp only [dropHostLocal, List.mem_filter, List.mem_map, Bool.and_eq_true, Bool.not_eq_true',
    decide_eq_true_eq] at hip
  obtain ⟨⟨a, ha, rfl⟩, ⟨⟨hloopback, hlink⟩, hzero⟩, hunspecified⟩ := hip
  have hkept : ∀ p ∈ hostLocalPrefixes, p.contains (plain a) = false := by
    intro p hp
    by_contra hcontains
    rw [Bool.not_eq_false] at hcontains
    rcases hostLocal_of_contains hp hcontains with h | h | h | h
    · rw [hloopback] at h
      cases h
    · rw [hlink] at h
      cases h
    · rw [hzero] at h
      cases h
    · exact hunspecified h
  refine ⟨⟨a, ha, rfl⟩, ?_, hkept⟩
  obtain ⟨p, hp, hcontains⟩ := List.any_eq_true.mp (hprivate a ha)
  rcases privatePrefixes_cases hp with hlocal | hhost
  · exact ⟨p, hlocal, hcontains⟩
  · rw [hkept p hhost] at hcontains
    cases hcontains

/-! ## The decision -/

/-- The trace holds a check of rule `r` against `host` that matched. -/
def RuleMatched (c : DnsCache) (r : RuleEntry) (host : Text) (trace : List (Event sig)) : Prop :=
  ∃ before seg after, trace = before ++ seg ++ after ∧ (r.matches c host).Returns seg true

theorem firstMatch_returns {c : DnsCache} {host : Text} {rules : List RuleEntry}
    {trace : List (Event sig)} {r : RuleEntry}
    (hpath : (firstMatch c host rules).Returns trace (some r)) :
    r ∈ rules ∧ RuleMatched c r host trace := by
  induction rules generalizing trace with
  | nil =>
      obtain ⟨_, hnone⟩ := returns_ret.mp hpath
      cases hnone
  | cons head rest ih =>
      obtain ⟨first, matched, second, rfl, hfirst, hsecond⟩ := returns_bind.mp hpath
      cases matched with
      | true =>
          obtain ⟨rfl, hr⟩ := returns_ret.mp hsecond
          obtain rfl := Option.some.inj hr
          exact ⟨List.mem_cons_self, [], first, [], by simp, hfirst⟩
      | false =>
          obtain ⟨hmem, before, seg, after, rfl, hseg⟩ := ih hsecond
          exact ⟨List.mem_cons_of_mem _ hmem, first ++ before, seg, after, by simp, hseg⟩

/-- `decide` says direct for a private literal or a matching rule only. -/
theorem decide_returns_direct {e : RuleEngine} {host : Text} {trace : List (Event sig)}
    {decision : Route × Text} (hpath : (e.decide host).Returns trace decision)
    (hroute : decision.1 = .direct) :
    isPrivateLiteral (normalizeHost e.dns.lower host) = true ∨
      ∃ r ∈ e.rules, RuleMatched e.dns r (normalizeHost e.dns.lower host) trace := by
  unfold RuleEngine.decide at hpath
  split at hpath
  next hprivate => exact .inl hprivate
  next =>
    obtain ⟨first, found, second, rfl, hfirst, hsecond⟩ := returns_bind.mp hpath
    obtain ⟨rfl, rfl⟩ := returns_ret.mp hsecond
    cases found with
    | none => cases hroute
    | some r =>
        obtain ⟨hr, hmatched⟩ := firstMatch_returns hfirst
        rw [List.append_nil]
        exact .inr ⟨r, hr, hmatched⟩

/-! ## The late switch -/

/-- The lookup of `host` with these events took `addrs` from the local
resolver, after a tunnel resolver's not-found or with the tunnel seen down
after the local answer. -/
def LocallyAnswered (c : DnsCache) (host : Text) (addrs : List Addr)
    (trace : List (Event sig)) : Prop :=
  ∃ first ips rest, trace = first ++ ⟨.localLookup host, .ok ips⟩ :: rest ∧
    addrs = toNetip ips ∧
    (NotFoundSeen c host first ∨ (⟨.tunnelUp, false⟩ : Event sig) ∈ rest)

theorem ComputedBy.returns {o : Opener} {c : Config (gate o)} {req origin : Request}
    {seg trace : List (Event sig)} {looked : Answer}
    (h : ComputedBy c req seg origin trace looked) :
    ∃ ctx, (origin.policy.lookup o.rules.dns ctx origin.host).Returns trace looked := by
  cases h with
  | led _ hlooked => exact ⟨_, hlooked⟩
  | hit _ _ hlooked _ => exact ⟨_, hlooked⟩
  | shared _ _ hlooked => exact ⟨_, hlooked⟩

/-- Requests of the tunnel policy with one key are the same. -/
theorem Request.eq_of_key {req origin : Request} (hreq : req.policy = .tunnel)
    (horigin : origin.policy = .tunnel) (hkey : origin.key = req.key) : origin = req := by
  obtain ⟨policy, host⟩ := req
  obtain ⟨policy', host'⟩ := origin
  subst hreq horigin
  simpa [Request.key] using hkey

/-- A marked answer under the tunnel policy is owed to a lookup of the same
name that asked the local resolver. -/
theorem Traced.localDirect {o : Opener} {c : Config (gate o)} (hc : Traced c) {i : Nat}
    {thread : Thread (gate o)} (hthread : c.threads[i]? = some thread) {req : Request}
    (hreq : req.policy = .tunnel) {before seg after : List (Event sig)}
    (htrace : thread.trace = before ++ seg ++ after) {answer : Answer}
    (hresolved : Resolved o.rules.dns req seg answer) (herr : answer.err = none)
    (hdirect : answer.res.localDirect = true) :
    o.rules.dns.localOnNXDomain = true ∧
      ∃ trace looked, ComputedBy c req seg req trace looked ∧
        LocallyAnswered o.rules.dns req.host answer.res.addrs trace := by
  have hliteral : Addr.parse req.host = none := by
    cases hresolved with
    | literal _ _ => cases hdirect
    | hit hparse _ => exact hparse
    | shared hparse _ => exact hparse
    | led hparse _ _ => exact hparse
  obtain ⟨origin, trace, looked, hkey, hcomputed, hdelivered⟩ :=
    hc.computedBy hthread htrace hresolved hliteral
  obtain ⟨ctx, hlooked⟩ := hcomputed.returns
  have hmark : looked.res.localDirect = true := by rw [← hdelivered.localDirect herr, hdirect]
  have hpolicy := policyLookup_localDirect hlooked hmark
  obtain rfl := Request.eq_of_key hreq hpolicy hkey
  rw [hpolicy] at hlooked
  obtain ⟨hlocal, first, ips, rest, hsplit, haddrs, hwhy⟩ :=
    lookup_localDirect hlooked (hdelivered.err herr) hmark
  refine ⟨hlocal, trace, looked, hcomputed, first, ips, rest, hsplit, ?_, hwhy⟩
  rw [hdelivered.addrs herr, haddrs]

/-- How a tunnel decision can still turn direct. -/
theorem tunnelCandidates_direct {family : IPFamily} {host reason : Text} {addrs : List Addr}
    {localDirect : Bool}
    (hroute : (tunnelCandidates family host addrs localDirect reason).route = .direct) :
    localDirect = true ∧ (∀ a ∈ addrs, isPrivate a = true) ∧
      tunnelCandidates family host addrs localDirect reason =
        directCandidates family host (dropHostLocal addrs) (str "local-private") := by
  simp only [tunnelCandidates] at hroute ⊢
  split at hroute
  next => split at hroute <;> cases hroute
  next hpublic =>
    rw [if_neg hpublic]
    split at hroute
    next => split at hroute <;> cases hroute
    next hdirect =>
      rw [if_neg hdirect]
      simp only [Bool.or_eq_true, not_or, Bool.not_eq_true', Bool.not_eq_false] at hdirect
      refine ⟨hdirect.1, ?_, rfl⟩
      intro a ha
      rw [not_not, List.filter_eq_nil_iff] at hpublic
      simpa using hpublic a ha

theorem directCandidates_mem {family : IPFamily} {host reason : Text} {addrs out : List Addr}
    (hout : (directCandidates family host addrs reason).addrs = .ok out) {ip : Addr}
    (hip : ip ∈ out) : ip ∈ addrs := by
  simp only [directCandidates] at hout
  split at hout
  next => cases hout
  next =>
    rw [← Except.ok.inj hout] at hip
    exact List.mem_of_mem_filter hip

/-- In every run, `candidates` gives a direct route only for a private literal,
by a rule that matched in its decision, or for private addresses of other machines that the local
resolver gave where the setting lets it. -/
theorem candidates_direct_only_by_policy (o : Opener) (schedule : List (Action (gate o)))
    (c : Config (gate o)) (hrun : (gate o).run ⟨{}, []⟩ schedule = some c)
    (thread : Thread (gate o)) (hthread : thread ∈ c.threads) (host : Text)
    (before seg after : List (Event sig)) (found : Candidates)
    (htrace : thread.trace = before ++ seg ++ after)
    (hfound : (candidates o host).Returns seg found) (hroute : found.route = .direct) :
    isPrivateLiteral (normalizeHost o.rules.dns.lower host) = true ∨
    (∃ first second decision, seg = first ++ second ∧
      (o.rules.decide host).Returns first decision ∧ ∃ r ∈ o.rules.rules,
        RuleMatched o.rules.dns r (normalizeHost o.rules.dns.lower host) first) ∨
    (o.rules.dns.localOnNXDomain = true ∧
      ∃ first second answer trace looked, seg = first ++ second ∧
        (resolveTunnel o.rules.dns host).Returns second answer ∧
        ComputedBy c (o.rules.dns.request .tunnel host) second
          (o.rules.dns.request .tunnel host) trace looked ∧
        LocallyAnswered o.rules.dns (normalizeHost o.rules.dns.lower host) answer.res.addrs trace ∧
        ∀ out, found.addrs = .ok out → ∀ ip ∈ out,
          (∃ a ∈ answer.res.addrs, ip = a.unmap.withZone []) ∧
          (∃ p ∈ localPrefixes, p.contains ip = true) ∧
          ∀ p ∈ hostLocalPrefixes, p.contains ip = false) := by
  obtain ⟨first, second, decision, answer, rfl, hdecision, hanswer, rfl⟩ :=
    candidates_returns.mp hfound
  cases hdecided : decision.1 with
  | direct =>
      rcases decide_returns_direct hdecision hdecided with hprivate | hmatched
      · exact .inl hprivate
      · exact .inr (.inl ⟨first, second, decision, rfl, hdecision, hmatched⟩)
  | tunnel =>
      refine .inr (.inr ?_)
      simp only [hdecided] at hroute hanswer ⊢
      cases herr : answer.err with
      | some err => simp [candidatesOf, herr] at hroute
      | none =>
          simp only [candidatesOf, herr] at hroute ⊢
          obtain ⟨hdirect, hprivate, hcandidates⟩ := tunnelCandidates_direct hroute
          obtain ⟨i, hi⟩ := List.mem_iff_getElem?.mp hthread
          have hresolved := Resolved.of_returns hanswer
          have hsplit : thread.trace = (before ++ first) ++ second ++ after := by
            rw [htrace]
            simp only [List.append_assoc]
          obtain ⟨hlocal, trace, looked, hcomputed, hlocally⟩ :=
            (run_traced hrun).localDirect hi rfl hsplit hresolved herr hdirect
          refine ⟨hlocal, first, second, answer, trace, looked, rfl, hanswer, hcomputed, hlocally,
            ?_⟩
          intro out hout ip hip
          rw [hcandidates] at hout
          exact mem_dropHostLocal hprivate (directCandidates_mem hout hip)

/-- A name that only the local resolver knows goes direct. -/
def intranetEvents : List (Event sig) :=
  let req : Request := ⟨.tunnel, str "nas"⟩
  let addrs : List Addr := [.v4 0xc0a80105]
  sampleAttempt req [.opened] (.error (.dns true (str "no such host"))) ++
    [⟨.answered 0 0, ()⟩, ⟨.localLookup (str "nas"), .ok [⟨[192, 168, 1, 5], []⟩]⟩,
      ⟨.releaseProbes [0], ()⟩, ⟨.now, 0⟩,
      ⟨.store req { addrs, expires := dnsCacheTTL, localDirect := true }, []⟩,
      ⟨.sfEnd req 0 ⟨{ addrs, authoritative := true, localDirect := true }, none⟩, ()⟩]

def intranet : List (Action (gate (sampleOpener true))) :=
  (gate (sampleOpener true)).alone [.tunnel true] (.candidates (str "nas")) intranetEvents

theorem intranet_candidates :
    (candidates (sampleOpener true) (str "nas")).Returns intranetEvents
      ⟨.ok [.v4 0xc0a80105], .direct, str "local-private"⟩ := by
  unfold Returns
  repeat first
    | exact .refl _
    | apply Reaches.act

theorem candidates_direct_only_by_policy_intranet :
    ∃ c, (gate (sampleOpener true)).run ⟨{}, []⟩ intranet = some c ∧
      (sampleOpener true).rules.dns.localOnNXDomain = true ∧
      ∃ p ∈ localPrefixes, p.contains (.v4 0xc0a80105) = true := by
  obtain ⟨c, hrun⟩ : ∃ c, (gate (sampleOpener true)).run ⟨{}, []⟩ intranet = some c :=
    Option.isSome_iff_exists.mp (by decide +kernel)
  obtain ⟨rest, hthreads⟩ := run_alone hrun
  have hpolicy := candidates_direct_only_by_policy _ _ c hrun _
    (hthreads ▸ List.mem_singleton_self _) (str "nas") [] intranetEvents [] _
    (by simp) intranet_candidates rfl
  rcases hpolicy with hprivate | ⟨_, _, _, _, _, r, hr, _⟩ |
    ⟨hlocal, _, _, _, _, _, _, _, _, _, hout⟩
  · exact absurd hprivate (by decide)
  · exact absurd hr List.not_mem_nil
  · exact ⟨c, hrun, hlocal, (hout _ rfl _ (List.mem_singleton_self _)).2.1⟩

end SshGate
