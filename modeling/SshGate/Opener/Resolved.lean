import SshGate.Opener.Policy

/-! # What the resolver hands out

A lookup of either policy gives unmapped addresses, and an empty list becomes an
error before a caller sees it. Cached and shared answers come from lookups of
the run, so the callers may take the first address of an answer without looking
at its length.
-/

namespace SshGate

open Go Interaction Program System

/-! ## Unmapped addresses -/

/-- All addresses are unmapped. -/
def Unmapped (addrs : List Addr) : Prop := ∀ a ∈ addrs, a.unmap = a

theorem unmap_unmap (a : Addr) : a.unmap.unmap = a.unmap := by
  cases a with
  | v4 bits => rfl
  | v6 bits zone =>
      by_cases hmapped : bits >>> 32 = 0xFFFF#128
      · simp [Addr.unmap, hmapped]
      · simp [Addr.unmap, hmapped]

theorem unmap_eq_iff {a : Addr} : a.unmap = a ↔ a.is4In6 = false := by
  cases a with
  | v4 bits => simp [Addr.unmap, Addr.is4In6]
  | v6 bits zone =>
      by_cases hmapped : bits >>> 32 = 0xFFFF#128
      · simp [Addr.unmap, Addr.is4In6, hmapped]
      · simp [Addr.unmap, Addr.is4In6, hmapped]

theorem plain_unmapped (a : Addr) : (plain a).unmap = plain a := by
  have hunmapped := unmap_unmap a
  unfold plain
  cases hplain : a.unmap with
  | v4 bits => rfl
  | v6 bits zone =>
      rw [hplain, unmap_eq_iff] at hunmapped
      exact unmap_eq_iff.mpr hunmapped

theorem dropHostLocal_unmapped (addrs : List Addr) : Unmapped (dropHostLocal addrs) := by
  intro a ha
  obtain ⟨ip, -, rfl⟩ := List.mem_map.mp (List.mem_of_mem_filter ha)
  exact plain_unmapped ip

/-- On unmapped addresses the slice test of `familyMatches` is `Is4`. -/
theorem familyMatches_eq_is4 {a : Addr} (ha : a.unmap = a) :
    familyMatches .ipv4 a = a.is4 ∧ familyMatches .ipv6 a = !a.is4 := by
  simp only [familyMatches, ha, and_self]

/-! ## The producers -/

theorem toNetip_unmapped (ips : List IPAddr) : Unmapped (toNetip ips) := by
  intro a ha
  obtain ⟨ip, -, hip⟩ := List.mem_filterMap.mp ha
  obtain ⟨raw, -, rfl⟩ := Option.map_eq_some_iff.mp hip
  exact unmap_unmap raw

theorem classifyServer_unmapped {opened : Bool} {reply : Except ResolverError (List IPAddr)}
    {addrs : List Addr} (h : classifyServer opened reply = .ok addrs) : Unmapped addrs := by
  cases reply with
  | ok ips =>
      cases h
      exact toNetip_unmapped ips
  | error err =>
      cases err with
      | other err => cases h
      | dns isNotFound err =>
          simp only [classifyServer] at h
          split at h
          next => cases h
          next => split at h <;> cases h

theorem classifyDoh_unmapped {q : DohQuery} {outcome : DohOutcome} {addrs : List Addr}
    (h : classifyDoh q outcome = .ok addrs) : Unmapped addrs := by
  cases outcome with
  | failed err => cases h
  | response statusCode status records =>
      simp only [classifyDoh] at h
      split at h
      next => cases h
      next =>
        split at h
        next => cases h
        next =>
          cases h
          intro a ha
          obtain ⟨record, -, hrecord⟩ := List.mem_filterMap.mp ha
          obtain ⟨-, hrecord⟩ := Option.ite_none_right_eq_some.mp hrecord
          obtain ⟨raw, -, rfl⟩ := Option.map_eq_some_iff.mp hrecord
          exact unmap_unmap raw

theorem dohQueries_unmapped {u : Nat} {share : Int} {host : Text} {queries : List DohQuery}
    {connected : Bool} {out addrs : List Addr} {trace : List (Event sig)}
    (h : (dohQueries u share host queries connected out).Returns trace (.ok addrs))
    (hout : Unmapped out) : Unmapped addrs := by
  induction queries generalizing connected out trace with
  | nil =>
      obtain ⟨-, hresult⟩ := returns_ret.mp h
      split at hresult
      next => cases hresult
      next =>
        cases hresult
        exact hout
  | cons q rest ih =>
      obtain ⟨first, ⟨gotConn, result⟩, second, rfl, hquery, hrest⟩ := returns_bind.mp h
      cases result with
      | error err =>
          dsimp only at hrest
          split at hrest
          next => cases (returns_ret.mp hrest).2
          next => cases (returns_ret.mp hrest).2
      | ok found =>
          obtain ⟨_, _, rfl, hdials⟩ := returns_perform.mp hquery
          obtain ⟨_, _, _, rfl, -, hreply⟩ := returns_bind.mp hdials
          obtain ⟨reply, _, rfl, hend⟩ := returns_perform.mp hreply
          obtain ⟨-, hfound⟩ := returns_ret.mp hend
          have hclassified := classifyDoh_unmapped (Prod.mk.inj hfound).2
          exact ih hrest (List.forall_mem_append.mpr ⟨hout, hclassified⟩)

theorem upstreamLookup_unmapped {c : DnsCache} {u : Nat} {share : Int} {host : Text}
    {addrs : List Addr} {trace : List (Event sig)}
    (h : (upstreamLookup c u share host).Returns trace (.ok addrs)) : Unmapped addrs := by
  unfold upstreamLookup at h
  split at h
  next => exact dohQueries_unmapped h (List.forall_mem_nil _)
  next =>
    obtain ⟨_, _, rfl, hdials⟩ := returns_perform.mp h
    obtain ⟨_, _, _, rfl, -, hreply⟩ := returns_bind.mp hdials
    obtain ⟨reply, _, rfl, hend⟩ := returns_perform.mp hreply
    exact classifyServer_unmapped (returns_ret.mp hend).2

theorem policyLookup_unmapped {c : DnsCache} {policy : Policy} {ctx : Nat} {host : Text}
    {trace : List (Event sig)} {answer : Answer}
    (h : (policy.lookup c ctx host).Returns trace answer) (herr : answer.err = none) :
    Unmapped answer.res.addrs := by
  cases policy with
  | «local» =>
      rcases localLookup_returns h with ⟨err, -, rfl⟩ | ⟨ips, -, rfl⟩
      · cases herr
      · exact toNetip_unmapped ips
  | tunnel =>
      cases LookedUp.of_returns h with
      | answered hattempt =>
          obtain ⟨_, _, _, _, -, hattempt⟩ := hattempt
          exact upstreamLookup_unmapped hattempt
      | notFound _ _ hanswer =>
          rcases notFound_returns hanswer with rfl | ⟨-, ips, -, rfl⟩
          · cases herr
          · exact toNetip_unmapped ips
      | fallback _ _ hanswer =>
          obtain ⟨_, _, _, -, -, -, ⟨_, -, hsome⟩ | ⟨ips, -, -, haddrs⟩⟩ :=
            lookupFallback_returns hanswer
          · rw [herr] at hsome
            cases hsome
          · rw [haddrs]
            exact toNetip_unmapped ips

/-! ## Answers -/

/-- A list that a caller may use: it has a first address, and `Is4` tells the
family of each. -/
structure Canonical (addrs : List Addr) : Prop where
  nonempty : addrs ≠ []
  unmapped : Unmapped addrs

/-- The answers a cached lookup may give. -/
inductive Deliverable : Answer → Prop
  | addresses {res : LookupResult} (hcanonical : Canonical res.addrs) : Deliverable ⟨res, none⟩
  | dns (host : Text) (cause : Err) : Deliverable ⟨{}, some (.dns host cause)⟩
  | noAddress (host : Text) : Deliverable ⟨{}, some (.noAddress host)⟩

theorem Deliverable.canonical {answer : Answer} (h : Deliverable answer)
    (herr : answer.err = none) : Canonical answer.res.addrs := by
  cases h with
  | addresses hcanonical => exact hcanonical
  | dns _ _ => cases herr
  | noAddress _ => cases herr

theorem deliverable_outcomeOf (host : Text) {looked : Answer}
    (hlooked : looked.err = none → Unmapped looked.res.addrs) :
    Deliverable (outcomeOf host looked) := by
  obtain ⟨res, err⟩ := looked
  cases err with
  | some err => exact .dns host err
  | none =>
      by_cases haddrs : res.addrs = []
      · simp only [outcomeOf, haddrs, if_true]
        exact .noAddress host
      · simp only [outcomeOf, haddrs, if_false]
        exact .addresses ⟨haddrs, hlooked rfl⟩

/-- A positive entry is kept for a non-empty answer only. -/
theorem deliverable_entryOf {c : DnsCache} {looked : Answer} {now : Nat} {entry : CacheEntry}
    (hentry : c.entryOf looked now = some entry)
    (hlooked : looked.err = none → Unmapped looked.res.addrs) (host : Text) :
    Deliverable (entry.answer host) := by
  unfold DnsCache.entryOf at hentry
  split at hentry
  next err herr =>
    rw [Option.ite_none_right_eq_some, Option.some.injEq] at hentry
    obtain ⟨-, rfl⟩ := hentry
    exact .dns host .notFound
  next herr =>
    rw [Option.ite_none_right_eq_some, Option.some.injEq] at hentry
    obtain ⟨⟨haddrs, -⟩, rfl⟩ := hentry
    exact .addresses ⟨haddrs, hlooked herr⟩

theorem Flown.deliverable {c : DnsCache} {req : Request} {trace : List (Event sig)}
    {result : Answer} (h : Flown c req trace result) : Deliverable result := by
  obtain ⟨start, seg, tail, looked, -, hlooked, rfl, -⟩ := h
  exact deliverable_outcomeOf _ (policyLookup_unmapped hlooked)

/-- In every run, whatever a cached lookup returns is deliverable: literals, hits
and shared results as much as the lookups of its own. -/
theorem Traced.deliverable {o : Opener} {c : Config (gate o)} (hc : Traced c)
    {thread : Thread (gate o)} (hthread : thread ∈ c.threads) {req : Request}
    {before seg after : List (Event sig)} (htrace : thread.trace = before ++ seg ++ after)
    {answer : Answer} (hreturns : (cachedLookup o.rules.dns req).Returns seg answer) :
    Deliverable answer := by
  obtain ⟨i, hi⟩ := List.mem_iff_getElem?.mp hthread
  cases Resolved.of_returns hreturns with
  | @literal ip _ _ =>
      refine .addresses ⟨List.cons_ne_nil _ _, ?_⟩
      intro a ha
      rw [List.mem_singleton.mp ha]
      exact unmap_unmap ip
  | @hit cell _ hseg =>
      -- The entry was stored by a lookup that some thread ran before.
      obtain ⟨-, _, _, _, _, _, _, _, _, looked, -, hlooked, hentry⟩ :=
        hc.answers.hits i req cell ⟨thread, hi, by rw [htrace, hseg]; simp⟩
      exact deliverable_entryOf hentry (policyLookup_unmapped hlooked) req.host
  | @shared id shared _ hseg =>
      obtain ⟨-, _, _, _, _, _, -, hflown⟩ :=
        hc.answers.shared i req id shared ⟨thread, hi, by rw [htrace, hseg]; simp⟩
      exact hflown.deliverable
  | led _ _ hflown => exact hflown.deliverable

/-! ## Candidates -/

/-- A canonical list, or an error that is no failed index. -/
inductive Usable : Except Err (List Addr) → Prop
  | ok {addrs : List Addr} (hcanonical : Canonical addrs) : Usable (.ok addrs)
  | error {err : Err} (herr : err ≠ .indexOutOfRange) : Usable (.error err)

theorem Usable.canonical {addrs : List Addr} (h : Usable (.ok addrs)) : Canonical addrs := by
  cases h with
  | ok hcanonical => exact hcanonical

theorem Usable.ne_indexOutOfRange {found : Except Err (List Addr)} (h : Usable found) :
    found ≠ .error .indexOutOfRange := by
  rintro rfl
  cases h with
  | error herr => exact herr rfl

theorem directCandidates_usable (family : IPFamily) (host reason : Text) {addrs : List Addr}
    (haddrs : Unmapped addrs) : Usable (directCandidates family host addrs reason).addrs := by
  simp only [directCandidates]
  split
  next => exact .error (by simp)
  next hsome => exact .ok ⟨hsome, fun a ha => haddrs a (List.mem_of_mem_filter ha)⟩

theorem tunnelCandidates_usable (family : IPFamily) (host reason : Text) (localDirect : Bool)
    {addrs : List Addr} (haddrs : Canonical addrs) :
    Usable (tunnelCandidates family host addrs localDirect reason).addrs := by
  simp only [tunnelCandidates]
  split
  next =>
    split
    next => exact .error (by simp)
    next head hhead =>
      have hpublic : Unmapped (addrs.filter fun a => !isPrivate a) := fun a ha =>
        haddrs.unmapped a (List.mem_of_mem_filter ha)
      refine .ok ⟨List.cons_ne_nil _ _, ?_⟩
      intro a ha
      rcases List.mem_cons.mp ha with rfl | hrest
      · exact hpublic a (pickTunnelAddr_mem hhead)
      · exact hpublic a (List.mem_of_mem_filter hrest)
  next =>
    split
    next =>
      -- Here the refusal quotes `addrs[0]`.
      obtain ⟨first, rest, rfl⟩ := List.exists_cons_of_ne_nil haddrs.nonempty
      exact .error (by simp)
    next => exact directCandidates_usable family host _ (dropHostLocal_unmapped addrs)

theorem candidatesOf_usable (family : IPFamily) (host : Text) (route : Route) (reason : Text)
    {answer : Answer} (hanswer : Deliverable answer) :
    Usable (candidatesOf family host route reason answer).addrs := by
  cases hanswer with
  | addresses hcanonical =>
      cases route with
      | direct => exact directCandidates_usable family host reason hcanonical.unmapped
      | tunnel => exact tunnelCandidates_usable family host reason _ hcanonical
  | dns _ _ => exact .error (by simp)
  | noAddress _ => exact .error (by simp)

theorem Traced.candidates_usable {o : Opener} {c : Config (gate o)} (hc : Traced c)
    {thread : Thread (gate o)} (hthread : thread ∈ c.threads) {host : Text}
    {before seg after : List (Event sig)} (htrace : thread.trace = before ++ seg ++ after)
    {found : Candidates} (hfound : (candidates o host).Returns seg found) :
    Usable found.addrs := by
  obtain ⟨first, second, decision, answer, rfl, -, hanswer, rfl⟩ := candidates_returns.mp hfound
  rw [resolveFor_eq] at hanswer
  have hsplit : thread.trace = (before ++ first) ++ second ++ after := by
    rw [htrace]
    simp only [List.append_assoc]
  exact candidatesOf_usable _ _ _ _ (hc.deliverable hthread hsplit hanswer)

/-- `resolveAddr` takes the first element of usable candidates. -/
theorem resolveAddr_inRange {o : Opener} {host : Text} {trace : List (Event sig)}
    (husable : ∀ found, (candidates o host).Returns trace found → Usable found.addrs)
    {result : Except Err Addr × Route × Text} (h : (resolveAddr o host).Returns trace result) :
    result.1 ≠ .error .indexOutOfRange := by
  obtain ⟨first, found, second, rfl, hfound, hend⟩ := returns_bind.mp h
  cases haddrs : found.addrs with
  | error err =>
      rw [haddrs] at hend
      obtain ⟨rfl, rfl⟩ := returns_ret.mp hend
      rw [List.append_nil] at husable
      simpa [haddrs] using (husable found hfound).ne_indexOutOfRange
  | ok addrs =>
      rw [haddrs] at hend
      cases addrs with
      | nil =>
          obtain ⟨rfl, -⟩ := returns_ret.mp hend
          rw [List.append_nil] at husable
          exact absurd rfl (haddrs ▸ husable found hfound).canonical.nonempty
      | cons ip rest =>
          obtain ⟨-, rfl⟩ := returns_ret.mp hend
          simp

/-- In every run, a list that the resolver returns without error has a first
address and no IPv4-mapped one. So the first elements that `candidates` and
`resolveAddr` take exist, the candidates are not empty, and `Is4` tells their
families. -/
theorem resolved_lists_canonical (o : Opener) (schedule : List (Action (gate o)))
    (c : Config (gate o)) (hrun : (gate o).run ⟨{}, []⟩ schedule = some c)
    (thread : Thread (gate o)) (hthread : thread ∈ c.threads) (host : Text)
    (before seg after : List (Event sig)) (htrace : thread.trace = before ++ seg ++ after) :
    (∀ answer, (resolveTunnel o.rules.dns host).Returns seg answer ∨
        (localResolveAll o.rules.dns host).Returns seg answer → answer.err = none →
      answer.res.addrs ≠ [] ∧ ∀ a ∈ answer.res.addrs, a.is4In6 = false) ∧
    (∀ found, (candidates o host).Returns seg found →
      found.addrs ≠ .error .indexOutOfRange ∧
      ∀ addrs, found.addrs = .ok addrs → addrs ≠ [] ∧ ∀ a ∈ addrs, a.is4In6 = false ∧
        familyMatches .ipv4 a = a.is4 ∧ familyMatches .ipv6 a = !a.is4) ∧
    (∀ result, (resolveAddr o host).Returns seg result →
      result.1 ≠ .error .indexOutOfRange) := by
  have hc := run_traced hrun
  refine ⟨?_, ?_, ?_⟩
  · intro answer hreturns herr
    have hdeliverable : Deliverable answer := by
      rcases hreturns with htunnel | hlocal
      · exact hc.deliverable hthread htrace htunnel
      · exact hc.deliverable hthread htrace hlocal
    have hcanonical := hdeliverable.canonical herr
    exact ⟨hcanonical.nonempty, fun a ha => unmap_eq_iff.mp (hcanonical.unmapped a ha)⟩
  · intro found hfound
    have husable := hc.candidates_usable hthread htrace hfound
    refine ⟨husable.ne_indexOutOfRange, ?_⟩
    intro addrs haddrs
    rw [haddrs] at husable
    refine ⟨husable.canonical.nonempty, ?_⟩
    intro a ha
    have hunmapped := husable.canonical.unmapped a ha
    exact ⟨unmap_eq_iff.mp hunmapped, familyMatches_eq_is4 hunmapped⟩
  · intro result hresult
    exact resolveAddr_inRange (fun _ => hc.candidates_usable hthread htrace) hresult

theorem resolved_lists_canonical_intranet :
    ∃ c, (gate (sampleOpener true)).run ⟨{}, []⟩ intranet = some c ∧
      (candidates (sampleOpener true) (str "nas")).Returns intranetEvents
        ⟨.ok [.v4 0xc0a80105], .direct, str "local-private"⟩ ∧
      ∀ a ∈ [Addr.v4 0xc0a80105], a.is4In6 = false ∧
        familyMatches .ipv4 a = a.is4 ∧ familyMatches .ipv6 a = !a.is4 := by
  obtain ⟨c, hrun⟩ : ∃ c, (gate (sampleOpener true)).run ⟨{}, []⟩ intranet = some c :=
    Option.isSome_iff_exists.mp (by decide +kernel)
  obtain ⟨rest, hthreads⟩ := run_alone hrun
  have hlists := resolved_lists_canonical _ _ c hrun _ (hthreads ▸ List.mem_singleton_self _)
    (str "nas") [] intranetEvents [] (by simp)
  exact ⟨c, hrun, intranet_candidates, ((hlists.2.1 _ intranet_candidates).2 _ rfl).2⟩

end SshGate
