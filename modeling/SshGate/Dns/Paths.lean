import SshGate.Dns.Calls

/-! # What the events of a lookup say

`LookupStep` tells for each action of a lookup what must have happened before
it, and `LookedUp` what led to its answer. Both are read off the events alone,
so they hold whatever the resolvers and the other calls do.
-/

namespace SshGate

open Go Interaction Program

/-- The resolver has answered: with addresses or a definitive not-found. -/
def isAnswer : Except Err (List Addr) → Bool
  | .ok _ => true
  | .error err => err.isNotFound

/-- Upstream `u` was asked for `host` within the trace, with this result. -/
def Attempted (c : DnsCache) (host : Text) (trace : List (Event sig)) (u : Nat)
    (result : Except Err (List Addr)) : Prop :=
  ∃ before attempt after share, trace = before ++ attempt ++ after ∧
    (upstreamLookup c u share host).Returns attempt result

/-- Upstream `u` was not granted to the lookup. -/
def Skipped (trace : List (Event sig)) (u : Nat) : Prop :=
  ∃ now, (⟨.claim u now, .refused⟩ : Event sig) ∈ trace

/-- Upstream `u` was asked and gave neither addresses nor a not-found. -/
def Failed (c : DnsCache) (host : Text) (trace : List (Event sig)) (u : Nat) : Prop :=
  ∃ err, err.isNotFound = false ∧ Attempted c host trace u (.error err)

/-- No tunnel resolver answered. -/
def NoneAnswered (c : DnsCache) (host : Text) (trace : List (Event sig)) : Prop :=
  ∀ u < c.tunnel.length, Skipped trace u ∨ Failed c host trace u

/-- A tunnel resolver gave a definitive not-found. -/
def NotFoundSeen (c : DnsCache) (host : Text) (trace : List (Event sig)) : Prop :=
  ∃ u err, err.isNotFound = true ∧ Attempted c host trace u (.error err)

section Extend

variable {c : DnsCache} {host : Text} {trace : List (Event sig)} {u : Nat}
  {result : Except Err (List Addr)} (more : List (Event sig))

theorem Attempted.append (h : Attempted c host trace u result) :
    Attempted c host (trace ++ more) u result := by
  obtain ⟨before, attempt, after, share, rfl, hattempt⟩ := h
  exact ⟨before, attempt, after ++ more, share, by simp, hattempt⟩

theorem Skipped.append (h : Skipped trace u) : Skipped (trace ++ more) u := by
  obtain ⟨now, hmem⟩ := h
  exact ⟨now, List.mem_append_left _ hmem⟩

theorem Failed.append (h : Failed c host trace u) : Failed c host (trace ++ more) u := by
  obtain ⟨err, herr, hattempt⟩ := h
  exact ⟨err, herr, hattempt.append more⟩

theorem NoneAnswered.append (h : NoneAnswered c host trace) :
    NoneAnswered c host (trace ++ more) := by
  intro u hu
  rcases h u hu with hskipped | hfailed
  · exact .inl (hskipped.append more)
  · exact .inr (hfailed.append more)

end Extend

/-- The events between the last two clock readings of the trace are a complete
attempt on `u`. -/
def Tried (c : DnsCache) (host : Text) (trace : List (Event sig)) (u : Nat)
    (attempt : List (Event sig)) (result : Except Err (List Addr)) : Prop :=
  ∃ before start share stop, trace = before ++ ⟨.now, start⟩ :: attempt ++ [⟨.now, stop⟩] ∧
    (upstreamLookup c u share host).Returns attempt result

section Tried

variable {c : DnsCache} {host : Text} {trace : List (Event sig)} {u : Nat}
  {attempt : List (Event sig)} {result : Except Err (List Addr)}

theorem Tried.attempted (h : Tried c host trace u attempt result) :
    Attempted c host trace u result := by
  obtain ⟨before, start, share, stop, rfl, hattempt⟩ := h
  exact ⟨before ++ [⟨.now, start⟩], attempt, [⟨.now, stop⟩], share, by simp, hattempt⟩

theorem Tried.after (before : List (Event sig)) (h : Tried c host trace u attempt result) :
    Tried c host (before ++ trace) u attempt result := by
  obtain ⟨first, start, share, stop, rfl, hattempt⟩ := h
  exact ⟨before ++ first, start, share, stop, by simp, hattempt⟩

end Tried

/-- What precedes each action of a lookup, from the lookup's first event on. -/
inductive LookupStep (c : DnsCache) (host : Text) (trace : List (Event sig)) : Op → Prop
  | now : LookupStep c host trace .now
  | claim (u now : Nat) : LookupStep c host trace (.claim u now)
  | attempt {op : Op} (hop : op.inAttempt = true) : LookupStep c host trace op
  | answered {u : Nat} {attempt : List (Event sig)} {result : Except Err (List Addr)} (rtt : Nat)
      (htried : Tried c host trace u attempt result)
      (hresult : ∀ err, result = .error err → err.isNotFound = true) :
      LookupStep c host trace (.answered u rtt)
  | tunnelUp : LookupStep c host trace .tunnelUp
  | failed {u : Nat} {err : Err} {before attempt : List (Event sig)}
      (htrace : trace = before ++ [⟨.tunnelUp, true⟩])
      (htried : Tried c host before u attempt (.error err)) (herr : err.isNotFound = false) :
      LookupStep c host trace (.failed u err)
  | releaseProbes (claimed : List Nat) : LookupStep c host trace (.releaseProbes claimed)
  | fallback (hnone : NoneAnswered c host trace) : LookupStep c host trace .fallback
  | lastFallback {t : Nat} {before : List (Event sig)}
      (htrace : trace = before ++ [⟨.fallback, ()⟩, ⟨.now, t⟩]) :
      LookupStep c host trace (.lastFallback t)
  | localLookup (hwhy : NoneAnswered c host trace ∨
      NotFoundSeen c host trace ∧ c.localOnNXDomain = true) :
      LookupStep c host trace (.localLookup host)

/-- How a lookup came to its answer. -/
inductive LookedUp (c : DnsCache) (host : Text) (trace : List (Event sig)) : Answer → Prop
  | answered {u : Nat} {addrs : List Addr} (hattempt : Attempted c host trace u (.ok addrs)) :
      LookedUp c host trace ⟨{ addrs, authoritative := true }, none⟩
  | notFound {before after rest : List (Event sig)} {answer : Answer}
      (htrace : trace = before ++ after ++ rest) (hseen : NotFoundSeen c host before)
      (hanswer : (notFound c host).Returns after answer) : LookedUp c host trace answer
  | fallback {before after rest : List (Event sig)} {answer : Answer}
      (htrace : trace = before ++ after ++ rest) (hnone : NoneAnswered c host before)
      (hanswer : (lookupFallback c host).Returns after answer) : LookedUp c host trace answer

theorem LookedUp.append {c : DnsCache} {host : Text} {trace : List (Event sig)} {answer : Answer}
    (h : LookedUp c host trace answer) (more : List (Event sig)) :
    LookedUp c host (trace ++ more) answer := by
  cases h with
  | answered hattempt => exact .answered (hattempt.append more)
  | notFound htrace hseen hanswer =>
      exact .notFound (by rw [htrace, List.append_assoc]) hseen hanswer
  | fallback htrace hnone hanswer =>
      exact .fallback (by rw [htrace, List.append_assoc]) hnone hanswer

section Lookup

variable (c : DnsCache) (host : Text)

theorem upstreamLookup_always (u : Nat) (share : Int) (history : List (Event sig)) :
    Always (LookupStep c host)
      (fun history' result => ∃ trace, history' = history ++ trace ∧
        (upstreamLookup c u share host).Returns trace result)
      history (upstreamLookup c u share host) :=
  ((upstreamLookup_inAttempt c u share host).always fun _ _ hop => .attempt hop).path

theorem lookupLocal_always {history : List (Event sig)}
    (hwhy : NoneAnswered c host history ∨ NotFoundSeen c host history ∧ c.localOnNXDomain = true) :
    Always (LookupStep c host) (fun _ _ => True) history (lookupLocal host) := by
  refine Always.perform (.localLookup hwhy) fun reply => ?_
  cases reply with
  | error err => trivial
  | ok addrs => trivial

theorem notFound_always {history : List (Event sig)} (hseen : NotFoundSeen c host history) :
    Always (LookupStep c host) (LookedUp c host) history (notFound c host) := by
  have hguarded : Always (LookupStep c host) (fun _ _ => True) history (notFound c host) := by
    unfold notFound
    split
    next hlocal =>
      apply (lookupLocal_always c host (.inr ⟨hseen, hlocal⟩)).bind
      intro history' result _
      cases result with
      | error err => trivial
      | ok addrs => trivial
    next => trivial
  apply hguarded.path.post_imp
  rintro history' answer ⟨trace, rfl, htrace⟩
  exact .notFound (by rw [List.append_nil]) hseen htrace

theorem lookupFallback_always {history : List (Event sig)}
    (hnone : NoneAnswered c host history) :
    Always (LookupStep c host) (LookedUp c host) history (lookupFallback c host) := by
  have hguarded : Always (LookupStep c host) (fun _ _ => True) history
      (lookupFallback c host) := by
    refine Always.perform (.fallback hnone) fun _ => Always.perform .now fun t => ?_
    refine Always.perform (.lastFallback (List.append_assoc history _ _)) fun _ => ?_
    apply (lookupLocal_always c host (.inl (((hnone.append _).append _).append _))).bind
    intro history' result _
    have hdirect : Always (LookupStep c host) (fun _ _ => True) history' (fallbackDirect c) := by
      unfold fallbackDirect
      split
      next => exact Always.perform .tunnelUp fun up => trivial
      next => trivial
    apply hdirect.bind
    intro history'' localDirect _
    cases result with
    | error err => trivial
    | ok addrs => trivial
  apply hguarded.path.post_imp
  rintro history' answer ⟨trace, rfl, htrace⟩
  exact .fallback (by rw [List.append_nil]) hnone htrace

theorem upstreamFailed_always {history attempt : List (Event sig)} {u : Nat} {err : Err}
    (htried : Tried c host history u attempt (.error err)) (herr : err.isNotFound = false) :
    Always (LookupStep c host) (fun history' _ => ∃ more, history' = history ++ more)
      history (upstreamFailed u err) := by
  refine Always.perform .tunnelUp fun up => ?_
  cases up with
  | false => exact ⟨_, rfl⟩
  | true =>
      refine Always.perform (.failed rfl htried herr) fun reading => ?_
      exact ⟨_, List.append_assoc _ _ _⟩

/-- The walk, with the resolvers before it in the list already skipped or
failed. -/
theorem walk_always (deadline : Nat) (us : List Nat) {history : List (Event sig)}
    (hdone : ∀ u < c.tunnel.length, u ∉ us → Skipped history u ∨ Failed c host history u) :
    Always (LookupStep c host)
      (fun history' result => match result with
        | none => NoneAnswered c host history'
        | some answer => LookedUp c host history' answer)
      history (walk c deadline host us) := by
  induction us generalizing history with
  | nil => exact fun u hu => hdone u hu (by simp)
  | cons u rest ih =>
      refine Always.perform .now fun reading => Always.perform .now fun start => ?_
      apply (upstreamLookup_always c host u _ _).bind
      rintro _ result ⟨attempt, rfl, hattempt⟩
      refine Always.perform .now fun stop => ?_
      have htried : Tried c host (history ++ [⟨.now, reading⟩] ++ [⟨.now, start⟩] ++
          attempt ++ [⟨.now, stop⟩]) u attempt result :=
        ⟨history ++ [⟨.now, reading⟩], start, _, stop, by simp, hattempt⟩
      cases result with
      | ok addrs =>
          refine Always.perform (.answered _ htried (by simp)) fun _ => ?_
          exact .answered (htried.attempted.append _)
      | error err =>
          dsimp only
          split
          next hnotFound =>
            refine Always.perform (.answered _ htried ?_) fun _ => ?_
            · intro err' herr'
              rwa [← Except.error.inj herr']
            apply (notFound_always c host ⟨u, err, hnotFound, htried.attempted.append _⟩).bind
            exact fun _ answer hanswer => hanswer
          next hnotFound =>
            have herr : err.isNotFound = false := by simpa using hnotFound
            apply (upstreamFailed_always c host htried herr).bind
            rintro _ _ ⟨more, rfl⟩
            apply ih
            intro v hv hrest
            by_cases hvu : v = u
            · subst hvu
              exact .inr ⟨err, herr, htried.attempted.append more⟩
            · simp only [List.append_assoc]
              rcases hdone v hv (by simp [hvu, hrest]) with hskipped | hfailed
              · exact .inl (hskipped.append _)
              · exact .inr (hfailed.append _)

/-- The claims: a resolver that is not granted was skipped. -/
theorem claimAll_always (now : Nat) (us : List Nat) (history : List (Event sig)) :
    Always (LookupStep c host)
      (fun history' active => (∃ more, history' = history ++ more) ∧
        ∀ u ∈ us, u ∉ active → Skipped history' u)
      history (claimAll now us) := by
  induction us generalizing history with
  | nil => exact ⟨⟨[], by simp⟩, by simp⟩
  | cons u rest ih =>
      refine Always.perform (.claim u now) fun grant => ?_
      apply (ih _).bind
      rintro _ active ⟨⟨more, rfl⟩, hskipped⟩
      refine ⟨⟨_, List.append_assoc _ _ _⟩, ?_⟩
      intro v hv hactive
      cases grant with
      | refused =>
          rcases List.mem_cons.mp hv with rfl | hrest
          · exact ⟨now, by simp⟩
          · exact hskipped v hrest hactive
      | «open» =>
          simp only [Grant.granted, if_true, List.mem_cons, not_or] at hactive
          exact hskipped v (List.mem_of_ne_of_mem hactive.1 hv) hactive.2
      | probe =>
          simp only [Grant.granted, if_true, List.mem_cons, not_or] at hactive
          exact hskipped v (List.mem_of_ne_of_mem hactive.1 hv) hactive.2

/-- Every action and every answer of a lookup. -/
theorem lookup_always (ctx : Nat) :
    Always (LookupStep c host) (LookedUp c host) [] (lookup c ctx host) := by
  refine Always.perform .now fun now => ?_
  apply (claimAll_always c host now _ _).bind
  rintro _ active ⟨⟨more, rfl⟩, hskipped⟩
  refine Always.perform .now fun start => ?_
  refine (walk_always c host _ active ?_).bind ?_
  · intro u hu hactive
    exact .inl ((hskipped u (List.mem_range.mpr hu) hactive).append _)
  intro history walked hwalked
  have hanswer : Always (LookupStep c host) (LookedUp c host) history
      (orFallback c host walked) := by
    cases walked with
    | none => exact lookupFallback_always c host hwalked
    | some answer => exact hwalked
  apply hanswer.bind
  intro history' answer hlooked
  exact Always.perform (.releaseProbes active) fun _ => hlooked.append _

end Lookup

theorem LookedUp.of_returns {c : DnsCache} {host : Text} {ctx : Nat} {trace : List (Event sig)}
    {answer : Answer} (hpath : (lookup c ctx host).Returns trace answer) :
    LookedUp c host trace answer :=
  (lookup_always c host ctx).of_returns hpath

/-! ## The local resolver's part of an answer -/

section LocalAnswer

variable {c : DnsCache} {host : Text} {trace : List (Event sig)}

theorem lookupLocal_returns {result : Except Err (List Addr)}
    (hpath : (lookupLocal host).Returns trace result) :
    (∃ err, trace = [⟨.localLookup host, .error err⟩] ∧ result = .error (.text err)) ∨
      ∃ ips, trace = [⟨.localLookup host, .ok ips⟩] ∧ result = .ok (toNetip ips) := by
  obtain ⟨reply, rest, rfl, hrest⟩ := returns_perform.mp hpath
  cases reply with
  | error err =>
      obtain ⟨rfl, hresult⟩ := returns_ret.mp hrest
      exact .inl ⟨err, rfl, hresult.symm⟩
  | ok ips =>
      obtain ⟨rfl, hresult⟩ := returns_ret.mp hrest
      exact .inr ⟨ips, rfl, hresult.symm⟩

/-- After a not-found the local resolver answers only with the setting on;
otherwise the name stays not found. -/
theorem notFound_returns {answer : Answer} (hpath : (notFound c host).Returns trace answer) :
    answer = ⟨{ authoritative := true }, some .notFound⟩ ∨
      c.localOnNXDomain = true ∧ ∃ ips, trace = [⟨.localLookup host, .ok ips⟩] ∧
        answer = ⟨{ addrs := toNetip ips, authoritative := true, localDirect := true }, none⟩ := by
  unfold notFound at hpath
  split at hpath
  next hlocal =>
    obtain ⟨first, result, second, rfl, hfirst, hsecond⟩ := returns_bind.mp hpath
    rcases lookupLocal_returns hfirst with ⟨err, rfl, rfl⟩ | ⟨ips, rfl, rfl⟩
    · exact .inl (returns_ret.mp hsecond).2.symm
    · obtain ⟨rfl, hanswer⟩ := returns_ret.mp hsecond
      exact .inr ⟨hlocal, ips, by simp, hanswer.symm⟩
  next => exact .inl (returns_ret.mp hpath).2.symm

/-- The fallback asks the local resolver and then, with the setting on, reads
the tunnel state. -/
theorem lookupFallback_returns {answer : Answer}
    (hpath : (lookupFallback c host).Returns trace answer) :
    ∃ t reply rest,
      trace = ⟨.fallback, ()⟩ :: ⟨.now, t⟩ :: ⟨.lastFallback t, ()⟩ ::
        ⟨.localLookup host, reply⟩ :: rest ∧
      answer.res.authoritative = false ∧
      (answer.res.localDirect = true → c.localOnNXDomain = true ∧
        (⟨.tunnelUp, false⟩ : Event sig) ∈ rest) ∧
      ((∃ err, reply = .error err ∧ answer.err = some (.text err)) ∨
        ∃ ips, reply = .ok ips ∧ answer.err = none ∧ answer.res.addrs = toNetip ips) := by
  obtain ⟨_, _, rfl, hcounted⟩ := returns_perform.mp hpath
  obtain ⟨t, _, rfl, hread⟩ := returns_perform.mp hcounted
  obtain ⟨_, tail, rfl, htail⟩ := returns_perform.mp hread
  obtain ⟨first, result, second, rfl, hfirst, hsecond⟩ := returns_bind.mp htail
  obtain ⟨third, localDirect, last, rfl, hthird, hlast⟩ := returns_bind.mp hsecond
  have hdirect : localDirect = true → c.localOnNXDomain = true ∧
      (⟨.tunnelUp, false⟩ : Event sig) ∈ third := by
    intro htrue
    unfold fallbackDirect at hthird
    split at hthird
    next hlocal =>
      obtain ⟨up, rest, rfl, hrest⟩ := returns_perform.mp hthird
      obtain ⟨rfl, hup⟩ := returns_ret.mp hrest
      rw [htrue, Bool.not_eq_true'] at hup
      subst hup
      exact ⟨hlocal, by simp⟩
    next =>
      obtain ⟨_, hfalse⟩ := returns_ret.mp hthird
      rw [htrue] at hfalse
      cases hfalse
  rcases lookupLocal_returns hfirst with ⟨err, rfl, rfl⟩ | ⟨ips, rfl, rfl⟩
  · obtain ⟨rfl, rfl⟩ := returns_ret.mp hlast
    refine ⟨t, .error err, third, by simp, rfl, hdirect, .inl ⟨err, rfl, rfl⟩⟩
  · obtain ⟨rfl, rfl⟩ := returns_ret.mp hlast
    refine ⟨t, .ok ips, third, by simp, rfl, hdirect, .inr ⟨ips, rfl, rfl, rfl⟩⟩

/-- An answer that may go direct is the local resolver's, after a not-found of
a tunnel resolver or with the tunnel seen down afterwards. -/
theorem lookup_localDirect {ctx : Nat} {answer : Answer}
    (hpath : (lookup c ctx host).Returns trace answer) (herr : answer.err = none)
    (hdirect : answer.res.localDirect = true) :
    c.localOnNXDomain = true ∧ ∃ first ips rest,
      trace = first ++ ⟨.localLookup host, .ok ips⟩ :: rest ∧ answer.res.addrs = toNetip ips ∧
      (NotFoundSeen c host first ∨ (⟨.tunnelUp, false⟩ : Event sig) ∈ rest) := by
  cases LookedUp.of_returns hpath with
  | answered hattempt => cases hdirect
  | @notFound before after rest _ htrace hseen hanswer =>
      rcases notFound_returns hanswer with rfl | ⟨hlocal, ips, rfl, rfl⟩
      · cases herr
      · exact ⟨hlocal, before, ips, rest, by rw [htrace, List.append_assoc]; rfl, rfl, .inl hseen⟩
  | @fallback before after rest _ htrace hnone hanswer =>
      obtain ⟨t, reply, more, rfl, _, hdown, hreply⟩ := lookupFallback_returns hanswer
      obtain ⟨hlocal, hmem⟩ := hdown hdirect
      rcases hreply with ⟨err, _, hsome⟩ | ⟨ips, rfl, _, haddrs⟩
      · rw [herr] at hsome
        cases hsome
      · refine ⟨hlocal, before ++ [⟨.fallback, ()⟩, ⟨.now, t⟩, ⟨.lastFallback t, ()⟩], ips,
          more ++ rest, ?_, haddrs, .inr ?_⟩
        · rw [htrace]
          simp
        · exact List.mem_append_left _ hmem

theorem localLookup_returns {answer : Answer} (hpath : (localLookup host).Returns trace answer) :
    (∃ err, trace = [⟨.localLookup host, .error err⟩] ∧
        answer = ⟨{ authoritative := true }, some (.text err)⟩) ∨
      ∃ ips, trace = [⟨.localLookup host, .ok ips⟩] ∧
        answer = ⟨{ addrs := toNetip ips, authoritative := true }, none⟩ := by
  obtain ⟨first, result, second, rfl, hfirst, hsecond⟩ := returns_bind.mp hpath
  rcases lookupLocal_returns hfirst with ⟨err, rfl, rfl⟩ | ⟨ips, rfl, rfl⟩
  · obtain ⟨rfl, hanswer⟩ := returns_ret.mp hsecond
    exact .inl ⟨err, by simp, hanswer.symm⟩
  · obtain ⟨rfl, hanswer⟩ := returns_ret.mp hsecond
    exact .inr ⟨ips, by simp, hanswer.symm⟩

/-- The local policy never marks an answer. -/
theorem policyLookup_localDirect {policy : Policy} {ctx : Nat} {answer : Answer}
    (hpath : (policy.lookup c ctx host).Returns trace answer)
    (hdirect : answer.res.localDirect = true) : policy = .tunnel := by
  cases policy with
  | tunnel => rfl
  | «local» =>
      rcases localLookup_returns hpath with ⟨err, _, rfl⟩ | ⟨ips, _, rfl⟩
      · cases hdirect
      · cases hdirect

end LocalAnswer

end SshGate
