import SshGate.Opener.Names

/-! # The meaning of `DIRECT_RULES`

What the rules decide does not depend on their order. The entries are given a
meaning one by one; a decision is direct exactly if the host is a private
literal or some entry covers it, and it needs a lookup only if no entry for
names does.
-/

namespace SshGate

open Go Interaction Program

/-- The entries of the configuration string. -/
def ruleTexts (direct : Text) : List Text :=
  ((direct.split 44).map Text.trimSpace).filter (· ≠ [])

section Meaning

variable (compile : Text → Option (Text → Bool)) (lower : Nat → Nat) (direct host : Text)

/-- Some domain entry, without one leading dot and normalized, covers the name:
its labels are the last labels of the name. -/
def DomainCovers : Prop :=
  ∃ entry ∈ ruleTexts direct, entry.startsWith (str "ip:") = false ∧
    entry.startsWith (str "re:") = false ∧
    (normalizeHost lower (entry.trimPrefix (str "."))).split 46 <:+
      (normalizeHost lower host).split 46

/-- Some pattern matches the name. -/
def PatternCovers : Prop :=
  ∃ entry ∈ ruleTexts direct, entry.startsWith (str "re:") = true ∧
    ∃ matchString, compile (entry.drop 3) = some matchString ∧
      matchString (normalizeHost lower host) = true

/-- Some prefix contains an address of the answer. -/
def PrefixCovers (answer : Except Err (List Addr)) : Prop :=
  ∃ entry ∈ ruleTexts direct, entry.startsWith (str "ip:") = true ∧
    ∃ net addrs, Prefix.parse (entry.drop 3) = some net ∧ answer = .ok addrs ∧
      ∃ a ∈ addrs, net.contains a = true

end Meaning

/-! ## Parsing -/

theorem mem_ruleTexts {direct entry : Text} :
    entry ∈ ruleTexts direct ↔
      ∃ piece ∈ direct.split 44, piece.trimSpace = entry ∧ piece.trimSpace ≠ [] := by
  simp only [ruleTexts, List.mem_filter, List.mem_map, decide_eq_true_eq]
  constructor
  · rintro ⟨⟨piece, hpiece, rfl⟩, hblank⟩
    exact ⟨piece, hpiece, rfl, hblank⟩
  · rintro ⟨piece, hpiece, rfl, hblank⟩
    exact ⟨⟨piece, hpiece, rfl⟩, hblank⟩

section Parsing

variable {compile : Text → Option (Text → Bool)} {lower : Nat → Nat}

theorem parseEntries_blank {entry : Text} (hblank : entry.trimSpace = []) (rest : List Text)
    (named ips : List RuleEntry) :
    parseEntries compile lower (entry :: rest) named ips =
      parseEntries compile lower rest named ips := by
  simp only [parseEntries, hblank, if_true]

theorem parseEntries_error {entry : Text} {e : RuleError} (hblank : entry.trimSpace ≠ [])
    (hparse : parseRuleEntry compile lower entry.trimSpace = .error e) (rest : List Text)
    (named ips : List RuleEntry) :
    parseEntries compile lower (entry :: rest) named ips = .error e := by
  simp only [parseEntries, hblank, if_false, hparse]

theorem parseEntries_ok {entry : Text} {r : RuleEntry} (hblank : entry.trimSpace ≠ [])
    (hparse : parseRuleEntry compile lower entry.trimSpace = .ok r) (rest : List Text)
    (named ips : List RuleEntry) :
    ∃ named' ips', parseEntries compile lower (entry :: rest) named ips =
        parseEntries compile lower rest named' ips' ∧
      ∀ r', r' ∈ named' ++ ips' ↔ r' ∈ named ++ ips ∨ r' = r := by
  simp only [parseEntries, hblank, if_false, hparse]
  split
  next =>
    refine ⟨named, ips ++ [r], rfl, fun r' => ?_⟩
    simp only [List.mem_append, List.mem_singleton, or_assoc]
  next =>
    refine ⟨named ++ [r], ips, rfl, fun r' => ?_⟩
    simp only [List.mem_append, List.mem_singleton, or_assoc, or_comm (a := r' = r)]

/-- The loop succeeds if each entry can be parsed. -/
theorem exists_parseEntries {entries : List Text} {named ips : List RuleEntry}
    (hentries : ∀ entry ∈ entries, entry.trimSpace ≠ [] →
      ∃ r, parseRuleEntry compile lower entry.trimSpace = .ok r) :
    ∃ parsed, parseEntries compile lower entries named ips = .ok parsed := by
  induction entries generalizing named ips with
  | nil => exact ⟨(named, ips), rfl⟩
  | cons entry rest ih =>
      obtain ⟨hentry, hrest⟩ := List.forall_mem_cons.mp hentries
      by_cases hblank : entry.trimSpace = []
      · rw [parseEntries_blank hblank]
        exact ih hrest
      · obtain ⟨r, hr⟩ := hentry hblank
        obtain ⟨named', ips', hparse, -⟩ := parseEntries_ok hblank hr rest named ips
        rw [hparse]
        exact ih hrest

/-- A loop that succeeded parsed each entry and kept its rule, and no other. -/
theorem parseEntries_rules {entries : List Text} {named ips : List RuleEntry}
    {parsed : List RuleEntry × List RuleEntry}
    (hparse : parseEntries compile lower entries named ips = .ok parsed) :
    (∀ entry ∈ entries, entry.trimSpace ≠ [] →
      ∃ r, parseRuleEntry compile lower entry.trimSpace = .ok r) ∧
    ∀ r, r ∈ parsed.1 ++ parsed.2 ↔ r ∈ named ++ ips ∨
      ∃ entry ∈ entries, entry.trimSpace ≠ [] ∧
        parseRuleEntry compile lower entry.trimSpace = .ok r := by
  induction entries generalizing named ips with
  | nil =>
      simp only [parseEntries, Except.ok.injEq] at hparse
      exact ⟨by simp, fun r => by simp [← hparse]⟩
  | cons entry rest ih =>
      simp only [List.forall_mem_cons, List.exists_mem_cons_iff]
      by_cases hblank : entry.trimSpace = []
      · rw [parseEntries_blank hblank] at hparse
        obtain ⟨hall, hmem⟩ := ih hparse
        exact ⟨⟨fun h => absurd hblank h, hall⟩, fun r => by simp [hmem, hblank]⟩
      · cases hentry : parseRuleEntry compile lower entry.trimSpace with
        | error e =>
            rw [parseEntries_error hblank hentry] at hparse
            cases hparse
        | ok rule =>
            obtain ⟨named', ips', hnext, hkept⟩ := parseEntries_ok hblank hentry rest named ips
            rw [hnext] at hparse
            obtain ⟨hall, hmem⟩ := ih hparse
            refine ⟨⟨fun _ => ⟨rule, rfl⟩, hall⟩, fun r => ?_⟩
            simp only [hmem, hkept, or_assoc, ne_eq, hblank, not_false_eq_true, true_and,
              Except.ok.injEq, eq_comm (a := rule)]

/-- The rules of an accepted string are those of its entries, all of which can
be parsed. -/
theorem parseRules_rules {direct : Text} {rules : List RuleEntry}
    (hparse : parseRules compile lower direct = .ok rules) :
    (∀ entry ∈ ruleTexts direct, ∃ r, parseRuleEntry compile lower entry = .ok r) ∧
    ∀ r, r ∈ rules ↔ ∃ entry ∈ ruleTexts direct, parseRuleEntry compile lower entry = .ok r := by
  unfold parseRules at hparse
  split at hparse
  next hempty =>
    have htexts : ruleTexts direct = [] := by
      rw [hempty]
      rfl
    cases hparse
    simp [htexts]
  next =>
    split at hparse
    next => cases hparse
    next named ips hentries =>
      cases hparse
      obtain ⟨hall, hmem⟩ := parseEntries_rules hentries
      refine ⟨fun entry hentry => ?_, fun r => ?_⟩
      · obtain ⟨piece, hpiece, rfl, hblank⟩ := mem_ruleTexts.mp hentry
        exact hall piece hpiece hblank
      · rw [hmem r, List.append_nil, or_iff_right List.not_mem_nil]
        constructor
        · rintro ⟨piece, hpiece, hblank, hr⟩
          exact ⟨_, mem_ruleTexts.mpr ⟨piece, hpiece, rfl, hblank⟩, hr⟩
        · rintro ⟨entry, hentry, hr⟩
          obtain ⟨piece, hpiece, rfl, hblank⟩ := mem_ruleTexts.mp hentry
          exact ⟨piece, hpiece, hblank, hr⟩

/-- A string whose entries can be parsed is accepted. -/
theorem exists_parseRules {direct : Text}
    (hentries : ∀ entry ∈ ruleTexts direct, ∃ r, parseRuleEntry compile lower entry = .ok r) :
    ∃ rules, parseRules compile lower direct = .ok rules := by
  have hsucceeds : ∃ parsed, parseEntries compile lower (direct.split 44) [] [] = .ok parsed := by
    apply exists_parseEntries
    intro piece hpiece hblank
    exact hentries _ (mem_ruleTexts.mpr ⟨piece, hpiece, rfl, hblank⟩)
  obtain ⟨⟨named, ips⟩, hparsed⟩ := hsucceeds
  unfold parseRules
  split
  next => exact ⟨[], rfl⟩
  next => exact ⟨named ++ ips, by rw [hparsed]⟩

end Parsing

/-! ## Matching -/

theorem parseRuleEntry_cases {compile : Text → Option (Text → Bool)} {lower : Nat → Nat}
    {entry : Text} {r : RuleEntry} (hparse : parseRuleEntry compile lower entry = .ok r) :
    (entry.startsWith (str "ip:") = true ∧
      ∃ net, Prefix.parse (entry.drop 3) = some net ∧ r.matcher = .ip net) ∨
    (entry.startsWith (str "re:") = true ∧
      ∃ matchString, compile (entry.drop 3) = some matchString ∧ r.matcher = .re matchString) ∨
    (entry.startsWith (str "ip:") = false ∧ entry.startsWith (str "re:") = false ∧
      r.matcher = .domain (normalizeHost lower (entry.trimPrefix (str ".")))) := by
  unfold parseRuleEntry at hparse
  split at hparse
  next hip =>
    split at hparse
    next => cases hparse
    next net hnet =>
      cases hparse
      exact .inl ⟨hip, net, hnet, rfl⟩
  next hip =>
    split at hparse
    next hre =>
      split at hparse
      next => cases hparse
      next =>
        split at hparse
        next => cases hparse
        next matchString hcompile =>
          cases hparse
          exact .inr (.inl ⟨hre, matchString, hcompile, rfl⟩)
    next hre =>
      dsimp only at hparse
      split at hparse
      next => cases hparse
      next =>
        cases hparse
        exact .inr (.inr ⟨eq_false_of_ne_true hip, eq_false_of_ne_true hre, rfl⟩)

theorem not_ip_of_re {entry : Text} (hre : entry.startsWith (str "re:") = true) :
    ¬entry.startsWith (str "ip:") = true := by
  intro hip
  obtain ⟨rest, rfl⟩ := List.isPrefixOf_iff_prefix.mp hre
  cases hip

/-- A domain rule compares labels. -/
theorem matchesName_domain (raw name host : Text) :
    (RuleEntry.mk raw (.domain name)).matchesName host = true ↔
      name.split 46 <:+ host.split 46 := by
  rw [Text.split_suffix_iff]
  simp only [RuleEntry.matchesName, Text.endsWith, Bool.or_eq_true, beq_iff_eq,
    List.isSuffixOf_iff_suffix]
  rfl

/-- The match of a rule, given what the tunnel policy resolves. -/
def RuleEntry.covers (r : RuleEntry) (host : Text) (answer : Except Err (List Addr)) : Bool :=
  match r.matcher, answer with
  | .ip net, .ok addrs => addrs.any net.contains
  | .ip _, .error _ => false
  | _, _ => r.matchesName host

/-- The name was resolved within the trace, with this result. -/
def Answers (c : DnsCache) (name : Text) (trace : List (Event sig))
    (result : Except Err (List Addr)) : Prop :=
  ∃ before seg after, trace = before ++ seg ++ after ∧ (resolveAll c name).Returns seg result

theorem Answers.mono {c : DnsCache} {name : Text} {trace : List (Event sig)}
    {result : Except Err (List Addr)} (h : Answers c name trace result)
    (before after : List (Event sig)) : Answers c name (before ++ trace ++ after) result := by
  obtain ⟨first, seg, last, rfl, hseg⟩ := h
  exact ⟨before ++ first, seg, last ++ after, by simp, hseg⟩

section Matching

variable {c : DnsCache} {host : Text} {answer : Except Err (List Addr)}
  {trace : List (Event sig)}

theorem matches_returns {r : RuleEntry} {matched : Bool}
    (hreturns : (r.matches c host).Returns trace matched)
    (hsteady : ∀ result, Answers c host trace result → result = answer) :
    matched = r.covers host answer := by
  unfold RuleEntry.matches at hreturns
  unfold RuleEntry.covers
  cases hmatcher : r.matcher with
  | ip net =>
      rw [hmatcher] at hreturns
      obtain ⟨first, result, second, rfl, hresolve, hrest⟩ := returns_bind.mp hreturns
      obtain rfl := hsteady result ⟨[], first, second, by simp, hresolve⟩
      cases result with
      | error err => exact (returns_ret.mp hrest).2.symm
      | ok addrs => exact (returns_ret.mp hrest).2.symm
  | re matchString =>
      rw [hmatcher] at hreturns
      exact (returns_ret.mp hreturns).2.symm
  | domain name =>
      rw [hmatcher] at hreturns
      exact (returns_ret.mp hreturns).2.symm

/-- With steady answers the search finds a rule exactly if one covers the
host. -/
theorem firstMatch_isSome {rules : List RuleEntry} {found : Option RuleEntry}
    (hreturns : (firstMatch c host rules).Returns trace found)
    (hsteady : ∀ result, Answers c host trace result → result = answer) :
    found.isSome = true ↔ ∃ r ∈ rules, r.covers host answer = true := by
  induction rules generalizing trace with
  | nil =>
      obtain ⟨-, rfl⟩ := returns_ret.mp hreturns
      simp
  | cons r rest ih =>
      obtain ⟨first, matched, second, rfl, hfirst, hsecond⟩ := returns_bind.mp hreturns
      have hmatched := matches_returns hfirst fun result h =>
        hsteady result (by simpa using h.mono [] second)
      cases matched with
      | true =>
          obtain ⟨-, rfl⟩ := returns_ret.mp hsecond
          simp [← hmatched]
      | false =>
          rw [ih hsecond fun result h => hsteady result (by simpa using h.mono first [])]
          simp [← hmatched]

end Matching

/-! ## Decisions -/

section Decisions

variable {compile : Text → Option (Text → Bool)} {direct : Text} {dns : DnsCache}
  {e : RuleEngine}

theorem newRuleEngine_ok (hnew : newRuleEngine compile direct dns = .ok e) :
    parseRules compile dns.lower direct = .ok e.rules ∧ e.dns = dns := by
  unfold newRuleEngine at hnew
  split at hnew
  next => cases hnew
  next rules hparse =>
    cases hnew
    exact ⟨hparse, rfl⟩

theorem exists_newRuleEngine {rules : List RuleEntry}
    (hparse : parseRules compile dns.lower direct = .ok rules) :
    ∃ e, newRuleEngine compile direct dns = .ok e := by
  unfold newRuleEngine
  split
  next err herr =>
    rw [hparse] at herr
    cases herr
  next => exact ⟨_, rfl⟩

/-- Some rule for names matches exactly if a domain or a pattern covers the
host. -/
theorem exists_matchesName_iff (hparse : parseRules compile dns.lower direct = .ok e.rules)
    (host : Text) :
    (∃ r ∈ e.rules, r.matchesName (normalizeHost dns.lower host) = true) ↔
      DomainCovers dns.lower direct host ∨ PatternCovers compile dns.lower direct host := by
  obtain ⟨hall, hmem⟩ := parseRules_rules hparse
  constructor
  · rintro ⟨r, hr, hmatches⟩
    obtain ⟨entry, hentry, hrule⟩ := (hmem r).mp hr
    obtain ⟨raw, matcher⟩ := r
    rcases parseRuleEntry_cases hrule with ⟨-, net, -, rfl⟩ | ⟨hre, matchString, hcompile, rfl⟩ |
      ⟨hip, hre, rfl⟩
    · cases hmatches
    · exact .inr ⟨entry, hentry, hre, matchString, hcompile, hmatches⟩
    · exact .inl ⟨entry, hentry, hip, hre, (matchesName_domain raw _ _).mp hmatches⟩
  · rintro (⟨entry, hentry, hip, hre, hlabels⟩ |
      ⟨entry, hentry, hre, matchString, hcompile, hmatch⟩)
    · obtain ⟨r, hrule⟩ := hall entry hentry
      refine ⟨r, (hmem r).mpr ⟨entry, hentry, hrule⟩, ?_⟩
      obtain ⟨raw, matcher⟩ := r
      rcases parseRuleEntry_cases hrule with ⟨hip', -⟩ | ⟨hre', -⟩ | ⟨-, -, rfl⟩
      · rw [hip] at hip'
        cases hip'
      · rw [hre] at hre'
        cases hre'
      · exact (matchesName_domain raw _ _).mpr hlabels
    · obtain ⟨r, hrule⟩ := hall entry hentry
      refine ⟨r, (hmem r).mpr ⟨entry, hentry, hrule⟩, ?_⟩
      obtain ⟨raw, matcher⟩ := r
      rcases parseRuleEntry_cases hrule with ⟨hip', -⟩ | ⟨-, compiled, hcompile', rfl⟩ |
        ⟨-, hre', -⟩
      · exact absurd hip' (not_ip_of_re hre)
      · rw [hcompile, Option.some.injEq] at hcompile'
        subst hcompile'
        exact hmatch
      · rw [hre] at hre'
        cases hre'

/-- Some rule covers the host exactly if one for names does or a prefix covers
the answer. -/
theorem exists_covers_iff (hparse : parseRules compile dns.lower direct = .ok e.rules)
    (host : Text) (answer : Except Err (List Addr)) :
    (∃ r ∈ e.rules, r.covers host answer = true) ↔
      (∃ r ∈ e.rules, r.matchesName host = true) ∨ PrefixCovers direct answer := by
  obtain ⟨hall, hmem⟩ := parseRules_rules hparse
  constructor
  · rintro ⟨r, hr, hcovers⟩
    obtain ⟨entry, hentry, hrule⟩ := (hmem r).mp hr
    obtain ⟨raw, matcher⟩ := r
    rcases parseRuleEntry_cases hrule with ⟨hip, net, hnet, rfl⟩ | ⟨-, matchString, -, rfl⟩ |
      ⟨-, -, rfl⟩
    · cases answer with
      | error err => cases hcovers
      | ok addrs =>
          obtain ⟨a, ha, hcontains⟩ := List.any_eq_true.mp hcovers
          exact .inr ⟨entry, hentry, hip, net, addrs, hnet, rfl, a, ha, hcontains⟩
    · exact .inl ⟨_, hr, hcovers⟩
    · exact .inl ⟨_, hr, hcovers⟩
  · rintro (⟨r, hr, hmatches⟩ | ⟨entry, hentry, hip, net, addrs, hnet, rfl, a, ha, hcontains⟩)
    · refine ⟨r, hr, ?_⟩
      obtain ⟨raw, matcher⟩ := r
      cases matcher with
      | ip net => cases hmatches
      | re matchString => exact hmatches
      | domain name => exact hmatches
    · obtain ⟨r, hrule⟩ := hall entry hentry
      refine ⟨r, (hmem r).mpr ⟨entry, hentry, hrule⟩, ?_⟩
      obtain ⟨raw, matcher⟩ := r
      rcases parseRuleEntry_cases hrule with ⟨-, net', hnet', rfl⟩ | ⟨hre, -⟩ | ⟨hip', -⟩
      · rw [hnet, Option.some.injEq] at hnet'
        subst hnet'
        exact List.any_eq_true.mpr ⟨a, ha, hcontains⟩
      · exact absurd hip (not_ip_of_re hre)
      · rw [hip] at hip'
        cases hip'

/-- A name that a rule for names matches is decided without any action. -/
theorem decide_of_matchesName {host : Text}
    (hmatches : ∃ r ∈ e.rules, r.matchesName (normalizeHost e.dns.lower host) = true) :
    ∃ decision, e.decide host = .ret decision := by
  obtain ⟨r, hr, hmatch⟩ := hmatches
  apply decide_ret
  rintro ⟨-, hnone, -⟩
  rw [hnone r hr] at hmatch
  cases hmatch

theorem decide_direct_iff (hnew : newRuleEngine compile direct dns = .ok e) {host : Text}
    {trace : List (Event sig)} {route : Route} {reason : Text} {answer : Except Err (List Addr)}
    (hreturns : (e.decide host).Returns trace (route, reason))
    (hsteady : ∀ result, Answers dns (normalizeHost dns.lower host) trace result →
      result = answer) :
    route = .direct ↔ isPrivateLiteral (normalizeHost dns.lower host) = true ∨
      DomainCovers dns.lower direct host ∨ PatternCovers compile dns.lower direct host ∨
      PrefixCovers direct answer := by
  obtain ⟨hparse, rfl⟩ := newRuleEngine_ok hnew
  rw [← or_assoc (a := DomainCovers _ _ _), ← exists_matchesName_iff hparse,
    ← exists_covers_iff hparse]
  unfold RuleEngine.decide at hreturns
  split at hreturns
  next hprivate =>
    obtain ⟨-, hdecision⟩ := returns_ret.mp hreturns
    cases hdecision
    simp [hprivate]
  next hprivate =>
    obtain ⟨first, found, second, rfl, hfound, hrest⟩ := returns_bind.mp hreturns
    obtain ⟨rfl, hroute⟩ := returns_ret.mp hrest
    rw [List.append_nil] at hsteady
    rw [or_iff_right hprivate, ← firstMatch_isSome hfound hsteady]
    cases found with
    | none =>
        cases hroute
        simp
    | some r =>
        cases hroute
        simp

theorem ruleTexts_perm {direct' : Text} (hperm : (direct'.split 44).Perm (direct.split 44)) :
    (ruleTexts direct').Perm (ruleTexts direct) :=
  (hperm.map _).filter _

end Decisions

/-- What the rules decide, in terms of the entries of the string: the order of
the entries changes nothing, and a name that needs no lookup causes none. -/
theorem decide_meaning (compile : Text → Option (Text → Bool)) (direct : Text) (dns : DnsCache)
    {e : RuleEngine} (hnew : newRuleEngine compile direct dns = .ok e) (host : Text)
    {trace : List (Event sig)} {route : Route} {reason : Text} {answer : Except Err (List Addr)}
    (hreturns : (e.decide host).Returns trace (route, reason))
    (hsteady : ∀ result, Answers dns (normalizeHost dns.lower host) trace result →
      result = answer) :
    (route = .direct ↔ isPrivateLiteral (normalizeHost dns.lower host) = true ∨
      DomainCovers dns.lower direct host ∨ PatternCovers compile dns.lower direct host ∨
      PrefixCovers direct answer) ∧
    (∀ direct', (direct'.split 44).Perm (direct.split 44) →
      ∃ e', newRuleEngine compile direct' dns = .ok e' ∧
        ∀ trace' route' reason', (e'.decide host).Returns trace' (route', reason') →
          (∀ result, Answers dns (normalizeHost dns.lower host) trace' result →
            result = answer) → route' = route) ∧
    (isPrivateLiteral (normalizeHost dns.lower host) = true ∨
      DomainCovers dns.lower direct host ∨ PatternCovers compile dns.lower direct host →
      trace = []) := by
  have hdirect := decide_direct_iff hnew hreturns hsteady
  obtain ⟨hparse, hdns⟩ := newRuleEngine_ok hnew
  refine ⟨hdirect, fun direct' hperm => ?_, fun hnamed => ?_⟩
  · have hmem : ∀ entry, entry ∈ ruleTexts direct' ↔ entry ∈ ruleTexts direct :=
      fun _ => (ruleTexts_perm hperm).mem_iff
    obtain ⟨rules', hparse'⟩ : ∃ rules, parseRules compile dns.lower direct' = .ok rules := by
      apply exists_parseRules
      intro entry hentry
      exact (parseRules_rules hparse).1 entry ((hmem entry).mp hentry)
    obtain ⟨e', hnew'⟩ := exists_newRuleEngine hparse'
    refine ⟨e', hnew', fun trace' route' reason' hreturns' hsteady' => ?_⟩
    have hdirect' := decide_direct_iff hnew' hreturns' hsteady'
    -- The two conditions are the same, since only membership of entries counts.
    simp only [DomainCovers, PatternCovers, PrefixCovers, hmem] at hdirect hdirect'
    have hsame : route' = .direct ↔ route = .direct := hdirect'.trans hdirect.symm
    cases route <;> cases route' <;> simp_all
  · have hret : ∃ decision, e.decide host = .ret decision := by
      rcases hnamed with hprivate | hnamed
      · refine ⟨_, if_pos ?_⟩
        rwa [hdns]
      · apply decide_of_matchesName
        rw [hdns]
        exact (exists_matchesName_iff hparse host).mpr hnamed
    obtain ⟨decision, hdecision⟩ := hret
    rw [hdecision] at hreturns
    exact (returns_ret.mp hreturns).1

/-- An `ip:` rule before a domain, and a literal in the rule's range. -/
theorem publicLiteral_direct :
    ∃ e, newRuleEngine (fun _ => none) (str "ip:8.0.0.0/8,example.com")
        (sampleOpener false).rules.dns = .ok e ∧
      ∀ trace route reason, (e.decide (str "8.8.8.8")).Returns trace (route, reason) →
        route = .direct := by
  obtain ⟨e, hnew⟩ : ∃ e, newRuleEngine (fun _ => none) (str "ip:8.0.0.0/8,example.com")
      (sampleOpener false).rules.dns = .ok e := exists_newRuleEngine rfl
  refine ⟨e, hnew, fun trace route reason hreturns => ?_⟩
  have hsteady : ∀ result, Answers (sampleOpener false).rules.dns
      (normalizeHost (sampleOpener false).rules.dns.lower (str "8.8.8.8")) trace result →
      result = .ok [.v4 134744072] := by
    rintro result ⟨before, seg, after, -, hseg⟩
    exact (returns_ret.mp hseg).2.symm
  apply (decide_meaning _ _ _ hnew _ hreturns hsteady).1.mpr
  refine .inr (.inr (.inr ⟨str "ip:8.0.0.0/8", by decide +kernel, by decide +kernel, ?_⟩))
  exact ⟨mustPrefix "8.0.0.0/8", _, by decide +kernel, rfl, .v4 134744072, by decide +kernel,
    by decide +kernel⟩

end SshGate
