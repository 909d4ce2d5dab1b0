import SshGate.Go.Utf8
import SshGate.Routing

/-! # Direct rules and private addresses

The pure part of the rule engine: parsing `DIRECT_RULES`, normalizing hosts
and classifying addresses. Matching an `ip:` rule needs a lookup and is part
of the opener's programs.
-/

namespace SshGate

open Go

/-- What a rule matches: addresses of a prefix, names of a compiled regular
expression, or a domain with its subdomains. -/
inductive Matcher where
  | ip (net : Prefix)
  | re (matchString : Text → Bool)
  | domain (name : Text)

structure RuleEntry where
  raw : Text
  matcher : Matcher

def RuleEntry.isIP (r : RuleEntry) : Bool :=
  match r.matcher with
  | .ip _ => true
  | _ => false

/-- The match of a rule that needs no lookup; `host` is normalized. -/
def RuleEntry.matchesName (r : RuleEntry) (host : Text) : Bool :=
  match r.matcher with
  | .ip _ => false
  | .re matchString => matchString host
  | .domain name => host == name || host.endsWith (str "." ++ name)

inductive RuleError where
  | invalidCIDR (text : Text)
  | emptyRegex (raw : Text)
  | invalidRegex (text : Text)
  | noDomain (raw : Text)
  deriving Repr, DecidableEq

/-- Canonical form of a host for decisions and cache keys: lower case, without
one trailing dot. -/
def normalizeHost (lower : Nat → Nat) (host : Text) : Text :=
  (host.toLower lower).trimSuffix (str ".")

section Normalized

theorem trimSuffix_snoc_dot (s : Text) : (s ++ [46]).trimSuffix (str ".") = s :=
  Text.trimSuffix_append s [46]

variable {lower : Nat → Nat}

theorem normalizeHost_snoc_dot (host : Text) :
    normalizeHost lower (host ++ [46]) = host.toLower lower := by
  rw [normalizeHost, Text.toLower_snoc_dot, trimSuffix_snoc_dot]

theorem normalizeHost_of_not_dot (htable : Text.LowerTable lower) {host : Text}
    (hhost : ¬ [46] <:+ host) : normalizeHost lower host = host.toLower lower :=
  Text.trimSuffix_of_not_suffix (mt (htable.toLower_dot_iff host).mp hhost)

theorem normalizeHost_sameCase {host other : Text} (h : host.SameCase other) :
    normalizeHost lower host = normalizeHost lower other := by
  rw [normalizeHost, normalizeHost, h.toLower_eq]

theorem toLower_normalizeHost (htable : Text.LowerTable lower) (host : Text) :
    (normalizeHost lower host).toLower lower = normalizeHost lower host := by
  by_cases hhost : [46] <:+ host
  · obtain ⟨front, rfl⟩ := hhost
    rw [normalizeHost_snoc_dot, htable.toLower_idem]
  · rw [normalizeHost_of_not_dot htable hhost, htable.toLower_idem]

theorem dots_suffix_iff (s : Text) : [46, 46] <:+ s ++ [46] ↔ [46] <:+ s := by
  constructor
  · rintro ⟨front, hfront⟩
    have happend : front ++ [46] ++ [46] = s ++ [46] := by
      rw [← hfront, List.append_assoc]
      rfl
    exact ⟨front, List.append_cancel_right happend⟩
  · rintro ⟨front, rfl⟩
    exact ⟨front, by simp⟩

/-- One trailing dot is removed, not two. -/
theorem normalizeHost_dot_iff (htable : Text.LowerTable lower) (host : Text) :
    [46] <:+ normalizeHost lower host ↔ [46, 46] <:+ host := by
  by_cases hhost : [46] <:+ host
  · obtain ⟨front, rfl⟩ := hhost
    rw [normalizeHost_snoc_dot, htable.toLower_dot_iff, dots_suffix_iff]
  · rw [normalizeHost_of_not_dot htable hhost, htable.toLower_dot_iff]
    refine iff_of_false hhost fun hdots => hhost ?_
    exact (List.suffix_cons 46 [46]).trans hdots

/-- Normalizing again removes one more dot, if there is one. -/
theorem normalizeHost_twice (htable : Text.LowerTable lower) (host : Text) :
    normalizeHost lower (normalizeHost lower host) =
      (normalizeHost lower host).trimSuffix (str ".") := by
  rw [normalizeHost, toLower_normalizeHost htable]

theorem normalizeHost_idem_iff (htable : Text.LowerTable lower) (host : Text) :
    normalizeHost lower (normalizeHost lower host) = normalizeHost lower host ↔
      ¬ [46, 46] <:+ host := by
  rw [normalizeHost_twice htable, ← normalizeHost_dot_iff htable]
  constructor
  · rintro hsame ⟨front, hfront⟩
    rw [← hfront, trimSuffix_snoc_dot] at hsame
    have hlength := congrArg List.length hsame
    simp at hlength
  · exact Text.trimSuffix_of_not_suffix

end Normalized

section Parsing

-- `compile` is `regexp.Compile`; `lower` is Go's case table beyond ASCII.
variable (compile : Text → Option (Text → Bool)) (lower : Nat → Nat)

def parseRuleEntry (raw : Text) : Except RuleError RuleEntry :=
  if raw.startsWith (str "ip:") then
    match Prefix.parse (raw.drop 3) with
    | none => .error (.invalidCIDR (raw.drop 3))
    | some net => .ok ⟨raw, .ip net⟩
  else if raw.startsWith (str "re:") then
    if raw.drop 3 = [] then .error (.emptyRegex raw)
    else
      match compile (raw.drop 3) with
      | none => .error (.invalidRegex (raw.drop 3))
      | some matchString => .ok ⟨raw, .re matchString⟩
  else
    let domain := normalizeHost lower (raw.trimPrefix (str "."))
    if domain = [] then .error (.noDomain raw) else .ok ⟨raw, .domain domain⟩

/-- The loop of `NewRuleEngine` over the entries: rules for names and `ip:`
rules are collected apart. -/
def parseEntries : List Text → (named ips : List RuleEntry) →
    Except RuleError (List RuleEntry × List RuleEntry)
  | [], named, ips => .ok (named, ips)
  | entry :: rest, named, ips =>
      let entry := entry.trimSpace
      if entry = [] then parseEntries rest named ips
      else
        match parseRuleEntry compile lower entry with
        | .error e => .error e
        | .ok r =>
            if r.isIP then parseEntries rest named (ips ++ [r])
            else parseEntries rest (named ++ [r]) ips

/-- The rules in the order they are tried. -/
def parseRules (direct : Text) : Except RuleError (List RuleEntry) :=
  if direct = [] then .ok []
  else
    match parseEntries compile lower (direct.split 44) [] [] with
    | .error e => .error e
    | .ok (named, ips) => .ok (named ++ ips)

end Parsing

/-- `ip:` rules stand after all rules that need no lookup. -/
def IPLast (rules : List RuleEntry) : Prop :=
  ∃ named ips : List RuleEntry, rules = named ++ ips ∧
    (∀ r ∈ named, r.isIP = false) ∧ ∀ r ∈ ips, r.isIP = true

theorem parseEntries_isIP {compile : Text → Option (Text → Bool)} {lower : Nat → Nat}
    {entries : List Text} {named ips named' ips' : List RuleEntry}
    (hparse : parseEntries compile lower entries named ips = .ok (named', ips'))
    (hnamed : ∀ r ∈ named, r.isIP = false) (hips : ∀ r ∈ ips, r.isIP = true) :
    (∀ r ∈ named', r.isIP = false) ∧ ∀ r ∈ ips', r.isIP = true := by
  induction entries generalizing named ips with
  | nil =>
      simp only [parseEntries, Except.ok.injEq, Prod.mk.injEq] at hparse
      obtain ⟨rfl, rfl⟩ := hparse
      exact ⟨hnamed, hips⟩
  | cons entry rest ih =>
      simp only [parseEntries] at hparse
      split at hparse
      next => exact ih hparse hnamed hips
      next =>
        split at hparse
        next => simp at hparse
        next r hr =>
          split at hparse
          next hip =>
            refine ih hparse hnamed ?_
            intro r' hr'
            rcases List.mem_append.mp hr' with hold | hnew
            · exact hips r' hold
            · rw [List.mem_singleton.mp hnew]
              exact hip
          next hip =>
            refine ih hparse ?_ hips
            intro r' hr'
            rcases List.mem_append.mp hr' with hold | hnew
            · exact hnamed r' hold
            · rw [List.mem_singleton.mp hnew]
              exact eq_false_of_ne_true hip

/-- Whatever the order in the configuration, `ip:` rules are tried last. -/
theorem parseRules_ipLast {compile : Text → Option (Text → Bool)} {lower : Nat → Nat}
    {direct : Text} {rules : List RuleEntry}
    (hparse : parseRules compile lower direct = .ok rules) : IPLast rules := by
  unfold parseRules at hparse
  split at hparse
  next =>
    simp only [Except.ok.injEq] at hparse
    subst hparse
    exact ⟨[], [], rfl, by simp, by simp⟩
  next =>
    split at hparse
    next => simp at hparse
    next named ips hentries =>
      simp only [Except.ok.injEq] at hparse
      subst hparse
      have hsorted := parseEntries_isIP hentries (by simp) (by simp)
      exact ⟨named, ips, rfl, hsorted.1, hsorted.2⟩

/-! ## Address classes -/

def mustPrefix (s : String) (h : (Prefix.parse (str s)).isSome = true := by decide) : Prefix :=
  (Prefix.parse (str s)).get h

/-- The ranges that never go through the tunnel. -/
def privatePrefixes : List Prefix :=
  [mustPrefix "0.0.0.0/8", mustPrefix "10.0.0.0/8", mustPrefix "100.64.0.0/10",
    mustPrefix "172.16.0.0/12", mustPrefix "192.168.0.0/16", mustPrefix "127.0.0.0/8",
    mustPrefix "::/128", mustPrefix "::1/128", mustPrefix "169.254.0.0/16",
    mustPrefix "fc00::/7", mustPrefix "fe80::/10"]

/-- Private ranges of other machines. -/
def localPrefixes : List Prefix :=
  [mustPrefix "10.0.0.0/8", mustPrefix "100.64.0.0/10", mustPrefix "172.16.0.0/12",
    mustPrefix "192.168.0.0/16", mustPrefix "fc00::/7"]

/-- Loopback, link-local, `0.0.0.0/8` and the unspecified address. -/
def hostLocalPrefixes : List Prefix :=
  [mustPrefix "0.0.0.0/8", mustPrefix "127.0.0.0/8", mustPrefix "::/128", mustPrefix "::1/128",
    mustPrefix "169.254.0.0/16", mustPrefix "fe80::/10"]

def hostLocalV4 : Prefix := mustPrefix "0.0.0.0/8"

/-- Unmapped and without zone: the form in which prefixes are checked. -/
def plain (ip : Addr) : Addr := ip.unmap.withZone []

def isPrivate (ip : Addr) : Bool := privatePrefixes.any fun p => p.contains (plain ip)

/-- First IPv4, otherwise the first address. -/
def pickTunnelAddr (addrs : List Addr) : Option Addr :=
  match addrs.find? Addr.is4 with
  | some a => some a
  | none => addrs.head?

/-- Remove loopback, unspecified and link-local addresses; the others come
back unmapped and without zone. -/
def dropHostLocal (addrs : List Addr) : List Addr :=
  (addrs.map plain).filter fun a =>
    !a.isLoopback && !a.isLinkLocalUnicast && !hostLocalV4.contains a && a ≠ .ipv6Unspecified

end SshGate
