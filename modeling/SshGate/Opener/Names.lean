import SshGate.Dns.Flights
import SshGate.Opener.Dials

/-! # Connections without a lookup

Which hosts are decided and dialed without asking anybody: those with a rule for
names are decided without a lookup, and address literals that stay literals when
they are normalized are dialed without one.
-/

namespace SshGate

open Go Interaction Program

/-- The decision comes to an `ip:` rule and has to ask for the host: it is no
private literal, no rule for names matches, and normalizing it a second time,
as `resolveAll` does, gives no literal. -/
def RuleEngine.NeedsLookup (e : RuleEngine) (host : Text) : Prop :=
  isPrivateLiteral (normalizeHost e.dns.lower host) = false ∧
  (∀ r ∈ e.rules, r.matchesName (normalizeHost e.dns.lower host) = false) ∧
  (∃ r ∈ e.rules, r.isIP = true) ∧
  Addr.parse (normalizeHost e.dns.lower (normalizeHost e.dns.lower host)) = none

/-! ## Decisions without a lookup -/

theorem RuleEntry.matches_named {r : RuleEntry} (hr : r.isIP = false) (c : DnsCache)
    (host : Text) : r.matches c host = .ret (r.matchesName host) := by
  unfold RuleEntry.matches
  split
  next net hmatcher => simp [RuleEntry.isIP, hmatcher] at hr
  next => rfl

theorem RuleEntry.matchesName_of_isIP {r : RuleEntry} (hr : r.isIP = true) (host : Text) :
    r.matchesName host = false := by
  cases hmatcher : r.matcher with
  | ip net => simp [RuleEntry.matchesName, hmatcher]
  | re matchString => simp [RuleEntry.isIP, hmatcher] at hr
  | domain name => simp [RuleEntry.isIP, hmatcher] at hr

theorem RuleEntry.matches_ip {r : RuleEntry} (hr : r.isIP = true) (c : DnsCache) (host : Text) :
    ∃ next, r.matches c host = cachedLookup c (c.request .tunnel host) >>= next := by
  unfold RuleEntry.matches
  split
  next net hmatcher => exact ⟨_, bind_assoc _ _ _⟩
  next hmatcher =>
    cases hm : r.matcher with
    | ip net => exact absurd hm (hmatcher net)
    | re matchString => simp [RuleEntry.isIP, hm] at hr
    | domain name => simp [RuleEntry.isIP, hm] at hr

/-- The rules for names are tried without any action. -/
theorem firstMatch_named {c : DnsCache} {host : Text} {named ips : List RuleEntry}
    (hnamed : ∀ r ∈ named, r.isIP = false) :
    firstMatch c host (named ++ ips) =
      match named.find? (·.matchesName host) with
      | some r => .ret (some r)
      | none => firstMatch c host ips := by
  induction named with
  | nil => rfl
  | cons r rest ih =>
      have hr := hnamed r List.mem_cons_self
      have hrest := ih fun r' hr' => hnamed r' (List.mem_cons_of_mem _ hr')
      simp only [List.cons_append, firstMatch, RuleEntry.matches_named hr, ret_bind]
      cases hmatch : r.matchesName host with
      | true => simp [hmatch]
      | false => simpa [hmatch] using hrest

theorem firstMatch_literal {c : DnsCache} {host : Text}
    (hparse : (Addr.parse (normalizeHost c.lower host)).isSome = true) (rules : List RuleEntry) :
    ∃ found, firstMatch c host rules = .ret found := by
  induction rules with
  | nil => exact ⟨none, rfl⟩
  | cons r rest ih =>
      have hmatches : ∃ matched, r.matches c host = .ret matched := by
        obtain ⟨answer, hanswer⟩ := cachedLookup_literal (c := c)
          (show (Addr.parse (c.request .tunnel host).host).isSome = true from hparse)
        unfold RuleEntry.matches
        split
        next net hmatcher =>
          simp only [resolveAll, resolveTunnel, hanswer, ret_bind]
          cases answer.err with
          | none => exact ⟨_, rfl⟩
          | some err => exact ⟨_, rfl⟩
        next => exact ⟨_, rfl⟩
      obtain ⟨matched, hmatched⟩ := hmatches
      obtain ⟨found, hfound⟩ := ih
      simp only [firstMatch, hmatched, ret_bind]
      cases matched with
      | true => exact ⟨some r, rfl⟩
      | false => exact ⟨found, by simpa using hfound⟩

theorem decide_ret {e : RuleEngine} {host : Text} (hneeds : ¬ e.NeedsLookup host) :
    ∃ decision, e.decide host = .ret decision := by
  obtain ⟨named, ips, hrules, hnamed, hips⟩ := e.ipLast
  unfold RuleEngine.decide
  split
  next => exact ⟨_, rfl⟩
  next hprivate =>
    rw [hrules, firstMatch_named hnamed]
    cases hfind : named.find? (·.matchesName (normalizeHost e.dns.lower host)) with
    | some r => exact ⟨_, rfl⟩
    | none =>
        cases ips with
        | nil => exact ⟨_, rfl⟩
        | cons r rest =>
            have hliteral : (Addr.parse (normalizeHost e.dns.lower
                (normalizeHost e.dns.lower host))).isSome = true := by
              by_contra hnone
              refine hneeds ⟨eq_false_of_ne_true hprivate, ?_, ⟨r, by simp [hrules], ?_⟩, ?_⟩
              · intro r' hr'
                rw [hrules] at hr'
                rcases List.mem_append.mp hr' with hold | hnew
                · simpa using List.find?_eq_none.mp hfind r' hold
                · exact RuleEntry.matchesName_of_isIP (hips r' hnew) _
              · exact hips r List.mem_cons_self
              · exact Option.not_isSome_iff_eq_none.mp hnone
            obtain ⟨found, hfound⟩ := firstMatch_literal hliteral (r :: rest)
            exact ⟨routeOf found, by simp only [hfound]; rfl⟩

theorem decide_asks {e : RuleEngine} {host : Text} (hneeds : e.NeedsLookup host) :
    ∃ next, e.decide host =
      cachedLookup e.dns (e.dns.request .tunnel (normalizeHost e.dns.lower host)) >>= next := by
  obtain ⟨hprivate, hnone, ⟨r, hr, hip⟩, _⟩ := hneeds
  obtain ⟨named, ips, hrules, hnamed, hips⟩ := e.ipLast
  have hfind : named.find? (·.matchesName (normalizeHost e.dns.lower host)) = none := by
    rw [List.find?_eq_none]
    intro r' hr'
    rw [hnone r' (by rw [hrules]; exact List.mem_append_left _ hr')]
    exact Bool.false_ne_true
  cases ips with
  | nil =>
      rw [hrules, List.append_nil] at hr
      rw [hnamed r hr] at hip
      cases hip
  | cons first rest =>
      obtain ⟨next, hnext⟩ := RuleEntry.matches_ip (hips first List.mem_cons_self) e.dns
        (normalizeHost e.dns.lower host)
      unfold RuleEngine.decide
      rw [if_neg (by rw [hprivate]; exact Bool.false_ne_true), hrules, firstMatch_named hnamed,
        hfind]
      simp only [firstMatch, hnext, bind_assoc]
      exact ⟨_, rfl⟩

/-- A matching rule for names decides without a lookup. -/
theorem decide_named {e : RuleEngine} {host : Text}
    (hmatch : ∃ r ∈ e.rules, r.matchesName (normalizeHost e.dns.lower host) = true) :
    ∃ reason, e.decide host = .ret (.direct, reason) := by
  obtain ⟨r, hr, hname⟩ := hmatch
  obtain ⟨named, ips, hrules, hnamed, hips⟩ := e.ipLast
  unfold RuleEngine.decide
  split
  next => exact ⟨_, rfl⟩
  next =>
    rw [hrules, firstMatch_named hnamed]
    cases hfind : named.find? (·.matchesName (normalizeHost e.dns.lower host)) with
    | some found => exact ⟨_, rfl⟩
    | none =>
        rw [hrules] at hr
        rcases List.mem_append.mp hr with hold | hnew
        · exact absurd hname (List.find?_eq_none.mp hfind r hold)
        · rw [RuleEntry.matchesName_of_isIP (hips r hnew)] at hname
          cases hname

/-- Without `ip:` rules a name that no rule matches goes to the tunnel. -/
theorem decide_tunnel {e : RuleEngine} {host : Text}
    (hparse : Addr.parse (normalizeHost e.dns.lower host) = none)
    (hname : ∀ r ∈ e.rules, r.matchesName (normalizeHost e.dns.lower host) = false)
    (hips : ∀ r ∈ e.rules, r.isIP = false) :
    e.decide host = .ret (routeOf none) := by
  have hfind : e.rules.find? (·.matchesName (normalizeHost e.dns.lower host)) = none := by
    rw [List.find?_eq_none]
    intro r hr
    rw [hname r hr]
    exact Bool.false_ne_true
  have hmatch : firstMatch e.dns (normalizeHost e.dns.lower host) (e.rules ++ []) = .ret none := by
    rw [firstMatch_named hips, hfind]
    rfl
  rw [List.append_nil] at hmatch
  unfold RuleEngine.decide
  rw [isPrivateLiteral, hparse, hmatch]
  rfl

/-! ## Connections without a lookup -/

/-- The part of `openConn` after its candidates. -/
def dialFound (o : Opener) (info : ConnMeta) (port : Int) (found : Candidates) : Prog Opened :=
  match found.addrs with
  | .error err => return ⟨.error err, found.route, found.reason⟩
  | .ok addrs => dialAll o info port found addrs

theorem openConn_eq (o : Opener) (src proto host : Text) (port : Int) :
    openConn o src proto host port = o.rules.decide host >>= fun decision =>
      cachedLookup o.rules.dns (o.rules.dns.request decision.1.policy host) >>= fun answer =>
        dialFound o ⟨proto, src, host⟩ port
          (candidatesOf o.family host decision.1 decision.2 answer) := by
  simp only [← resolveFor_eq]
  change (candidates o host >>= dialFound o ⟨proto, src, host⟩ port) = _
  rw [candidates, bind_assoc]
  simp only [bind_assoc, pure_eq_ret, ret_bind]

theorem dialFound_isDial (o : Opener) (info : ConnMeta) (port : Int) (found : Candidates) :
    Confined (fun op : Op => op.isDial = true) (dialFound o info port found) := by
  unfold dialFound
  split
  next => trivial
  next addrs _ =>
    apply (dialAll_confined o info port found addrs).imp
    rintro op ⟨ip, _, rfl⟩
    cases found.route <;> rfl

/-- A kept literal is dialed without any other action. -/
theorem openConn_isDial {o : Opener} {host : Text}
    (hliteral : (Addr.parse (normalizeHost o.rules.dns.lower host)).isSome = true)
    (hneeds : ¬ o.rules.NeedsLookup host) (src proto : Text) (port : Int) :
    Confined (fun op : Op => op.isDial = true) (openConn o src proto host port) := by
  obtain ⟨decision, hdecision⟩ := decide_ret hneeds
  obtain ⟨answer, hanswer⟩ := cachedLookup_literal (c := o.rules.dns)
    (show (Addr.parse (o.rules.dns.request decision.1.policy host).host).isSome = true
      from hliteral)
  rw [openConn_eq, hdecision, ret_bind, hanswer, ret_bind]
  exact dialFound_isDial o _ port _

end SshGate
