import SshGate.Dns.Attempts
import SshGate.Interaction.Process
import SshGate.Opener.Decide
import SshGate.Steps

/-! # Deciding and dialing use one name

The rules normalize a host and the resolver does it again. A second
normalization changes nothing unless the host ends with two dots. Apart from
such hosts, deciding and dialing look up the same name, so that the dial finds
what the decision has stored.
-/

namespace SshGate

open Go Interaction Program

/-! ## Names in actions -/

/-- The action uses the key of this request and asks for its name, if it has to
do with keys or names at all. -/
def Op.Serves (c : DnsCache) (req : Request) : Op → Prop
  | .cacheGet used | .sfDo used | .sfWait used _ | .sfEnd used _ _ | .store used _ => used = req
  | .ask u name _ | .resolverReply u name | .dohReply u name _ => name = askedName c u req.host
  | .localLookup name => name = req.host
  | _ => True

section Serves

variable (c : DnsCache) (req : Request)

theorem dialHook_serves (u dials : Nat) : Confined (Op.Serves c req) (dialHook u dials) := by
  apply (dialHook_confined u dials).imp
  rintro op rfl
  trivial

theorem dohQueries_serves {u : Nat} (hdoh : askedName c u req.host = req.host) (share : Int)
    (queries : List DohQuery) (connected : Bool) (out : List Addr) :
    Confined (Op.Serves c req) (dohQueries u share req.host queries connected out) := by
  induction queries generalizing connected out with
  | nil => trivial
  | cons q rest ih =>
      refine Confined.bind ?_ ?_
      · refine .perform hdoh.symm fun dials => (dialHook_serves c req u dials).bind ?_
        exact fun opened => .perform hdoh.symm fun reply => trivial
      · rintro ⟨gotConn, result⟩
        cases result with
        | error err =>
            dsimp only
            split
            next => trivial
            next => trivial
        | ok addrs => exact ih _ _

theorem upstreamLookup_serves (u : Nat) (share : Int) :
    Confined (Op.Serves c req) (upstreamLookup c u share req.host) := by
  unfold upstreamLookup
  split
  next hdoh =>
    have hname : askedName c u req.host = req.host := by rw [askedName, hdoh]
    exact dohQueries_serves c req hname share _ _ _
  next hserver =>
    have hdot : askedName c u req.host = req.host ++ str "." := by
      unfold askedName
      split
      next host hdoh => exact absurd hdoh (hserver host)
      next => rfl
    refine .perform hdot.symm fun dials => (dialHook_serves c req u dials).bind ?_
    exact fun opened => .perform hdot.symm fun reply => trivial

theorem lookupLocal_serves : Confined (Op.Serves c req) (lookupLocal req.host) := by
  apply (lookupLocal_confined req.host).imp
  rintro op rfl
  exact rfl

theorem walk_serves (deadline : Nat) (us : List Nat) :
    Confined (Op.Serves c req) (walk c deadline req.host us) := by
  have hnotFound : Confined (Op.Serves c req) (notFound c req.host) := by
    apply (notFound_confined c req.host).imp
    rintro op rfl
    exact rfl
  induction us with
  | nil => trivial
  | cons u rest ih =>
      refine .perform trivial fun reading => .perform trivial fun start => ?_
      refine (upstreamLookup_serves c req u _).bind fun result => .perform trivial fun stop => ?_
      cases result with
      | ok addrs => exact .perform trivial fun _ => trivial
      | error err =>
          dsimp only
          split
          next => exact .perform trivial fun _ => hnotFound.bind fun answer => trivial
          next =>
            refine Confined.bind (.perform trivial fun up => ?_) fun _ => ih
            split
            next => exact .perform trivial fun _ => trivial
            next => trivial

theorem lookupFallback_serves : Confined (Op.Serves c req) (lookupFallback c req.host) := by
  refine .perform trivial fun _ => .perform trivial fun t => .perform trivial fun _ => ?_
  refine (lookupLocal_serves c req).bind fun result => ?_
  have hdirect : Confined (Op.Serves c req) (fallbackDirect c) := by
    unfold fallbackDirect
    split
    next => exact .perform trivial fun up => trivial
    next => trivial
  refine hdirect.bind fun localDirect => ?_
  cases result with
  | ok addrs => trivial
  | error err => trivial

theorem claimAll_serves (now : Nat) (us : List Nat) :
    Confined (Op.Serves c req) (claimAll now us) := by
  induction us with
  | nil => trivial
  | cons u rest ih => exact .perform trivial fun grant => ih.bind fun active => trivial

theorem policyLookup_serves (ctx : Nat) (policy : Policy) :
    Confined (Op.Serves c req) (policy.lookup c ctx req.host) := by
  cases policy with
  | tunnel =>
      refine .perform trivial fun now => (claimAll_serves c req now _).bind fun active => ?_
      refine .perform trivial fun start => (walk_serves c req _ active).bind fun walked => ?_
      refine Confined.bind ?_ fun answer => .perform trivial fun _ => trivial
      cases walked with
      | some answer => trivial
      | none => exact lookupFallback_serves c req
  | «local» =>
      refine (lookupLocal_serves c req).bind fun result => ?_
      cases result with
      | ok addrs => trivial
      | error err => trivial

theorem settle_serves (answer : Answer) : Confined (Op.Serves c req) (settle c req answer) := by
  unfold settle
  split
  next =>
    split
    next => exact .perform trivial fun now => .perform rfl fun _ => trivial
    next => trivial
  next =>
    split
    next => trivial
    next =>
      split
      next => exact .perform trivial fun now => .perform rfl fun _ => trivial
      next => trivial

/-- A cached lookup uses one key and one name. -/
theorem cachedLookup_serves : Confined (Op.Serves c req) (cachedLookup c req) := by
  have hfly : Confined (Op.Serves c req) (fly c req) := by
    refine .perform trivial fun start => .perform trivial fun _ => ?_
    exact (policyLookup_serves c req _ req.policy).bind fun answer => settle_serves c req answer
  unfold cachedLookup
  split
  next => trivial
  next =>
    refine .perform rfl fun hit => ?_
    cases hit with
    | some cell => trivial
    | none =>
        refine .perform rfl fun flight => ?_
        cases flight with
        | join id => exact .perform rfl fun shared => trivial
        | lead id => exact hfly.bind fun answer => .perform rfl fun _ => trivial

end Serves

/-- The rules look up the name that is normalized twice. -/
theorem decide_serves (e : RuleEngine) (host : Text) :
    Confined (Op.Serves e.dns (e.dns.request .tunnel (normalizeHost e.dns.lower host)))
      (e.decide host) := by
  unfold RuleEngine.decide
  split
  next => trivial
  next =>
    refine Confined.bind ?_ fun found => trivial
    induction e.rules with
    | nil => trivial
    | cons r rest ih =>
        refine Confined.bind ?_ fun matched => ?_
        · unfold RuleEntry.matches
          split
          next =>
            refine Confined.bind ((cachedLookup_serves e.dns _).bind fun answer => ?_) ?_
            · split
              next => trivial
              next => trivial
            · intro result
              cases result with
              | ok addrs => trivial
              | error err => trivial
          next => trivial
        · split
          next => trivial
          next => exact ih

/-! ## Entries that last -/

/-- The key has an entry that lasts beyond the time. -/
def World.KeptUntil (w : World) (key : Text) (time : Nat) : Prop :=
  ∃ cell, w.cache.lookup key = some cell ∧ time < cell.entry.expires

/-- What others may do meanwhile: time passes, and no entry is lost or replaced
by one that ends earlier before it has expired. -/
def World.Lasts (w w' : World) : Prop :=
  w.clock ≤ w'.clock ∧
    ∀ key time, w'.clock ≤ time → w.KeptUntil key time → w'.KeptUntil key time

/-- The expiry of the entry that an authoritative answer was stored as or was
read from. -/
def entryExpiry : Event sig → Option Nat
  | ⟨.store _ entry, _⟩ => some entry.expires
  | ⟨.cacheGet _, some cell⟩ => some cell.entry.expires
  | _ => none

/-- Nothing is stored in this part of a trace. -/
def NoStore (trace : List (Event sig)) : Prop :=
  ∀ req entry order, (⟨.store req entry, order⟩ : Event sig) ∉ trace

section Lasting

variable {w w' : World} {trace : List (Event sig)}

theorem World.Lasts.refl (w : World) : w.Lasts w := ⟨Nat.le_refl _, fun _ _ _ h => h⟩

theorem passes_clock (h : Passes World.perform World.Lasts w trace w') : w.clock ≤ w'.clock := by
  induction trace generalizing w with
  | nil => exact h.1
  | cons event rest ih =>
      obtain ⟨before, after, hlasts, hperform, hrest⟩ := h
      calc w.clock ≤ before.clock := hlasts.1
        _ = after.clock := (perform_clock hperform).symm
        _ ≤ w'.clock := ih hrest

theorem passes_kept (h : Passes World.perform World.Lasts w trace w') (hstore : NoStore trace)
    {key : Text} {time : Nat} (htime : w'.clock ≤ time) (hkept : w.KeptUntil key time) :
    w'.KeptUntil key time := by
  induction trace generalizing w with
  | nil => exact h.2 key time htime hkept
  | cons event rest ih =>
      obtain ⟨before, after, hlasts, hperform, hrest⟩ := h
      have hclock : before.clock ≤ w'.clock := by
        rw [← perform_clock hperform]
        exact passes_clock hrest
      have hbefore := hlasts.2 key time (Nat.le_trans hclock htime) hkept
      have hcache : after.cache = before.cache := by
        rcases perform_cache hperform with hsame | ⟨req, entry, order, rfl, -⟩
        · exact hsame
        · exact absurd List.mem_cons_self (hstore req entry order)
      refine ih hrest (fun req entry order hmem => ?_) ?_
      · exact hstore req entry order (List.mem_cons_of_mem _ hmem)
      · rwa [World.KeptUntil, hcache]

/-- After an event that stored or read an entry, the entry is there. -/
theorem perform_kept {c : DnsCache} {req : Request} {event : Event sig} {expires time : Nat}
    (hperform : World.perform event.op w event.reply = some w') (hserves : event.op.Serves c req)
    (hexpiry : entryExpiry event = some expires) (htime : time < expires) :
    w'.KeptUntil req.key time := by
  obtain ⟨op, reply⟩ := event
  cases op with
  | store used entry =>
      obtain rfl : used = req := hserves
      obtain rfl : entry.expires = expires := Option.some.inj hexpiry
      simp only [World.perform, Option.ite_none_right_eq_some, Option.some.injEq] at hperform
      obtain ⟨-, rfl⟩ := hperform
      exact ⟨⟨entry, used⟩, AList.lookup_insert _, htime⟩
  | cacheGet used =>
      obtain rfl : used = req := hserves
      simp only [World.perform, Option.ite_none_right_eq_some, Option.some.injEq] at hperform
      obtain ⟨hhit, rfl⟩ := hperform
      cases reply with
      | none => cases hexpiry
      | some cell =>
          obtain rfl : cell.entry.expires = expires := Option.some.inj hexpiry
          exact ⟨cell, (Option.filter_eq_some_iff.mp hhit.symm).1, htime⟩
  | _ => cases hexpiry

/-- A cached lookup whose key has an unexpired entry looks nothing up. -/
theorem cachedLookup_cached {c : DnsCache} {req : Request} {answer : Answer}
    (hreturns : (cachedLookup c req).Returns trace answer)
    (hpasses : Passes World.perform World.Lasts w trace w')
    (hkept : w.KeptUntil req.key w'.clock) : ⟨.lookupsAdd, ()⟩ ∉ trace := by
  unfold cachedLookup at hreturns
  split at hreturns
  next =>
    obtain ⟨rfl, -⟩ := returns_ret.mp hreturns
    exact List.not_mem_nil
  next =>
    obtain ⟨hit, rest, rfl, hrest⟩ := returns_perform.mp hreturns
    obtain ⟨before, after, hlasts, hperform, hpasses⟩ := hpasses
    have hclock : before.clock ≤ w'.clock := by
      rw [← perform_clock hperform]
      exact passes_clock hpasses
    obtain ⟨cell, hlookup, hfresh⟩ := hlasts.2 req.key w'.clock hclock hkept
    obtain rfl : hit = some cell := by
      simp only [World.perform, Option.ite_none_right_eq_some] at hperform
      rw [hperform.1, World.hit, hlookup]
      simp [Nat.lt_of_le_of_lt hclock hfresh]
    obtain ⟨rfl, -⟩ := returns_ret.mp hrest
    simp

end Lasting

/-! ## One name -/

/-- The name under which the answers for a host are kept; a literal has none. -/
def DnsCache.entryName (c : DnsCache) (host : Text) : Option Text :=
  if (Addr.parse (normalizeHost c.lower host)).isSome then none
  else some (normalizeHost c.lower host)

/-- Deciding and dialing use one name for the host: every key and resolver
argument is that of the normalized name, literals are told apart alike, an
authoritative answer to the rules spares the dial its lookup, and other
spellings of the host lead to the same entry. -/
structure OneName (c : DnsCache) (host : Text) : Prop where
  decided : ∀ e : RuleEngine, e.dns = c →
    Confined (Op.Serves c ⟨.tunnel, normalizeHost c.lower host⟩) (e.decide host)
  tunneled : Confined (Op.Serves c ⟨.tunnel, normalizeHost c.lower host⟩) (resolveTunnel c host)
  direct : Confined (Op.Serves c ⟨.local, normalizeHost c.lower host⟩) (localResolveAll c host)
  literal : (Addr.parse (normalizeHost c.lower (normalizeHost c.lower host))).isSome =
    (Addr.parse (normalizeHost c.lower host)).isSome
  kept : ∀ (e : RuleEngine) before event after decision expires w w', e.dns = c →
    (e.decide host).Returns (before ++ event :: after) decision →
    Passes World.perform World.Lasts w (before ++ event :: after) w' →
    entryExpiry event = some expires → NoStore after → ∀ time, w'.clock ≤ time → time < expires →
      w'.KeptUntil (c.request .tunnel host).key time
  oneLookup : ∀ resolved answer w w', (resolveTunnel c host).Returns resolved answer →
    Passes World.perform World.Lasts w resolved w' →
    w.KeptUntil (c.request .tunnel host).key w'.clock → ⟨.lookupsAdd, ()⟩ ∉ resolved
  spellings : ∀ other, host.SameCase other ∨ host.SameCase (other ++ str ".") →
    c.entryName host = c.entryName other

section OneName

variable {c : DnsCache} {host : Text}

theorem decide_kept {e : RuleEngine} {before after : List (Event sig)} {event : Event sig}
    {decision : Route × Text} {expires : Nat} {w w' : World} {req : Request}
    (hdecided : Confined (Op.Serves c req) (e.decide host))
    (hreturns : (e.decide host).Returns (before ++ event :: after) decision)
    (hpasses : Passes World.perform World.Lasts w (before ++ event :: after) w')
    (hexpiry : entryExpiry event = some expires) (hstore : NoStore after)
    {time : Nat} (hclock : w'.clock ≤ time) (htime : time < expires) :
    w'.KeptUntil req.key time := by
  have hserves : event.op.Serves c req := hdecided.of_mem hreturns (by simp)
  obtain ⟨middle, -, found, left, -, hperform, hrest⟩ := hpasses.split World.Lasts.refl
  exact passes_kept hrest hstore hclock (perform_kept hperform hserves hexpiry htime)

/-- Without two dots at its end a host has one normalized form. -/
theorem decided_of_idem (hidem : normalizeHost c.lower (normalizeHost c.lower host) =
      normalizeHost c.lower host) {e : RuleEngine} (he : e.dns = c) :
    Confined (Op.Serves c ⟨.tunnel, normalizeHost c.lower host⟩) (e.decide host) := by
  subst he
  have hserves := decide_serves e host
  rwa [DnsCache.request, hidem] at hserves

theorem decided_of_literal
    (hliteral : (Addr.parse (normalizeHost c.lower (normalizeHost c.lower host))).isSome = true)
    {e : RuleEngine} (he : e.dns = c) (allowed : Op → Prop) :
    Confined allowed (e.decide host) := by
  subst he
  have hneeds : ¬ e.NeedsLookup host := by
    intro hneeds
    rw [hneeds.2.2.2] at hliteral
    cases hliteral
  obtain ⟨decision, hdecision⟩ := decide_ret hneeds
  rw [hdecision]
  trivial

theorem entryName_sameCase {other : Text} (h : host.SameCase other) :
    c.entryName host = c.entryName other := by
  rw [DnsCache.entryName, DnsCache.entryName, normalizeHost_sameCase h]

theorem entryName_eq_none_iff :
    c.entryName host = none ↔ (Addr.parse (normalizeHost c.lower host)).isSome = true := by
  unfold DnsCache.entryName
  split <;> simp_all

/-- Removing a dot is normalizing once more, if another dot stands before it. -/
theorem normalizeHost_of_dots (htable : Text.LowerTable c.lower) (other : Text) :
    normalizeHost c.lower (normalizeHost c.lower (other ++ [46])) =
      normalizeHost c.lower other := by
  rw [normalizeHost_twice htable, normalizeHost_snoc_dot]
  rfl

/-- A trailing dot leads to another entry exactly if there is one already and
the host is not a literal with both. -/
theorem entryName_dot_iff (htable : Text.LowerTable c.lower) (other : Text) :
    c.entryName (other ++ [46]) = c.entryName other ↔ ([46] <:+ other →
      (Addr.parse (normalizeHost c.lower (other ++ [46]))).isSome = true ∧
      (Addr.parse (normalizeHost c.lower other)).isSome = true) := by
  constructor
  · intro hsame hdot
    obtain ⟨front, rfl⟩ := hdot
    have hlonger : normalizeHost c.lower (front ++ [46] ++ [46]) ≠
        normalizeHost c.lower (front ++ [46]) := by
      rw [normalizeHost_snoc_dot, normalizeHost_snoc_dot, Text.toLower_snoc_dot]
      exact fun h => by simpa using congrArg List.length h
    have hnone : c.entryName (front ++ [46]) = none := by
      by_contra hsome
      rw [DnsCache.entryName, DnsCache.entryName] at hsame
      split at hsame <;> split at hsame <;> simp_all [DnsCache.entryName]
    exact ⟨entryName_eq_none_iff.mp (hsame.trans hnone), entryName_eq_none_iff.mp hnone⟩
  · intro hliterals
    by_cases hdot : [46] <:+ other
    · obtain ⟨hlong, hshort⟩ := hliterals hdot
      rw [entryName_eq_none_iff.mpr hlong, entryName_eq_none_iff.mpr hshort]
    · rw [DnsCache.entryName, DnsCache.entryName, normalizeHost_snoc_dot,
        normalizeHost_of_not_dot htable hdot]

end OneName

/-- Deciding and dialing use one name for every host that does not end with two
dots, and else only for a literal that stays one without either dot. -/
theorem oneName_iff (c : DnsCache) (htable : Text.LowerTable c.lower) (host : Text) :
    OneName c host ↔ (host.endsWith (str "..") = true →
      (Addr.parse (normalizeHost c.lower host)).isSome = true ∧
      (Addr.parse (normalizeHost c.lower (normalizeHost c.lower host))).isSome = true) := by
  have hends : host.endsWith (str "..") = true ↔ [46, 46] <:+ host := List.isSuffixOf_iff_suffix
  rw [hends]
  constructor
  · rintro hone hdots
    obtain ⟨front, rfl⟩ : ∃ front, host = front ++ [46] ++ [46] := by
      obtain ⟨front, rfl⟩ := hdots
      exact ⟨front, by simp⟩
    rw [normalizeHost_of_dots htable]
    have hsame := hone.spellings (front ++ [46]) (.inr rfl)
    exact (entryName_dot_iff htable _).mp hsame (List.suffix_append front [46])
  · intro hliterals
    have hdecided : ∀ e : RuleEngine, e.dns = c →
        Confined (Op.Serves c ⟨.tunnel, normalizeHost c.lower host⟩) (e.decide host) := by
      intro e he
      by_cases hdots : [46, 46] <:+ host
      · exact decided_of_literal (hliterals hdots).2 he _
      · exact decided_of_idem ((normalizeHost_idem_iff htable host).mpr hdots) he
    exact {
      decided := hdecided
      tunneled := cachedLookup_serves c _
      direct := cachedLookup_serves c _
      literal := by
        by_cases hdots : [46, 46] <:+ host
        · rw [(hliterals hdots).1, (hliterals hdots).2]
        · rw [(normalizeHost_idem_iff htable host).mpr hdots]
      kept := by
        intro e before event after decision expires w w' he hreturns hpasses hexpiry hstore time
          hclock htime
        exact decide_kept (hdecided e he) hreturns hpasses hexpiry hstore hclock htime
      oneLookup := fun resolved answer w w' => cachedLookup_cached
      spellings := by
        rintro other (hcase | hcase)
        · exact entryName_sameCase hcase
        · have hnorm : normalizeHost c.lower host = normalizeHost c.lower (other ++ [46]) :=
            normalizeHost_sameCase hcase
          refine (entryName_sameCase hcase).trans ((entryName_dot_iff htable other).mpr ?_)
          -- A dot before the one that is removed makes two of them.
          intro hdot
          have hdots : [46, 46] <:+ host := by
            rw [← normalizeHost_dot_iff htable, hnorm, normalizeHost_dot_iff htable]
            exact (dots_suffix_iff other).mpr hdot
          obtain ⟨hlong, hshort⟩ := hliterals hdots
          rw [hnorm] at hlong hshort
          rw [normalizeHost_of_dots htable] at hshort
          exact ⟨hlong, hshort⟩ }

/-- A name in upper case with a trailing dot. -/
theorem upperCase_oneName : OneName (sampleOpener false).rules.dns (str "EXAMPLE.com.") :=
  (oneName_iff _ Text.lowerTable_id _).mpr fun hdots => absurd hdots (by decide)

/-- With two dots, the rules look up `a` and the dial looks up `a.`. -/
theorem twoDots_two_names :
    ∃ e, newRuleEngine (fun _ => none) (str "ip:8.0.0.0/8") (sampleOpener false).rules.dns = .ok e ∧
      (∃ next, e.decide (str "a..") = .act (.cacheGet ⟨.tunnel, str "a"⟩) next) ∧
      (∃ next, resolveTunnel (sampleOpener false).rules.dns (str "a..") =
        .act (.cacheGet ⟨.tunnel, str "a."⟩) next) ∧
      ¬ OneName (sampleOpener false).rules.dns (str "a..") := by
  refine ⟨_, rfl, ⟨_, rfl⟩, ⟨_, rfl⟩, fun hone => ?_⟩
  have hsame := hone.spellings (str "a.") (.inr rfl)
  exact absurd hsame (by decide +kernel)

end SshGate
