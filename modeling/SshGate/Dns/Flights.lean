import SshGate.Dns.Paths

/-! # What the events of a cached lookup say

`ResolveStep` and `Resolved` do for `cachedLookup` what `LookupStep` and
`LookedUp` do for a lookup: they tell what precedes each action, above all
each store and each published result, and where an answer came from.
-/

namespace SshGate

open Go Interaction Program

/-- The entry that an executed lookup with this answer leaves in the cache. -/
def DnsCache.entryOf (c : DnsCache) (answer : Answer) (now : Nat) : Option CacheEntry :=
  match answer.err with
  | some err =>
      if answer.res.authoritative && err.isNotFound then
        some { expires := now + c.negativeTTL, neg := true }
      else none
  | none =>
      if answer.res.addrs ≠ [] ∧ answer.res.authoritative then
        some { addrs := answer.res.addrs, expires := now + c.ttl,
               localDirect := answer.res.localDirect }
      else none

/-- What the callers of an executed lookup get. -/
def outcomeOf (host : Text) (answer : Answer) : Answer :=
  match answer.err with
  | some err => ⟨{}, some (.dns host err)⟩
  | none => if answer.res.addrs = [] then ⟨{}, some (.noAddress host)⟩ else answer

/-- The first events of a flight that starts at `start`. -/
abbrev takeOffEvents (start : Nat) : List (Event sig) := [⟨.now, start⟩, ⟨.lookupsAdd, ()⟩]

/-- The first events of a cached lookup that leads flight `id`. -/
abbrev leadEvents (req : Request) (id : Nat) : List (Event sig) :=
  [⟨.cacheGet req, none⟩, ⟨.sfDo req, .lead id⟩]

/-- What precedes each action of a flight, from its first event on. -/
inductive FlightStep (c : DnsCache) (req : Request) (trace : List (Event sig)) : Op → Prop
  | now : FlightStep c req trace .now
  | lookupsAdd : FlightStep c req trace .lookupsAdd
  | lookup {start : Nat} {seg : List (Event sig)} {op : Op} (hpolicy : req.policy = .tunnel)
      (htrace : trace = takeOffEvents start ++ seg) (hop : LookupStep c req.host seg op)
      (hpath : ∃ next, (lookup c (start + lookupTimeout) req.host).Reaches seg (.act op next)) :
      FlightStep c req trace op
  | localLookup (hpolicy : req.policy = .local) : FlightStep c req trace (.localLookup req.host)
  | store {start now : Nat} {seg : List (Event sig)} {answer : Answer} {entry : CacheEntry}
      (htrace : trace = takeOffEvents start ++ seg ++ [⟨.now, now⟩])
      (hanswer : (req.policy.lookup c (start + lookupTimeout) req.host).Returns seg answer)
      (hentry : c.entryOf answer now = some entry) :
      FlightStep c req trace (.store req entry)

/-- What a flight does with the answer of its lookup: it stores the entry, if
there is one to store. -/
inductive Settled (c : DnsCache) (req : Request) (answer : Answer) : List (Event sig) → Prop
  | dropped (hnone : ∀ now, c.entryOf answer now = none) : Settled c req answer []
  | stored {now : Nat} {entry : CacheEntry} {order : List Text}
      (hentry : c.entryOf answer now = some entry) :
      Settled c req answer [⟨.now, now⟩, ⟨.store req entry, order⟩]

/-- A complete flight: the lookup it ran, what that left to do, and its result. -/
def Flown (c : DnsCache) (req : Request) (trace : List (Event sig)) (result : Answer) : Prop :=
  ∃ start seg tail answer, trace = takeOffEvents start ++ seg ++ tail ∧
    (req.policy.lookup c (start + lookupTimeout) req.host).Returns seg answer ∧
    result = outcomeOf req.host answer ∧ Settled c req answer tail

/-- What precedes each action of `cachedLookup`, from its first event on. -/
inductive ResolveStep (c : DnsCache) (req : Request) (trace : List (Event sig)) : Op → Prop
  | cacheGet (htrace : trace = []) : ResolveStep c req trace (.cacheGet req)
  | sfDo (htrace : trace = [⟨.cacheGet req, none⟩]) : ResolveStep c req trace (.sfDo req)
  | sfWait {id : Nat} (htrace : trace = [⟨.cacheGet req, none⟩, ⟨.sfDo req, .join id⟩]) :
      ResolveStep c req trace (.sfWait req id)
  | flight {id : Nat} {flight : List (Event sig)} {op : Op}
      (htrace : trace = leadEvents req id ++ flight)
      (hop : FlightStep c req flight op) : ResolveStep c req trace op
  | sfEnd {id : Nat} {flight : List (Event sig)} {answer : Answer}
      (htrace : trace = leadEvents req id ++ flight)
      (hflown : Flown c req flight answer) : ResolveStep c req trace (.sfEnd req id answer)

/-- Where the answer of `cachedLookup` came from. -/
inductive Resolved (c : DnsCache) (req : Request) (trace : List (Event sig)) : Answer → Prop
  | literal {ip : Addr} (hparse : Addr.parse req.host = some ip) (htrace : trace = []) :
      Resolved c req trace ⟨{ addrs := [ip.unmap] }, none⟩
  | hit {cell : Cell} (hparse : Addr.parse req.host = none)
      (htrace : trace = [⟨.cacheGet req, some cell⟩]) :
      Resolved c req trace (cell.entry.answer req.host)
  | shared {id : Nat} {shared : Shared} (hparse : Addr.parse req.host = none)
      (htrace : trace = [⟨.cacheGet req, none⟩, ⟨.sfDo req, .join id⟩, ⟨.sfWait req id, shared⟩]) :
      Resolved c req trace shared.answer
  | led {id : Nat} {flight : List (Event sig)} {answer : Answer}
      (hparse : Addr.parse req.host = none)
      (htrace : trace = leadEvents req id ++ flight ++
        [⟨.sfEnd req id answer, ()⟩])
      (hflown : Flown c req flight answer) : Resolved c req trace answer

section Flight

variable (c : DnsCache) (req : Request)

theorem policyLookup_always (start : Nat) :
    Always (FlightStep c req)
      (fun history answer => ∃ seg, history = takeOffEvents start ++ seg ∧
        (req.policy.lookup c (start + lookupTimeout) req.host).Returns seg answer)
      (takeOffEvents start)
      (req.policy.lookup c (start + lookupTimeout) req.host) := by
  cases hpolicy : req.policy with
  | tunnel =>
      have hlookup := (lookup_always c req.host (start + lookupTimeout)).shift
        (takeOffEvents start)
      rw [List.append_nil] at hlookup
      have hguarded : Always (FlightStep c req) (fun _ _ => True) (takeOffEvents start)
          (lookup c (start + lookupTimeout) req.host) := by
        refine hlookup.imp ?_ fun _ _ _ _ => trivial
        rintro trace op next hpath ⟨seg, hseg, hop⟩
        obtain rfl := List.append_cancel_left hseg
        exact .lookup hpolicy rfl hop ⟨next, hpath⟩
      exact hguarded.path
  | «local» =>
      have hlocal : Always (FlightStep c req) (fun _ _ => True) (takeOffEvents start)
          (localLookup req.host) := by
        refine Always.perform (.localLookup hpolicy) fun reply => ?_
        cases reply with
        | error err => trivial
        | ok addrs => trivial
      exact hlocal.path

theorem settle_always {start : Nat} {seg : List (Event sig)} {answer : Answer}
    (hanswer : (req.policy.lookup c (start + lookupTimeout) req.host).Returns seg answer) :
    Always (FlightStep c req) (Flown c req) (takeOffEvents start ++ seg)
      (settle c req answer) := by
  have hdropped : ∀ result, result = outcomeOf req.host answer →
      (∀ now, c.entryOf answer now = none) →
      Flown c req (takeOffEvents start ++ seg) result := fun result hresult hnone =>
    ⟨start, seg, [], answer, by simp, hanswer, hresult, .dropped hnone⟩
  have hstored : ∀ (entry : Nat → CacheEntry) (result : Answer),
      result = outcomeOf req.host answer → (∀ now, c.entryOf answer now = some (entry now)) →
      Always (FlightStep c req) (Flown c req) (takeOffEvents start ++ seg)
        (act .now >>= fun now => act (.store req (entry now)) >>= fun _ => pure result) := by
    intro entry result hresult hentry
    refine Always.perform .now fun now => Always.perform (.store rfl hanswer (hentry now)) ?_
    intro order
    exact ⟨start, seg, [⟨.now, now⟩, ⟨.store req (entry now), order⟩], answer, by simp, hanswer,
      hresult, .stored (hentry now)⟩
  unfold settle
  split
  next err herr =>
    have hresult : (⟨{}, some (.dns req.host err)⟩ : Answer) = outcomeOf req.host answer := by
      simp [outcomeOf, herr]
    split
    next hstore => exact hstored _ _ hresult fun now => by simp [DnsCache.entryOf, herr, hstore]
    next hstore => exact hdropped _ hresult fun now => by simp [DnsCache.entryOf, herr, hstore]
  next herr =>
    split
    next hempty =>
      exact hdropped _ (by simp [outcomeOf, herr, hempty]) fun now => by
        simp [DnsCache.entryOf, herr, hempty]
    next hsome =>
      have hresult : answer = outcomeOf req.host answer := by simp [outcomeOf, herr, hsome]
      split
      next hstore =>
        exact hstored _ _ hresult fun now => by simp [DnsCache.entryOf, herr, hstore, hsome]
      next hstore => exact hdropped _ hresult fun now => by simp [DnsCache.entryOf, herr, hstore]

theorem fly_always : Always (FlightStep c req) (Flown c req) [] (fly c req) := by
  refine Always.perform .now fun start => Always.perform .lookupsAdd fun _ => ?_
  apply (policyLookup_always c req start).bind
  rintro _ answer ⟨seg, rfl, hanswer⟩
  exact settle_always c req hanswer

/-- Every action and every answer of a cached lookup. -/
theorem cachedLookup_always :
    Always (ResolveStep c req) (Resolved c req) [] (cachedLookup c req) := by
  unfold cachedLookup
  split
  next ip hparse => exact .literal hparse rfl
  next hparse =>
    refine Always.perform (.cacheGet rfl) fun hit => ?_
    cases hit with
    | some cell => exact .hit hparse rfl
    | none =>
        refine Always.perform (.sfDo rfl) fun flight => ?_
        cases flight with
        | join id => exact Always.perform (.sfWait rfl) fun shared => .shared hparse rfl
        | lead id =>
            have hfly := (fly_always c req).shift (leadEvents req id)
            refine Always.bind (hfly.guard_imp ?_) ?_
            · rintro history op ⟨flight, hflight, hop⟩
              exact .flight hflight hop
            · rintro _ answer ⟨flight, rfl, hflown⟩
              exact Always.perform (.sfEnd rfl hflown) fun _ => .led hparse rfl hflown

end Flight

theorem Resolved.of_returns {c : DnsCache} {req : Request} {trace : List (Event sig)}
    {answer : Answer} (hpath : (cachedLookup c req).Returns trace answer) :
    Resolved c req trace answer :=
  (cachedLookup_always c req).of_returns hpath

/-- A literal is its own answer. -/
theorem cachedLookup_literal {c : DnsCache} {req : Request}
    (hparse : (Addr.parse req.host).isSome = true) :
    ∃ answer, cachedLookup c req = .ret answer := by
  obtain ⟨ip, hip⟩ := Option.isSome_iff_exists.mp hparse
  exact ⟨⟨{ addrs := [ip.unmap] }, none⟩, by simp [cachedLookup, hip]⟩

/-- What precedes an action of a program that resolves `allowed` requests. -/
def CallStep (c : DnsCache) (allowed : Request → Prop) (history : List (Event sig)) (op : Op) :
    Prop :=
  op.isDial = true ∨ ∃ req, allowed req ∧ Addr.parse req.host = none ∧
    ∃ before trace, history = before ++ trace ∧ ResolveStep c req trace op

theorem CallsFor.always {c : DnsCache} {allowed : Request → Prop} {α : Type} {p : Prog α}
    (hp : CallsFor c allowed (fun op => op.isDial = false) p) (history : List (Event sig)) :
    Always (CallStep c allowed) (fun _ _ => True) history p := by
  refine Calls.always hp (fun _ => True) ?_ ?_ trivial
  · intro req history _
    have hresolve := (cachedLookup_always c req).shift history
    rw [List.append_nil] at hresolve
    refine hresolve.imp ?_ fun _ _ _ _ => trivial
    rintro trace op next hpath ⟨seg, hseg, hop⟩
    refine .inr ⟨req, req.2, ?_, history, seg, hseg, hop⟩
    by_contra hparse
    obtain ⟨answer, hanswer⟩ := cachedLookup_literal (c := c) (Option.isSome_iff_ne_none.mpr hparse)
    rw [hanswer] at hpath
    cases hpath
  · intro op history hop _
    exact ⟨.inl (by simpa using hop), fun _ => trivial⟩

/-- Every action of every call is a dial or a step of a cached lookup of one of
its requests. -/
theorem program_always (o : Opener) (call : Call) :
    Always (CallStep o.rules.dns (· ∈ call.requests o.rules.dns)) (fun _ _ => True) []
      (call.program o) :=
  (program_calls o call).always []

end SshGate
