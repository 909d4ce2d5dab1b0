import SshGate.Dns.Caching
import SshGate.Dns.Probes
import SshGate.Dns.Sharing

/-! # How old an answer can be

A cached lookup takes an entry of the cache, joins a flight or leads one. An
entry is served while it is younger than its lifetime, and a flight can be
joined until it ends. So no caller gets an answer that was older than the
lifetime when the caller asked, whoever looked it up.

The age counts from the clock reading that the store uses. That reading comes
after the resolver's answer; how long a flight takes is not bounded here.
-/

namespace SshGate

open Go Interaction Program System

/-- How long an answer is kept. -/
def DnsCache.lifetime (c : DnsCache) (answer : Answer) : Nat :=
  if answer.err = none then c.ttl else c.negativeTTL

theorem entryOf_expires {c : DnsCache} {looked : Answer} {now : Nat} {entry : CacheEntry}
    (hentry : c.entryOf looked now = some entry) (host : Text) :
    entry.expires = now + c.lifetime (entry.answer host) := by
  unfold DnsCache.entryOf at hentry
  split at hentry
  next =>
    rw [Option.ite_none_right_eq_some, Option.some.injEq] at hentry
    obtain ⟨_, rfl⟩ := hentry
    simp [DnsCache.lifetime, CacheEntry.answer]
  next =>
    rw [Option.ite_none_right_eq_some, Option.some.injEq] at hentry
    obtain ⟨_, rfl⟩ := hentry
    simp [DnsCache.lifetime, CacheEntry.answer]

section Clock

variable {o : Opener} {c c' : Config (gate o)}

theorem run_clock {schedule : List (Action (gate o))}
    (hrun : (gate o).run c schedule = some c') : c.state.clock ≤ c'.state.clock := by
  refine run_invariant (fun reached : Config (gate o) => c.state.clock ≤ reached.state.clock)
    ?_ le_rfl hrun
  intro reached action next hle hstep
  exact hle.trans (step_clock hstep)

theorem run_readingsPast {schedule : List (Action (gate o))}
    (hrun : (gate o).run ⟨{}, []⟩ schedule = some c) : ReadingsPast c :=
  run_invariant ReadingsPast (fun _ _ _ hc hstep => step_readingsPast hc hstep)
    (by simp [ReadingsPast, Performed]) hrun

end Clock

section Fresh

variable {o : Opener}

/-- The cached lookup of `req` with the events `seg`, begun after `early`, owes
its answer to a lookup with the same key: one that it ran itself, one whose
flight had not ended at `early`, or one whose answer was stored less than its
lifetime before `early`. -/
inductive FreshSince (early c : Config (gate o)) (req : Request) (seg : List (Event sig))
    (answer : Answer) : Prop
  | led {id start : Nat} {trace rest : List (Event sig)} {looked : Answer}
      (hseg : seg = leadEvents req id ++ (takeOffEvents start ++ trace) ++ rest)
      (hlooked : (req.policy.lookup o.rules.dns (start + lookupTimeout) req.host).Returns
        trace looked)
      (hdelivered : Delivered answer looked)
  | shared {j id start : Nat} {origin : Request} {before trace after : List (Event sig)}
      {looked : Answer} (hseg : seg = [⟨.cacheGet req, none⟩, ⟨.sfDo req, .join id⟩,
        ⟨.sfWait req id, ⟨answer, origin⟩⟩])
      (hkey : origin.key = req.key)
      (hlanded : traceOf c j =
        before ++ (leadEvents origin id ++ (takeOffEvents start ++ trace)) ++ after)
      (hlooked : (origin.policy.lookup o.rules.dns (start + lookupTimeout) origin.host).Returns
        trace looked)
      (hdelivered : Delivered answer looked)
      (hopen : ∀ k req' answer', ¬ Performed early k ⟨.sfEnd req' id answer', ()⟩)
  | hit {j now ctx : Nat} {origin : Request} {entry : CacheEntry} {order : List Text}
      {before trace after : List (Event sig)} {looked : Answer}
      (hseg : seg = [⟨.cacheGet req, some ⟨entry, origin⟩⟩]) (hkey : origin.key = req.key)
      (hstored : traceOf c j =
        before ++ trace ++ ([⟨.now, now⟩, ⟨.store origin entry, order⟩] ++ after))
      (hlooked : (origin.policy.lookup o.rules.dns ctx origin.host).Returns trace looked)
      (hdelivered : Delivered answer looked) (hpast : now ≤ c.state.clock)
      (hyoung : early.state.clock < now + o.rules.dns.lifetime answer)

/-- A served entry was stored less than its lifetime before it was asked for. -/
theorem freshSince_hit {early c : Config (gate o)} (hc : Traced c) (hpast : ReadingsPast c)
    {second : List (Action (gate o))} (hrun : (gate o).run early second = some c) {i : Nat}
    {req : Request} {cell : Cell} {after : List (Event sig)}
    (htrace : traceOf c i = traceOf early i ++ ([] ++ ⟨.cacheGet req, some cell⟩ :: after)) :
    FreshSince early c req [⟨.cacheGet req, some cell⟩] (cell.entry.answer req.host) := by
  obtain ⟨first, _, reached, next, _, hfirst, hstep, _⟩ := run_event hrun htrace
  have hexpires := (World.hit_lookup (step_cacheGet hstep).1.symm).2
  have hclock := run_clock hfirst
  have hperformed : Performed c i ⟨.cacheGet req, some cell⟩ := by
    rw [performed_iff, htrace]
    simp
  obtain ⟨hkey, other, hother, before, trace, now, order, rest, ctx, looked, hhistory, hlooked,
    hentry⟩ := hc.answers.hits i req cell hperformed
  obtain ⟨j, hj⟩ := List.mem_iff_getElem?.mp hother
  have hread : now ≤ c.state.clock := hpast j ⟨.now, now⟩ now ⟨other, hj, by simp [hhistory]⟩ rfl
  rw [entryOf_expires hentry req.host] at hexpires
  exact .hit rfl hkey ((traceOf_eq hj).trans hhistory) hlooked (delivered_entryOf hentry _) hread
    (by omega)

/-- A joined flight had not ended when its result was asked for. -/
theorem freshSince_shared {early c : Config (gate o)} (hc : Traced c)
    {first second : List (Action (gate o))} (hearly : (gate o).run ⟨{}, []⟩ first = some early)
    (hrun : (gate o).run early second = some c) {i id : Nat} {req : Request} {shared : Shared}
    {after : List (Event sig)}
    (htrace : traceOf c i = traceOf early i ++ ([⟨.cacheGet req, none⟩] ++
      ⟨.sfDo req, .join id⟩ :: ⟨.sfWait req id, shared⟩ :: after)) :
    FreshSince early c req [⟨.cacheGet req, none⟩, ⟨.sfDo req, .join id⟩,
      ⟨.sfWait req id, shared⟩] shared.answer := by
  have hperformed : Performed c i ⟨.sfWait req id, shared⟩ := by
    rw [performed_iff, htrace]
    simp
  obtain ⟨hkey, other, hother, before, flight, rest, hhistory, start, trace, tail, looked, rfl,
    hlooked, hresult, _⟩ := hc.answers.shared i req id shared hperformed
  obtain ⟨j, hj⟩ := List.mem_iff_getElem?.mp hother
  have hlanded : traceOf c j =
      before ++ (leadEvents shared.origin id ++ (takeOffEvents start ++ trace)) ++
        (tail ++ rest) := by
    rw [traceOf_eq hj, hhistory]
    simp only [List.append_assoc]
  refine .shared rfl hkey hlanded hlooked (hresult ▸ delivered_outcomeOf _ _) ?_
  -- a flight that had ended by then could not have been joined later
  intro k req' answer' hended
  obtain ⟨middle, _, reached, next, _, hmiddle, hstep, _⟩ := run_event hrun htrace
  have hreached : (gate o).run ⟨{}, []⟩ (first ++ middle) = some reached := by
    rw [run_append, hearly, Option.bind_some, hmiddle]
  have hstill : Performed reached k ⟨.sfEnd req' id answer', ()⟩ := by
    rw [performed_iff, run_traceOf hmiddle, List.mem_append]
    exact .inl (performed_iff.mp hended)
  exact run_endedLanded hreached k req' id answer' hstill _ (step_join hstep).1

/-- Whatever other calls do, and however the clock and the tunnel move, the
answer of a cached lookup is never older than its lifetime when the lookup
begins. -/
theorem answer_fresh {first second : List (Action (gate o))} {early c : Config (gate o)}
    (hearly : (gate o).run ⟨{}, []⟩ first = some early)
    (hrun : (gate o).run early second = some c) {i : Nat} {seg after : List (Event sig)}
    (htrace : traceOf c i = traceOf early i ++ seg ++ after) {req : Request} {answer : Answer}
    (hreturns : (cachedLookup o.rules.dns req).Returns seg answer)
    (hliteral : Addr.parse req.host = none) : FreshSince early c req seg answer := by
  have hall : (gate o).run ⟨{}, []⟩ (first ++ second) = some c := by
    rw [run_append, hearly, Option.bind_some, hrun]
  have hc := run_traced hall
  rw [List.append_assoc] at htrace
  cases Resolved.of_returns hreturns with
  | literal hparse _ =>
      rw [hliteral] at hparse
      cases hparse
  | hit _ hseg =>
      subst hseg
      exact freshSince_hit hc (run_readingsPast hall) hrun htrace
  | shared _ hseg =>
      subst hseg
      exact freshSince_shared hc hearly hrun htrace
  | @led id flight _ _ hseg hflown =>
      obtain ⟨start, trace, tail, looked, rfl, hlooked, rfl, _⟩ := hflown
      have hsplit : seg = leadEvents req id ++ (takeOffEvents start ++ trace) ++
          (tail ++ [⟨.sfEnd req id (outcomeOf req.host looked), ()⟩]) := by
        rw [hseg]
        simp only [List.append_assoc]
      exact .led hsplit hlooked (delivered_outcomeOf _ _)

/-- A call looks a name up and stores its address; 20 s later another call asks
for the name. -/
def storedEarly : List (Action (gate (sampleOpener false))) :=
  [.disturb (.tunnel true), .spawn (.resolveTunnel (str "x")),
    .run 0 ⟨.cacheGet soughtName, none⟩] ++
    (soughtFlight 0 []).map (fun event => .run 0 event) ++
    [.disturb (.tick (20 * second)), .spawn (.resolveTunnel (str "x"))]

def storedCell : Cell := ⟨{ addrs := [.v4 0x5db8d822], expires := dnsCacheTTL }, soughtName⟩

theorem storedEarly_hits : (((gate (sampleOpener false)).run ⟨{}, []⟩ storedEarly).bind fun c =>
    (gate (sampleOpener false)).run c
      [.run 1 ⟨.cacheGet soughtName, some storedCell⟩]).isSome = true := by
  decide +kernel

/-- The entry is served, and it was stored less than 30 s before. -/
theorem storedEarly_fresh :
    ∃ early c : Config (gate (sampleOpener false)),
      (gate (sampleOpener false)).run ⟨{}, []⟩ storedEarly = some early ∧
      early.state.clock = 20 * second ∧
      FreshSince early c soughtName [⟨.cacheGet soughtName, some storedCell⟩] soughtAnswer := by
  obtain ⟨c, hboth⟩ := Option.isSome_iff_exists.mp storedEarly_hits
  obtain ⟨early, hearly, hrun⟩ := Option.bind_eq_some_iff.mp hboth
  have hclock : ((gate (sampleOpener false)).run ⟨{}, []⟩ storedEarly).map
      (fun c : Config (gate (sampleOpener false)) => c.state.clock) = some (20 * second) := by
    decide +kernel
  rw [hearly, Option.map_some, Option.some.injEq] at hclock
  have htrace : traceOf c 1 =
      traceOf early 1 ++ [⟨.cacheGet soughtName, some storedCell⟩] ++ [] := by
    rw [run_traceOf hrun, List.append_nil]
    rfl
  exact ⟨early, c, hearly, hclock,
    answer_fresh hearly hrun htrace (Reaches.act (Reaches.refl _)) (by decide +kernel)⟩

end Fresh

end SshGate
