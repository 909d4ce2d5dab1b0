import SshGate.Dns.Flights
import SshGate.Steps

/-! # Where cached and shared answers come from

In every run, each cache entry was stored by a flight of the request it names
and each shared result was returned by a flight of the request it names, and
both requests have the key under which the answer is found. The events that
produced the answer stay in the trace of the thread that ran the flight.
-/

namespace SshGate

open Go Interaction Program System

/-! ## Maps -/

theorem Cache.lookup_evict {cache : Cache} {order : List Text} {key : Text} {cell : Cell}
    (h : (cache.evict order).lookup key = some cell) : cache.lookup key = some cell := by
  unfold Cache.evict at h
  split at h
  next =>
    split at h
    next =>
      by_cases hkey : key = (cache.oldest order).1
      · rw [hkey, AList.lookup_erase] at h
        cases h
      · rwa [AList.lookup_erase_ne hkey] at h
    next => exact h
  next => exact h

theorem Cache.lookup_store {cache : Cache} {order : List Text} {key key' : Text}
    {cell cell' : Cell} (h : (cache.store key cell order).lookup key' = some cell') :
    key' = key ∧ cell' = cell ∨ cache.lookup key' = some cell' := by
  unfold Cache.store at h
  by_cases hkey : key' = key
  · subst hkey
    rw [AList.lookup_insert] at h
    exact .inl ⟨rfl, (Option.some.inj h).symm⟩
  · rw [AList.lookup_insert_ne hkey] at h
    exact .inr (Cache.lookup_evict h)

theorem Cache.lookup_purge {cache : Cache} {now : Nat} {key : Text} {cell : Cell}
    (h : (cache.purge now).lookup key = some cell) : cache.lookup key = some cell := by
  have herase : ∀ (keys : List Text) (cache : Cache),
      (keys.foldl (fun kept key => kept.erase key) cache).lookup key = some cell →
      cache.lookup key = some cell := by
    intro keys
    induction keys with
    | nil => exact fun _ h => h
    | cons head rest ih =>
        intro cache h
        have hrest := ih _ h
        by_cases hkey : key = head
        · rw [hkey, AList.lookup_erase] at hrest
          cases hrest
        · rwa [AList.lookup_erase_ne hkey] at hrest
  exact herase _ _ h

/-! ## Stored entries and flown results -/

/-- The trace holds a lookup of `req` whose answer was stored as `entry`. -/
def Stored (c : DnsCache) (req : Request) (entry : CacheEntry) (trace : List (Event sig)) : Prop :=
  ∃ before seg now order after ctx answer,
    trace = before ++ seg ++ ([⟨.now, now⟩, ⟨.store req entry, order⟩] ++ after) ∧
    (req.policy.lookup c ctx req.host).Returns seg answer ∧ c.entryOf answer now = some entry

/-- The trace leads flight `id` for `req` and completes it with this result. -/
def Landed (c : DnsCache) (req : Request) (id : Nat) (result : Answer)
    (trace : List (Event sig)) : Prop :=
  ∃ before flight after, trace = before ++ (leadEvents req id ++ flight) ++ after ∧
    Flown c req flight result

theorem Stored.append {c : DnsCache} {req : Request} {entry : CacheEntry}
    (trace more : List (Event sig)) (h : Stored c req entry trace) :
    Stored c req entry (trace ++ more) := by
  obtain ⟨before, seg, now, order, after, ctx, answer, rfl, hanswer, hentry⟩ := h
  exact ⟨before, seg, now, order, after ++ more, ctx, answer, by simp, hanswer, hentry⟩

theorem Landed.append {c : DnsCache} {req : Request} {id : Nat} {result : Answer}
    (trace more : List (Event sig)) (h : Landed c req id result trace) :
    Landed c req id result (trace ++ more) := by
  obtain ⟨before, flight, after, rfl, hflown⟩ := h
  exact ⟨before, flight, after ++ more, by simp, hflown⟩

section CallStep

variable {c : DnsCache} {allowed : Request → Prop} {history : List (Event sig)} {req : Request}

theorem LookupStep.inLookup {host : Text} {op : Op} (h : LookupStep c host history op) :
    op.inLookup = true := by
  cases h with
  | attempt hop => cases op <;> simp_all [Op.inAttempt, Op.inLookup, Op.inFlight]
  | _ => rfl

/-- A store follows the lookup whose answer it keeps. -/
theorem CallStep.store {entry : CacheEntry} (h : CallStep c allowed history (.store req entry)) :
    ∃ before id start seg now answer,
      history = before ++ leadEvents req id ++ takeOffEvents start ++ seg ++ [⟨.now, now⟩] ∧
      (req.policy.lookup c (start + lookupTimeout) req.host).Returns seg answer ∧
      c.entryOf answer now = some entry := by
  rcases h with hdial | ⟨req', _, _, before, trace, rfl, hstep⟩
  · cases hdial
  cases hstep with
  | @flight id _ _ htrace hop =>
      cases hop with
      | lookup _ _ hlookup _ => cases hlookup.inLookup
      | @store start _ _ _ _ hflight hanswer hentry =>
          subst hflight htrace
          refine ⟨before, id, start, _, _, _, ?_, hanswer, hentry⟩
          simp only [List.append_assoc]

/-- A flight is ended by the thread that led it, with its result. -/
theorem CallStep.sfEnd {id : Nat} {answer : Answer}
    (h : CallStep c allowed history (.sfEnd req id answer)) :
    (⟨.sfDo req, .lead id⟩ : Event sig) ∈ history ∧ Landed c req id answer history := by
  rcases h with hdial | ⟨req', _, _, before, trace, rfl, hstep⟩
  · cases hdial
  cases hstep with
  | flight htrace hop =>
      cases hop with
      | lookup _ _ hlookup _ => cases hlookup.inLookup
  | sfEnd htrace hflown =>
      subst htrace
      exact ⟨by simp, before, _, [], by rw [List.append_nil], hflown⟩

theorem CallStep.sfWait {id : Nat} (h : CallStep c allowed history (.sfWait req id)) :
    (⟨.sfDo req, .join id⟩ : Event sig) ∈ history := by
  rcases h with hdial | ⟨req', _, _, before, trace, rfl, hstep⟩
  · cases hdial
  cases hstep with
  | flight htrace hop =>
      cases hop with
      | lookup _ _ hlookup _ => cases hlookup.inLookup
  | sfWait htrace =>
      subst htrace
      simp

end CallStep

/-! ## Invariants of all runs -/

section Invariants

variable {o : Opener}

/-- Every entry was stored under its own key by a lookup it can be traced to. -/
def CellsTraced (c : Config (gate o)) : Prop :=
  ∀ key cell, c.state.cache.lookup key = some cell →
    cell.origin.key = key ∧ Seen c (Stored o.rules.dns cell.origin cell.entry)

theorem step_cellsTraced {c c' : Config (gate o)} {action : Action (gate o)} (hc : Faithful c)
    (hcells : CellsTraced c) (hstep : (gate o).step c action = some c') : CellsTraced c' := by
  have hkeep : ∀ key cell, c.state.cache.lookup key = some cell →
      cell.origin.key = key ∧ Seen c' (Stored o.rules.dns cell.origin cell.entry) := by
    intro key cell hcell
    obtain ⟨hkey, hseen⟩ := hcells key cell hcell
    exact ⟨hkey, hseen.of_step Stored.append hstep⟩
  intro key cell hcell
  rcases step_cache hstep with hsame | ⟨i, req, entry, order, rfl, _, hstore⟩ | ⟨_, hpurge⟩
  · exact hkeep key cell (hsame ▸ hcell)
  · rw [hstore] at hcell
    rcases Cache.lookup_store hcell with ⟨rfl, rfl⟩ | hold
    · obtain ⟨thread, thread', _, hthread', htrace, hguard⟩ :=
        guarded_of_step (program_always o) hc hstep
      obtain ⟨before, id, start, seg, now, answer, hhistory, hanswer, hentry⟩ := hguard.store
      refine ⟨rfl, thread', List.mem_of_getElem? hthread', ?_⟩
      refine ⟨before ++ leadEvents req id ++ takeOffEvents start, seg, now, order, [], _, answer,
        ?_, hanswer, hentry⟩
      rw [htrace, hhistory]
      simp
    · exact hkeep key cell hold
  · rw [hpurge] at hcell
    exact hkeep key cell (Cache.lookup_purge hcell)

/-- Flights belong to the key they fly for, and a landed one left its result
in the trace of its leader. -/
structure FlightsTraced (c : Config (gate o)) : Prop where
  inflight : ∀ key id, c.state.inflight.lookup key = some id →
    ∃ flight, c.state.flights id = some flight ∧ flight.leader.key = key
  fresh : ∀ id, c.state.nextFlight ≤ id → c.state.flights id = none
  led : ∀ i req id, Performed c i ⟨.sfDo req, .lead id⟩ →
    ∃ result, c.state.flights id = some ⟨req, result⟩
  joined : ∀ i req id, Performed c i ⟨.sfDo req, .join id⟩ →
    ∃ flight, c.state.flights id = some flight ∧ flight.leader.key = req.key
  landed : ∀ id leader answer, c.state.flights id = some ⟨leader, some answer⟩ →
    Seen c (Landed o.rules.dns leader id answer)

/-- A flight keeps its leader until it has landed and after. -/
theorem FlightsTraced.leader_step {c c' : Config (gate o)} {action : Action (gate o)}
    (hinv : FlightsTraced c) (hc : Faithful c) (hstep : (gate o).step c action = some c')
    {id : Nat} {flight : FlightState} (hflight : c.state.flights id = some flight) :
    ∃ flight', c'.state.flights id = some flight' ∧ flight'.leader = flight.leader := by
  rcases step_flights hstep with ⟨hsame, _⟩ | ⟨i, req, _, _, hstate⟩ |
    ⟨i, req, ended, answer, rfl, hstate⟩
  · exact ⟨flight, by rw [hsame, hflight], rfl⟩
  · have hne : id ≠ c.state.nextFlight := by
      rintro rfl
      rw [hinv.fresh _ le_rfl] at hflight
      cases hflight
    refine ⟨flight, ?_, rfl⟩
    rw [hstate, World.takeOff_flights, Function.update_of_ne hne, hflight]
  · rw [hstate, World.land_flights]
    by_cases hid : id = ended
    · subst hid
      obtain ⟨thread, _, hthread, _, _, hguard⟩ := guarded_of_step (program_always o) hc hstep
      obtain ⟨result, hled⟩ := hinv.led i req id ⟨thread, hthread, hguard.sfEnd.1⟩
      rw [hled] at hflight
      rw [Function.update_self]
      exact ⟨_, rfl, by rw [← Option.some.inj hflight]⟩
    · rw [Function.update_of_ne hid]
      exact ⟨flight, hflight, rfl⟩

theorem step_flightsTraced {c c' : Config (gate o)} {action : Action (gate o)} (hc : Faithful c)
    (hinv : FlightsTraced c) (hstep : (gate o).step c action = some c') : FlightsTraced c' where
  inflight := by
    have hkeep : ∀ key id, c.state.inflight.lookup key = some id →
        ∃ flight, c'.state.flights id = some flight ∧ flight.leader.key = key := by
      intro key id hid
      obtain ⟨flight, hflight, hkey⟩ := hinv.inflight key id hid
      obtain ⟨flight', hflight', hleader⟩ := hinv.leader_step hc hstep hflight
      exact ⟨flight', hflight', by rw [hleader, hkey]⟩
    intro key id hid
    rcases step_flights hstep with ⟨_, hsame, _⟩ | ⟨i, req, _, _, hstate⟩ |
      ⟨i, req, ended, answer, _, hstate⟩
    · exact hkeep key id (hsame ▸ hid)
    · rw [hstate, World.takeOff_inflight] at hid
      by_cases hkey : key = req.key
      · subst hkey
        rw [AList.lookup_insert] at hid
        obtain rfl := Option.some.inj hid
        exact ⟨⟨req, none⟩, by rw [hstate, World.takeOff_flights, Function.update_self], rfl⟩
      · rw [AList.lookup_insert_ne hkey] at hid
        exact hkeep key id hid
    · rw [hstate, World.land_inflight] at hid
      by_cases hkey : key = req.key
      · subst hkey
        rw [AList.lookup_erase] at hid
        cases hid
      · rw [AList.lookup_erase_ne hkey] at hid
        exact hkeep key id hid
  fresh := by
    intro id hid
    rcases step_flights hstep with ⟨hflights, _, hnext⟩ | ⟨i, req, _, _, hstate⟩ |
      ⟨i, req, ended, answer, rfl, hstate⟩
    · rw [hflights]
      exact hinv.fresh id (hnext ▸ hid)
    · rw [hstate, World.takeOff_nextFlight] at hid
      rw [hstate, World.takeOff_flights, Function.update_of_ne (by omega)]
      exact hinv.fresh id (by omega)
    · rw [hstate, World.land_nextFlight] at hid
      obtain ⟨thread, _, hthread, _, _, hguard⟩ := guarded_of_step (program_always o) hc hstep
      obtain ⟨result, hled⟩ := hinv.led i req ended ⟨thread, hthread, hguard.sfEnd.1⟩
      have hne : id ≠ ended := by
        rintro rfl
        rw [hinv.fresh id hid] at hled
        cases hled
      rw [hstate, World.land_flights, Function.update_of_ne hne]
      exact hinv.fresh id hid
  led := by
    intro i req id hled
    rcases performed_of_step hstep hled with hold | rfl
    · obtain ⟨result, hflight⟩ := hinv.led i req id hold
      obtain ⟨⟨leader, result'⟩, hflight', rfl⟩ := hinv.leader_step hc hstep hflight
      exact ⟨result', hflight'⟩
    · obtain ⟨_, rfl, hstate⟩ := step_lead hstep
      exact ⟨none, by rw [hstate, World.takeOff_flights, Function.update_self]⟩
  joined := by
    intro i req id hjoined
    have hold : ∃ flight, c.state.flights id = some flight ∧ flight.leader.key = req.key := by
      rcases performed_of_step hstep hjoined with hold | rfl
      · exact hinv.joined i req id hold
      · exact hinv.inflight _ _ (step_join hstep).1
    obtain ⟨flight, hflight, hkey⟩ := hold
    obtain ⟨flight', hflight', hleader⟩ := hinv.leader_step hc hstep hflight
    exact ⟨flight', hflight', by rw [hleader, hkey]⟩
  landed := by
    have hkeep : ∀ id leader answer, c.state.flights id = some ⟨leader, some answer⟩ →
        Seen c' (Landed o.rules.dns leader id answer) := fun id leader answer hid =>
      (hinv.landed id leader answer hid).of_step Landed.append hstep
    intro id leader answer hid
    rcases step_flights hstep with ⟨hsame, _⟩ | ⟨i, req, _, _, hstate⟩ |
      ⟨i, req, ended, answer', rfl, hstate⟩
    · exact hkeep id leader answer (hsame ▸ hid)
    · rw [hstate, World.takeOff_flights] at hid
      by_cases hnew : id = c.state.nextFlight
      · rw [hnew, Function.update_self] at hid
        simp at hid
      · rw [Function.update_of_ne hnew] at hid
        exact hkeep id leader answer hid
    · rw [hstate, World.land_flights] at hid
      by_cases hended : id = ended
      · subst hended
        rw [Function.update_self] at hid
        simp only [Option.some.injEq, FlightState.mk.injEq] at hid
        obtain ⟨rfl, rfl⟩ := hid
        obtain ⟨thread, thread', _, hthread', htrace, hguard⟩ :=
          guarded_of_step (program_always o) hc hstep
        refine ⟨thread', List.mem_of_getElem? hthread', ?_⟩
        rw [htrace]
        exact hguard.sfEnd.2.append _ _
      · rw [Function.update_of_ne hended] at hid
        exact hkeep id leader answer hid

/-- Every cached answer and every shared answer that a thread ever got came
from a flight with the key it asked for. -/
structure AnswersTraced (c : Config (gate o)) : Prop where
  hits : ∀ i req cell, Performed c i ⟨.cacheGet req, some cell⟩ →
    cell.origin.key = req.key ∧ Seen c (Stored o.rules.dns cell.origin cell.entry)
  shared : ∀ i req id shared, Performed c i ⟨.sfWait req id, shared⟩ →
    shared.origin.key = req.key ∧ Seen c (Landed o.rules.dns shared.origin id shared.answer)

theorem World.hit_lookup {w : World} {key : Text} {cell : Cell} (h : w.hit key = some cell) :
    w.cache.lookup key = some cell ∧ w.clock < cell.entry.expires := by
  unfold World.hit at h
  obtain ⟨hlookup, hexpires⟩ := Option.filter_eq_some_iff.mp h
  exact ⟨hlookup, by simpa using hexpires⟩

theorem step_answersTraced {c c' : Config (gate o)} {action : Action (gate o)} (hc : Faithful c)
    (hcells : CellsTraced c) (hflights : FlightsTraced c) (hinv : AnswersTraced c)
    (hstep : (gate o).step c action = some c') : AnswersTraced c' where
  hits := by
    intro i req cell hhit
    have hold : cell.origin.key = req.key ∧
        Seen c (Stored o.rules.dns cell.origin cell.entry) := by
      rcases performed_of_step hstep hhit with hold | rfl
      · exact hinv.hits i req cell hold
      · obtain ⟨hcell, _⟩ := step_cacheGet hstep
        exact hcells _ _ (World.hit_lookup hcell.symm).1
    exact ⟨hold.1, hold.2.of_step Stored.append hstep⟩
  shared := by
    intro i req id shared hshared
    have hold : shared.origin.key = req.key ∧
        Seen c (Landed o.rules.dns shared.origin id shared.answer) := by
      rcases performed_of_step hstep hshared with hold | rfl
      · exact hinv.shared i req id shared hold
      · obtain ⟨hresult, _⟩ := step_sfWait hstep
        obtain ⟨thread, _, hthread, _, _, hguard⟩ := guarded_of_step (program_always o) hc hstep
        obtain ⟨flight, hflight, hkey⟩ := hflights.joined i req id ⟨thread, hthread, hguard.sfWait⟩
        rw [hresult] at hflight
        obtain rfl := Option.some.inj hflight
        exact ⟨hkey, hflights.landed id _ _ hresult⟩
    exact ⟨hold.1, hold.2.of_step Landed.append hstep⟩

/-- All of it, in every run that starts with an empty resolver. -/
structure Traced (c : Config (gate o)) : Prop where
  faithful : Faithful c
  cells : CellsTraced c
  flights : FlightsTraced c
  answers : AnswersTraced c

theorem step_traced {c c' : Config (gate o)} {action : Action (gate o)} (hinv : Traced c)
    (hstep : (gate o).step c action = some c') : Traced c' where
  faithful := step_faithful hinv.faithful hstep
  cells := step_cellsTraced hinv.faithful hinv.cells hstep
  flights := step_flightsTraced hinv.faithful hinv.flights hstep
  answers := step_answersTraced hinv.faithful hinv.cells hinv.flights hinv.answers hstep

theorem traced_start : Traced (o := o) ⟨{}, []⟩ := by
  refine ⟨by simp [Faithful], ?_, ?_, ?_⟩
  · intro key cell hcell
    simp at hcell
  · refine ⟨?_, fun _ _ => rfl, ?_, ?_, ?_⟩ <;> simp [Performed]
  · refine ⟨?_, ?_⟩ <;> simp [Performed]

theorem run_traced {schedule : List (Action (gate o))} {c : Config (gate o)}
    (hrun : (gate o).run ⟨{}, []⟩ schedule = some c) : Traced c :=
  run_invariant Traced (fun _ _ _ hinv hstep => step_traced hinv hstep) traced_start hrun

/-! ## The lookup behind an answer -/

/-- The cached lookup of `req` with the events `seg` owes its answer to the
lookup of `origin` with the events `trace` and the answer `looked`: it ran that
lookup, hit the entry stored from it, or joined the flight that ran it. -/
inductive ComputedBy (c : Config (gate o)) (req : Request) (seg : List (Event sig)) :
    (origin : Request) → (trace : List (Event sig)) → (looked : Answer) → Prop
  | led {id start : Nat} {trace rest : List (Event sig)} {looked : Answer}
      (hseg : seg = leadEvents req id ++ (takeOffEvents start ++ trace) ++ rest)
      (hlooked : (req.policy.lookup o.rules.dns (start + lookupTimeout) req.host).Returns
        trace looked) :
      ComputedBy c req seg req trace looked
  | hit {cell : Cell} {now ctx : Nat} {trace : List (Event sig)} {looked : Answer}
      (hseg : seg = [⟨.cacheGet req, some cell⟩])
      (hstored : Seen c fun history => ∃ before order after, history = before ++ trace ++
        ([⟨.now, now⟩, ⟨.store cell.origin cell.entry, order⟩] ++ after))
      (hlooked : (cell.origin.policy.lookup o.rules.dns ctx cell.origin.host).Returns trace looked)
      (hentry : o.rules.dns.entryOf looked now = some cell.entry) :
      ComputedBy c req seg cell.origin trace looked
  | shared {id start : Nat} {shared : Shared} {trace : List (Event sig)} {looked : Answer}
      (hseg : (⟨.sfWait req id, shared⟩ : Event sig) ∈ seg)
      (hlanded : Seen c fun history => ∃ before after, history = before ++
        (leadEvents shared.origin id ++ (takeOffEvents start ++ trace)) ++ after)
      (hlooked : (shared.origin.policy.lookup o.rules.dns (start + lookupTimeout)
        shared.origin.host).Returns trace looked) :
      ComputedBy c req seg shared.origin trace looked

/-- What a caller sees of the lookup's answer. -/
structure Delivered (answer looked : Answer) : Prop where
  err : answer.err = none → looked.err = none
  addrs : answer.err = none → answer.res.addrs = looked.res.addrs
  localDirect : answer.err = none → answer.res.localDirect = looked.res.localDirect

theorem delivered_outcomeOf (host : Text) (looked : Answer) :
    Delivered (outcomeOf host looked) looked := by
  cases herr : looked.err with
  | some err => constructor <;> simp [outcomeOf, herr]
  | none =>
      by_cases haddrs : looked.res.addrs = []
      · constructor <;> simp [outcomeOf, herr, haddrs]
      · constructor <;> simp [outcomeOf, herr, haddrs]

theorem delivered_entryOf {c : DnsCache} {looked : Answer} {now : Nat} {entry : CacheEntry}
    (hentry : c.entryOf looked now = some entry) (host : Text) :
    Delivered (entry.answer host) looked := by
  unfold DnsCache.entryOf at hentry
  split at hentry
  next err herr =>
    rw [Option.ite_none_right_eq_some, Option.some.injEq] at hentry
    obtain ⟨_, rfl⟩ := hentry
    constructor <;> simp [CacheEntry.answer]
  next herr =>
    rw [Option.ite_none_right_eq_some, Option.some.injEq] at hentry
    obtain ⟨_, rfl⟩ := hentry
    constructor <;> simp [CacheEntry.answer, herr]

/-- Behind every answer of a cached lookup, literals aside, is one lookup with
the same key. -/
theorem Traced.computedBy {c : Config (gate o)} (hc : Traced c) {i : Nat}
    {thread : Thread (gate o)} (hthread : c.threads[i]? = some thread) {req : Request}
    {before seg after : List (Event sig)} (htrace : thread.trace = before ++ seg ++ after)
    {answer : Answer} (hresolved : Resolved o.rules.dns req seg answer)
    (hliteral : Addr.parse req.host = none) :
    ∃ origin trace looked, origin.key = req.key ∧ ComputedBy c req seg origin trace looked ∧
      Delivered answer looked := by
  cases hresolved with
  | literal hparse _ =>
      rw [hliteral] at hparse
      cases hparse
  | @hit cell _ hseg =>
      obtain ⟨hkey, other, hother, b, trace, now, order, a, ctx, looked, hhistory, hlooked,
        hentry⟩ := hc.answers.hits i req cell ⟨thread, hthread, by rw [htrace, hseg]; simp⟩
      refine ⟨cell.origin, trace, looked, hkey, ?_, delivered_entryOf hentry _⟩
      exact .hit hseg ⟨other, hother, b, order, a, hhistory⟩ hlooked hentry
  | @shared id shared _ hseg =>
      have hmem : (⟨.sfWait req id, shared⟩ : Event sig) ∈ seg := by simp [hseg]
      obtain ⟨hkey, other, hother, b, flight, a, hhistory, start, trace, tail, looked, rfl, hlooked,
        hresult, _⟩ := hc.answers.shared i req id shared
          ⟨thread, hthread, by simp [htrace, hmem]⟩
      refine ⟨shared.origin, trace, looked, hkey, ?_, hresult ▸ delivered_outcomeOf _ _⟩
      refine .shared hmem ⟨other, hother, b, tail ++ a, ?_⟩ hlooked
      rw [hhistory]
      simp only [List.append_assoc]
  | @led id flight _ _ hseg hflown =>
      obtain ⟨start, trace, tail, looked, rfl, hlooked, rfl, _⟩ := hflown
      have hsplit : seg = leadEvents req id ++ (takeOffEvents start ++ trace) ++
          (tail ++ [⟨.sfEnd req id (outcomeOf req.host looked), ()⟩]) := by
        rw [hseg]
        simp only [List.append_assoc]
      exact ⟨req, trace, looked, rfl, .led hsplit hlooked, delivered_outcomeOf _ _⟩

end Invariants

end SshGate
