import SshGate.Dns.KeySpace
import SshGate.Interaction.Tally

/-! # Concurrent misses of one key

Calls for one request run one lookup and share its result, as long as none of
them comes to `singleflight.Do` after a flight has ended. A call that missed
before the answer was stored can do so: the check of the cache and the
beginning of the flight are two steps.
-/

namespace SshGate

open Go Interaction Program

/-! ## Calls for one request -/

/-- The call resolves this request and nothing else. -/
def Call.asks (c : DnsCache) (req : Request) : Call → Prop
  | .resolveTunnel host => c.request .tunnel host = req
  | .localResolveAll host => c.request .local host = req
  | _ => False

theorem Call.program_of_asks {o : Opener} {req : Request} {call : Call}
    (hasks : call.asks o.rules.dns req) :
    call.program o = cachedLookup o.rules.dns req >>= fun answer => pure (.answer answer) := by
  cases call with
  | resolveTunnel host =>
      cases hasks
      rfl
  | localResolveAll host =>
      cases hasks
      rfl
  | _ => cases hasks

/-- The flight that an event starts or ends. -/
def leadBy : Event sig → Option Nat
  | ⟨.sfDo _, .lead id⟩ => some id
  | _ => none

def endedBy : Event sig → Option Nat
  | ⟨.sfEnd _ id _, _⟩ => some id
  | _ => none

theorem leadBy_eq_some {event : Event sig} {id : Nat} (hkey : leadBy event = some id) :
    ∃ req, event = ⟨.sfDo req, .lead id⟩ := by
  unfold leadBy at hkey
  split at hkey <;> cases hkey
  exact ⟨_, rfl⟩

theorem endedBy_eq_some {event : Event sig} {id : Nat} (hkey : endedBy event = some id) :
    ∃ req answer, event = ⟨.sfEnd req id answer, ()⟩ := by
  unfold endedBy at hkey
  split at hkey <;> cases hkey
  exact ⟨_, _, rfl⟩

theorem endedBy_of_inFlight (event : Event sig) (hop : event.op.inFlight = true) :
    endedBy event = none ∧ leadBy event = none := by
  obtain ⟨op, reply⟩ := event
  cases op <;> first | exact ⟨rfl, rfl⟩ | cases hop

/-- What precedes each action of a call for one request. -/
abbrev SharedStep (c : DnsCache) (req : Request) (history : List (Event sig)) (op : Op) : Prop :=
  ResolveStep c req history op ∧ Covered leadBy endedBy history op

/-- A flight is ended once. -/
theorem cachedLookup_covered (c : DnsCache) (req : Request) :
    (cachedLookup c req).Always (Covered leadBy endedBy) (fun _ _ => True) [] := by
  unfold cachedLookup
  split
  next => trivial
  next =>
    refine ⟨nofun, fun hit => ?_⟩
    cases hit with
    | some cell => trivial
    | none =>
        refine ⟨nofun, fun flight => ?_⟩
        cases flight with
        | join id => exact ⟨nofun, fun _ => trivial⟩
        | lead id =>
            have hfly : (fly c req).Always (Covered leadBy endedBy) (fun _ _ => True)
                (leadEvents req id) := by
              apply (fly_inFlight c req).always
              intro history op hop reply k hkey
              cases (endedBy_of_inFlight ⟨op, reply⟩ hop).1.symm.trans hkey
            apply hfly.path.bind
            rintro _ answer ⟨trace, rfl, hpath⟩
            refine ⟨?_, fun _ => trivial⟩
            rintro reply k ⟨⟩
            have hended : trace.filterMap endedBy = [] :=
              (fly_inFlight c req).filterMap_eq_nil hpath fun event hop =>
                (endedBy_of_inFlight event hop).1
            simp [leadEvents, hended, leadBy, endedBy, List.filterMap_cons]

/-- The lookups that the cache counts, and the flights that run them. -/
def countedBy : Event sig → Option Unit
  | ⟨.lookupsAdd, _⟩ => some ()
  | _ => none

def launchedBy (event : Event sig) : Option Unit := (leadBy event).map fun _ => ()

/-- A flight runs the lookup once. -/
theorem cachedLookup_counted (c : DnsCache) (req : Request) :
    (cachedLookup c req).Always (Covered launchedBy countedBy) (fun _ _ => True) [] := by
  unfold cachedLookup
  split
  next => trivial
  next =>
    refine ⟨nofun, fun hit => ?_⟩
    cases hit with
    | some cell => trivial
    | none =>
        refine ⟨nofun, fun flight => ?_⟩
        cases flight with
        | join id => exact ⟨nofun, fun _ => trivial⟩
        | lead id =>
            refine ⟨nofun, fun start => ⟨fun _ _ _ => by simp [launchedBy, leadBy, countedBy,
              List.filterMap_cons], fun _ => ?_⟩⟩
            -- What follows the count does not count again.
            have hrest : Confined (fun op : Op => ∀ reply, countedBy ⟨op, reply⟩ = none)
                (req.policy.lookup c (start + lookupTimeout) req.host >>= settle c req) := by
              apply ((policyLookup_inLookup c _ req.host req.policy).imp ?_).bind
              · intro answer
                apply (settle_confined c req answer).imp
                rintro op (rfl | ⟨entry, rfl⟩)
                · exact fun _ => rfl
                · exact fun _ => rfl
              · intro op hop reply
                cases op <;> first | rfl | cases hop
            have hnone : ∀ history op, (∀ reply, countedBy ⟨op, reply⟩ = none) →
                Covered launchedBy countedBy history op := by
              intro history op hop reply k hkey
              cases (hop reply).symm.trans hkey
            exact (hrest.always hnone).bind fun _ answer _ => ⟨nofun, fun _ => trivial⟩

theorem asks_always {o : Opener} {req : Request} {call : Call}
    (hasks : call.asks o.rules.dns req) :
    (call.program o).Always (SharedStep o.rules.dns req) (fun history result =>
      ∃ answer, result = .answer answer ∧ Resolved o.rules.dns req history answer) [] := by
  rw [Call.program_of_asks hasks]
  apply ((cachedLookup_always o.rules.dns req).and (cachedLookup_covered o.rules.dns req)).bind
  intro history answer hresolved
  exact ⟨answer, rfl, hresolved.1⟩

theorem program_shared (o : Opener) (req : Request) (call : Call) :
    (call.program o).Always
      (fun history op => call.asks o.rules.dns req → SharedStep o.rules.dns req history op)
      (fun _ _ => True) [] := by
  by_cases hasks : call.asks o.rules.dns req
  · exact (asks_always hasks).imp (fun _ _ _ _ hstep _ => hstep) fun _ _ _ _ => trivial
  · exact (program_always o call).guard_imp fun _ _ _ h => absurd h hasks

/-! ## What the calls know of each other -/

theorem ResolveStep.sfWait_joined {c : DnsCache} {req req' : Request} {id : Nat}
    {history : List (Event sig)} (hstep : ResolveStep c req history (.sfWait req' id)) :
    (⟨.sfDo req', .join id⟩ : Event sig) ∈ history := by
  cases hstep with
  | flight _ hop =>
      cases hop with
      | lookup _ _ hlookup _ => cases hlookup.inLookup
  | sfWait htrace =>
      subst htrace
      simp

section Run

variable {o : Opener} {req : Request} {c c' : Config (gate o)} {action : Action (gate o)}

/-- What a run of calls for one request keeps. -/
structure Sharing (req : Request) (c : Config (gate o)) : Prop where
  faithful : System.Faithful c
  asks : ∀ thread ∈ c.threads, thread.call.asks o.rules.dns req
  leads : (System.tally leadBy c).Nodup
  fresh : ∀ id ∈ System.tally leadBy c, id < c.state.nextFlight
  /-- The flight of the key is the one that was led and not ended. -/
  inflight : ∀ id, c.state.inflight.lookup req.key = some id ↔
    id ∈ System.tally leadBy c ∧ id ∉ System.tally endedBy c
  flights : ∀ id ∈ System.tally leadBy c, ∃ result, c.state.flights id = some ⟨req, result⟩ ∧
    ∀ answer, result = some answer → ∃ j, System.Performed c j ⟨.sfEnd req id answer, ()⟩
  joined : ∀ i id, System.Performed c i ⟨.sfDo req, .join id⟩ → id ∈ System.tally leadBy c
  waited : ∀ i id shared, System.Performed c i ⟨.sfWait req id, shared⟩ →
    ∃ j, System.Performed c j ⟨.sfEnd req id shared.answer, ()⟩
  cached : ∀ cell, c.state.hit req.key = some cell →
    ∃ j order, System.Performed c j ⟨.store req cell.entry, order⟩
  hits : ∀ i cell, System.Performed c i ⟨.cacheGet req, some cell⟩ →
    ∃ j order, System.Performed c j ⟨.store req cell.entry, order⟩

theorem Sharing.step_shared (hc : Sharing req c) {i : Nat} {event : Event sig}
    (hstep : (gate o).step c (.run i event) = some c') :
    SharedStep o.rules.dns req (System.traceOf c i) event.op := by
  obtain ⟨thread, _, hthread, _, _, hguard⟩ :=
    System.guarded_of_step (program_shared o req) hc.faithful hstep
  rw [System.traceOf_eq hthread]
  exact hguard (hc.asks thread (List.mem_of_getElem? hthread))

/-- Flights change where one is led or ended. -/
theorem step_flight_cases (hstep : (gate o).step c action = some c') :
    (System.yield leadBy action = [] ∧ System.yield endedBy action = [] ∧
      c'.state.flights = c.state.flights ∧ c'.state.inflight = c.state.inflight ∧
      c'.state.nextFlight = c.state.nextFlight) ∨
    (∃ i req, action = .run i ⟨.sfDo req, .lead c.state.nextFlight⟩ ∧
      c.state.inflight.lookup req.key = none ∧ c'.state = c.state.takeOff req) ∨
    ∃ i req flight answer, action = .run i ⟨.sfEnd req flight answer, ()⟩ ∧
      c'.state = c.state.land req flight answer := by
  rcases step_flights hstep with hsame | htakeOff | hland
  · cases action with
    | spawn call => exact .inl ⟨rfl, rfl, hsame⟩
    | disturb disturbance => exact .inl ⟨rfl, rfl, hsame⟩
    | run i event =>
        cases hlead : leadBy event with
        | some id =>
            obtain ⟨req, rfl⟩ := leadBy_eq_some hlead
            obtain ⟨hnone, rfl, hstate⟩ := step_lead hstep
            exact .inr (.inl ⟨i, req, rfl, hnone, hstate⟩)
        | none =>
            cases hended : endedBy event with
            | some id =>
                obtain ⟨req, answer, rfl⟩ := endedBy_eq_some hended
                obtain ⟨_, _, _, _, _, hperform, rfl⟩ := System.step_run_eq_some.mp hstep
                cases hperform
                exact .inr (.inr ⟨i, req, id, answer, rfl, rfl⟩)
            | none =>
                exact .inl ⟨by simp [System.yield, hlead], by simp [System.yield, hended], hsame⟩
  · exact .inr (.inl htakeOff)
  · exact .inr (.inr hland)

/-- The thread that ended a flight had led it. -/
theorem Sharing.led_of_ended (hc : Sharing req c) {i id : Nat} {thread : Thread (gate o)}
    (hthread : c.threads[i]? = some thread) (hended : id ∈ thread.trace.filterMap endedBy) :
    id ∈ thread.trace.filterMap leadBy := by
  obtain ⟨event, hevent, hkey⟩ := List.mem_filterMap.mp hended
  have hmem := List.mem_of_getElem? hthread
  obtain ⟨before, after, htrace, hguard⟩ :=
    System.guarded_of_mem (program_shared o req) hc.faithful hmem hevent
  rw [htrace, List.filterMap_append]
  exact List.mem_append_left _ ((hguard (hc.asks thread hmem)).2.preceded event.reply id hkey)

theorem Sharing.ended_subset (hc : Sharing req c) :
    System.tally endedBy c ⊆ System.tally leadBy c := by
  intro id hid
  obtain ⟨i, event, ⟨thread, hthread, hevent⟩, hkey⟩ := System.mem_tally.mp hid
  exact System.mem_tally_of_thread hthread
    (hc.led_of_ended hthread (List.mem_filterMap.mpr ⟨event, hevent, hkey⟩))

/-- A flight that is being ended is still in the air. -/
theorem Sharing.ends (hc : Sharing req c) {i id : Nat} {req' : Request} {answer : Answer}
    (hstep : (gate o).step c (.run i ⟨.sfEnd req' id answer, ()⟩) = some c') :
    req' = req ∧ id ∈ System.tally leadBy c ∧ id ∉ System.tally endedBy c := by
  obtain ⟨thread, _, _, hthread, _, _, _⟩ := System.step_run_eq_some.mp hstep
  obtain ⟨hresolve, hcovered⟩ := hc.step_shared hstep
  rw [System.traceOf_eq hthread] at hresolve hcovered
  have hlead := hcovered.preceded () id rfl
  refine ⟨hresolve.request rfl, System.mem_tally_of_thread hthread hlead, fun hended => ?_⟩
  -- An earlier end would be by this thread too, which has led the flight once.
  obtain ⟨j, event, ⟨thread', hthread', hevent⟩, hkey⟩ := System.mem_tally.mp hended
  have hended' := List.mem_filterMap.mpr ⟨event, hevent, hkey⟩
  cases System.tally_thread_unique hc.leads hthread hthread' hlead
    (hc.led_of_ended hthread' hended')
  cases hthread.symm.trans hthread'
  have hlt := hcovered () id rfl
  have hpos := List.count_pos_iff.mpr hended'
  have honce := List.nodup_iff_count_le_one.mp
    ((List.nodup_flatMap.mp hc.leads).1 thread (List.mem_of_getElem? hthread)) id
  omega

theorem Sharing.step_asks (hc : Sharing req c)
    (hspawn : ∀ call, action = .spawn call → call.asks o.rules.dns req)
    (hstep : (gate o).step c action = some c') :
    ∀ thread ∈ c'.threads, thread.call.asks o.rules.dns req := by
  intro thread' hthread'
  obtain ⟨i, hi⟩ := List.mem_iff_getElem?.mp hthread'
  rcases System.step_thread hstep hi with ⟨call, rfl, _, rfl⟩ | ⟨thread, hthread, hcall, _⟩
  · exact hspawn call rfl
  · rw [hcall]
    exact hc.asks thread (List.mem_of_getElem? hthread)

theorem Sharing.step_leads (hc : Sharing req c) (hstep : (gate o).step c action = some c') :
    (System.tally leadBy c').Nodup ∧
      ∀ id ∈ System.tally leadBy c', id < c'.state.nextFlight := by
  have htally : (System.tally leadBy c').Perm (_ ++ System.tally leadBy c) :=
    System.tally_step hstep
  rw [htally.nodup_iff]
  rcases step_flight_cases hstep with ⟨hlead, _, _, _, hnext⟩ | ⟨i, req', rfl, _, hstate⟩ |
    ⟨i, req', id, answer, rfl, hstate⟩
  · rw [hlead, List.nil_append] at htally ⊢
    rw [hnext]
    exact ⟨hc.leads, fun id hid => hc.fresh id (htally.mem_iff.mp hid)⟩
  · refine ⟨List.nodup_cons.mpr ⟨fun hid => Nat.lt_irrefl _ (hc.fresh _ hid), hc.leads⟩, ?_⟩
    intro id hid
    rw [hstate, World.takeOff_nextFlight]
    rcases List.mem_cons.mp (htally.mem_iff.mp hid) with rfl | hold
    · exact Nat.lt_succ_self _
    · exact Nat.lt_succ_of_lt (hc.fresh id hold)
  · refine ⟨hc.leads, fun id hid => ?_⟩
    rw [hstate, World.land_nextFlight]
    exact hc.fresh id (htally.mem_iff.mp hid)

theorem Sharing.step_inflight (hc : Sharing req c) (hstep : (gate o).step c action = some c')
    (id : Nat) : c'.state.inflight.lookup req.key = some id ↔
      id ∈ System.tally leadBy c' ∧ id ∉ System.tally endedBy c' := by
  rw [System.mem_tally_step hstep, System.mem_tally_step hstep]
  rcases step_flight_cases hstep with ⟨hlead, hended, _, hinflight, _⟩ |
    ⟨i, req', rfl, hnone, hstate⟩ |
    ⟨i, req', ended, answer, rfl, hstate⟩
  · simp [hlead, hended, hinflight, hc.inflight id]
  · obtain rfl := (hc.step_shared hstep).1.request rfl
    have hfree : ¬ (id ∈ System.tally leadBy c ∧ id ∉ System.tally endedBy c) := by
      rw [← hc.inflight id, hnone]
      nofun
    rw [hstate, World.takeOff_inflight, AList.lookup_insert, Option.some.injEq]
    constructor
    · rintro rfl
      refine ⟨.inl (List.mem_singleton_self _), ?_⟩
      rintro (hnew | hended)
      · cases hnew
      · exact Nat.lt_irrefl _ (hc.fresh _ (hc.ended_subset hended))
    · rintro ⟨hnew | hold, hended⟩
      · exact (List.mem_singleton.mp hnew).symm
      · exact absurd ⟨hold, fun h => hended (.inr h)⟩ hfree
  · obtain ⟨rfl, hled⟩ := hc.ends hstep
    have hair := (hc.inflight ended).mpr hled
    rw [hstate, World.land_inflight, AList.lookup_erase]
    refine iff_of_false nofun ?_
    rintro ⟨hnew | hold, hnot⟩
    · cases hnew
    · have hsame := (hc.inflight id).mpr ⟨hold, fun h => hnot (.inr h)⟩
      cases hair.symm.trans hsame
      exact hnot (.inl (List.mem_singleton_self _))

theorem Sharing.step_flights (hc : Sharing req c) (hstep : (gate o).step c action = some c')
    {id : Nat} (hid : id ∈ System.tally leadBy c') :
    ∃ result, c'.state.flights id = some ⟨req, result⟩ ∧ ∀ answer, result = some answer →
      ∃ j, System.Performed c' j ⟨.sfEnd req id answer, ()⟩ := by
  have hold : id ∈ System.tally leadBy c → c'.state.flights id = c.state.flights id →
      ∃ result, c'.state.flights id = some ⟨req, result⟩ ∧ ∀ answer, result = some answer →
        ∃ j, System.Performed c' j ⟨.sfEnd req id answer, ()⟩ := by
    intro hid hsame
    obtain ⟨result, hflight, hended⟩ := hc.flights id hid
    refine ⟨result, hsame.trans hflight, fun answer hanswer => ?_⟩
    obtain ⟨j, hj⟩ := hended answer hanswer
    exact ⟨j, hj.of_step hstep⟩
  rw [System.mem_tally_step hstep] at hid
  rcases step_flight_cases hstep with ⟨hlead, _, hflights, _⟩ | ⟨i, req', rfl, _, hstate⟩ |
    ⟨i, req', ended, answer, rfl, hstate⟩
  · rw [hlead] at hid
    exact hold (hid.resolve_left List.not_mem_nil) (by rw [hflights])
  · obtain rfl := (hc.step_shared hstep).1.request rfl
    rw [hstate, World.takeOff_flights] at hold ⊢
    by_cases hnew : id = c.state.nextFlight
    · subst hnew
      exact ⟨none, Function.update_self .., nofun⟩
    · exact hold (hid.resolve_left fun h => hnew (List.mem_singleton.mp h))
        (Function.update_of_ne hnew ..)
  · obtain ⟨rfl, _⟩ := hc.ends hstep
    rw [hstate, World.land_flights] at hold ⊢
    by_cases hend : id = ended
    · subst hend
      refine ⟨some answer, Function.update_self .., ?_⟩
      rintro _ ⟨⟩
      exact ⟨i, System.performed_run hstep⟩
    · exact hold (hid.resolve_left nofun) (Function.update_of_ne hend ..)

theorem Sharing.step_joined (hc : Sharing req c) (hstep : (gate o).step c action = some c')
    {i id : Nat} (hjoined : System.Performed c' i ⟨.sfDo req, .join id⟩) :
    id ∈ System.tally leadBy c' := by
  rw [System.mem_tally_step hstep]
  rcases System.performed_of_step hstep hjoined with hold | rfl
  · exact .inr (hc.joined i id hold)
  · exact .inr ((hc.inflight id).mp (step_join hstep).1).1

theorem Sharing.step_waited (hc : Sharing req c) (hstep : (gate o).step c action = some c')
    {i id : Nat} {shared : Shared} (hwaited : System.Performed c' i ⟨.sfWait req id, shared⟩) :
    ∃ j, System.Performed c' j ⟨.sfEnd req id shared.answer, ()⟩ := by
  suffices hended : ∃ j, System.Performed c j ⟨.sfEnd req id shared.answer, ()⟩ by
    obtain ⟨j, hj⟩ := hended
    exact ⟨j, hj.of_step hstep⟩
  rcases System.performed_of_step hstep hwaited with hold | rfl
  · exact hc.waited i id shared hold
  · obtain ⟨hflight, _⟩ := step_sfWait hstep
    have hjoin := (hc.step_shared hstep).1.sfWait_joined
    obtain ⟨result, hled, hended⟩ := hc.flights id (hc.joined i id (System.performed_iff.mpr hjoin))
    cases hflight.symm.trans hled
    exact hended shared.answer rfl

theorem Sharing.step_cached (hc : Sharing req c) (hstep : (gate o).step c action = some c')
    {cell : Cell} (hcell : c'.state.hit req.key = some cell) :
    ∃ j order, System.Performed c' j ⟨.store req cell.entry, order⟩ := by
  obtain ⟨hlookup, hfresh⟩ := World.hit_lookup hcell
  have hold : c.state.cache.lookup req.key = some cell →
      ∃ j order, System.Performed c' j ⟨.store req cell.entry, order⟩ := by
    intro hcell
    have hclock := step_clock hstep
    obtain ⟨j, order, hj⟩ := hc.cached cell
      (by rw [World.hit, hcell, Option.filter_some, if_pos]; exact decide_eq_true (by omega))
    exact ⟨j, order, hj.of_step hstep⟩
  rcases step_cache hstep with hsame | ⟨i, req', entry, order, rfl, _, hstore⟩ | ⟨_, hpurge⟩
  · exact hold (hsame ▸ hlookup)
  · obtain rfl := (hc.step_shared hstep).1.request rfl
    rw [hstore] at hlookup
    rcases Cache.lookup_store hlookup with ⟨_, rfl⟩ | hkept
    · exact ⟨i, order, System.performed_run hstep⟩
    · exact hold hkept
  · rw [hpurge] at hlookup
    exact hold (Cache.lookup_purge hlookup)

theorem Sharing.step_hits (hc : Sharing req c) (hstep : (gate o).step c action = some c')
    {i : Nat} {cell : Cell} (hhit : System.Performed c' i ⟨.cacheGet req, some cell⟩) :
    ∃ j order, System.Performed c' j ⟨.store req cell.entry, order⟩ := by
  suffices hstored : ∃ j order, System.Performed c j ⟨.store req cell.entry, order⟩ by
    obtain ⟨j, order, hj⟩ := hstored
    exact ⟨j, order, hj.of_step hstep⟩
  rcases System.performed_of_step hstep hhit with hold | rfl
  · exact hc.hits i cell hold
  · exact hc.cached cell (step_cacheGet hstep).1.symm

theorem Sharing.step (hc : Sharing req c)
    (hspawn : ∀ call, action = .spawn call → call.asks o.rules.dns req)
    (hstep : (gate o).step c action = some c') : Sharing req c' where
  faithful := System.step_faithful hc.faithful hstep
  asks := hc.step_asks hspawn hstep
  leads := (hc.step_leads hstep).1
  fresh := (hc.step_leads hstep).2
  inflight := hc.step_inflight hstep
  flights _ hid := hc.step_flights hstep hid
  joined _ _ hjoined := hc.step_joined hstep hjoined
  waited _ _ _ hwaited := hc.step_waited hstep hwaited
  cached _ hcell := hc.step_cached hstep hcell
  hits _ _ hhit := hc.step_hits hstep hhit

/-- As many lookups are counted as flights were led, at most. -/
theorem Sharing.counted_le (hc : Sharing req c) :
    (System.tally countedBy c).length ≤ (System.tally leadBy c).length := by
  simp only [System.tally, List.length_flatMap]
  apply List.sum_le_sum
  intro thread hthread
  have halways : (thread.call.program o).Always (Covered launchedBy countedBy)
      (fun _ _ => True) [] := by
    rw [Call.program_of_asks (hc.asks thread hthread)]
    exact (cachedLookup_counted o.rules.dns req).bind fun _ _ _ => trivial
  have hcount := halways.count_le (fun _ _ => id) (hc.faithful thread hthread) ()
  have hlength : ∀ l : List Unit, l.count () = l.length := fun l =>
    List.count_eq_length.mpr fun _ _ => rfl
  rw [hlength, hlength] at hcount
  have hlaunched : thread.trace.filterMap launchedBy =
      (thread.trace.filterMap leadBy).map fun _ => () := List.map_filterMap.symm
  rwa [hlaunched, List.length_map] at hcount

/-- A call of the run has executed a lookup of the request with this answer. -/
def LookupRan (req : Request) (c : Config (gate o)) (answer : Answer) : Prop :=
  ∃ thread ∈ c.threads, ∃ id start seg rest,
    thread.trace = leadEvents req id ++ takeOffEvents start ++ seg ++ rest ∧
    (req.policy.lookup o.rules.dns (start + lookupTimeout) req.host).Returns seg answer

/-- The guard of an event that a call of the run has performed. -/
theorem Sharing.resolved (hc : Sharing req c) {i : Nat} {event : Event sig}
    (hevent : System.Performed c i event) :
    ∃ thread ∈ c.threads, ∃ before after, thread.trace = before ++ event :: after ∧
      ResolveStep o.rules.dns req before event.op := by
  obtain ⟨thread, hthread, hmem⟩ := hevent
  have hthread := List.mem_of_getElem? hthread
  obtain ⟨before, after, htrace, hguard⟩ :=
    System.guarded_of_mem (program_shared o req) hc.faithful hthread hmem
  exact ⟨thread, hthread, before, after, htrace, (hguard (hc.asks thread hthread)).1⟩

theorem Sharing.ran_of_sfEnd (hc : Sharing req c) {j id : Nat} {answer : Answer}
    (hended : System.Performed c j ⟨.sfEnd req id answer, ()⟩) :
    ∃ looked, LookupRan req c looked ∧ answer = outcomeOf req.host looked := by
  obtain ⟨thread, hthread, before, after, htrace, hstep⟩ := hc.resolved hended
  cases hstep with
  | flight _ hop =>
      cases hop with
      | lookup _ _ hlookup _ => cases hlookup.inLookup
  | sfEnd hbefore hflown =>
      obtain ⟨start, seg, tail, looked, rfl, hlooked, hanswer, _⟩ := hflown
      refine ⟨looked, ⟨thread, hthread, id, start, seg,
        tail ++ ⟨.sfEnd req id answer, ()⟩ :: after, ?_, hlooked⟩, hanswer⟩
      rw [htrace, hbefore]
      simp only [List.append_assoc]

theorem policyLookup_notFound {c : DnsCache} {policy : Policy} {ctx : Nat} {host : Text}
    {seg : List (Event sig)} {answer : Answer} {err : Err}
    (hpath : (policy.lookup c ctx host).Returns seg answer)
    (hauthoritative : answer.res.authoritative = true) (herr : answer.err = some err)
    (hnotFound : err.isNotFound = true) : err = .notFound := by
  cases policy with
  | «local» =>
      rcases localLookup_returns hpath with ⟨text, _, rfl⟩ | ⟨ips, _, rfl⟩
      · cases herr
        cases hnotFound
      · cases herr
  | tunnel =>
      cases LookedUp.of_returns hpath with
      | answered _ => cases herr
      | notFound _ _ hanswer =>
          rcases notFound_returns hanswer with rfl | ⟨_, _, _, rfl⟩
          · exact (Option.some.inj herr).symm
          · cases herr
      | fallback _ _ hanswer =>
          obtain ⟨_, _, _, _, hfalse, _⟩ := lookupFallback_returns hanswer
          rw [hauthoritative] at hfalse
          cases hfalse

/-- A stored entry stands for what the flight returns. -/
theorem entryOf_answer {c : DnsCache} {policy : Policy} {ctx now : Nat} {host : Text}
    {seg : List (Event sig)} {looked : Answer} {entry : CacheEntry}
    (hpath : (policy.lookup c ctx host).Returns seg looked)
    (hentry : c.entryOf looked now = some entry) : entry.answer host = outcomeOf host looked := by
  unfold DnsCache.entryOf at hentry
  split at hentry
  next err herr =>
    rw [Option.ite_none_right_eq_some, Option.some.injEq, Bool.and_eq_true] at hentry
    obtain ⟨⟨hauthoritative, hnotFound⟩, rfl⟩ := hentry
    obtain rfl := policyLookup_notFound hpath hauthoritative herr hnotFound
    simp [CacheEntry.answer, outcomeOf, herr]
  next herr =>
    rw [Option.ite_none_right_eq_some, Option.some.injEq] at hentry
    obtain ⟨⟨haddrs, hauthoritative⟩, rfl⟩ := hentry
    obtain ⟨⟨addrs, authoritative, localDirect⟩, err⟩ := looked
    simp_all [CacheEntry.answer, outcomeOf]

theorem Sharing.ran_of_store (hc : Sharing req c) {j : Nat} {entry : CacheEntry}
    {order : List Text} (hstored : System.Performed c j ⟨.store req entry, order⟩) :
    ∃ looked, LookupRan req c looked ∧ entry.answer req.host = outcomeOf req.host looked := by
  obtain ⟨thread, hthread, before, after, htrace, hstep⟩ := hc.resolved hstored
  cases hstep with
  | @flight id _ _ hbefore hop =>
      cases hop with
      | lookup _ _ hlookup _ => cases hlookup.inLookup
      | @store start now seg looked _ hflight hlooked hentry =>
          refine ⟨looked, ⟨thread, hthread, id, start, seg,
            [⟨.now, now⟩] ++ ⟨.store req entry, order⟩ :: after, ?_, hlooked⟩,
            entryOf_answer hlooked hentry⟩
          rw [htrace, hbefore, hflight]
          simp only [List.append_assoc]

/-- Of a single flight the events tell the answer. -/
theorem Sharing.ran_unique (hc : Sharing req c) (hone : (System.tally leadBy c).length ≤ 1)
    {looked looked' : Answer} (hran : LookupRan req c looked) (hran' : LookupRan req c looked') :
    looked = looked' := by
  obtain ⟨thread, hthread, id, start, seg, rest, htrace, hseg⟩ := hran
  obtain ⟨thread', hthread', id', start', seg', rest', htrace', hseg'⟩ := hran'
  obtain ⟨i, hi⟩ := List.mem_iff_getElem?.mp hthread
  obtain ⟨j, hj⟩ := List.mem_iff_getElem?.mp hthread'
  have hled : id ∈ thread.trace.filterMap leadBy := by simp [htrace, leadBy, List.filterMap_cons]
  have hled' : id' ∈ thread'.trace.filterMap leadBy := by
    simp [htrace', leadBy, List.filterMap_cons]
  have hid := eq_of_length_le_one hone (System.mem_tally_of_thread hi hled)
    (System.mem_tally_of_thread hj hled')
  subst hid
  cases System.tally_thread_unique hc.leads hi hj hled hled'
  cases hi.symm.trans hj
  rw [htrace] at htrace'
  simp only [List.cons_append, List.nil_append, List.cons.injEq, Event.mk.injEq, heq_eq_eq,
    true_and] at htrace'
  obtain ⟨rfl, hrest⟩ := htrace'
  exact (hseg.unique hseg' hrest).2

/-- Every caller that has returned got the result of a lookup of the run. -/
theorem Sharing.answer_ran (hc : Sharing req c) (hliteral : Addr.parse req.host = none)
    {thread : Thread (gate o)} (hthread : thread ∈ c.threads) {result : Result}
    (hresult : thread.rest = .ret result) :
    ∃ looked, LookupRan req c looked ∧ result = .answer (outcomeOf req.host looked) := by
  have hpath : (thread.call.program o).Reaches thread.trace thread.rest :=
    hc.faithful thread hthread
  rw [hresult] at hpath
  obtain ⟨answer, rfl, hresolved⟩ :=
    (asks_always (hc.asks thread hthread)).of_returns hpath
  obtain ⟨i, hi⟩ := List.mem_iff_getElem?.mp hthread
  cases hresolved with
  | literal hparse _ => cases hliteral.symm.trans hparse
  | @hit cell _ htrace =>
      obtain ⟨j, order, hstored⟩ := hc.hits i cell ⟨thread, hi, by simp_all⟩
      obtain ⟨looked, hran, hanswer⟩ := hc.ran_of_store hstored
      exact ⟨looked, hran, by rw [hanswer]⟩
  | @shared id shared _ htrace =>
      obtain ⟨j, hended⟩ := hc.waited i id shared ⟨thread, hi, by simp_all⟩
      obtain ⟨looked, hran, hanswer⟩ := hc.ran_of_sfEnd hended
      exact ⟨looked, hran, by rw [hanswer]⟩
  | @led id flight answer _ htrace hflown =>
      have hended : System.Performed c i ⟨.sfEnd req id answer, ()⟩ := ⟨thread, hi, by simp_all⟩
      obtain ⟨looked, hran, hanswer⟩ := hc.ran_of_sfEnd hended
      exact ⟨looked, hran, by rw [hanswer]⟩

/-! ## One flight for all -/

/-- The step brings a call to `singleflight.Do` for the request. -/
def comesToDo (req : Request) : Action (gate o) → Bool
  | .run _ ⟨.sfDo req', _⟩ => decide (req' = req)
  | _ => false

theorem comesToDo_iff :
    comesToDo req action = true ↔ ∃ i reply, action = .run i ⟨.sfDo req, reply⟩ := by
  constructor
  · intro hcomes
    unfold comesToDo at hcomes
    split at hcomes
    next i req' reply =>
      obtain rfl := of_decide_eq_true hcomes
      exact ⟨i, reply, rfl⟩
    next => cases hcomes
  · rintro ⟨i, reply, rfl⟩
    exact decide_eq_true rfl

/-- No call comes to `singleflight.Do` for the key after a flight of it has
ended. -/
def Timely (req : Request) (c : Config (gate o)) (action : Action (gate o)) : Prop :=
  comesToDo req action = true → System.tally endedBy c = []

instance : Decidable (Timely req c action) := inferInstanceAs (Decidable (_ → _))

/-- As long as one flight was led at most, a step leads another one exactly
where it is late. -/
theorem Sharing.step_timely (hc : Sharing req c) (hone : (System.tally leadBy c).length ≤ 1)
    (hstep : (gate o).step c action = some c') :
    (System.tally leadBy c').length ≤ 1 ↔ Timely req c action := by
  rw [System.tally_length hstep]
  rcases step_flight_cases hstep with ⟨hlead, _⟩ | ⟨i, req', rfl, hnone, _⟩ |
    ⟨i, req', id, answer, rfl, _⟩
  · refine iff_of_true (by simpa [hlead] using hone) ?_
    intro hcomes
    obtain ⟨i, reply, rfl⟩ := comesToDo_iff.mp hcomes
    cases reply with
    | lead id => cases hlead
    | join id =>
        -- The flight that is joined is the only one, and it has not ended.
        obtain ⟨hled, hair⟩ := (hc.inflight id).mp (step_join hstep).1
        rw [List.eq_nil_iff_forall_not_mem]
        intro other hended
        have hsame := eq_of_length_le_one hone hled (hc.ended_subset hended)
        exact hair (hsame ▸ hended)
  · obtain rfl := (hc.step_shared hstep).1.request rfl
    have hends : ∀ id ∈ System.tally leadBy c, id ∈ System.tally endedBy c := by
      intro id hled
      by_contra hair
      cases hnone.symm.trans ((hc.inflight id).mpr ⟨hled, hair⟩)
    have hyield : (System.yield leadBy (.run i ⟨.sfDo req', .lead c.state.nextFlight⟩ :
        Action (gate o))).length = 1 := rfl
    rw [hyield]
    constructor
    · intro hle _
      rw [List.eq_nil_iff_forall_not_mem]
      intro id hended
      have hpos := List.length_pos_of_mem (hc.ended_subset hended)
      omega
    · intro htimely
      have hnil := htimely (comesToDo_iff.mpr ⟨i, _, rfl⟩)
      have hleads : System.tally leadBy c = [] := by
        rw [List.eq_nil_iff_forall_not_mem]
        intro id hled
        exact List.not_mem_nil (hnil ▸ hends id hled)
      rw [hleads]
      simp
  · refine iff_of_true ?_ nofun
    have hyield : System.yield leadBy (.run i ⟨.sfEnd req' id answer, ()⟩ : Action (gate o)) = [] :=
      rfl
    simpa [hyield] using hone

theorem Sharing.run {schedule : List (Action (gate o))} (hc : Sharing req c)
    (hcalls : ∀ call ∈ System.spawned schedule, call.asks o.rules.dns req)
    (hrun : (gate o).run c schedule = some c') : Sharing req c' := by
  refine System.run_invariant_of_forall
    (fun action => ∀ call : Call, action = .spawn call → call.asks o.rules.dns req) (Sharing req)
    (fun c action c' hspawn hc hstep => hc.step hspawn hstep) ?_ hc hrun
  rintro action haction call rfl
  exact hcalls call (System.mem_spawned.mpr haction)

theorem Sharing.run_timely {schedule : List (Action (gate o))} (hc : Sharing req c)
    (hone : (System.tally leadBy c).length ≤ 1)
    (hcalls : ∀ call ∈ System.spawned schedule, call.asks o.rules.dns req)
    (hrun : (gate o).run c schedule = some c') :
    (System.tally leadBy c').length ≤ 1 ↔ System.Along (Timely req) c schedule := by
  induction schedule generalizing c with
  | nil =>
      simp only [System.run, Option.some.injEq] at hrun
      subst hrun
      exact iff_of_true hone trivial
  | cons action rest ih =>
      obtain ⟨middle, hstep, hrest⟩ := Option.bind_eq_some_iff.mp hrun
      have hasks : ∀ call, .spawn call ∈ action :: rest → call.asks o.rules.dns req :=
        fun call hmem => hcalls call (System.mem_spawned.mpr hmem)
      have hmiddle := hc.step (fun call haction => hasks call (haction ▸ List.mem_cons_self)) hstep
      have hcalls' : ∀ call ∈ System.spawned rest, call.asks o.rules.dns req :=
        fun call hmem => hasks call (List.mem_cons_of_mem _ (System.mem_spawned.mp hmem))
      by_cases htimely : Timely req c action
      · have hrest' := ih hmiddle ((hc.step_timely hone hstep).mpr htimely) hcalls' hrest
        rw [hrest']
        constructor
        · intro hlong
          refine ⟨htimely, fun next hnext => ?_⟩
          cases hstep.symm.trans hnext
          exact hlong
        · exact fun hlong => hlong.2 middle hstep
      · -- The second flight stays led to the end.
        refine iff_of_false (fun hle => ?_) fun hlong => htimely hlong.1
        exact htimely ((hc.step_timely hone hstep).mp
          ((System.run_tally_length_le hrest).trans hle))

theorem sharing_start {w : World} (hmiss : w.hit req.key = none)
    (hidle : w.inflight.lookup req.key = none) : Sharing req (⟨w, []⟩ : Config (gate o)) where
  faithful := nofun
  asks := nofun
  leads := List.nodup_nil
  fresh := nofun
  inflight id := by simp [hidle, System.tally]
  flights := nofun
  joined := nofun
  waited := nofun
  cached cell hcell := by cases hmiss.symm.trans hcell
  hits := nofun

/-- The calls of a run share one lookup. -/
structure SharesOne (req : Request) (c : Config (gate o)) : Prop where
  /-- The function of `singleflight.Do` is started once at most, -/
  flown : (System.tally leadBy c).length ≤ 1
  /-- the lookup is run once at most, -/
  counted : (System.tally countedBy c).length ≤ 1
  single : ∀ looked looked', LookupRan req c looked → LookupRan req c looked' → looked = looked'
  /-- and every call that has returned got its result. -/
  shared : ∀ thread ∈ c.threads, ∀ result, thread.rest = .ret result →
    ∃ looked, LookupRan req c looked ∧ result = .answer (outcomeOf req.host looked)

end Run

/-- Any number of calls for one request that is not cached share one lookup,
in every interleaving in which none of them comes to `singleflight.Do` after a
flight has ended, and in no other. -/
theorem misses_share_iff (o : Opener) (req : Request) (hliteral : Addr.parse req.host = none)
    {w : World} (hmiss : w.hit req.key = none) (hidle : w.inflight.lookup req.key = none)
    {schedule : List (Action (gate o))} {c : Config (gate o)}
    (hcalls : ∀ call ∈ System.spawned schedule, call.asks o.rules.dns req)
    (hrun : (gate o).run ⟨w, []⟩ schedule = some c) :
    SharesOne req c ↔ System.Along (Timely req) ⟨w, []⟩ schedule := by
  have hstart : Sharing req (⟨w, []⟩ : Config (gate o)) := sharing_start hmiss hidle
  have hc := hstart.run hcalls hrun
  rw [← hstart.run_timely (Nat.zero_le 1) hcalls hrun]
  constructor
  · exact fun hshares => hshares.flown
  · intro hone
    refine ⟨hone, hc.counted_le.trans hone, fun _ _ hran hran' => hc.ran_unique hone hran hran', ?_⟩
    intro thread hthread result hresult
    exact hc.answer_ran hliteral hthread hresult

/-! ## A miss that comes late -/

def soughtName : Request := ⟨.tunnel, str "x"⟩

def soughtAnswer : Answer := ⟨{ addrs := [.v4 0x5db8d822], authoritative := true }, none⟩

/-- The flight `id` of the name, from its start to the end of the lookup. -/
def soughtFlight (id : Nat) (order : List Text) : List (Event sig) :=
  [⟨.sfDo soughtName, .lead id⟩] ++
    (sampleAttempt soughtName [.opened] (.ok [⟨[93, 184, 216, 34], []⟩])).drop 2 ++
    [⟨.answered 0 0, ()⟩, ⟨.releaseProbes [0], ()⟩, ⟨.now, 0⟩,
      ⟨.store soughtName { addrs := [.v4 0x5db8d822], expires := dnsCacheTTL }, order⟩,
      ⟨.sfEnd soughtName id soughtAnswer, ()⟩]

/-- Two calls miss. The first runs its flight to the end and stores the answer;
then the second comes to `singleflight.Do`. -/
def lateMiss : List (Action (gate (sampleOpener false))) :=
  [.spawn (.resolveTunnel (str "x")), .spawn (.resolveTunnel (str "x")),
    .run 0 ⟨.cacheGet soughtName, none⟩, .run 1 ⟨.cacheGet soughtName, none⟩] ++
    (soughtFlight 0 []).map (fun event => .run 0 event) ++
    (soughtFlight 1 [str "x"]).map (fun event => .run 1 event)

/-- The lookup of a name that is cached by now is run again, though its answers
are authoritative and nothing expires or is evicted. -/
theorem lateMiss_looksUpTwice :
    (∀ call ∈ System.spawned lateMiss, call.asks (sampleOpener false).rules.dns soughtName) ∧
      (∀ disturbance, .disturb disturbance ∉ lateMiss) ∧
      ∃ c, (gate (sampleOpener false)).run ⟨{ up := true }, []⟩ lateMiss = some c ∧
        (System.tally countedBy c).length = 2 ∧ (c.state.hit soughtName.key).isSome = true ∧
        (∀ thread ∈ c.threads, thread.rest = .ret (Result.answer soughtAnswer)) ∧
        ¬ SharesOne soughtName c := by
  refine ⟨List.forall_mem_cons.mpr ⟨rfl, List.forall_mem_singleton.mpr rfl⟩,
    by simp [lateMiss], ?_⟩
  have hruns : ((gate (sampleOpener false)).run ⟨{ up := true }, []⟩ lateMiss).any
      (fun c : Config (gate (sampleOpener false)) =>
        decide ((System.tally countedBy c).length = 2 ∧
          (c.state.hit soughtName.key).isSome = true ∧
          ∀ thread ∈ c.threads, thread.rest = .ret (Result.answer soughtAnswer))) = true := by
    decide +kernel
  obtain ⟨c, hrun, hends⟩ := (Option.any_eq_true ..).mp hruns
  obtain ⟨htwice, hhit, hreturned⟩ := of_decide_eq_true hends
  refine ⟨c, hrun, htwice, hhit, hreturned, fun hshares => ?_⟩
  have hone := hshares.counted
  omega

/-- Two calls miss, and the second joins the flight of the first. -/
def sharedMiss : List (Action (gate (sampleOpener false))) :=
  [.spawn (.resolveTunnel (str "x")), .spawn (.resolveTunnel (str "x")),
    .run 0 ⟨.cacheGet soughtName, none⟩, .run 1 ⟨.cacheGet soughtName, none⟩,
    .run 0 ⟨.sfDo soughtName, .lead 0⟩, .run 1 ⟨.sfDo soughtName, .join 0⟩] ++
    ((soughtFlight 0 []).drop 1).map (fun event => .run 0 event) ++
    [.run 1 ⟨.sfWait soughtName 0, ⟨soughtAnswer, soughtName⟩⟩]

theorem sharedMiss_shares :
    ∃ c, (gate (sampleOpener false)).run ⟨{ up := true }, []⟩ sharedMiss = some c ∧
      SharesOne soughtName c := by
  obtain ⟨c, hrun⟩ :
      ∃ c, (gate (sampleOpener false)).run ⟨{ up := true }, []⟩ sharedMiss = some c :=
    Option.isSome_iff_exists.mp (by decide +kernel)
  have hcalls : ∀ call ∈ System.spawned sharedMiss,
      call.asks (sampleOpener false).rules.dns soughtName :=
    List.forall_mem_cons.mpr ⟨rfl, List.forall_mem_singleton.mpr rfl⟩
  have hiff := misses_share_iff (sampleOpener false) soughtName (by decide +kernel) rfl rfl hcalls
    hrun
  exact ⟨c, hrun, hiff.mpr (by decide +kernel)⟩

end SshGate
