import SshGate.Dns.KeySpace

/-! # What enters the cache and what is served from it

Only an answer that is authoritative for its policy is stored. A degraded
answer ends its flight without a store, so the next call for the name looks it
up again; and a stored answer is served as it was stored, until it expires.
-/

namespace SshGate

open Go Interaction Program System

/-- There is nothing to store of the answer. -/
def Degraded (c : DnsCache) (answer : Answer) : Prop := ∀ now, c.entryOf answer now = none

/-- The history of a thread that leads flight `id` of `req` and has just
completed its lookup. -/
def Executed (c : DnsCache) (req : Request) (id : Nat) (history : List (Event sig))
    (answer : Answer) : Prop :=
  ∃ before start seg, history = before ++ leadEvents req id ++ takeOffEvents start ++ seg ∧
    (req.policy.lookup c (start + lookupTimeout) req.host).Returns seg answer

/-- The entry is worth keeping: the answer is authoritative and has addresses,
or it is authoritative that there are none. -/
def WorthKeeping (c : DnsCache) (answer : Answer) (now : Nat) (entry : CacheEntry) : Prop :=
  answer.res.authoritative = true ∧
    (answer.err = none ∧ answer.res.addrs ≠ [] ∧
        entry = { addrs := answer.res.addrs, expires := now + c.ttl,
                  localDirect := answer.res.localDirect } ∨
      (∃ err, answer.err = some err ∧ err.isNotFound = true) ∧
        entry = { expires := now + c.negativeTTL, neg := true })

theorem worthKeeping_of_entryOf {c : DnsCache} {answer : Answer} {now : Nat} {entry : CacheEntry}
    (hentry : c.entryOf answer now = some entry) : WorthKeeping c answer now entry := by
  unfold DnsCache.entryOf at hentry
  split at hentry
  next err herr =>
    rw [Option.ite_none_right_eq_some, Option.some.injEq, Bool.and_eq_true] at hentry
    obtain ⟨⟨hauthoritative, hnotFound⟩, rfl⟩ := hentry
    exact ⟨hauthoritative, .inr ⟨⟨err, herr, hnotFound⟩, rfl⟩⟩
  next herr =>
    rw [Option.ite_none_right_eq_some, Option.some.injEq] at hentry
    obtain ⟨⟨haddrs, hauthoritative⟩, rfl⟩ := hentry
    exact ⟨hauthoritative, .inl ⟨herr, haddrs, rfl⟩⟩

/-! ## Which answers are degraded -/

section Degraded

variable {c : DnsCache} {answer : Answer}

theorem Degraded.of_not_authoritative (hanswer : answer.res.authoritative = false) :
    Degraded c answer := by
  intro now
  unfold DnsCache.entryOf
  split
  next => simp [hanswer]
  next => simp [hanswer]

theorem Degraded.of_err {err : Err} (herr : answer.err = some err)
    (hfound : err.isNotFound = false) : Degraded c answer := by
  intro now
  simp [DnsCache.entryOf, herr, hfound]

theorem Degraded.of_empty (herr : answer.err = none) (hempty : answer.res.addrs = []) :
    Degraded c answer := by
  intro now
  simp [DnsCache.entryOf, herr, hempty]

/-- A lookup that fell back to the local resolver is not authoritative. -/
theorem lookup_fallback {ctx : Nat} {host : Text} {seg : List (Event sig)}
    (hpath : (lookup c ctx host).Returns seg answer)
    (hfallback : (⟨.fallback, ()⟩ : Event sig) ∈ seg) : answer.res.authoritative = false := by
  obtain ⟨now, rest₁, rfl, hrest₁⟩ := returns_perform.mp hpath
  obtain ⟨claims, active, rest₂, rfl, hclaims, hrest₂⟩ := returns_bind.mp hrest₁
  obtain ⟨start, rest₃, rfl, hrest₃⟩ := returns_perform.mp hrest₂
  obtain ⟨walked, found, rest₄, rfl, hwalked, hrest₄⟩ := returns_bind.mp hrest₃
  obtain ⟨fell, fallen, rest₅, rfl, hfell, hrest₅⟩ := returns_bind.mp hrest₄
  obtain ⟨_, done, rfl, hdone⟩ := returns_perform.mp hrest₅
  obtain ⟨rfl, rfl⟩ := returns_ret.mp hdone
  -- Neither the claims nor the walk fall back.
  have hclaim : (⟨.fallback, ()⟩ : Event sig) ∉ claims := by
    intro hmem
    obtain ⟨u, hop⟩ := (claimAll_confined now _).of_mem hclaims hmem
    cases hop
  have hwalk : (⟨.fallback, ()⟩ : Event sig) ∉ walked := by
    intro hmem
    cases (walk_inWalk c _ host active).of_mem hwalked hmem
  have hmem : (⟨.fallback, ()⟩ : Event sig) ∈ fell := by
    simpa [hclaim, hwalk] using hfallback
  cases found with
  | some answer =>
      obtain ⟨rfl, _⟩ := returns_ret.mp hfell
      cases hmem
  | none =>
      obtain ⟨_, _, _, _, hauthoritative, _⟩ := lookupFallback_returns hfell
      exact hauthoritative

end Degraded

/-! ## Flights as a whole -/

def Op.isCacheGet : Op → Prop
  | .cacheGet _ => True
  | _ => False

theorem cachedLookup_opens (c : DnsCache) (req : Request) :
    Opens Op.isCacheGet (cachedLookup c req) := by
  have hfly : Confined (fun op : Op => ¬ op.isCacheGet) (fly c req) := by
    apply (fly_inFlight c req).imp
    intro op hop
    cases op <;> simp_all [Op.inFlight, Op.isCacheGet]
  unfold cachedLookup
  split
  next => trivial
  next =>
    intro hit
    cases hit with
    | some cell => trivial
    | none =>
        refine .perform id fun flight => ?_
        cases flight with
        | join id => exact .perform (fun h => h) fun shared => trivial
        | lead id => exact hfly.bind fun answer => .perform (fun h => h) fun _ => trivial

/-- After its lookup a flight settles the answer and ends. -/
theorem cachedLookup_settles {c : DnsCache} {req : Request} (hparse : Addr.parse req.host = none)
    {α : Type} {f : Answer → Prog α} {id start : Nat} {seg more : List (Event sig)}
    {answer : Answer} {rest : Prog α}
    (hseg : (req.policy.lookup c (start + lookupTimeout) req.host).Returns seg answer)
    (hpath : (cachedLookup c req >>= f).Reaches
      (leadEvents req id ++ takeOffEvents start ++ seg ++ more) rest) :
    (settle c req answer >>= fun result => act (.sfEnd req id result) >>= fun _ =>
      f result).Reaches more rest := by
  simp only [cachedLookup, hparse] at hpath
  cases hpath with
  | act hpath =>
      cases hpath with
      | act hpath =>
          cases hpath with
          | act hpath =>
              cases hpath with
              | act hpath =>
                  have hflight : ((req.policy.lookup c (start + lookupTimeout) req.host >>=
                      settle c req >>= fun result => act (.sfEnd req id result) >>= fun _ =>
                        pure result) >>= f).Reaches (seg ++ more) rest := hpath
                  rw [bind_assoc, bind_assoc] at hflight
                  exact hflight.after_returns hseg

theorem settle_of_degraded {c : DnsCache} {req : Request} {answer : Answer}
    (hdegraded : Degraded c answer) :
    settle c req answer = .ret (outcomeOf req.host answer) := by
  have hnone := hdegraded 0
  unfold settle
  split
  next err herr =>
    split
    next hstore => simp [DnsCache.entryOf, herr, hstore] at hnone
    next => simp [outcomeOf, herr]
  next herr =>
    split
    next hempty => simp [outcomeOf, herr, hempty]
    next hsome =>
      split
      next hstore => simp [DnsCache.entryOf, herr, hstore, hsome] at hnone
      next => simp [outcomeOf, herr, hsome]

section Flights

variable {o : Opener} {c c' : Config (gate o)}

/-- From a cache access on, the thread follows the cached lookup it belongs to. -/
theorem cachedLookup_at (hc : Faithful c) {i : Nat} {req : Request} {cell : Option Cell}
    {before after : List (Event sig)}
    (htrace : traceOf c i = before ++ ⟨.cacheGet req, cell⟩ :: after) :
    Addr.parse req.host = none ∧ ∃ (f : Answer → Prog Result) (rest : Prog Result),
      (cachedLookup o.rules.dns req >>= f).Reaches (⟨.cacheGet req, cell⟩ :: after) rest := by
  obtain ⟨thread, hthread, _⟩ : Performed c i ⟨.cacheGet req, cell⟩ := by
    rw [performed_iff, htrace]
    simp
  rw [traceOf_eq hthread] at htrace
  have hpath := hc thread (List.mem_of_getElem? hthread)
  rw [htrace] at hpath
  have hkind : ∀ op : Op, op.isCacheGet → op.isDial = false := by
    intro op hop
    cases op <;> simp_all [Op.isCacheGet, Op.isDial]
  obtain ⟨⟨req', _⟩, ⟨next, hnext⟩, f, hcall⟩ := (program_calls o thread.call).opened
    Op.isCacheGet hkind (fun req => cachedLookup_opens o.rules.dns req) (by trivial) hpath
  obtain ⟨hparse, rfl⟩ : Addr.parse req'.host = none ∧ req' = req := by
    simp only [cachedLookup] at hnext
    split at hnext
    next => cases hnext
    next hparse =>
      have hact : Program.act (S := sig) (.cacheGet req') _ = .act (.cacheGet req) next := hnext
      cases hact
      exact ⟨hparse, rfl⟩
  exact ⟨hparse, f, thread.rest, hcall⟩

/-- A degraded answer ends its flight: nothing is stored. -/
theorem Executed.ends (hc : Faithful c) {i id : Nat} {req : Request} {answer : Answer}
    {history more : List (Event sig)} (hexecuted : Executed o.rules.dns req id history answer)
    (hdegraded : Degraded o.rules.dns answer) (htrace : traceOf c i = history ++ more) :
    more = [] ∨ ∃ rest, more = ⟨.sfEnd req id (outcomeOf req.host answer), ()⟩ :: rest := by
  obtain ⟨before, start, seg, rfl, hseg⟩ := hexecuted
  have hget : traceOf c i = before ++ ⟨.cacheGet req, none⟩ ::
      (⟨.sfDo req, .lead id⟩ :: takeOffEvents start ++ seg ++ more) := by simp [htrace]
  obtain ⟨hparse, f, rest, hpath⟩ := cachedLookup_at hc hget
  have hflight : (cachedLookup o.rules.dns req >>= f).Reaches
      (leadEvents req id ++ takeOffEvents start ++ seg ++ more) rest := hpath
  have hends := cachedLookup_settles hparse hseg hflight
  rw [settle_of_degraded hdegraded] at hends
  cases hends with
  | refl => exact .inl rfl
  | act _ => exact .inr ⟨_, rfl⟩

end Flights

/-! ## Misses last -/

theorem Cache.lookup_purge_of_le {cache : Cache} {now : Nat} {key : Text} {cell : Cell}
    (hcell : cache.lookup key = some cell) (hfresh : now ≤ cell.entry.expires) :
    (cache.purge now).lookup key = some cell := by
  have herase : ∀ (keys : List Text) (cache : Cache), key ∉ keys →
      (keys.foldl (fun kept key => kept.erase key) cache).lookup key = cache.lookup key := by
    intro keys
    induction keys with
    | nil => exact fun _ _ => rfl
    | cons head rest ih =>
        intro cache hkey
        obtain ⟨hhead, hrest⟩ := not_or.mp (List.mem_cons.not.mp hkey)
        rw [List.foldl_cons, ih _ hrest, AList.lookup_erase_ne hhead]
  unfold Cache.purge
  rw [herase _ _ ?_, hcell]
  simp [hcell, Nat.not_lt.mpr hfresh]

theorem World.hit_eq_some {w : World} {key : Text} {cell : Cell} :
    w.hit key = some cell ↔ w.cache.lookup key = some cell ∧ w.clock < cell.entry.expires := by
  simp [World.hit, Option.filter_eq_some_iff]

def Op.storesTo (key : Text) : Op → Prop
  | .store req _ => req.key = key
  | _ => False

/-- A name that is not served stays so until its key is stored. -/
theorem step_hit_none {o : Opener} {c c' : Config (gate o)} {action : Action (gate o)} {key : Text}
    (hmiss : c.state.hit key = none) (hstep : (gate o).step c action = some c')
    (hother : ∀ i event, action = .run i event → ¬ event.op.storesTo key) :
    c'.state.hit key = none := by
  by_contra hhit
  obtain ⟨cell, hcell⟩ := Option.ne_none_iff_exists'.mp hhit
  obtain ⟨hlookup, hfresh⟩ := World.hit_eq_some.mp hcell
  have hold : c.state.cache.lookup key = some cell := by
    rcases step_cache hstep with hsame | ⟨i, req, entry, order, rfl, _, hstore⟩ | ⟨_, hpurge⟩
    · rwa [hsame] at hlookup
    · rw [hstore] at hlookup
      rcases Cache.lookup_store hlookup with ⟨rfl, _⟩ | hold
      · exact absurd rfl (hother i _ rfl)
      · exact hold
    · rw [hpurge] at hlookup
      exact Cache.lookup_purge hlookup
  have hclock := step_clock hstep
  rw [World.hit_eq_some.mpr ⟨hold, by omega⟩] at hmiss
  cases hmiss

theorem run_hit_none {o : Opener} {c c' : Config (gate o)} {schedule : List (Action (gate o))}
    {key : Text} (hmiss : c.state.hit key = none)
    (hother : ∀ i event, .run i event ∈ schedule → ¬ event.op.storesTo key)
    (hrun : (gate o).run c schedule = some c') : c'.state.hit key = none := by
  refine run_invariant_of_forall (fun action : Action (gate o) => ∀ i event,
    action = .run i event → ¬ event.op.storesTo key)
    (fun c : Config (gate o) => c.state.hit key = none) ?_ ?_ hmiss hrun
  · intro c action c' haction hmiss hstep
    exact step_hit_none hmiss hstep haction
  · rintro action haction i event rfl
    exact hother i event haction

/-- A flight that was ended is not in flight any more. -/
def EndedLanded {o : Opener} (c : Config (gate o)) : Prop :=
  ∀ i req id answer, Performed c i ⟨.sfEnd req id answer, ()⟩ →
    ∀ key, c.state.inflight.lookup key ≠ some id

theorem step_endedLanded {o : Opener} {c c' : Config (gate o)} {action : Action (gate o)}
    (htraced : Traced c) (hc : EndedLanded c) (hstep : (gate o).step c action = some c') :
    EndedLanded c' := by
  intro i req id answer hended key hkey
  rcases performed_of_step hstep hended with hold | rfl
  · have hbefore := hc i req id answer hold
    rcases step_flights hstep with ⟨_, hsame, _⟩ | ⟨j, req', _, _, hstate⟩ |
      ⟨j, req', ended, answer', _, hstate⟩
    · exact hbefore key (hsame ▸ hkey)
    · rw [hstate, World.takeOff_inflight] at hkey
      by_cases hreq : key = req'.key
      · subst hreq
        rw [AList.lookup_insert] at hkey
        obtain ⟨thread, hthread, hmem⟩ := hold
        obtain ⟨before, after, hsplit, hguard⟩ := guarded_of_mem (program_always o)
          htraced.faithful (List.mem_of_getElem? hthread) hmem
        obtain ⟨result, hled⟩ := htraced.flights.led i req id
          ⟨thread, hthread, hsplit ▸ List.mem_append_left _ (CallStep.sfEnd hguard).1⟩
        rw [← Option.some.inj hkey, htraced.flights.fresh _ le_rfl] at hled
        cases hled
      · rw [AList.lookup_insert_ne hreq] at hkey
        exact hbefore key hkey
    · rw [hstate, World.land_inflight] at hkey
      by_cases hreq : key = req'.key
      · subst hreq
        rw [AList.lookup_erase] at hkey
        cases hkey
      · rw [AList.lookup_erase_ne hreq] at hkey
        exact hbefore key hkey
  · obtain ⟨thread, _, hthread, _, _, hguard⟩ := guarded_of_step (program_always o)
      htraced.faithful hstep
    obtain ⟨result, hled⟩ := htraced.flights.led i req id ⟨thread, hthread, hguard.sfEnd.1⟩
    obtain ⟨_, _, state, _, _, hperform, rfl⟩ := step_run_eq_some.mp hstep
    simp only [World.perform, Option.some.injEq] at hperform
    subst hperform
    rw [World.land_inflight] at hkey
    have hreq : key ≠ req.key := by
      rintro rfl
      rw [AList.lookup_erase] at hkey
      cases hkey
    rw [AList.lookup_erase_ne hreq] at hkey
    obtain ⟨flight, hflight, hleader⟩ := htraced.flights.inflight key id hkey
    rw [hled] at hflight
    exact hreq (by rw [← hleader, ← Option.some.inj hflight])

theorem run_endedLanded {o : Opener} {c : Config (gate o)} {schedule : List (Action (gate o))}
    (hrun : (gate o).run ⟨{}, []⟩ schedule = some c) : EndedLanded c := by
  have hinv := run_invariant (fun c => Traced c ∧ EndedLanded c) ?_ ?_ hrun
  · exact hinv.2
  · rintro c action c' ⟨htraced, hc⟩ hstep
    exact ⟨step_traced htraced hstep, step_endedLanded htraced hc hstep⟩
  · exact ⟨traced_start, by simp [EndedLanded, Performed]⟩

/-! ## The law of the cache -/

section Law

variable {o : Opener}

/-- How the cache is changed and read in a configuration. -/
structure CachesAuthoritative (c : Config (gate o)) : Prop where
  /-- It changes by a purge of expired entries, or by the store of a flight
  whose lookup gave an answer worth keeping. -/
  changes : ∀ action c', (gate o).step c action = some c' → c'.state.cache ≠ c.state.cache →
    (action = .disturb .purge ∧ ∀ key cell, c.state.cache.lookup key = some cell →
      c.state.clock ≤ cell.entry.expires → c'.state.cache.lookup key = some cell) ∨
    ∃ i req id entry order history now answer, action = .run i ⟨.store req entry, order⟩ ∧
      traceOf c i = history ++ [⟨.now, now⟩] ∧ Executed o.rules.dns req id history answer ∧
      WorthKeeping o.rules.dns answer now entry
  /-- After a degraded answer the flight ends, with the cache as it was. -/
  dropped : ∀ i req id event c' answer, (gate o).step c (.run i event) = some c' →
    Executed o.rules.dns req id (traceOf c i) answer → Degraded o.rules.dns answer →
    event.op = .sfEnd req id (outcomeOf req.host answer) ∧ c'.state.cache = c.state.cache
  /-- An entry is served before it expires, under its own key and as it was
  stored. -/
  served : ∀ i req cell c', (gate o).step c (.run i ⟨.cacheGet req, some cell⟩) = some c' →
    c.state.clock < cell.entry.expires ∧ cell.origin.key = req.key ∧
    (∃ j order, Performed c j ⟨.store cell.origin cell.entry, order⟩) ∧
    ∃ answer, (cachedLookup o.rules.dns req).Returns [⟨.cacheGet req, some cell⟩] answer ∧
      (cell.entry.neg = false → answer.err = none ∧ answer.res.addrs = cell.entry.addrs ∧
        answer.res.localDirect = cell.entry.localDirect) ∧
      (cell.entry.neg = true → answer.err = some (.dns req.host .notFound))

theorem Traced.cachesAuthoritative {c : Config (gate o)} (hc : Traced c) :
    CachesAuthoritative c where
  changes := by
    intro action c' hstep hne
    rcases step_cache hstep with hsame | ⟨i, req, entry, order, rfl, _, _⟩ | ⟨rfl, hpurge⟩
    · exact absurd hsame hne
    · obtain ⟨call, hguard⟩ := guarded_traceOf (program_always o) hc.faithful hstep
      obtain ⟨before, id, start, seg, now, answer, hhistory, hanswer, hentry⟩ :=
        CallStep.store hguard
      exact .inr ⟨i, req, id, entry, order, _, now, answer, rfl, hhistory,
        ⟨before, start, seg, rfl, hanswer⟩, worthKeeping_of_entryOf hentry⟩
    · refine .inl ⟨rfl, fun key cell hcell hfresh => ?_⟩
      rw [hpurge]
      exact Cache.lookup_purge_of_le hcell hfresh
  dropped := by
    intro i req id event c' answer hstep hexecuted hdegraded
    have htrace : traceOf c' i = traceOf c i ++ [event] := by
      rw [step_traceOf hstep]
      simp [eventsOf]
    have hop : event.op = .sfEnd req id (outcomeOf req.host answer) := by
      rcases hexecuted.ends (step_faithful hc.faithful hstep) hdegraded htrace with
        hnone | ⟨rest, hevent⟩
      · cases hnone
      · cases hevent
        rfl
    refine ⟨hop, ?_⟩
    rcases step_cache hstep with hsame | ⟨j, req', entry, order, haction, _⟩ | ⟨hpurge, _⟩
    · exact hsame
    · cases haction
      cases hop
    · cases hpurge
  served := by
    intro i req cell c' hstep
    obtain ⟨hcell, _⟩ := step_cacheGet hstep
    obtain ⟨hlookup, hfresh⟩ := World.hit_eq_some.mp hcell.symm
    obtain ⟨hkey, thread, hthread, before, seg, now, order, after, ctx, looked, htrace, _⟩ :=
      hc.cells _ _ hlookup
    obtain ⟨j, hj⟩ := List.mem_iff_getElem?.mp hthread
    refine ⟨hfresh, hkey, ⟨j, order, thread, hj, by simp [htrace]⟩, cell.entry.answer req.host, ?_,
      ?_, ?_⟩
    · obtain ⟨call, hguard⟩ := guarded_traceOf (program_always o) hc.faithful hstep
      have hparse : Addr.parse req.host = none := (CallStep.request hguard rfl).2
      simp only [cachedLookup, hparse]
      exact .act (.refl _)
    · intro hneg
      simp [CacheEntry.answer, hneg]
    · intro hneg
      simp [CacheEntry.answer, hneg]

end Law

/-- Degraded answers never enter the cache. A lookup that fell back, failed
under the local policy or found no address is degraded; and after a call whose
lookup was degraded, with no other store to its key, the key is not served: the
next call runs a lookup, or joins one that another call has started since. -/
theorem degraded_never_cached (o : Opener) {schedule : List (Action (gate o))}
    {c : Config (gate o)} (hrun : (gate o).run ⟨{}, []⟩ schedule = some c) :
    CachesAuthoritative c ∧
      (∀ (policy : Policy) ctx host seg answer,
        (policy.lookup o.rules.dns ctx host).Returns seg answer →
        (⟨.fallback, ()⟩ : Event sig) ∈ seg ∨ policy = .local ∧ answer.err ≠ none ∨
          answer.err = none ∧ answer.res.addrs = [] → Degraded o.rules.dns answer) ∧
      ∀ (first rest : List (Action (gate o))) i (req : Request) id start seg answer last later,
        schedule = first ++ .run i ⟨.cacheGet req, none⟩ :: rest →
        eventsOf i rest = ⟨.sfDo req, .lead id⟩ :: takeOffEvents start ++ seg ++ last :: later →
        (req.policy.lookup o.rules.dns (start + lookupTimeout) req.host).Returns seg answer →
        Degraded o.rules.dns answer →
        (∀ j event, .run j event ∈ rest → event.op.storesTo req.key → j = i ∧ event ∉ later) →
        ∀ j (req' : Request) c', req'.key = req.key →
          (∀ cell, (gate o).step c (.run j ⟨.cacheGet req', cell⟩) = some c' → cell = none) ∧
          ∀ flight, (gate o).step c (.run j ⟨.sfDo req', flight⟩) = some c' →
            flight = .lead c.state.nextFlight ∨ ∃ other, flight = .join other ∧ other ≠ id := by
  refine ⟨(run_traced hrun).cachesAuthoritative, ?_, ?_⟩
  · rintro policy ctx host seg answer hpath (hfallback | ⟨rfl, herr⟩ | ⟨herr, hempty⟩)
    · cases policy with
      | tunnel => exact .of_not_authoritative (lookup_fallback hpath hfallback)
      | «local» =>
          cases (localLookup_confined host).of_mem hpath hfallback
    · rcases localLookup_returns hpath with ⟨err, _, rfl⟩ | ⟨ips, _, rfl⟩
      · exact .of_err rfl rfl
      · exact absurd rfl herr
    · exact .of_empty herr hempty
  · intro first rest i req id start seg answer last later hsplit hevents hseg hdegraded hother j
      req' c' hkey
    have htrace : traceOf c i = eventsOf i first ++ leadEvents req id ++ takeOffEvents start ++
        seg ++ last :: later := by
      rw [run_traceOf hrun, hsplit, eventsOf_append, eventsOf_run, hevents]
      simp [traceOf]
    obtain rfl : last = ⟨.sfEnd req id (outcomeOf req.host answer), ()⟩ := by
      have hexecuted : Executed o.rules.dns req id _ answer :=
        ⟨eventsOf i first, start, seg, rfl, hseg⟩
      rcases hexecuted.ends (run_faithful hrun) hdegraded htrace with hnone | ⟨_, hlast⟩
      · cases hnone
      · exact (List.cons.inj hlast).1
    have hended : Performed c i ⟨.sfEnd req id (outcomeOf req.host answer), ()⟩ := by
      rw [performed_iff, htrace]
      simp
    -- No store to the key: those of other threads are excluded, and the
    -- flight itself has none.
    have hnone : ∀ j event, .run j event ∈ rest → ¬ event.op.storesTo req.key := by
      intro j event hmem hstore
      obtain ⟨rfl, hlater⟩ := hother j event hmem hstore
      rw [← mem_eventsOf, hevents] at hmem
      simp only [List.cons_append, List.append_assoc, List.mem_cons, List.mem_append] at hmem
      rcases hmem with rfl | rfl | rfl | hmem | hmem | rfl | hmem
      · exact hstore
      · exact hstore
      · exact hstore
      · cases hmem
      · have hin := (policyLookup_inLookup o.rules.dns _ req.host req.policy).of_mem hseg hmem
        obtain ⟨op, reply⟩ := event
        cases op <;> simp_all [Op.storesTo, Op.inLookup]
      · exact hstore
      · exact hlater hmem
    have hmiss : c.state.hit req.key = none := by
      rw [hsplit, run_append] at hrun
      obtain ⟨c₀, _, hrest⟩ := Option.bind_eq_some_iff.mp hrun
      simp only [run, Option.bind_eq_some_iff] at hrest
      obtain ⟨c₁, hget, hrest⟩ := hrest
      obtain ⟨hcell, hstate⟩ := step_cacheGet hget
      have hmiss₁ : c₁.state.hit req.key = none := by rw [hstate, ← hcell]
      exact run_hit_none hmiss₁ hnone hrest
    constructor
    · intro cell hstep
      rw [(step_cacheGet hstep).1, hkey, hmiss]
    · intro flight hstep
      cases flight with
      | lead flight => exact .inl (by rw [(step_lead hstep).2.1])
      | join other =>
          refine .inr ⟨other, rfl, ?_⟩
          rintro rfl
          exact run_endedLanded hrun i req other _ hended _ (step_join hstep).1

/-- With the tunnel down the lookup of `x` falls back to the local resolver. -/
def fallenBackSeg : List (Event sig) :=
  [⟨.now, 0⟩, ⟨.claim 0 0, .open⟩, ⟨.now, 0⟩, ⟨.now, 0⟩, ⟨.now, 0⟩,
    ⟨.ask 0 (str "x.") tunnelLookupTimeout, 1⟩, ⟨.dialServer 0, .notConnected⟩,
    ⟨.resolverReply 0 (str "x."), .error (.dns false (str "not connected"))⟩, ⟨.now, 0⟩,
    ⟨.tunnelUp, false⟩, ⟨.fallback, ()⟩, ⟨.now, 0⟩, ⟨.lastFallback 0, ()⟩,
    ⟨.localLookup (str "x"), .ok [⟨[10, 0, 0, 1], []⟩]⟩, ⟨.releaseProbes [0], ()⟩]

def fallenBackAnswer : Answer := ⟨{ addrs := [.v4 0x0a000001] }, none⟩

def fallenBack : List (Action (gate (sampleOpener false))) :=
  let req : Request := ⟨.tunnel, str "x"⟩
  (gate (sampleOpener false)).alone [] (.resolveTunnel (str "x"))
    (leadEvents req 0 ++ takeOffEvents 0 ++ fallenBackSeg ++
      [⟨.sfEnd req 0 fallenBackAnswer, ()⟩])

theorem fallenBackSeg_returns :
    (lookup (sampleOpener false).rules.dns (0 + lookupTimeout) (str "x")).Returns fallenBackSeg
      fallenBackAnswer := by
  unfold Returns
  repeat first
    | exact .refl _
    | apply Reaches.act

/-- The address is not kept: the next call does not hit the cache. -/
theorem fallenBack_never_cached :
    ∃ c, (gate (sampleOpener false)).run ⟨{}, []⟩ fallenBack = some c ∧
      Degraded (sampleOpener false).rules.dns fallenBackAnswer ∧
      ∀ j cell c', (gate (sampleOpener false)).step c
        (.run j ⟨.cacheGet ⟨.tunnel, str "x"⟩, cell⟩) = some c' → cell = none := by
  obtain ⟨c, hrun⟩ : ∃ c, (gate (sampleOpener false)).run ⟨{}, []⟩ fallenBack = some c :=
    Option.isSome_iff_exists.mp (by decide +kernel)
  obtain ⟨_, hdegraded, hagain⟩ := degraded_never_cached (sampleOpener false) hrun
  have hanswer := hdegraded .tunnel _ _ _ _ fallenBackSeg_returns (.inl (by simp [fallenBackSeg]))
  refine ⟨c, hrun, hanswer, fun j cell c' hstep => ?_⟩
  have hmiss := hagain [.spawn (.resolveTunnel (str "x"))] _ 0 ⟨.tunnel, str "x"⟩ 0 0 fallenBackSeg
    fallenBackAnswer _ [] rfl rfl fallenBackSeg_returns hanswer ?_ j ⟨.tunnel, str "x"⟩ c' rfl
  · exact hmiss.1 cell hstep
  · intro j event hmem hstore
    obtain ⟨_, _, haction⟩ := List.mem_map.mp hmem
    cases haction
    exact ⟨rfl, List.not_mem_nil⟩

end SshGate
