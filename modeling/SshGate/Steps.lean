import SshGate.World

/-! # What a step changes

One inversion lemma for each part of the shared state: the cache, the flights,
the tunnel resolvers and the clock. Every invariant is proved from these.
-/

namespace SshGate

open Go Interaction

/-- The three outcomes of a claim. -/
theorem Upstream.claim_cases (u : Upstream) (now : Nat) :
    (u.pausedUntil = none ∧ u.claim now = (.open, u)) ∨
      (∃ x, u.pausedUntil = some x ∧ (u.probing = true ∨ now < x) ∧ u.claim now = (.refused, u)) ∨
      ∃ x, u.pausedUntil = some x ∧ u.probing = false ∧ x ≤ now ∧
        u.claim now = (.probe, { u with probing := true }) := by
  unfold Upstream.claim
  split
  next hpaused => exact .inl ⟨hpaused, rfl⟩
  next x hpaused =>
    split
    next hrefused =>
      simp only [Bool.or_eq_true, decide_eq_true_eq] at hrefused
      exact .inr (.inl ⟨x, hpaused, hrefused, rfl⟩)
    next hprobe =>
      simp only [Bool.or_eq_true, decide_eq_true_eq, not_or, Bool.not_eq_true,
        Nat.not_lt] at hprobe
      exact .inr (.inr ⟨x, hpaused, hprobe.1, hprobe.2, rfl⟩)

theorem Upstream.claim_pausedUntil (u : Upstream) (now : Nat) :
    (u.claim now).2.pausedUntil = u.pausedUntil := by
  rcases u.claim_cases now with ⟨_, hclaim⟩ | ⟨x, _, _, hclaim⟩ | ⟨x, _, _, _, hclaim⟩
  · rw [hclaim]
  · rw [hclaim]
  · rw [hclaim]

section Perform

variable {event : Event sig} {w w' : World}

theorem perform_cache (hperform : World.perform event.op w event.reply = some w') :
    w'.cache = w.cache ∨ ∃ req entry order, event = ⟨.store req entry, order⟩ ∧
      order.Perm w.cache.keys ∧ w'.cache = w.cache.store req.key ⟨entry, req⟩ order := by
  obtain ⟨op, reply⟩ := event
  cases op with
  | store req entry =>
      simp only [World.perform, Option.ite_none_right_eq_some, Option.some.injEq] at hperform
      obtain ⟨horder, rfl⟩ := hperform
      exact .inr ⟨req, entry, reply, rfl, horder, rfl⟩
  | sfDo req =>
      left
      cases reply with
      | lead flight => grind [World.perform]
      | join flight => grind [World.perform]
  | _ => left; grind [World.perform]

theorem perform_flights (hperform : World.perform event.op w event.reply = some w') :
    (w'.flights = w.flights ∧ w'.inflight = w.inflight ∧ w'.nextFlight = w.nextFlight) ∨
      (∃ req, event = ⟨.sfDo req, .lead w.nextFlight⟩ ∧ w.inflight.lookup req.key = none ∧
        w' = w.takeOff req) ∨
      ∃ req flight answer, event = ⟨.sfEnd req flight answer, ()⟩ ∧
        w' = w.land req flight answer := by
  obtain ⟨op, reply⟩ := event
  cases op with
  | sfDo req =>
      cases reply with
      | lead flight =>
          simp only [World.perform, Option.ite_none_right_eq_some, Option.some.injEq] at hperform
          obtain ⟨⟨hnone, rfl⟩, rfl⟩ := hperform
          exact .inr (.inl ⟨req, rfl, hnone, rfl⟩)
      | join flight => left; grind [World.perform]
  | sfEnd req flight answer =>
      simp only [World.perform, Option.some.injEq] at hperform
      exact .inr (.inr ⟨req, flight, answer, rfl, hperform.symm⟩)
  | _ => left; grind [World.perform]

theorem perform_upstreams (hperform : World.perform event.op w event.reply = some w') :
    w'.upstreams = w.upstreams ∨
      (∃ u now, event = ⟨.claim u now, ((w.upstreams u).claim now).1⟩ ∧
        w'.upstreams = Function.update w.upstreams u ((w.upstreams u).claim now).2) ∨
      (∃ u rtt, event = ⟨.answered u rtt, ()⟩ ∧
        w'.upstreams = Function.update w.upstreams u ((w.upstreams u).answered w.clock rtt)) ∨
      (∃ u err, event = ⟨.failed u err, w.clock⟩ ∧
        w'.upstreams = Function.update w.upstreams u ((w.upstreams u).failed w.clock err)) ∨
      ∃ claimed, event = ⟨.releaseProbes claimed, ()⟩ ∧ w' = w.releaseProbes claimed := by
  obtain ⟨op, reply⟩ := event
  cases op with
  | claim u now =>
      simp only [World.perform, Option.ite_none_right_eq_some, Option.some.injEq] at hperform
      obtain ⟨rfl, rfl⟩ := hperform
      exact .inr (.inl ⟨u, now, rfl, rfl⟩)
  | answered u rtt =>
      simp only [World.perform, Option.some.injEq] at hperform
      exact .inr (.inr (.inl ⟨u, rtt, rfl, by rw [← hperform]; rfl⟩))
  | failed u err =>
      simp only [World.perform, Option.ite_none_right_eq_some, Option.some.injEq] at hperform
      obtain ⟨rfl, rfl⟩ := hperform
      exact .inr (.inr (.inr (.inl ⟨u, err, rfl, rfl⟩)))
  | releaseProbes claimed =>
      simp only [World.perform, Option.some.injEq] at hperform
      exact .inr (.inr (.inr (.inr ⟨claimed, rfl, hperform.symm⟩)))
  | sfDo req =>
      left
      cases reply with
      | lead flight => grind [World.perform]
      | join flight => grind [World.perform]
  | _ => left; grind [World.perform]

theorem perform_clock (hperform : World.perform event.op w event.reply = some w') :
    w'.clock = w.clock := by
  obtain ⟨op, reply⟩ := event
  cases op with
  | sfDo req =>
      cases reply with
      | lead flight => grind [World.perform]
      | join flight => grind [World.perform]
  | _ => grind [World.perform]

theorem perform_up (hperform : World.perform event.op w event.reply = some w') :
    w'.up = w.up := by
  obtain ⟨op, reply⟩ := event
  cases op with
  | sfDo req =>
      cases reply with
      | lead flight => grind [World.perform, World.takeOff_up]
      | join flight => grind [World.perform]
  | _ => grind [World.perform, World.land_up, World.setUpstream_up, World.releaseProbes_up]

end Perform

section Step

variable {o : Opener} {c c' : Config (gate o)} {action : Action (gate o)}

/-- The cache changes by a store or a purge only. -/
theorem step_cache (hstep : (gate o).step c action = some c') :
    c'.state.cache = c.state.cache ∨
      (∃ i req entry order, action = .run i ⟨.store req entry, order⟩ ∧
        order.Perm c.state.cache.keys ∧
        c'.state.cache = c.state.cache.store req.key ⟨entry, req⟩ order) ∨
      (action = .disturb .purge ∧ c'.state.cache = c.state.cache.purge c.state.clock) := by
  cases action with
  | spawn call =>
      simp only [System.step, Option.some.injEq] at hstep
      exact .inl (by rw [← hstep])
  | disturb disturbance =>
      cases disturbance with
      | tick elapsed =>
          simp only [System.step, World.disturb, Option.map_some, Option.some.injEq] at hstep
          exact .inl (by rw [← hstep])
      | tunnel up =>
          simp only [System.step, World.disturb, Option.map_some, Option.some.injEq] at hstep
          exact .inl (by rw [← hstep])
      | purge =>
          simp only [System.step, World.disturb, Option.map_some, Option.some.injEq] at hstep
          exact .inr (.inr ⟨rfl, by rw [← hstep]⟩)
  | run i event =>
      obtain ⟨thread, next, state, _, _, hperform, rfl⟩ := System.step_run_eq_some.mp hstep
      rcases perform_cache hperform with hsame | ⟨req, entry, order, rfl, horder, hcache⟩
      · exact .inl hsame
      · exact .inr (.inl ⟨i, req, entry, order, rfl, horder, hcache⟩)

/-- Flights change when one takes off or lands. -/
theorem step_flights (hstep : (gate o).step c action = some c') :
    (c'.state.flights = c.state.flights ∧ c'.state.inflight = c.state.inflight ∧
        c'.state.nextFlight = c.state.nextFlight) ∨
      (∃ i req, action = .run i ⟨.sfDo req, .lead c.state.nextFlight⟩ ∧
        c.state.inflight.lookup req.key = none ∧ c'.state = c.state.takeOff req) ∨
      ∃ i req flight answer, action = .run i ⟨.sfEnd req flight answer, ()⟩ ∧
        c'.state = c.state.land req flight answer := by
  cases action with
  | spawn call =>
      simp only [System.step, Option.some.injEq] at hstep
      exact .inl (by rw [← hstep]; exact ⟨rfl, rfl, rfl⟩)
  | disturb disturbance =>
      left
      cases disturbance <;>
        simp only [System.step, World.disturb, Option.map_some, Option.some.injEq] at hstep <;>
        rw [← hstep] <;> exact ⟨rfl, rfl, rfl⟩
  | run i event =>
      obtain ⟨thread, next, state, _, _, hperform, rfl⟩ := System.step_run_eq_some.mp hstep
      rcases perform_flights hperform with hsame | ⟨req, rfl, hnone, rfl⟩ |
        ⟨req, flight, answer, rfl, rfl⟩
      · exact .inl hsame
      · exact .inr (.inl ⟨i, req, rfl, hnone, rfl⟩)
      · exact .inr (.inr ⟨i, req, flight, answer, rfl, rfl⟩)

theorem step_upstreams (hstep : (gate o).step c action = some c') :
    c'.state.upstreams = c.state.upstreams ∨
      (∃ i u now, action = .run i ⟨.claim u now, ((c.state.upstreams u).claim now).1⟩ ∧
        c'.state.upstreams =
          Function.update c.state.upstreams u ((c.state.upstreams u).claim now).2) ∨
      (∃ i u rtt, action = .run i ⟨.answered u rtt, ()⟩ ∧ c'.state.upstreams =
        Function.update c.state.upstreams u ((c.state.upstreams u).answered c.state.clock rtt)) ∨
      (∃ i u err, action = .run i ⟨.failed u err, c.state.clock⟩ ∧ c'.state.upstreams =
        Function.update c.state.upstreams u ((c.state.upstreams u).failed c.state.clock err)) ∨
      ∃ i claimed, action = .run i ⟨.releaseProbes claimed, ()⟩ ∧
        c'.state = c.state.releaseProbes claimed := by
  cases action with
  | spawn call =>
      simp only [System.step, Option.some.injEq] at hstep
      exact .inl (by rw [← hstep])
  | disturb disturbance =>
      left
      cases disturbance <;>
        simp only [System.step, World.disturb, Option.map_some, Option.some.injEq] at hstep <;>
        rw [← hstep]
  | run i event =>
      obtain ⟨thread, next, state, _, _, hperform, rfl⟩ := System.step_run_eq_some.mp hstep
      rcases perform_upstreams hperform with hsame | ⟨u, now, rfl, hups⟩ | ⟨u, rtt, rfl, hups⟩ |
        ⟨u, err, rfl, hups⟩ | ⟨claimed, rfl, hups⟩
      · exact .inl hsame
      · exact .inr (.inl ⟨i, u, now, rfl, hups⟩)
      · exact .inr (.inr (.inl ⟨i, u, rtt, rfl, hups⟩))
      · exact .inr (.inr (.inr (.inl ⟨i, u, err, rfl, hups⟩)))
      · exact .inr (.inr (.inr (.inr ⟨i, claimed, rfl, hups⟩)))

/-- The clock never goes back. -/
theorem step_clock (hstep : (gate o).step c action = some c') :
    c.state.clock ≤ c'.state.clock := by
  cases action with
  | spawn call =>
      simp only [System.step, Option.some.injEq] at hstep
      rw [← hstep]
  | disturb disturbance =>
      cases disturbance <;>
        simp only [System.step, World.disturb, Option.map_some, Option.some.injEq] at hstep <;>
        simp [← hstep]
  | run i event =>
      obtain ⟨thread, next, state, _, _, hperform, rfl⟩ := System.step_run_eq_some.mp hstep
      exact (perform_clock hperform).ge

/-- The tunnel comes up by a disturbance only. -/
theorem step_up (hstep : (gate o).step c action = some c')
    (haction : action ≠ .disturb (.tunnel true)) (hdown : c.state.up = false) :
    c'.state.up = false := by
  cases action with
  | spawn call =>
      simp only [System.step, Option.some.injEq] at hstep
      rw [← hstep, ← hdown]
  | disturb disturbance =>
      cases disturbance with
      | tick elapsed =>
          cases hstep
          exact hdown
      | purge =>
          cases hstep
          exact hdown
      | tunnel up =>
          cases up with
          | true => exact absurd rfl haction
          | false =>
              cases hstep
              rfl
  | run i event =>
      obtain ⟨thread, next, state, _, _, hperform, rfl⟩ := System.step_run_eq_some.mp hstep
      exact (perform_up hperform).trans hdown

theorem run_up {schedule : List (Action (gate o))}
    (hrun : (gate o).run c schedule = some c') (hclient : .disturb (.tunnel true) ∉ schedule)
    (hdown : c.state.up = false) : c'.state.up = false := by
  refine System.run_invariant_of_forall
    (fun action : Action (gate o) => action ≠ .disturb (.tunnel true))
    (fun c : Config (gate o) => c.state.up = false) ?_ ?_ hdown hrun
  · intro c action c' haction hdown hstep
    exact step_up hstep haction hdown
  · rintro _ hmem rfl
    exact hclient hmem

theorem step_cacheGet {i : Nat} {req : Request} {cell : Option Cell}
    (hstep : (gate o).step c (.run i ⟨.cacheGet req, cell⟩) = some c') :
    cell = c.state.hit req.key ∧ c'.state = c.state := by
  obtain ⟨thread, next, state, _, _, hperform, rfl⟩ := System.step_run_eq_some.mp hstep
  simp only [World.perform, Option.ite_none_right_eq_some, Option.some.injEq] at hperform
  exact ⟨hperform.1, hperform.2.symm⟩

theorem step_lead {i flight : Nat} {req : Request}
    (hstep : (gate o).step c (.run i ⟨.sfDo req, .lead flight⟩) = some c') :
    c.state.inflight.lookup req.key = none ∧ flight = c.state.nextFlight ∧
      c'.state = c.state.takeOff req := by
  obtain ⟨thread, next, state, _, _, hperform, rfl⟩ := System.step_run_eq_some.mp hstep
  simp only [World.perform, Option.ite_none_right_eq_some, Option.some.injEq] at hperform
  exact ⟨hperform.1.1, hperform.1.2, hperform.2.symm⟩

theorem step_join {i flight : Nat} {req : Request}
    (hstep : (gate o).step c (.run i ⟨.sfDo req, .join flight⟩) = some c') :
    c.state.inflight.lookup req.key = some flight ∧ c'.state = c.state := by
  obtain ⟨thread, next, state, _, _, hperform, rfl⟩ := System.step_run_eq_some.mp hstep
  simp only [World.perform, Option.ite_none_right_eq_some, Option.some.injEq] at hperform
  exact ⟨hperform.1, hperform.2.symm⟩

theorem step_sfWait {i flight : Nat} {req : Request} {shared : Shared}
    (hstep : (gate o).step c (.run i ⟨.sfWait req flight, shared⟩) = some c') :
    c.state.flights flight = some ⟨shared.origin, some shared.answer⟩ ∧ c'.state = c.state := by
  obtain ⟨thread, next, state, _, _, hperform, rfl⟩ := System.step_run_eq_some.mp hstep
  simp only [World.perform, Option.ite_none_right_eq_some, Option.some.injEq] at hperform
  exact ⟨hperform.1, hperform.2.symm⟩

theorem step_answered {i u rtt : Nat}
    (hstep : (gate o).step c (.run i ⟨.answered u rtt, ()⟩) = some c') :
    c'.state = c.state.setUpstream u ((c.state.upstreams u).answered c.state.clock rtt) := by
  obtain ⟨thread, next, state, _, _, hperform, rfl⟩ := System.step_run_eq_some.mp hstep
  simp only [World.perform, Option.some.injEq] at hperform
  exact hperform.symm

theorem step_failed {i u reading : Nat} {err : Err}
    (hstep : (gate o).step c (.run i ⟨.failed u err, reading⟩) = some c') :
    reading = c.state.clock ∧
      c'.state = c.state.setUpstream u ((c.state.upstreams u).failed c.state.clock err) := by
  obtain ⟨thread, next, state, _, _, hperform, rfl⟩ := System.step_run_eq_some.mp hstep
  simp only [World.perform, Option.ite_none_right_eq_some, Option.some.injEq] at hperform
  exact ⟨hperform.1, hperform.2.symm⟩

/-- The pause of a resolver changes where an attempt on it is recorded. -/
theorem step_pausedUntil (hstep : (gate o).step c action = some c') (u : Nat) :
    ((c'.state.upstreams u).pausedUntil = (c.state.upstreams u).pausedUntil ∧
        ∀ i err reading, action ≠ .run i ⟨.failed u err, reading⟩) ∨
      (∃ i rtt, action = .run i ⟨.answered u rtt, ()⟩ ∧
        (c'.state.upstreams u).pausedUntil = none) ∨
      ∃ i err, action = .run i ⟨.failed u err, c.state.clock⟩ ∧
        (c'.state.upstreams u).pausedUntil =
          if err.isUnreachable then some (c.state.clock + upstreamPause) else none := by
  by_cases hfailed : ∃ i err reading, action = .run i ⟨.failed u err, reading⟩
  · obtain ⟨i, err, reading, rfl⟩ := hfailed
    obtain ⟨rfl, hstate⟩ := step_failed hstep
    exact .inr (.inr ⟨i, err, rfl, by simp [hstate, Upstream.failed]⟩)
  · have hother : ∀ i err reading, action ≠ .run i ⟨.failed u err, reading⟩ :=
      fun i err reading h => hfailed ⟨i, err, reading, h⟩
    rcases step_upstreams hstep with hups | ⟨i, v, now, _, hups⟩ | ⟨i, v, rtt, rfl, hups⟩ |
      ⟨i, v, err, rfl, hups⟩ | ⟨i, claimed, _, hstate⟩
    · exact .inl ⟨by rw [hups], hother⟩
    · refine .inl ⟨?_, hother⟩
      rw [hups]
      by_cases hv : u = v
      · rw [hv, Function.update_self, Upstream.claim_pausedUntil]
      · rw [Function.update_of_ne hv]
    · by_cases hv : u = v
      · exact .inr (.inl ⟨i, rtt, by rw [hv], by rw [hups, hv, Function.update_self]; rfl⟩)
      · exact .inl ⟨by rw [hups, Function.update_of_ne hv], hother⟩
    · have hv : u ≠ v := by
        rintro rfl
        exact hother i err _ rfl
      exact .inl ⟨by rw [hups, Function.update_of_ne hv], hother⟩
    · refine .inl ⟨?_, hother⟩
      by_cases hu : u ∈ claimed
      · simp [hstate, hu]
      · simp [hstate, hu]

end Step

end SshGate
