import SshGate.Dns.Claims
import SshGate.Steps

/-! # Pauses and probes of the tunnel resolvers

The tunnel resolvers with the claims of all threads are a breaker: each step of
the gate is one of its steps. So while every lookup releases its claims in
time, a paused resolver is probed by one lookup at a time, and no resolver is
lost.
-/

namespace SshGate

open Go Interaction Program System

section Breaker

variable {o : Opener} {c c' : Config (gate o)} {action : Action (gate o)}

/-- Thread `i` holds the claim. -/
def Holds (c : Config (gate o)) (i : Nat) (claim : Claim Nat) : Prop :=
  claim ∈ held (traceOf c i)

/-- The tunnel resolvers and the claims on them. -/
def breaker (c : Config (gate o)) : Breaker Nat Nat where
  clock := c.state.clock
  pausedUntil := fun u => (c.state.upstreams u).pausedUntil
  probing := fun u => (c.state.upstreams u).probing
  holds := Holds c

/-- The clock reading in an event. -/
def readingOf : Event sig → Option Nat
  | ⟨.now, reading⟩ | ⟨.failed _ _, reading⟩ => some reading
  | _ => none

/-- Clock readings are in the past. -/
def ReadingsPast (c : Config (gate o)) : Prop :=
  ∀ i event reading, Performed c i event → readingOf event = some reading →
    reading ≤ c.state.clock

theorem readingOf_perform {event : Event sig} {w w' : World} {reading : Nat}
    (hperform : World.perform event.op w event.reply = some w')
    (hreading : readingOf event = some reading) : reading = w.clock := by
  obtain ⟨op, reply⟩ := event
  cases op with
  | now =>
      simp only [World.perform, Option.ite_none_right_eq_some] at hperform
      exact (Option.some.inj hreading).symm.trans hperform.1
  | failed u err =>
      simp only [World.perform, Option.ite_none_right_eq_some] at hperform
      exact (Option.some.inj hreading).symm.trans hperform.1
  | _ => cases hreading

theorem step_readingsPast (hc : ReadingsPast c) (hstep : (gate o).step c action = some c') :
    ReadingsPast c' := by
  intro i event reading hevent hreading
  apply le_trans _ (step_clock hstep)
  rcases performed_of_step hstep hevent with hold | rfl
  · exact hc i event reading hold hreading
  · obtain ⟨thread, next, state, _, _, hperform, _⟩ := step_run_eq_some.mp hstep
    exact (readingOf_perform hperform hreading).le

/-- The claims after a step that lets thread `i` perform an event. -/
theorem holds_run {i : Nat} {event : Event sig} (hstep : (gate o).step c (.run i event) = some c')
    (j : Nat) (claim : Claim Nat) :
    Holds c' j claim ↔
      if j = i then claim ∈ heldAfter (held (traceOf c i)) event else Holds c j claim := by
  unfold Holds
  rw [step_traceOf hstep]
  split
  next hji => simp [eventsOf, hji, held_snoc]
  next hji => simp [eventsOf, Ne.symm hji]

theorem holds_idle {i : Nat} {event : Event sig} (hop : event.op.isClaim = false)
    (hstep : (gate o).step c (.run i event) = some c') : Holds c' = Holds c := by
  funext j claim
  unfold Holds
  rw [step_traceOf hstep]
  by_cases hij : i = j
  · simp [eventsOf, hij, held_snoc_of_not_isClaim hop]
  · simp [eventsOf, hij]

/-- A granted claim is added to those of its thread. -/
theorem holds_grant {i u now : Nat} {grant : Grant} {claim : Claim Nat}
    (hclaim : ∀ claims, heldAfter claims ⟨.claim u now, grant⟩ = claim :: claims)
    (hstep : (gate o).step c (.run i ⟨.claim u now, grant⟩) = some c') :
    Holds c' = fun j other => Holds c j other ∨ j = i ∧ other = claim := by
  funext j other
  rw [holds_run hstep, hclaim]
  by_cases hji : j = i
  · simp [hji, Holds, or_comm]
  · simp [hji]

theorem holds_release {i : Nat} {claimed : List Nat}
    (hstep : (gate o).step c (.run i ⟨.releaseProbes claimed, ()⟩) = some c') :
    Holds c' = fun j other => j ≠ i ∧ Holds c j other := by
  funext j other
  rw [holds_run hstep]
  by_cases hji : j = i
  · simp [hji, heldAfter]
  · simp [hji]

/-- The thread's claims are guarded by its own trace. -/
theorem claimStep_of_step (hc : Faithful c) {i : Nat} {event : Event sig}
    (hstep : (gate o).step c (.run i event) = some c') :
    ClaimStep (traceOf c i) event.op := by
  obtain ⟨call, hguard⟩ := guarded_traceOf (program_claims o) hc hstep
  exact hguard

theorem breaker_same (hclock : c.state.clock ≤ c'.state.clock)
    (hupstreams : c'.state.upstreams = c.state.upstreams) (hholds : Holds c' = Holds c) :
    Breaker.Step upstreamPause (breaker c) (breaker c') := by
  have heq : breaker c' =
      { breaker c with clock := c.state.clock + (c'.state.clock - c.state.clock) } := by
    ext1
    · exact (Nat.add_sub_of_le hclock).symm
    · simp [breaker, hupstreams]
    · simp [breaker, hupstreams]
    · exact hholds
  rw [heq]
  exact .wait _

theorem breaker_claim (hc : Faithful c) (hreadings : ReadingsPast c) {i u now : Nat}
    {grant : Grant} (hstep : (gate o).step c (.run i ⟨.claim u now, grant⟩) = some c') :
    Breaker.Step upstreamPause (breaker c) (breaker c') := by
  have hnow : now ≤ c.state.clock :=
    hreadings i _ now (performed_iff.mpr (claimStep_of_step hc hstep).1) rfl
  obtain ⟨thread, next, state, _, _, hperform, hc'⟩ := step_run_eq_some.mp hstep
  simp only [World.perform, Option.ite_none_right_eq_some, Option.some.injEq] at hperform
  obtain ⟨hgrant, rfl⟩ := hperform
  have hstate : c'.state = c.state.setUpstream u ((c.state.upstreams u).claim now).2 := by rw [hc']
  rcases (c.state.upstreams u).claim_cases now with ⟨hpaused, hclaim⟩ |
    ⟨x, hpaused, _, hclaim⟩ | ⟨x, hpaused, hprobing, hpassed, hclaim⟩
  · rw [hclaim] at hgrant hstate
    subst hgrant
    have hupstreams : c'.state.upstreams = c.state.upstreams := by
      rw [hstate]
      exact Function.update_eq_self u _
    have heq : breaker c' = (breaker c).grant i ⟨u, now, false⟩ := by
      ext1
      · simp [breaker, Breaker.grant, hstate]
      · simp [breaker, Breaker.grant, hupstreams]
      · simp [breaker, Breaker.grant, hupstreams]
      · exact holds_grant (fun _ => rfl) hstep
    rw [heq]
    exact .claimOpen hnow hpaused
  · rw [hclaim] at hgrant hstate
    subst hgrant
    have hupstreams : c'.state.upstreams = c.state.upstreams := by
      rw [hstate]
      exact Function.update_eq_self u _
    refine breaker_same (by simp [hstate]) hupstreams ?_
    funext j claim
    rw [holds_run hstep]
    split
    next hji => rw [hji]; rfl
    next => rfl
  · rw [hclaim] at hgrant hstate
    subst hgrant
    have heq : breaker c' = (breaker c).startProbe i u now := by
      ext1
      · simp [breaker, Breaker.startProbe, Breaker.grant, hstate]
      · funext v
        by_cases hv : v = u
        · simp [breaker, Breaker.startProbe, Breaker.grant, hstate, hv]
        · simp [breaker, Breaker.startProbe, Breaker.grant, hstate, hv]
      · funext v
        by_cases hv : v = u
        · simp [breaker, Breaker.startProbe, hstate, hv]
        · simp [breaker, Breaker.startProbe, hstate, hv]
      · exact holds_grant (fun _ => rfl) hstep
    rw [heq]
    exact .claimProbe hnow hpaused hpassed hprobing

theorem breaker_release (hc : Faithful c) {i : Nat} {claimed : List Nat}
    (hstep : (gate o).step c (.run i ⟨.releaseProbes claimed, ()⟩) = some c') :
    Breaker.Step upstreamPause (breaker c) (breaker c') := by
  have hclaimed := claimStep_of_step hc hstep
  obtain ⟨thread, next, state, _, _, hperform, hc'⟩ := step_run_eq_some.mp hstep
  simp only [World.perform, Option.some.injEq] at hperform
  have hstate : c'.state = c.state.releaseProbes claimed := by rw [hc', ← hperform]
  have heq : breaker c' = (breaker c).release i claimed := by
    ext1
    · simp [breaker, Breaker.release, hstate]
    · funext u
      by_cases hu : u ∈ claimed
      · simp [breaker, Breaker.release, hstate, hu]
      · simp [breaker, Breaker.release, hstate, hu]
    · funext u
      by_cases hu : u ∈ claimed
      · simp [breaker, Breaker.release, hstate, hu]
      · simp [breaker, Breaker.release, hstate, hu]
    · exact holds_release hstep
  rw [heq]
  exact .release hclaimed

/-- Recording an attempt sets or ends a pause, and changes nothing else. -/
theorem breaker_record {i u : Nat} {event : Event sig} (hop : event.op.isClaim = false)
    (hstep : (gate o).step c (.run i event) = some c') (hclock : c'.state.clock = c.state.clock)
    {state : Upstream}
    (hupstreams : c'.state.upstreams = Function.update c.state.upstreams u state)
    (hprobing : state.probing = (c.state.upstreams u).probing)
    (hpaused : state.pausedUntil = none ∨
      state.pausedUntil = some (c.state.clock + upstreamPause)) :
    Breaker.Step upstreamPause (breaker c) (breaker c') := by
  have heq : breaker c' = (breaker c).setPause u state.pausedUntil := by
    ext1
    · exact hclock
    · funext v
      by_cases hv : v = u
      · simp [breaker, Breaker.setPause, hupstreams, hv]
      · simp [breaker, Breaker.setPause, hupstreams, hv]
    · funext v
      by_cases hv : v = u
      · simp [breaker, Breaker.setPause, hupstreams, hv, hprobing]
      · simp [breaker, Breaker.setPause, hupstreams, hv]
    · exact holds_idle hop hstep
  rw [heq]
  rcases hpaused with hnone | hsome
  · rw [hnone]
    exact .resume u
  · rw [hsome]
    exact .suspend u

/-- Every step of the gate is a step of the breaker. -/
theorem step_breaker (hc : Faithful c) (hreadings : ReadingsPast c)
    (hstep : (gate o).step c action = some c') :
    Breaker.Step upstreamPause (breaker c) (breaker c') := by
  have hclock := step_clock hstep
  cases action with
  | spawn call =>
      refine breaker_same hclock ?_ ?_
      · simp only [step, Option.some.injEq] at hstep
        rw [← hstep]
      · funext j claim
        simp [Holds, step_traceOf hstep, eventsOf]
  | disturb disturbance =>
      refine breaker_same hclock ?_ ?_
      · cases disturbance <;>
          simp only [step, World.disturb, Option.map_some, Option.some.injEq] at hstep <;>
          rw [← hstep]
      · funext j claim
        simp [Holds, step_traceOf hstep, eventsOf]
  | run i event =>
      obtain ⟨thread, next, state, _, _, hperform, hc'⟩ := step_run_eq_some.mp hstep
      have hsame : c'.state.clock = c.state.clock := by rw [hc', perform_clock hperform]
      cases hop : event.op.isClaim with
      | true =>
          obtain ⟨op, reply⟩ := event
          cases op with
          | claim u now => exact breaker_claim hc hreadings hstep
          | releaseProbes claimed => exact breaker_release hc hstep
          | _ => cases hop
      | false =>
          have hupstreams : c'.state.upstreams = state.upstreams := by rw [hc']
          rcases perform_upstreams hperform with hups | ⟨u, now, rfl, _⟩ | ⟨u, rtt, rfl, hups⟩ |
            ⟨u, err, rfl, hups⟩ | ⟨claimed, rfl, _⟩
          · exact breaker_same hclock (hupstreams.trans hups) (holds_idle hop hstep)
          · cases hop
          · exact breaker_record hop hstep hsame (hupstreams.trans hups) rfl (.inl rfl)
          · refine breaker_record hop hstep hsame (hupstreams.trans hups) rfl ?_
            simp only [Upstream.failed]
            split
            next => exact .inr rfl
            next => exact .inl rfl
          · cases hop

end Breaker

section Pauses

variable {o : Opener} {c c' : Config (gate o)} {action : Action (gate o)}

/-- Some lookup has recorded a failed attempt on resolver `u` at the time `t`. -/
def Recorded (c : Config (gate o)) (u : Nat) (err : Err) (t : Nat) : Prop :=
  ∃ i, Performed c i ⟨.failed u err, t⟩

/-- A pause goes back to the last failure recorded for its resolver: the
resolver could not be reached. -/
def PausesRecorded (c : Config (gate o)) : Prop :=
  ∀ u x, (c.state.upstreams u).pausedUntil = some x →
    ∃ err t, Recorded c u err t ∧ err.isUnreachable = true ∧ x = t + upstreamPause ∧
      ∀ err' t', Recorded c u err' t' → t' ≤ t

theorem step_pausesRecorded (hreadings : ReadingsPast c) (hc : PausesRecorded c)
    (hstep : (gate o).step c action = some c') : PausesRecorded c' := by
  intro u x hx
  rcases step_pausedUntil hstep u with ⟨hsame, hother⟩ | ⟨i, rtt, _, hnone⟩ |
    ⟨i, err, rfl, hpaused⟩
  · obtain ⟨err, t, ⟨i, hi⟩, herr, hxt, hlast⟩ := hc u x (hsame.symm.trans hx)
    refine ⟨err, t, ⟨i, hi.of_step hstep⟩, herr, hxt, ?_⟩
    rintro err' t' ⟨j, hj⟩
    rcases performed_of_step hstep hj with hold | hnew
    · exact hlast err' t' ⟨j, hold⟩
    · exact absurd hnew (hother j err' t')
  · rw [hnone] at hx
    cases hx
  · rw [hpaused] at hx
    split at hx
    next herr =>
      cases hx
      refine ⟨err, c.state.clock, ⟨i, performed_run hstep⟩, herr, rfl, ?_⟩
      rintro err' t' ⟨j, hj⟩
      -- All failures recorded so far have a reading of the clock up to now.
      have hpast := step_readingsPast hreadings hstep j _ t' hj rfl
      rwa [(step_failed hstep).2] at hpast
    next => cases hx

/-- The invariants that need no timing. -/
structure Probing (c : Config (gate o)) : Prop where
  faithful : Faithful c
  readings : ReadingsPast c
  flagged : (breaker c).Flagged
  pauses : PausesRecorded c

theorem step_probing (hc : Probing c) (hstep : (gate o).step c action = some c') :
    Probing c' where
  faithful := step_faithful hc.faithful hstep
  readings := step_readingsPast hc.readings hstep
  flagged := (step_breaker hc.faithful hc.readings hstep).flagged hc.flagged
  pauses := step_pausesRecorded hc.readings hc.pauses hstep

theorem probing_start : Probing (o := o) ⟨{}, []⟩ where
  faithful := by simp [Faithful]
  readings := by simp [ReadingsPast, Performed]
  flagged := by simp [Breaker.Flagged, breaker]
  pauses := by simp [PausesRecorded]

theorem run_probing {schedule : List (Action (gate o))}
    (hrun : (gate o).run ⟨{}, []⟩ schedule = some c) : Probing c :=
  run_invariant Probing (fun _ _ _ hc hstep => step_probing hc hstep) probing_start hrun

/-- No claim is held for longer than a lookup may take. -/
def LookupsInTime (c : Config (gate o)) : Prop :=
  ∀ thread ∈ c.threads, ∀ claim ∈ held thread.trace,
    c.state.clock ≤ claim.now + lookupTimeout

instance : DecidablePred (LookupsInTime (o := o)) := fun c =>
  inferInstanceAs (Decidable (∀ thread ∈ c.threads, ∀ claim ∈ held thread.trace,
    c.state.clock ≤ claim.now + lookupTimeout))

theorem LookupsInTime.inTime (hc : LookupsInTime c) : (breaker c).InTime lookupTimeout := by
  intro i claim hclaim
  simp only [breaker, Holds, traceOf] at hclaim
  cases hthread : c.threads[i]? with
  | none => simp [hthread, held] at hclaim
  | some thread =>
      simp only [hthread, Option.map_some, Option.getD_some] at hclaim
      exact hc thread (List.mem_of_getElem? hthread) claim hclaim

theorem run_sound {schedule : List (Action (gate o))}
    (hrun : (gate o).run ⟨{}, []⟩ schedule = some c)
    (htime : Throughout LookupsInTime ⟨{}, []⟩ schedule) :
    (breaker c).Sound upstreamPause := by
  have hinv := run_invariant_throughout LookupsInTime
    (fun c => Probing c ∧ (breaker c).Sound upstreamPause) ?_ htime ?_ hrun
  · exact hinv.2
  · rintro c action c' hc _ ⟨hprobing, hsound⟩ hstep
    have hbreaker := step_breaker hprobing.faithful hprobing.readings hstep
    exact ⟨step_probing hprobing hstep, hbreaker.sound (by decide) hc.inTime hsound⟩
  · refine ⟨probing_start, ?_⟩
    constructor <;> simp [breaker, Holds, traceOf, held]

end Pauses

/-- While every lookup releases its claims in time, a paused resolver has at
most one probe; a resolver that nobody holds has no probing flag, so it is
granted once its pause has passed; and the pause passes with the last recorded
failure. -/
theorem probes_exclusive (o : Opener) {schedule : List (Action (gate o))} {c : Config (gate o)}
    (hrun : (gate o).run ⟨{}, []⟩ schedule = some c)
    (htime : Throughout LookupsInTime ⟨{}, []⟩ schedule) :
    (∀ u i j now now', Holds c i ⟨u, now, true⟩ → Holds c j ⟨u, now', true⟩ → i = j) ∧
      (∀ u, (∀ i claim, Holds c i claim → claim.resource ≠ u) →
        (c.state.upstreams u).probing = false ∧
        ∀ now, (∀ x, (c.state.upstreams u).pausedUntil = some x → x ≤ now) →
          ((c.state.upstreams u).claim now).1.granted = true) ∧
      ∀ u x, (c.state.upstreams u).pausedUntil = some x →
        ∃ err t, Recorded c u err t ∧ (∀ err' t', Recorded c u err' t' → t' ≤ t) ∧
          x ≤ t + upstreamPause := by
  have hprobing := run_probing hrun
  refine ⟨(run_sound hrun htime).unique, ?_, ?_⟩
  · intro u hfree
    have hflag : (c.state.upstreams u).probing = false := by
      by_contra hset
      obtain ⟨i, now, hheld⟩ := hprobing.flagged u (by simpa [breaker] using hset)
      exact hfree i _ hheld rfl
    refine ⟨hflag, fun now hpassed => ?_⟩
    rcases (c.state.upstreams u).claim_cases now with ⟨_, hclaim⟩ |
      ⟨x, hx, hrefused, _⟩ | ⟨x, _, _, _, hclaim⟩
    · rw [hclaim]
      rfl
    · have hx := hpassed x hx
      rw [hflag] at hrefused
      simp only [Bool.false_eq_true, false_or] at hrefused
      omega
    · rw [hclaim]
      rfl
  · intro u x hx
    obtain ⟨err, t, hrecorded, _, rfl, hlast⟩ := hprobing.pauses u x hx
    exact ⟨err, t, hrecorded, hlast, le_refl _⟩

/-- The resolver cannot be reached for `x`; when the pause has passed, the
lookups of `y` and `z` meet at it. -/
def probedOnce : List (Action (gate (sampleOpener false))) :=
  (gate (sampleOpener false)).alone [.tunnel true] (.resolveTunnel (str "x"))
    (sampleAttempt ⟨.tunnel, str "x"⟩ [.failed] (.error (.dns false (str "refused"))) ++
      [⟨.tunnelUp, true⟩, ⟨.failed 0 (.unreachable (str "refused")), 0⟩, ⟨.fallback, ()⟩,
        ⟨.now, 0⟩, ⟨.lastFallback 0, ()⟩, ⟨.localLookup (str "x"), .error (str "no such host")⟩,
        ⟨.releaseProbes [0], ()⟩]) ++
  [.disturb (.tick upstreamPause), .spawn (.resolveTunnel (str "y")),
    .spawn (.resolveTunnel (str "z"))] ++
  [⟨.cacheGet ⟨.tunnel, str "y"⟩, none⟩, ⟨.sfDo ⟨.tunnel, str "y"⟩, .lead 1⟩,
    ⟨.now, upstreamPause⟩, ⟨.lookupsAdd, ()⟩, ⟨.now, upstreamPause⟩,
    ⟨.claim 0 upstreamPause, .probe⟩].map (.run 1) ++
  [⟨.cacheGet ⟨.tunnel, str "z"⟩, none⟩, ⟨.sfDo ⟨.tunnel, str "z"⟩, .lead 2⟩,
    ⟨.now, upstreamPause⟩, ⟨.lookupsAdd, ()⟩, ⟨.now, upstreamPause⟩,
    ⟨.claim 0 upstreamPause, .refused⟩].map (.run 2)

/-- The lookup of `y` is the only probe. -/
theorem probedOnce_exclusive :
    ∃ c, (gate (sampleOpener false)).run ⟨{}, []⟩ probedOnce = some c ∧
      Holds c 1 ⟨0, upstreamPause, true⟩ ∧
      ∀ j now, Holds c j ⟨0, now, true⟩ → j = 1 := by
  obtain ⟨c, hrun⟩ : ∃ c, (gate (sampleOpener false)).run ⟨{}, []⟩ probedOnce = some c :=
    Option.isSome_iff_exists.mp (by decide +kernel)
  have hprobe : Holds c 1 ⟨0, upstreamPause, true⟩ := by
    obtain ⟨rest, hthread⟩ := run_thread hrun (i := 1) rfl
    have hheld : ⟨0, upstreamPause, true⟩ ∈ held (eventsOf 1 probedOnce) := by decide +kernel
    rw [Holds, traceOf_eq hthread]
    exact hheld
  have hexclusive := probes_exclusive (sampleOpener false) hrun (by decide +kernel)
  exact ⟨c, hrun, hprobe, fun j now hj => hexclusive.1 0 j 1 now upstreamPause hj hprobe⟩

end SshGate
