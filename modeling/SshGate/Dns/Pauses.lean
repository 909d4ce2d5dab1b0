import SshGate.Dns.Flights
import SshGate.Dns.Probes
import SshGate.Dns.Recording

/-! # What pauses a tunnel resolver

Names and answers come from outside, so they must not be able to take a
resolver out of use. A pause is the record of an attempt that did not get
through to the resolver, with the tunnel up; an attempt that did get through
ends it.
-/

namespace SshGate

open Go Interaction Program System

/-- The history of a thread that could not reach resolver `u` and has seen the
tunnel up. -/
def Unreached (c : DnsCache) (u : Nat) (history : List (Event sig)) : Prop :=
  ∃ before host attempt err, history = before ++ [⟨.tunnelUp, true⟩] ∧
    Tried c host before u attempt (.error err) ∧ err.isUnreachable = true ∧
    ¬ Contacted c u attempt

/-- A failure is recorded after the attempt, with the tunnel up. -/
theorem CallStep.failed {c : DnsCache} {allowed : Request → Prop} {history : List (Event sig)}
    {u : Nat} {err : Err} (h : CallStep c allowed history (.failed u err)) :
    ∃ before host attempt, history = before ++ [⟨.tunnelUp, true⟩] ∧
      Tried c host before u attempt (.error err) := by
  rcases h with hdial | ⟨req, _, _, before, trace, rfl, hstep⟩
  · cases hdial
  cases hstep with
  | @flight id _ _ htrace hop =>
      cases hop with
      | @lookup start seg _ _ hflight hlookup _ =>
          cases hlookup with
          | attempt hop => cases hop
          | @failed _ _ prior attempt hseg htried _ =>
              subst hseg hflight htrace
              refine ⟨before ++ (leadEvents req id ++ (takeOffEvents start ++ prior)), req.host,
                attempt, ?_, ((htried.after _).after _).after _⟩
              simp only [List.append_assoc]

theorem CallStep.unreached {c : DnsCache} {allowed : Request → Prop}
    {history : List (Event sig)} {u : Nat} {err : Err}
    (h : CallStep c allowed history (.failed u err)) (herr : err.isUnreachable = true) :
    Unreached c u history := by
  obtain ⟨before, host, attempt, hhistory, htried⟩ := h.failed
  refine ⟨before, host, attempt, err, hhistory, htried, herr, fun hcontact => ?_⟩
  obtain ⟨_, _, share, _, _, hpath⟩ := htried
  rw [hcontact.not_isUnreachable hpath] at herr
  cases herr

section Steps

variable {o : Opener} {c c' : Config (gate o)} {action : Action (gate o)}

/-- A pause is set by the record of a failure to reach the resolver. -/
theorem step_pauses (hc : Faithful c) (hstep : (gate o).step c action = some c') {u x : Nat}
    (hx : (c'.state.upstreams u).pausedUntil = some x)
    (hnew : (c.state.upstreams u).pausedUntil ≠ some x) :
    ∃ i err, action = .run i ⟨.failed u err, c.state.clock⟩ ∧
      x = c.state.clock + upstreamPause ∧ Unreached o.rules.dns u (traceOf c i) := by
  rcases step_pausedUntil hstep u with ⟨hsame, _⟩ | ⟨i, rtt, _, hnone⟩ | ⟨i, err, rfl, hpaused⟩
  · exact absurd (hsame.symm.trans hx) hnew
  · rw [hnone] at hx
    cases hx
  · rw [hpaused] at hx
    split at hx
    next herr =>
      cases hx
      obtain ⟨call, hguard⟩ := guarded_traceOf (program_always o) hc hstep
      exact ⟨i, err, rfl, rfl, CallStep.unreached hguard herr⟩
    next => cases hx

/-- After an attempt that got through, the record ends the pause; only a
failure asks for the tunnel first. -/
theorem step_contacted (hc : Faithful c) {i : Nat} {event : Event sig}
    (hstep : (gate o).step c (.run i event) = some c') {u : Nat} {host : Text}
    {attempt : List (Event sig)} {result : Except Err (List Addr)}
    (htried : Tried o.rules.dns host (traceOf c i) u attempt result) :
    (∃ rtt, event = ⟨.answered u rtt, ()⟩) ∧ (c'.state.upstreams u).pausedUntil = none ∨
      (∃ up, event = ⟨.tunnelUp, up⟩) ∧ c'.state.upstreams = c.state.upstreams := by
  obtain ⟨call, hguard⟩ := guarded_traceOf (program_records o) hc hstep
  have hop := hguard.tried htried
  obtain ⟨op, reply⟩ := event
  split at hop
  next =>
    obtain ⟨rtt, rfl⟩ := hop
    refine .inl ⟨⟨rtt, rfl⟩, ?_⟩
    simp [step_answered hstep, Upstream.answered]
  next =>
    subst hop
    refine .inr ⟨⟨reply, rfl⟩, ?_⟩
    obtain ⟨_, _, state, _, _, hperform, rfl⟩ := step_run_eq_some.mp hstep
    simp only [World.perform, Option.ite_none_right_eq_some, Option.some.injEq] at hperform
    rw [← hperform.2]

/-- With the tunnel up, also the failure of such an attempt ends the pause. -/
theorem step_contacted_failed (hc : Faithful c) {i : Nat} {event : Event sig}
    (hstep : (gate o).step c (.run i event) = some c') {u : Nat} {host : Text}
    {before attempt : List (Event sig)} {result : Except Err (List Addr)}
    (hup : traceOf c i = before ++ [⟨.tunnelUp, true⟩])
    (htried : Tried o.rules.dns host before u attempt result)
    (hcontact : Contacted o.rules.dns u attempt) :
    (∃ err, event = ⟨.failed u err, c.state.clock⟩) ∧
      (c'.state.upstreams u).pausedUntil = none := by
  obtain ⟨call, hguard⟩ := guarded_traceOf (program_records o) hc hstep
  obtain ⟨err, rfl, hop⟩ := hguard.failed hup htried
  obtain ⟨op, reply⟩ := event
  subst hop
  obtain ⟨rfl, hstate⟩ := step_failed hstep
  obtain ⟨_, _, share, _, _, hpath⟩ := htried
  have hreached := hcontact.not_isUnreachable hpath
  exact ⟨⟨err, rfl⟩, by simp [hstate, Upstream.failed, hreached]⟩

/-- A resolver is skipped while it is paused or another lookup probes it. -/
theorem step_skips (hc : Probing c) {i u now : Nat}
    (hstep : (gate o).step c (.run i ⟨.claim u now, .refused⟩) = some c') :
    (∃ j history err t after, traceOf c j = history ++ ⟨.failed u err, t⟩ :: after ∧
        Unreached o.rules.dns u history ∧ now < t + upstreamPause) ∨
      ∃ j now', j ≠ i ∧ Holds c j ⟨u, now', true⟩ := by
  have hfree := (claimStep_of_step hc.faithful hstep).2
  obtain ⟨_, _, _, _, _, hperform, _⟩ := step_run_eq_some.mp hstep
  simp only [World.perform, Option.ite_none_right_eq_some] at hperform
  have hgrant := hperform.1
  rcases (c.state.upstreams u).claim_cases now with ⟨_, hclaim⟩ | ⟨x, hx, hrefused, _⟩ |
    ⟨x, _, _, _, hclaim⟩
  · rw [hclaim] at hgrant
    cases hgrant
  · rcases hrefused with hprobing | hnow
    · obtain ⟨j, now', hheld⟩ := hc.flagged u hprobing
      refine .inr ⟨j, now', ?_, hheld⟩
      rintro rfl
      exact hfree ⟨_, hheld, rfl⟩
    · obtain ⟨err, t, ⟨j, thread, hthread, hmem⟩, herr, rfl, _⟩ := hc.pauses u x hx
      obtain ⟨history, after, hsplit, hguard⟩ := guarded_of_mem (program_always o) hc.faithful
        (List.mem_of_getElem? hthread) hmem
      exact .inl ⟨j, history, err, t, after, (traceOf_eq hthread).trans hsplit,
        CallStep.unreached hguard herr, hnow⟩
  · rw [hclaim] at hgrant
    cases hgrant

end Steps

/-- No name can take a tunnel resolver out of use: in every run a pause is set
only by an attempt that did not get through to the resolver and was recorded
with the tunnel up; the record of an attempt that got through leaves no pause;
and a lookup skips a resolver only within `upstreamPause` of such a record, or
while another lookup probes the resolver. -/
theorem pauses_only_unreachable (o : Opener) {schedule : List (Action (gate o))}
    {c : Config (gate o)} (hrun : (gate o).run ⟨{}, []⟩ schedule = some c) :
    (∀ action c' u x, (gate o).step c action = some c' →
        (c'.state.upstreams u).pausedUntil = some x → (c.state.upstreams u).pausedUntil ≠ some x →
        ∃ i err, action = .run i ⟨.failed u err, c.state.clock⟩ ∧
          x = c.state.clock + upstreamPause ∧ Unreached o.rules.dns u (traceOf c i)) ∧
      (∀ i event c' u host attempt result, (gate o).step c (.run i event) = some c' →
        Contacted o.rules.dns u attempt →
        (Tried o.rules.dns host (traceOf c i) u attempt result →
          (∃ rtt, event = ⟨.answered u rtt, ()⟩) ∧ (c'.state.upstreams u).pausedUntil = none ∨
            (∃ up, event = ⟨.tunnelUp, up⟩) ∧ c'.state.upstreams = c.state.upstreams) ∧
        ∀ before, traceOf c i = before ++ [⟨.tunnelUp, true⟩] →
          Tried o.rules.dns host before u attempt result →
          (∃ err, event = ⟨.failed u err, c.state.clock⟩) ∧
            (c'.state.upstreams u).pausedUntil = none) ∧
      ∀ i u now c', (gate o).step c (.run i ⟨.claim u now, .refused⟩) = some c' →
        (∃ j history err t after, traceOf c j = history ++ ⟨.failed u err, t⟩ :: after ∧
            Unreached o.rules.dns u history ∧ now < t + upstreamPause) ∨
          ∃ j now', j ≠ i ∧ Holds c j ⟨u, now', true⟩ := by
  have hprobing := run_probing hrun
  have hfaithful := hprobing.faithful
  refine ⟨?_, ?_, ?_⟩
  · intro action c' u x hstep hx hnew
    exact step_pauses hfaithful hstep hx hnew
  · intro i event c' u host attempt result hstep hcontact
    refine ⟨step_contacted hfaithful hstep, ?_⟩
    intro before hup htried
    exact step_contacted_failed hfaithful hstep hup htried hcontact
  · intro i u now c' hstep
    exact step_skips hprobing hstep

/-- The resolver cannot be reached for `x`; a lookup of `y` starts at once. -/
def pausedAtOnce : List (Action (gate (sampleOpener false))) :=
  (gate (sampleOpener false)).alone [.tunnel true] (.resolveTunnel (str "x"))
    (sampleAttempt ⟨.tunnel, str "x"⟩ [.failed] (.error (.dns false (str "refused"))) ++
      [⟨.tunnelUp, true⟩, ⟨.failed 0 (.unreachable (str "refused")), 0⟩]) ++
  .spawn (.resolveTunnel (str "y")) ::
    [⟨.cacheGet ⟨.tunnel, str "y"⟩, none⟩, ⟨.sfDo ⟨.tunnel, str "y"⟩, .lead 1⟩, ⟨.now, 0⟩,
      ⟨.lookupsAdd, ()⟩, ⟨.now, 0⟩].map (.run 1)

/-- It skips the resolver, and there is a reason for that. -/
theorem pausedAtOnce_skips :
    ∃ c c', (gate (sampleOpener false)).run ⟨{}, []⟩ pausedAtOnce = some c ∧
      (gate (sampleOpener false)).step c (.run 1 ⟨.claim 0 0, .refused⟩) = some c' ∧
      ((∃ j history err t after, traceOf c j = history ++ ⟨.failed 0 err, t⟩ :: after ∧
          Unreached (sampleOpener false).rules.dns 0 history ∧ 0 < t + upstreamPause) ∨
        ∃ j now, j ≠ 1 ∧ Holds c j ⟨0, now, true⟩) := by
  have hsteps : (((gate (sampleOpener false)).run ⟨{}, []⟩ pausedAtOnce).bind fun c =>
      (gate (sampleOpener false)).step c (.run 1 ⟨.claim 0 0, .refused⟩)).isSome = true := by
    decide +kernel
  obtain ⟨c', hc'⟩ := Option.isSome_iff_exists.mp hsteps
  obtain ⟨c, hrun, hstep⟩ := Option.bind_eq_some_iff.mp hc'
  exact ⟨c, c', hrun, hstep,
    (pauses_only_unreachable (sampleOpener false) hrun).2.2 1 0 0 c' hstep⟩

end SshGate
