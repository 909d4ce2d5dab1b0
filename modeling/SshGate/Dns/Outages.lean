import SshGate.Dns.Pauses

/-! # Failures while the tunnel is down

With the tunnel down a failed attempt says nothing about the resolver, so it
should leave no record there. The state of the tunnel is read after the attempt
has failed, though: a client that is published between the last dial and that
read puts the failure on the resolver.
-/

namespace SshGate

open Go Interaction Program System

/-- What a failed attempt records at its resolver. -/
def Upstream.failures (u : Upstream) : Nat × Bool × Text × Option Nat :=
  (u.fail, u.lastFailed, u.lastErr, u.pausedUntil)

theorem Upstream.claim_failures (u : Upstream) (now : Nat) :
    (u.claim now).2.failures = u.failures := by
  rcases u.claim_cases now with ⟨_, hclaim⟩ | ⟨x, _, _, hclaim⟩ | ⟨x, _, _, _, hclaim⟩
  · rw [hclaim]
  · rw [hclaim]
  · rw [hclaim]
    rfl

section Run

variable {o : Opener} {c c' : Config (gate o)} {action : Action (gate o)}

/-- The record changes with an answer or a failure of the resolver only. -/
theorem step_failures (hstep : (gate o).step c action = some c') {u : Nat}
    (hchanged : (c'.state.upstreams u).failures ≠ (c.state.upstreams u).failures) :
    (∃ i rtt, action = .run i ⟨.answered u rtt, ()⟩) ∨
      ∃ i err, action = .run i ⟨.failed u err, c.state.clock⟩ := by
  have hself : ∀ v next, c'.state.upstreams = Function.update c.state.upstreams v next →
      v = u := by
    intro v next hupdate
    by_contra hne
    exact hchanged (by rw [hupdate, Function.update_of_ne (Ne.symm hne)])
  rcases step_upstreams hstep with hups | ⟨i, v, now, _, hups⟩ | ⟨i, v, rtt, rfl, hups⟩ |
    ⟨i, v, err, rfl, hups⟩ | ⟨i, claimed, _, hstate⟩
  · exact absurd (by rw [hups]) hchanged
  · obtain rfl := hself v _ hups
    exact absurd (by rw [hups, Function.update_self, Upstream.claim_failures]) hchanged
  · obtain rfl := hself v _ hups
    exact .inl ⟨i, rtt, rfl⟩
  · obtain rfl := hself v _ hups
    exact .inr ⟨i, err, rfl⟩
  · refine absurd ?_ hchanged
    by_cases hu : u ∈ claimed
    · simp [hstate, hu, Upstream.failures]
    · simp [hstate, hu]

/-- The attempt that thread `i` makes in `during` found the tunnel up: at one of
its dials, or at some moment if it did not dial. -/
def FoundUp (i : Nat) (c : Config (gate o)) (during : List (Action (gate o))) : Prop :=
  (∃ u reply, .run i ⟨.dialServer u, reply⟩ ∈ during ∧ reply ≠ .notConnected) ∨
    (∀ u reply, .run i ⟨.dialServer u, reply⟩ ∉ during) ∧
      ¬ Throughout (fun c : Config (gate o) => c.state.up = false) c during

/-- Thread `i` ends `past` with a failed attempt on `u` that found the tunnel up,
and has read that it still is. -/
def Blames (w : World) (past : List (Action (gate o))) (i u : Nat) (err : Err) : Prop :=
  ∃ (before during wait : List (Action (gate o))) (start stop : Nat) (share : Int) (host : Text)
    (first : Config (gate o)),
    past = before ++ .run i ⟨.now, start⟩ :: (during ++ .run i ⟨.now, stop⟩ :: wait) ∧
    (upstreamLookup o.rules.dns u share host).Returns (eventsOf i during) (.error err) ∧
    eventsOf i wait = [(⟨.tunnelUp, true⟩ : Event sig)] ∧
    (gate o).run ⟨w, []⟩ (before ++ [.run i ⟨.now, start⟩]) = some first ∧ FoundUp i first during

/-- A part of an attempt of thread `i` in which no dial found a client. -/
def FoundNone (i : Nat) (part : List (Action (gate o))) : Prop :=
  ∀ event : Event sig, event ∈ eventsOf i part → event.op.inAttempt = true ∧
    ∀ u reply, event = ⟨.dialServer u, reply⟩ → reply = .notConnected

/-- A part of an attempt of thread `i` without a dial. -/
def DialsNone (i : Nat) (part : List (Action (gate o))) : Prop :=
  ∀ event : Event sig, event ∈ eventsOf i part → event.op.inAttempt = true ∧
    ∀ u, event.op ≠ .dialServer u

/-- No client is published between the last dial of an attempt whose dials all
found none and the read of the tunnel state after it, or between the end of an
attempt that made no dial and that read. An attempt lies between two readings of
the clock. -/
structure NoLateClient (schedule : List (Action (gate o))) : Prop where
  afterDial : ∀ (before early late wait after : List (Action (gate o))) (i u start stop : Nat)
      (up : Bool),
    schedule = before ++ .run i ⟨.now, start⟩ :: (early ++
      .run i ⟨.dialServer u, .notConnected⟩ :: (late ++ .run i ⟨.now, stop⟩ ::
        (wait ++ .run i ⟨.tunnelUp, up⟩ :: after))) →
    FoundNone i early → DialsNone i late → eventsOf i wait = [] →
    .disturb (.tunnel true) ∉ late ++ wait
  afterAttempt : ∀ (before during wait after : List (Action (gate o))) (i start stop : Nat)
      (up : Bool),
    schedule = before ++ .run i ⟨.now, start⟩ :: (during ++ .run i ⟨.now, stop⟩ ::
      (wait ++ .run i ⟨.tunnelUp, up⟩ :: after)) →
    DialsNone i during → eventsOf i wait = [] → .disturb (.tunnel true) ∉ wait

theorem step_dialServer {i u : Nat} {reply : DialReply}
    (hstep : (gate o).step c (.run i ⟨.dialServer u, reply⟩) = some c') :
    (reply = .notConnected ↔ c.state.up = false) ∧ c'.state = c.state := by
  obtain ⟨_, _, state, _, _, hperform, rfl⟩ := step_run_eq_some.mp hstep
  simp only [World.perform, Option.ite_none_right_eq_some, Option.some.injEq] at hperform
  exact ⟨hperform.1, hperform.2.symm⟩

theorem step_tunnelUp {i : Nat} {up : Bool}
    (hstep : (gate o).step c (.run i ⟨.tunnelUp, up⟩) = some c') :
    up = c.state.up ∧ c'.state = c.state := by
  obtain ⟨_, _, state, _, _, hperform, rfl⟩ := step_run_eq_some.mp hstep
  simp only [World.perform, Option.ite_none_right_eq_some, Option.some.injEq] at hperform
  exact ⟨hperform.1, hperform.2.symm⟩

/-- A run between two looks at the tunnel, the first of which found it down,
brings it up only with a new client. -/
theorem client_of_up {i u : Nat} {between : List (Action (gate o))} {c₁ c₂ : Config (gate o)}
    (hdial : (gate o).step c (.run i ⟨.dialServer u, .notConnected⟩) = some c₁)
    (hrun : (gate o).run c₁ between = some c₂)
    (hread : (gate o).step c₂ (.run i ⟨.tunnelUp, true⟩) = some c') :
    .disturb (.tunnel true) ∈ between := by
  by_contra hclient
  obtain ⟨hdown, hstate⟩ := step_dialServer hdial
  have hlater := run_up hrun hclient (by rw [hstate]; exact hdown.mp rfl)
  cases (step_tunnelUp hread).1.trans hlater

/-- Splitting a run at two events of a thread that follow each other. -/
theorem run_pair {w : World} {before between after : List (Action (gate o))} {i : Nat}
    {first second : Event sig}
    (hrun : (gate o).run ⟨w, []⟩ (before ++ .run i first :: (between ++ .run i second :: after)) =
      some c) :
    ∃ c₁ c₂ c₃ c₄, (gate o).run ⟨w, []⟩ before = some c₁ ∧
      (gate o).step c₁ (.run i first) = some c₂ ∧ (gate o).run c₂ between = some c₃ ∧
      (gate o).step c₃ (.run i second) = some c₄ ∧ (gate o).run c₄ after = some c := by
  obtain ⟨c₁, c₂, hbefore, hfirst, hrest⟩ := run_split.mp hrun
  obtain ⟨c₃, c₄, hbetween, hsecond, hafter⟩ := run_split.mp hrest
  exact ⟨c₁, c₂, c₃, c₄, hbefore, hfirst, hbetween, hsecond, hafter⟩

/-- An attempt that ends with the tunnel seen up found it up before, as long as
no client comes late. -/
theorem foundUp_of_read {w : World} {before during wait after : List (Action (gate o))}
    {i u start stop : Nat} {share : Int} {host : Text} {result : Except Err (List Addr)}
    {first : Config (gate o)}
    (hrun : (gate o).run ⟨w, []⟩ (before ++ .run i ⟨.now, start⟩ ::
      (during ++ .run i ⟨.now, stop⟩ :: (wait ++ .run i ⟨.tunnelUp, true⟩ :: after))) = some c)
    (hquiet : NoLateClient (before ++ .run i ⟨.now, start⟩ ::
      (during ++ .run i ⟨.now, stop⟩ :: (wait ++ .run i ⟨.tunnelUp, true⟩ :: after))))
    (hattempt : (upstreamLookup o.rules.dns u share host).Returns (eventsOf i during) result)
    (hwait : eventsOf i wait = [])
    (hfirst : (gate o).run ⟨w, []⟩ (before ++ [.run i ⟨.now, start⟩]) = some first) :
    FoundUp i first during := by
  by_contra hblind
  rw [FoundUp, not_or] at hblind
  obtain ⟨hnone, hdown⟩ := hblind
  have hinside : ∀ event : Event sig, event ∈ eventsOf i during → event.op.inAttempt = true :=
    fun event hevent => (upstreamLookup_inAttempt o.rules.dns u share host).of_mem hattempt hevent
  by_cases hdials : ∃ x ∈ during, ∃ v reply, x = .run i ⟨.dialServer v, reply⟩
  · -- The last dial found no client, and from then on none is published.
    obtain ⟨early, _, late, rfl, ⟨v, reply, rfl⟩, hlate⟩ := exists_last hdials
    have hreply : ∀ v' reply', .run i ⟨.dialServer v', reply'⟩ ∈ early ++
        .run i ⟨.dialServer v, reply⟩ :: late → reply' = .notConnected := by
      intro v' reply' hmem
      by_contra hreply
      exact hnone ⟨v', reply', hmem, hreply⟩
    obtain rfl : reply = .notConnected := hreply v reply (by simp)
    rw [eventsOf_mid] at hinside
    have hearly : FoundNone i early := by
      refine fun event hevent => ⟨hinside event (by simp [hevent]), ?_⟩
      rintro v' reply' rfl
      exact hreply v' reply' (List.mem_append_left _ (mem_eventsOf.mp hevent))
    have hafter : DialsNone i late := by
      refine fun event hevent => ⟨hinside event (by simp [hevent]), fun v' hop => ?_⟩
      obtain ⟨_, reply'⟩ := event
      subst hop
      exact hlate _ (mem_eventsOf.mp hevent) ⟨v', reply', rfl⟩
    rw [List.append_assoc, List.cons_append] at hrun hquiet
    have hclient := hquiet.afterDial before early late wait after i v start stop true rfl hearly
      hafter hwait
    have hsplit : before ++ .run i ⟨.now, start⟩ ::
        (early ++ .run i ⟨.dialServer v, .notConnected⟩ :: (late ++ .run i ⟨.now, stop⟩ ::
          (wait ++ .run i ⟨.tunnelUp, true⟩ :: after))) =
        (before ++ .run i ⟨.now, start⟩ :: early) ++ .run i ⟨.dialServer v, .notConnected⟩ ::
          ((late ++ .run i ⟨.now, stop⟩ :: wait) ++ .run i ⟨.tunnelUp, true⟩ :: after) := by
      simp
    rw [hsplit] at hrun
    obtain ⟨c₁, c₂, c₃, c₄, _, hdial, hbetween, hread, _⟩ := run_pair hrun
    exact hclient (by simpa using client_of_up hdial hbetween hread)
  · -- Without a dial the tunnel was down up to the end of the attempt.
    have hthroughout : Throughout (fun c : Config (gate o) => c.state.up = false) first during := by
      by_contra hsometime
      exact hdown ⟨fun v reply hmem => hdials ⟨_, hmem, v, reply, rfl⟩, hsometime⟩
    obtain ⟨c₁, c₂, c₃, c₄, hbefore, hstart, hduring, hstop, hafter⟩ := run_pair hrun
    obtain ⟨c₅, c₆, hwait', hread, _⟩ := run_split.mp hafter
    have hundialed : DialsNone i during := by
      refine fun event hevent => ⟨hinside event hevent, fun v hop => ?_⟩
      obtain ⟨_, reply⟩ := event
      subst hop
      exact hdials ⟨_, mem_eventsOf.mp hevent, v, reply, rfl⟩
    have hclient : .disturb (.tunnel true) ∉ wait :=
      hquiet.afterAttempt before during wait after i start stop true rfl hundialed hwait
    have hsame : c₂ = first := by
      rw [run_split.mpr ⟨c₁, c₂, hbefore, hstart, rfl⟩] at hfirst
      exact Option.some.inj hfirst
    subst hsame
    have hlast : c₃.state.up = false := hthroughout.last hduring
    have hread' := run_up hwait' hclient (step_up hstop nofun hlast)
    cases (step_tunnelUp hread).1.trans hread'

end Run

/-- Failures with the tunnel down are not put on the resolvers, in every run in
which no client comes late: what is recorded at a resolver changes with one of
its answers, or with a failed attempt that found the tunnel up at one of its
dials (at some moment, if it did not dial). An attempt whose dials all found no
client leaves the records as they are. -/
theorem failures_need_tunnel (o : Opener) {w : World} {past : List (Action (gate o))}
    {c c' : Config (gate o)} {action : Action (gate o)} {u : Nat}
    (hrun : (gate o).run ⟨w, []⟩ past = some c) (hquiet : NoLateClient past)
    (hstep : (gate o).step c action = some c')
    (hchanged : (c'.state.upstreams u).failures ≠ (c.state.upstreams u).failures) :
    (∃ i rtt, action = .run i ⟨.answered u rtt, ()⟩) ∨
      ∃ i err, action = .run i ⟨.failed u err, c.state.clock⟩ ∧ Blames w past i u err := by
  rcases step_failures hstep hchanged with hanswered | ⟨i, err, rfl⟩
  · exact .inl hanswered
  · obtain ⟨call, hguard⟩ := guarded_traceOf (program_always o) (run_faithful hrun) hstep
    obtain ⟨_, host, attempt, htrace, prior, start, share, stop, rfl, hattempt⟩ := hguard.failed
    have hevents : eventsOf i past = prior ++ ⟨.now, start⟩ ::
        (attempt ++ ⟨.now, stop⟩ :: [⟨.tunnelUp, true⟩]) := by
      rw [run_traceOf hrun] at htrace
      simpa [traceOf] using htrace
    obtain ⟨before, rest, rfl, _, hrest⟩ := eventsOf_split hevents
    obtain ⟨during, wait, rfl, rfl, hwait⟩ := eventsOf_split hrest
    have hread : eventsOf i wait = [] ++ (⟨.tunnelUp, true⟩ : Event sig) :: [] := hwait
    obtain ⟨idle, after, rfl, hidle, _⟩ := eventsOf_split hread
    obtain ⟨c₁, c₂, hbefore, hstart, _⟩ := run_split.mp hrun
    have hfirst : (gate o).run ⟨w, []⟩ (before ++ [.run i ⟨.now, start⟩]) = some c₂ :=
      run_split.mpr ⟨c₁, c₂, hbefore, hstart, rfl⟩
    exact .inr ⟨i, err, rfl, before, during, _, start, stop, share, host, c₂, rfl, hattempt, hwait,
      hfirst, foundUp_of_read hrun hquiet hattempt hidle hfirst⟩

theorem noLateClient_of_not_mem {o : Opener} {schedule : List (Action (gate o))}
    (hsteady : .disturb (.tunnel true) ∉ schedule) : NoLateClient schedule := by
  constructor
  · rintro before early late wait after i u start stop up rfl - - - hmem
    rw [List.mem_append] at hmem
    refine hsteady ?_
    simp only [List.mem_append, List.mem_cons]
    tauto
  · rintro before during wait after i start stop up rfl - - hmem
    exact hsteady (by simp [hmem])

/-- The tunnel is up, and the resolver refuses the channel. -/
def refusedDial : List (Action (gate (sampleOpener false))) :=
  (gate (sampleOpener false)).alone [] (.resolveTunnel (str "x"))
    (sampleAttempt ⟨.tunnel, str "x"⟩ [.failed] (.error (.dns false (str "refused"))) ++
      [⟨.tunnelUp, true⟩])

theorem refusedDial_blames :
    ∃ c c', (gate (sampleOpener false)).run ⟨{ up := true }, []⟩ refusedDial = some c ∧
      (gate (sampleOpener false)).step c
        (.run 0 ⟨.failed 0 (.unreachable (str "refused")), 0⟩) = some c' ∧
      Blames { up := true } refusedDial 0 0 (.unreachable (str "refused")) := by
  have hsteps : (((gate (sampleOpener false)).run ⟨{ up := true }, []⟩ refusedDial).bind fun c =>
      ((gate (sampleOpener false)).step c
        (.run 0 ⟨.failed 0 (.unreachable (str "refused")), 0⟩)).map fun c' => (c, c')).any
      (fun pair : Config (gate (sampleOpener false)) × Config (gate (sampleOpener false)) =>
        decide ((pair.2.state.upstreams 0).failures ≠ (pair.1.state.upstreams 0).failures)) =
      true := by
    decide +kernel
  obtain ⟨⟨c, c'⟩, hpair, hchanged⟩ := (Option.any_eq_true ..).mp hsteps
  obtain ⟨_, hrun, hnext⟩ := Option.bind_eq_some_iff.mp hpair
  obtain ⟨_, hstep, hsame⟩ := Option.map_eq_some_iff.mp hnext
  cases hsame
  have hsteady : .disturb (.tunnel true) ∉ refusedDial := by simp [refusedDial, System.alone]
  rcases failures_need_tunnel (sampleOpener false) hrun (noLateClient_of_not_mem hsteady) hstep
    (of_decide_eq_true hchanged) with ⟨_, _, haction⟩ | ⟨i, err, haction, hblames⟩
  · cases haction
  · simp only [Action.run.injEq, Event.mk.injEq, Op.failed.injEq] at haction
    obtain ⟨rfl, ⟨_, rfl⟩, _⟩ := haction
    exact ⟨c, c', hrun, hstep, hblames⟩

/-- The only dial finds no client; before the tunnel state is read, one is
published. -/
def lateClient : List (Action (gate (sampleOpener false))) :=
  (gate (sampleOpener false)).alone [] (.resolveTunnel (str "x"))
    (sampleAttempt ⟨.tunnel, str "x"⟩ [.notConnected]
      (.error (.dns false (str "not connected")))) ++
  [.disturb (.tunnel true), .run 0 ⟨.tunnelUp, true⟩]

/-- The resolver is blamed and paused although it was never dialed. -/
theorem lateClient_blamed :
    (∀ i u reply, .run i ⟨.dialServer u, reply⟩ ∈ lateClient → reply = .notConnected) ∧
      ∃ c c', (gate (sampleOpener false)).run ⟨{}, []⟩ lateClient = some c ∧
        (gate (sampleOpener false)).step c
          (.run 0 ⟨.failed 0 (.unreachable (str "not connected")), 0⟩) = some c' ∧
        (c.state.upstreams 0).failures = (0, false, [], none) ∧
        (c'.state.upstreams 0).failures =
          (1, true, (Err.unreachable (str "not connected")).error, some upstreamPause) := by
  refine ⟨by simp [lateClient, System.alone, sampleAttempt], ?_⟩
  have hsteps : (((gate (sampleOpener false)).run ⟨{}, []⟩ lateClient).bind fun c =>
      ((gate (sampleOpener false)).step c
        (.run 0 ⟨.failed 0 (.unreachable (str "not connected")), 0⟩)).map fun c' => (c, c')).any
      (fun pair : Config (gate (sampleOpener false)) × Config (gate (sampleOpener false)) =>
        decide ((pair.1.state.upstreams 0).failures = (0, false, [], none) ∧
          (pair.2.state.upstreams 0).failures =
            (1, true, (Err.unreachable (str "not connected")).error, some upstreamPause))) =
      true := by
    decide +kernel
  obtain ⟨⟨c, c'⟩, hpair, hrecord⟩ := (Option.any_eq_true ..).mp hsteps
  obtain ⟨_, hrun, hnext⟩ := Option.bind_eq_some_iff.mp hpair
  obtain ⟨_, hstep, hsame⟩ := Option.map_eq_some_iff.mp hnext
  cases hsame
  exact ⟨c, c', hrun, hstep, of_decide_eq_true hrecord⟩

end SshGate
