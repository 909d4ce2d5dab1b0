import SshGate.Dns.Reported

/-! # When the status is degraded

The status is degraded for a reason that can be found in the past: a lookup
fell back to the local resolver in the last minute, or a tunnel resolver was
found unreachable in the last ten seconds. And a fallback shows: whoever asks
within the minute is told, unless another fallback has read the clock before it
and stores what it read after it.
-/

namespace SshGate.DnsReport

open Go Interaction Program System

variable {o : Opener}

/-- An event of this kind happened at time `t` of the schedule. -/
def HappenedAt (o : Opener) (kind : Event sig → Prop) (schedule : List (Action (reporting o)))
    (t : Nat) : Prop :=
  ∃ before i event after c, schedule = before ++ .run i event :: after ∧
    (reporting o).run ⟨{}, []⟩ before = some c ∧ kind event ∧ c.state.clock = t

/-- A lookup that has counted its fallback to the local resolver reads the clock
at time `t` of the schedule. -/
def FellBack (o : Opener) (schedule : List (Action (reporting o))) (t : Nat) : Prop :=
  ∃ before i after c front, schedule = before ++ .run i ⟨.gate .now, t⟩ :: after ∧
    (reporting o).run ⟨{}, []⟩ before = some c ∧ c.state.clock = t ∧
    (traceOf c i).filterMap baseEvent = front ++ [⟨.fallback, ()⟩]

/-- The fallback whose reading was `t` is marked. -/
abbrev Marks (o : Opener) (i t : Nat) : Action (reporting o) :=
  .run i ⟨.gate (.lastFallback t), ()⟩

/-- Resolver `u` is recorded as unreachable. -/
def Unreachable (u : Nat) (event : Event sig) : Prop :=
  ∃ err reading, err.isUnreachable = true ∧ event = ⟨.gate (.failed u err), reading⟩

theorem HappenedAt.append {kind : Event sig → Prop} {schedule : List (Action (reporting o))}
    {t : Nat} (h : HappenedAt o kind schedule t) (more : List (Action (reporting o))) :
    HappenedAt o kind (schedule ++ more) t := by
  obtain ⟨before, i, event, after, c, rfl, hrun, hkind, hclock⟩ := h
  exact ⟨before, i, event, after ++ more, c, by simp, hrun, hkind, hclock⟩

theorem HappenedAt.last {kind : Event sig → Prop} {schedule : List (Action (reporting o))}
    {c : Config (reporting o)} (hrun : (reporting o).run ⟨{}, []⟩ schedule = some c) {i : Nat}
    {event : Event sig} (hkind : kind event) :
    HappenedAt o kind (schedule ++ [.run i event]) c.state.clock :=
  ⟨schedule, i, event, [], c, rfl, hrun, hkind, rfl⟩

theorem FellBack.append {schedule : List (Action (reporting o))} {t : Nat}
    (h : FellBack o schedule t) (more : List (Action (reporting o))) :
    FellBack o (schedule ++ more) t := by
  obtain ⟨before, i, after, c, front, rfl, hfell⟩ := h
  exact ⟨before, i, after ++ more, c, front, by simp, hfell⟩

/-! ## What a lookup marks -/

theorem CallStep.lastFallback {c : DnsCache} {allowed : Request → Prop}
    {history : List (Event SshGate.sig)} {t : Nat}
    (h : CallStep c allowed history (.lastFallback t)) :
    ∃ front, history = front ++ [⟨.fallback, ()⟩, ⟨.now, t⟩] := by
  rcases h with hdial | ⟨req, _, _, before, trace, rfl, hstep⟩
  · cases hdial
  cases hstep with
  | flight htrace hop =>
      cases hop with
      | lookup _ hflight hlookup _ =>
          cases hlookup with
          | attempt hop => cases hop
          | @lastFallback _ front hseg =>
              rw [htrace, hflight, hseg]
              exact ⟨_, by simp only [← List.append_assoc]; rfl⟩

/-- A mark is the clock reading that its lookup took last, right after the
fallback was counted. -/
def MarkStep (history : List (Event sig)) (op : Op) : Prop :=
  ∀ t, op = .gate (.lastFallback t) →
    ∃ front, history.filterMap baseEvent = front ++ [⟨.fallback, ()⟩, ⟨.now, t⟩]

theorem program_markStep (call : Call) :
    Always MarkStep (fun _ _ => True) [] (call.program o) := by
  cases call with
  | gate call =>
      have halways : Always (CallStep o.rules.dns (· ∈ call.requests o.rules.dns))
          (fun _ _ => True) (([] : List (Event sig)).filterMap gateEmbedding.project)
          (call.program o) := program_always o call
      refine (halways.embed gateEmbedding ?_).bind fun _ _ _ => trivial
      rintro history op hstep t ⟨⟩
      exact CallStep.lastFallback hstep
  | status =>
      have hreads : Confined (fun op : Op => op.reads = true) (Call.status.program o) :=
        (dnsStatus_reads o.rules.dns).bind fun _ => trivial
      refine hreads.always ?_
      rintro history op hop t rfl
      cases hop

theorem baseEvent_eq_some {event : Event sig} {base : Event SshGate.sig}
    (h : baseEvent event = some base) : event = ⟨.gate base.op, base.reply⟩ := by
  obtain ⟨op, reply⟩ := event
  cases op with
  | gate op =>
      cases h
      rfl
  | _ => cases h

/-- Where a fallback is marked, the reading is that of the fallback. -/
theorem fellBack_of_mark {schedule : List (Action (reporting o))} {c c' : Config (reporting o)}
    {i t : Nat} (hrun : (reporting o).run ⟨{}, []⟩ schedule = some c)
    (hstep : (reporting o).step c (Marks o i t) = some c') : FellBack o schedule t := by
  obtain ⟨call, hguard⟩ := guarded_traceOf program_markStep (run_faithful hrun) hstep
  obtain ⟨front, htrace⟩ := hguard t rfl
  rw [List.append_cons] at htrace
  obtain ⟨past, last, hpast, hfront, hlast⟩ := List.filterMap_eq_append_iff.mp htrace
  obtain ⟨quiet, event, rest, rfl, hquiet, hevent, _⟩ := List.filterMap_eq_cons_iff.mp hlast
  obtain rfl := baseEvent_eq_some hevent
  rw [← List.append_assoc] at hpast
  obtain ⟨before, after, reached, next, rfl, hbefore, hnow, _, hreached⟩ := run_event hrun hpast
  refine ⟨before, i, after, reached, front, rfl, hbefore, ?_, ?_⟩
  · obtain ⟨thread, rest, state, _, _, hperform, _⟩ := step_run_eq_some.mp hnow
    obtain ⟨rfl, _⟩ := by simpa [DnsReport.perform, World.perform] using hperform
    rfl
  · rw [hreached]
    change (past ++ quiet).filterMap baseEvent = _
    rw [List.filterMap_append, List.filterMap_eq_nil_iff.mpr hquiet, List.append_nil, hfront]

/-! ## What the marks stand for -/

section Perform

variable {event : Event SshGate.sig} {w w' : World}

theorem perform_lastFallback (hperform : World.perform event.op w event.reply = some w') :
    w'.lastFallback = w.lastFallback ∨
      ∃ t, event = ⟨.lastFallback t, ()⟩ ∧ w'.lastFallback = some t := by
  obtain ⟨op, reply⟩ := event
  cases op with
  | lastFallback t =>
      obtain rfl := by simpa [World.perform] using hperform
      exact .inr ⟨t, rfl, rfl⟩
  | sfDo req =>
      left
      cases reply with
      | lead flight => grind [World.perform, World.takeOff_lastFallback]
      | join flight => grind [World.perform]
  | _ =>
      left
      grind [World.perform, World.setUpstream_lastFallback, World.releaseProbes_lastFallback,
        World.land_lastFallback]

theorem perform_pausedUntil (hperform : World.perform event.op w event.reply = some w')
    {u x : Nat} (hx : (w'.upstreams u).pausedUntil = some x) :
    (w.upstreams u).pausedUntil = some x ∨ ∃ err, err.isUnreachable = true ∧
      event = ⟨.failed u err, w.clock⟩ ∧ x = w.clock + upstreamPause := by
  rcases perform_upstreams hperform with hups | ⟨v, now, rfl, hups⟩ | ⟨v, rtt, rfl, hups⟩ |
    ⟨v, err, rfl, hups⟩ | ⟨claimed, rfl, rfl⟩
  · exact .inl (hups ▸ hx)
  · left
    rw [hups] at hx
    by_cases hv : u = v
    · rwa [hv, Function.update_self, Upstream.claim_pausedUntil, ← hv] at hx
    · rwa [Function.update_of_ne hv] at hx
  · left
    rw [hups] at hx
    by_cases hv : u = v
    · rw [hv, Function.update_self] at hx
      cases hx
    · rwa [Function.update_of_ne hv] at hx
  · rw [hups] at hx
    by_cases hv : u = v
    · subst hv
      rw [Function.update_self] at hx
      by_cases herr : err.isUnreachable = true
      · simp only [Upstream.failed, herr, if_true, Option.some.injEq] at hx
        exact .inr ⟨err, herr, rfl, hx.symm⟩
      · simp [Upstream.failed, herr] at hx
    · left
      rwa [Function.update_of_ne hv] at hx
  · left
    by_cases hu : u ∈ claimed
    · simpa [hu] using hx
    · simpa [hu] using hx

end Perform

/-- The marks that the status is made from tell of events of the schedule. -/
structure Marked (schedule : List (Action (reporting o))) (c : Config (reporting o)) : Prop where
  run : (reporting o).run ⟨{}, []⟩ schedule = some c
  lastFallback : ∀ t, c.state.lastFallback = some t → FellBack o schedule t
  paused : ∀ u x, (c.state.upstreams u).pausedUntil = some x →
    ∃ t, x = t + upstreamPause ∧ HappenedAt o (Unreachable u) schedule t

/-- What a step does to the marks. -/
theorem step_marks {c c' : Config (reporting o)} {action : Action (reporting o)}
    (hstep : (reporting o).step c action = some c') :
    (c'.state.lastFallback = c.state.lastFallback ∧ c'.state.upstreams = c.state.upstreams) ∨
      ∃ i op reply, action = .run i ⟨.gate op, reply⟩ ∧
        World.perform op c.state reply = some c'.state := by
  cases action with
  | spawn call =>
      cases hstep
      exact .inl ⟨rfl, rfl⟩
  | disturb disturbance => cases disturbance <;> cases hstep <;> exact .inl ⟨rfl, rfl⟩
  | run i event =>
      obtain ⟨thread, next, state, _, _, hperform, rfl⟩ := step_run_eq_some.mp hstep
      obtain ⟨op, reply⟩ := event
      cases op with
      | gate op => exact .inr ⟨i, op, reply, rfl, hperform⟩
      | _ =>
          obtain ⟨_, rfl⟩ := by simpa [DnsReport.perform] using hperform
          exact .inl ⟨rfl, rfl⟩

/-- A step leaves the mark alone or stores the time of a fallback in it. -/
theorem step_lastFallback {c c' : Config (reporting o)} {action : Action (reporting o)}
    (hstep : (reporting o).step c action = some c') :
    c'.state.lastFallback = c.state.lastFallback ∨
      ∃ j t, action = Marks o j t ∧ c'.state.lastFallback = some t := by
  rcases step_marks hstep with ⟨hsame, _⟩ | ⟨j, op, reply, rfl, hperform⟩
  · exact .inl hsame
  · rcases @perform_lastFallback ⟨op, reply⟩ _ _ hperform with hsame | ⟨t, hevent, hstored⟩
    · exact .inl hsame
    · cases hevent
      exact .inr ⟨j, t, rfl, hstored⟩

theorem step_marked {schedule : List (Action (reporting o))} {c c' : Config (reporting o)}
    {action : Action (reporting o)} (hc : Marked schedule c)
    (hstep : (reporting o).step c action = some c') : Marked (schedule ++ [action]) c' where
  run := by simp [run_append, hc.run, System.run, hstep]
  lastFallback := by
    intro t ht
    rcases step_lastFallback hstep with hsame | ⟨j, t', rfl, hstored⟩
    · exact (hc.lastFallback t (hsame ▸ ht)).append _
    · obtain rfl := Option.some.inj (hstored.symm.trans ht)
      exact (fellBack_of_mark hc.run hstep).append _
  paused := by
    intro u x hx
    have hkeep : (c.state.upstreams u).pausedUntil = some x →
        ∃ t, x = t + upstreamPause ∧ HappenedAt o (Unreachable u) (schedule ++ [action]) t := by
      intro hold
      obtain ⟨t, hxt, hhappened⟩ := hc.paused u x hold
      exact ⟨t, hxt, hhappened.append _⟩
    rcases step_marks hstep with ⟨_, hups⟩ | ⟨i, op, reply, rfl, hperform⟩
    · exact hkeep (hups ▸ hx)
    · rcases @perform_pausedUntil ⟨op, reply⟩ _ _ hperform u x hx with
        hold | ⟨err, herr, hevent, hxt⟩
      · exact hkeep hold
      · cases hevent
        exact ⟨c.state.clock, hxt, .last hc.run ⟨err, _, herr, rfl⟩⟩

theorem run_marked {schedule : List (Action (reporting o))} {c : Config (reporting o)}
    (hrun : (reporting o).run ⟨{}, []⟩ schedule = some c) : Marked schedule c := by
  have hstart : Marked (o := o) [] ⟨{}, []⟩ := by
    refine ⟨rfl, ?_, ?_⟩
    · rintro t ⟨⟩
    · rintro u x ⟨⟩
  exact run_invariant_schedule Marked (fun _ _ _ _ hc hstep => step_marked hc hstep) hstart hrun

/-! ## What the readings show -/

section Readings

variable {first second : List (Action (reporting o))} {early c : Config (reporting o)} {i : Nat}
  {front back : List (Event sig)}

/-- What is read, is read where the marks tell of the schedule so far. -/
theorem marked_at (hearly : (reporting o).run ⟨{}, []⟩ first = some early)
    (hrun : (reporting o).run early second = some c) {event : Event sig}
    (htrace : traceOf c i = traceOf early i ++ (front ++ event :: back)) :
    ∃ before after reached w, first ++ second = before ++ after ∧ Marked before reached ∧
      DnsReport.perform event.op reached.state event.reply = some w := by
  obtain ⟨before, after, reached, next, rfl, hbefore, hstep, _⟩ := run_event hrun htrace
  obtain ⟨thread, rest, w, _, _, hperform, rfl⟩ := step_run_eq_some.mp hstep
  have hreached : (reporting o).run ⟨{}, []⟩ (first ++ before) = some reached := by
    rw [run_append, hearly, Option.bind_some, hbefore]
  exact ⟨first ++ before, _, reached, w, (List.append_assoc _ _ _).symm, run_marked hreached,
    hperform⟩

/-- A time that is read as that of the last fallback is the time of one. -/
theorem lastFallback_happened (hearly : (reporting o).run ⟨{}, []⟩ first = some early)
    (hrun : (reporting o).run early second = some c) {t : Nat}
    (htrace : traceOf c i = traceOf early i ++ (front ++ ⟨.lastFallback, some t⟩ :: back)) :
    FellBack o (first ++ second) t := by
  obtain ⟨before, after, reached, w, hsplit, hmarked, hperform⟩ := marked_at hearly hrun htrace
  obtain ⟨hlast, rfl⟩ := by simpa [DnsReport.perform] using hperform
  rw [hsplit]
  exact (hmarked.lastFallback t hlast.symm).append after

/-- A resolver that is read as paused was found unreachable. -/
theorem paused_happened (hearly : (reporting o).run ⟨{}, []⟩ first = some early)
    (hrun : (reporting o).run early second = some c) {u x : Nat} {upstream : Upstream}
    (hx : upstream.pausedUntil = some x)
    (htrace : traceOf c i = traceOf early i ++ (front ++ ⟨.server u, upstream⟩ :: back)) :
    ∃ t, x = t + upstreamPause ∧ HappenedAt o (Unreachable u) (first ++ second) t := by
  obtain ⟨before, after, reached, w, hsplit, hmarked, hperform⟩ := marked_at hearly hrun htrace
  obtain ⟨rfl, rfl⟩ := by simpa [DnsReport.perform] using hperform
  obtain ⟨t, hxt, hhappened⟩ := hmarked.paused u x hx
  rw [hsplit]
  exact ⟨t, hxt, hhappened.append after⟩

/-- After a fallback was marked, the mark is its time or that of a later store. -/
theorem lastFallback_since {schedule : List (Action (reporting o))}
    {start : Config (reporting o)} {t : Nat} (hstart : start.state.lastFallback = some t)
    (hrun : (reporting o).run start schedule = some c) :
    ∃ t', c.state.lastFallback = some t' ∧ (t' = t ∨ ∃ j, Marks o j t' ∈ schedule) := by
  induction schedule generalizing start t with
  | nil =>
      obtain rfl := Option.some.inj hrun
      exact ⟨t, hstart, .inl rfl⟩
  | cons action rest ih =>
      obtain ⟨next, hstep, hrest⟩ := Option.bind_eq_some_iff.mp hrun
      rcases step_lastFallback hstep with hsame | ⟨j, t', rfl, hstored⟩
      · obtain ⟨t', hlast, hwhich⟩ := ih (hsame.trans hstart) hrest
        exact ⟨t', hlast, hwhich.imp_right fun ⟨k, hk⟩ => ⟨k, List.mem_cons_of_mem _ hk⟩⟩
      · obtain ⟨last, hlast, hwhich⟩ := ih hstored hrest
        -- The store that was just made is itself one of the later ones.
        refine ⟨last, hlast, .inr ?_⟩
        rcases hwhich with rfl | ⟨k, hk⟩
        · exact ⟨j, List.mem_cons_self⟩
        · exact ⟨k, List.mem_cons_of_mem _ hk⟩

/-- A fallback that was marked before the readings is seen in them, or one that
was marked after it. -/
theorem lastFallback_read {before after : List (Action (reporting o))} {j t : Nat}
    (hearly : (reporting o).run ⟨{}, []⟩ (before ++ Marks o j t :: after) = some early)
    (hrun : (reporting o).run early second = some c) {last : Option Nat}
    (htrace : traceOf c i = traceOf early i ++ (front ++ ⟨.lastFallback, last⟩ :: back)) :
    ∃ t', last = some t' ∧ (t' = t ∨ ∃ k, Marks o k t' ∈ after ++ second) := by
  obtain ⟨reached, next, _, hmark, hafter⟩ := run_split.mp hearly
  obtain ⟨prior, later, reading, _, rfl, hprior, hread, _⟩ := run_event hrun htrace
  obtain ⟨_, _, _, _, _, hperform, _⟩ := step_run_eq_some.mp hread
  obtain ⟨rfl, _⟩ := by simpa [DnsReport.perform] using hperform
  have hstart : next.state.lastFallback = some t := by
    obtain ⟨_, _, _, _, _, hstore, rfl⟩ := step_run_eq_some.mp hmark
    obtain rfl := by simpa [DnsReport.perform, World.perform] using hstore
    rfl
  have hall : (reporting o).run next (after ++ prior) = some reading := by
    rw [run_append, hafter, Option.bind_some, hprior]
  obtain ⟨t', hlast, hwhich⟩ := lastFallback_since hstart hall
  refine ⟨t', hlast, ?_⟩
  rcases hwhich with hsame | ⟨k, hk⟩
  · exact .inl hsame
  · refine .inr ⟨k, ?_⟩
    rw [← List.append_assoc]
    exact List.mem_append_left _ hk

end Readings

/-- A paused resolver of the report was read as paused. -/
theorem readServers_paused {now : Nat} {endpoints : List Endpoint} {k : Nat}
    {seg : List (Event sig)} {servers : List ServerStatus}
    (hreturns : (readServers now endpoints k).Returns seg servers)
    (hpaused : servers.any ServerStatus.paused = true) :
    ∃ u upstream x, (⟨.server u, upstream⟩ : Event sig) ∈ seg ∧
      upstream.pausedUntil = some x ∧ now < x := by
  induction endpoints generalizing k seg servers with
  | nil =>
      obtain ⟨_, rfl⟩ := returns_ret.mp hreturns
      cases hpaused
  | cons endpoint others ih =>
      obtain ⟨upstream, tail, rfl, htail⟩ := returns_perform.mp hreturns
      obtain ⟨front, others', last, rfl, hfront, hlast⟩ := returns_bind.mp htail
      obtain ⟨rfl, rfl⟩ := returns_ret.mp hlast
      rw [List.any_cons, Bool.or_eq_true] at hpaused
      rcases hpaused with hhead | hothers
      · obtain ⟨x, hx, hlt⟩ := (Option.any_eq_true ..).mp hhead
        exact ⟨k, upstream, x, List.mem_cons_self, hx, of_decide_eq_true hlt⟩
      · obtain ⟨u, upstream', x, hmem, hx, hlt⟩ := ih hfront hothers
        exact ⟨u, upstream', x, by simp [hmem], hx, hlt⟩

theorem recent_some {now t : Nat} :
    recent now (some t) = true ↔ now < t + dnsDegradedWindow := by
  simp only [recent, Option.any_some, decide_eq_true_eq]
  omega

end SshGate.DnsReport
