import SshGate.Dns.Caching
import SshGate.Dns.Counts

/-! # What the status page reports

Between the first and the last reading of one `DNSStatus` lookups begin, are
counted and end. Each counter is read at a moment of its own, so the sum that is
reported need not be the sum at any one moment. It is still never below the
lookups that had ended before the first reading, nor above those that had begun
by the last.
-/

namespace SshGate.DnsReport

open Go Interaction Program System

/-- A key of the gate's events. -/
def gateKey (key : Event SshGate.sig → Option Unit) (event : Event sig) : Option Unit :=
  (gateEmbedding.project event).bind key

/-- What precedes each action of a call or of a reading of the status. -/
structure ReportStep (n : Nat) (history : List (Event sig)) (op : Op) : Prop where
  settled : Covered (gateKey begunKey) (gateKey settledKey) history op
  ended : Covered (gateKey settledKey) (gateKey endedKey) history op
  listed : ∀ u rtt, op = .gate (.answered u rtt) → u < n

theorem ReportStep.embed {n : Nat} {history : List (Event sig)} {op : SshGate.Op}
    (hstep : CountStep n (history.filterMap gateEmbedding.project) op) :
    ReportStep n history (gateEmbedding.op op) where
  settled := hstep.settled.embed gateEmbedding
  ended := hstep.ended.embed gateEmbedding
  listed := by
    rintro u rtt ⟨⟩
    exact hstep.listed u rtt rfl

/-- The actions of the status page itself. -/
def Op.reads : Op → Bool
  | .gate _ => false
  | _ => true

theorem gateKey_of_reads {op : Op} (hop : op.reads = true) (key : Event SshGate.sig → Option Unit)
    (reply : op.Reply) : gateKey key ⟨op, reply⟩ = none := by
  cases op <;> first | rfl | cases hop

theorem ReportStep.of_reads {n : Nat} {history : List (Event sig)} {op : Op}
    (hop : op.reads = true) : ReportStep n history op where
  settled := by
    intro reply k hkey
    rw [gateKey_of_reads hop] at hkey
    cases hkey
  ended := by
    intro reply k hkey
    rw [gateKey_of_reads hop] at hkey
    cases hkey
  listed := by
    rintro u rtt rfl
    cases hop

theorem readServers_reads (now : Nat) (endpoints : List Endpoint) (u : Nat) :
    Confined (fun op : Op => op.reads = true) (readServers now endpoints u) := by
  induction endpoints generalizing u with
  | nil => trivial
  | cons endpoint rest ih => exact .perform rfl fun upstream => (ih _).bind fun servers => trivial

theorem dnsStatus_reads (c : DnsCache) :
    Confined (fun op : Op => op.reads = true) (dnsStatus c) :=
  .perform rfl fun now => .perform rfl fun _ => .perform rfl fun _ =>
    (readServers_reads now c.tunnel 0).bind fun _ => trivial

theorem program_steps (o : Opener) (call : Call) :
    Always (ReportStep o.rules.dns.tunnel.length) (fun _ _ => True) [] (call.program o) := by
  cases call with
  | gate call =>
      have hcounts : Always (CountStep o.rules.dns.tunnel.length)
          (fun history _ => Stage.idle.At history)
          (([] : List (Event sig)).filterMap gateEmbedding.project) (call.program o) :=
        program_counts o call
      exact (hcounts.embed gateEmbedding fun _ _ => ReportStep.embed).bind fun _ _ _ => trivial
  | status =>
      refine Confined.always ?_ fun history op hop => ReportStep.of_reads hop
      exact (dnsStatus_reads o.rules.dns).bind fun _ => trivial

section Runs

variable {o : Opener} {c c' : Config (reporting o)}

/-- The lookups of the tunnel policy that have begun. -/
def lookupsBegun (c : Config (reporting o)) : Nat := (tally (gateKey begunKey) c).length

/-- Those that a resolver or the fallback was counted for. -/
def lookupsSettled (c : Config (reporting o)) : Nat := (tally (gateKey settledKey) c).length

def lookupsEnded (c : Config (reporting o)) : Nat := (tally (gateKey endedKey) c).length

theorem count_unit (l : List Unit) : l.count () = l.length :=
  List.count_eq_length.mpr fun _ _ => rfl

theorem lookupsEnded_le_settled (hc : Faithful c) : lookupsEnded c ≤ lookupsSettled c := by
  have hle := tally_count_le (program_steps o) (fun _ _ _ hstep => hstep.ended) hc ()
  rwa [count_unit, count_unit] at hle

theorem lookupsSettled_le_begun (hc : Faithful c) : lookupsSettled c ≤ lookupsBegun c := by
  have hle := tally_count_le (program_steps o) (fun _ _ _ hstep => hstep.settled) hc ()
  rwa [count_unit, count_unit] at hle

/-- The counters of the resolver state. -/
def counted (c : Config (reporting o)) : Nat :=
  c.state.okTotal o.rules.dns.tunnel.length + c.state.fallbacks

/-- What a step does to the counters. -/
theorem step_counters {action : Action (reporting o)}
    (hstep : (reporting o).step c action = some c') :
    (c'.state.upstreams = c.state.upstreams ∧ c'.state.fallbacks = c.state.fallbacks ∧
        yield (gateKey settledKey) action = []) ∨
      ∃ i op reply, action = .run i ⟨.gate op, reply⟩ ∧
        CounterStep c.state c'.state ⟨op, reply⟩ := by
  cases action with
  | spawn call =>
      cases hstep
      exact .inl ⟨rfl, rfl, rfl⟩
  | disturb disturbance =>
      cases disturbance <;> cases hstep <;> exact .inl ⟨rfl, rfl, rfl⟩
  | run i event =>
      obtain ⟨thread, next, state, _, _, hperform, rfl⟩ := step_run_eq_some.mp hstep
      obtain ⟨op, reply⟩ := event
      cases op with
      | gate op => exact .inr ⟨i, op, reply, rfl, perform_counterStep hperform⟩
      | _ =>
          obtain ⟨_, rfl⟩ := by simpa [DnsReport.perform] using hperform
          exact .inl ⟨rfl, rfl, rfl⟩

theorem step_counted {action : Action (reporting o)} (hfaithful : Faithful c)
    (hc : counted c = lookupsSettled c) (hstep : (reporting o).step c action = some c') :
    counted c' = lookupsSettled c' := by
  have htally : lookupsSettled c' =
      (yield (gateKey settledKey) action).length + lookupsSettled c := tally_length hstep
  rcases step_counters hstep with ⟨hups, hfall, hyield⟩ | ⟨i, op, reply, rfl, hcounter⟩
  · rw [htally, hyield, List.length_nil, Nat.zero_add, ← hc]
    simp only [counted, World.okTotal, hups, hfall]
  · obtain ⟨call, hguard⟩ := guarded_traceOf (program_steps o) hfaithful hstep
    have htotal := hcounter.total fun u rtt hop => hguard.listed u rtt (congrArg Op.gate hop)
    rw [htally, ← hc]
    exact htotal

/-- The counters count the lookups that were answered or fell back. -/
theorem run_counted {schedule : List (Action (reporting o))}
    (hrun : (reporting o).run ⟨{}, []⟩ schedule = some c) : counted c = lookupsSettled c := by
  have hinv := run_invariant (M := reporting o)
    (fun c => Faithful c ∧ counted c = lookupsSettled c) ?_ ?_ hrun
  · exact hinv.2
  · rintro c action c' ⟨hfaithful, hc⟩ hstep
    exact ⟨step_faithful hfaithful hstep, step_counted hfaithful hc hstep⟩
  · refine ⟨by simp [Faithful], ?_⟩
    simp [counted, lookupsSettled, World.okTotal, tally]

/-- No counter goes back. -/
theorem run_counters_le {schedule : List (Action (reporting o))}
    (hrun : (reporting o).run c schedule = some c') :
    (∀ u, (c.state.upstreams u).ok ≤ (c'.state.upstreams u).ok) ∧
      c.state.fallbacks ≤ c'.state.fallbacks := by
  refine run_invariant (M := reporting o)
    (fun reached => (∀ u, (c.state.upstreams u).ok ≤ (reached.state.upstreams u).ok) ∧
      c.state.fallbacks ≤ reached.state.fallbacks) ?_ ⟨fun _ => le_rfl, le_rfl⟩ hrun
  rintro reached action next ⟨hok, hfall⟩ hstep
  rcases step_counters hstep with ⟨hups, hfall', _⟩ | ⟨i, op, reply, _, hcounter⟩
  · rw [hups, hfall']
    exact ⟨hok, hfall⟩
  · obtain ⟨hok', hfall'⟩ := hcounter.le
    exact ⟨fun u => (hok u).trans (hok' u), hfall.trans hfall'⟩

section Readings

variable {second : List (Action (reporting o))} {i : Nat} {first rest : List (Event sig)}

/-- A resolver that is read during a run shows a count between those at its two
ends. -/
theorem server_between (hrun : (reporting o).run c second = some c') {u : Nat}
    {upstream : Upstream}
    (htrace : traceOf c' i = traceOf c i ++ (first ++ ⟨.server u, upstream⟩ :: rest)) :
    (c.state.upstreams u).ok ≤ upstream.ok ∧ upstream.ok ≤ (c'.state.upstreams u).ok := by
  obtain ⟨_, _, reached, next, _, hbefore, hstep, hafter, _⟩ := run_event hrun htrace
  obtain ⟨thread, rest, state, _, _, hperform, rfl⟩ := step_run_eq_some.mp hstep
  obtain ⟨rfl, rfl⟩ := by simpa [DnsReport.perform] using hperform
  exact ⟨(run_counters_le hbefore).1 u, (run_counters_le hafter).1 u⟩

theorem fallbacks_between (hrun : (reporting o).run c second = some c') {count : Nat}
    (htrace : traceOf c' i = traceOf c i ++ (first ++ ⟨.fallbacks, count⟩ :: rest)) :
    c.state.fallbacks ≤ count ∧ count ≤ c'.state.fallbacks := by
  obtain ⟨_, _, reached, next, _, hbefore, hstep, hafter, _⟩ := run_event hrun htrace
  obtain ⟨thread, rest, state, _, _, hperform, rfl⟩ := step_run_eq_some.mp hstep
  obtain ⟨rfl, rfl⟩ := by simpa [DnsReport.perform] using hperform
  exact ⟨(run_counters_le hbefore).2, (run_counters_le hafter).2⟩

end Readings

/-- The sum over the resolvers is between the sums of the bounds. -/
theorem readServers_sum {now : Nat} {endpoints : List Endpoint} {k : Nat}
    {seg : List (Event sig)} {servers : List ServerStatus}
    (hreturns : (readServers now endpoints k).Returns seg servers) {low high : Nat → Nat}
    (hbetween : ∀ u upstream, (⟨.server u, upstream⟩ : Event sig) ∈ seg →
      low u ≤ upstream.ok ∧ upstream.ok ≤ high u) :
    ((List.range' k endpoints.length).map low).sum ≤ (servers.map ServerStatus.ok).sum ∧
      (servers.map ServerStatus.ok).sum ≤ ((List.range' k endpoints.length).map high).sum := by
  induction endpoints generalizing k seg servers with
  | nil =>
      obtain ⟨_, rfl⟩ := returns_ret.mp hreturns
      exact ⟨le_rfl, le_rfl⟩
  | cons endpoint others ih =>
      obtain ⟨upstream, tail, rfl, htail⟩ := returns_perform.mp hreturns
      obtain ⟨front, others', last, rfl, hfront, hlast⟩ := returns_bind.mp htail
      obtain ⟨rfl, rfl⟩ := returns_ret.mp hlast
      have hhead := hbetween k upstream List.mem_cons_self
      have hothers := ih hfront fun u up hmem => hbetween u up (by simp [hmem])
      simp only [List.length_cons, List.range'_succ, List.map_cons, List.sum_cons, serverStatus]
      omega

/-- The readings of one `DNSStatus`, and what it makes of them. -/
theorem dnsStatus_returns {dns : DnsCache} {seg : List (Event sig)} {status : DnsStatus}
    (hreturns : (dnsStatus dns).Returns seg status) :
    ∃ now count last reads servers,
      seg = ⟨.now, now⟩ :: ⟨.fallbacks, count⟩ :: ⟨.lastFallback, last⟩ :: reads ∧
      (readServers now dns.tunnel 0).Returns reads servers ∧
      status.localFallbacks = count ∧ status.servers = servers ∧
      status.degraded = (recent now last || servers.any ServerStatus.paused) := by
  obtain ⟨now, _, rfl, hcount⟩ := returns_perform.mp hreturns
  obtain ⟨count, _, rfl, hlast⟩ := returns_perform.mp hcount
  obtain ⟨last, _, rfl, hrest⟩ := returns_perform.mp hlast
  obtain ⟨reads, servers, _, rfl, hreads, hend⟩ := returns_bind.mp hrest
  obtain ⟨rfl, rfl⟩ := returns_ret.mp hend
  exact ⟨now, count, last, reads, servers, by rw [List.append_nil], hreads, rfl, rfl, rfl⟩

/-- What a reading of the status adds up to. -/
theorem dnsStatus_between {second : List (Action (reporting o))}
    (hrun : (reporting o).run c second = some c') {i : Nat} {seg after : List (Event sig)}
    (htrace : traceOf c' i = traceOf c i ++ seg ++ after) {status : DnsStatus}
    (hreturns : (dnsStatus o.rules.dns).Returns seg status) :
    counted c ≤ status.localFallbacks + (status.servers.map ServerStatus.ok).sum ∧
      status.localFallbacks + (status.servers.map ServerStatus.ok).sum ≤ counted c' := by
  obtain ⟨now, count, last, reads, servers, rfl, hreads, rfl, rfl, _⟩ := dnsStatus_returns hreturns
  have hcount : traceOf c' i = traceOf c i ++ ([⟨.now, now⟩] ++
      ⟨.fallbacks, status.localFallbacks⟩ :: (⟨.lastFallback, last⟩ :: reads ++ after)) := by
    rw [htrace]
    simp
  have hfall := fallbacks_between hrun hcount
  have hservers : ∀ u upstream, (⟨.server u, upstream⟩ : Event sig) ∈ reads →
      (c.state.upstreams u).ok ≤ upstream.ok ∧ upstream.ok ≤ (c'.state.upstreams u).ok := by
    intro u upstream hmem
    obtain ⟨front, back, rfl⟩ := List.append_of_mem hmem
    have hserver : traceOf c' i = traceOf c i ++ ((⟨.now, now⟩ ::
        ⟨.fallbacks, status.localFallbacks⟩ :: ⟨.lastFallback, last⟩ :: front) ++
          ⟨.server u, upstream⟩ :: (back ++ after)) := by
      rw [htrace]
      simp
    exact server_between hrun hserver
  have hsum := readServers_sum hreads hservers
  simp only [counted, World.okTotal, List.range_eq_range']
  omega

/-- The reported successes and fallbacks together count every lookup of the
tunnel policy that had ended when the status was asked for, and none that had
not begun when it was given. -/
theorem status_counts_lookups {first second : List (Action (reporting o))}
    {early c : Config (reporting o)} (hearly : (reporting o).run ⟨{}, []⟩ first = some early)
    (hrun : (reporting o).run early second = some c) {i : Nat} {seg after : List (Event sig)}
    (htrace : traceOf c i = traceOf early i ++ seg ++ after) {status : DnsStatus}
    (hreturns : (dnsStatus o.rules.dns).Returns seg status) :
    lookupsEnded early ≤ status.localFallbacks + (status.servers.map ServerStatus.ok).sum ∧
      status.localFallbacks + (status.servers.map ServerStatus.ok).sum ≤ lookupsBegun c := by
  have hall : (reporting o).run ⟨{}, []⟩ (first ++ second) = some c := by
    rw [run_append, hearly, Option.bind_some, hrun]
  obtain ⟨hlow, hhigh⟩ := dnsStatus_between hrun htrace hreturns
  rw [run_counted hearly] at hlow
  rw [run_counted hall] at hhigh
  exact ⟨(lookupsEnded_le_settled (run_faithful hearly)).trans hlow,
    hhigh.trans (lookupsSettled_le_begun (run_faithful hall))⟩

end Runs

/-! ## A report after a fallback -/

/-- With the tunnel down a lookup falls back; 5 s later the status is asked for. -/
def fallbackThenStatus : List (Action (reporting (sampleOpener false))) :=
  let req : Request := ⟨.tunnel, str "x"⟩
  let events := leadEvents req 0 ++ takeOffEvents 0 ++ fallenBackSeg ++
    [⟨.sfEnd req 0 fallenBackAnswer, ()⟩]
  .spawn (.gate (.resolveTunnel (str "x"))) ::
    events.map (fun event => .run 0 ⟨.gate event.op, event.reply⟩) ++
    [.disturb (.tick (5 * second)), .spawn .status]

def statusSeg : List (Event sig) :=
  [⟨.now, 5 * second⟩, ⟨.fallbacks, 1⟩, ⟨.lastFallback, some 0⟩, ⟨.server 0, {}⟩]

def fallbackStatus : DnsStatus where
  mode := str "servers"
  degraded := true
  localFallbacks := 1
  lastFallbackAt := 0
  servers := [serverStatus (str "1.1.1.1") {} (5 * second)]

theorem statusSeg_returns :
    (dnsStatus (sampleOpener false).rules.dns).Returns statusSeg fallbackStatus := by
  unfold Returns
  repeat first
    | exact .refl _
    | apply Reaches.act

/-- The two parts of the run, and the readings between them. -/
theorem statusSeg_runs :
    ∃ early c, (reporting (sampleOpener false)).run ⟨{}, []⟩ fallbackThenStatus = some early ∧
      (reporting (sampleOpener false)).run early (statusSeg.map (.run 1)) = some c ∧
      traceOf c 1 = traceOf early 1 ++ statusSeg ++ [] ∧ lookupsEnded early = 1 := by
  have hruns : ((reporting (sampleOpener false)).run ⟨{}, []⟩ fallbackThenStatus).any
      (fun early : Config (reporting (sampleOpener false)) =>
        ((reporting (sampleOpener false)).run early (statusSeg.map (.run 1))).isSome &&
          decide (lookupsEnded early = 1)) = true := by
    decide +kernel
  obtain ⟨early, hearly, hlater⟩ := (Option.any_eq_true ..).mp hruns
  rw [Bool.and_eq_true, decide_eq_true_eq] at hlater
  obtain ⟨c, hrun⟩ := Option.isSome_iff_exists.mp hlater.1
  refine ⟨early, c, hearly, hrun, ?_, hlater.2⟩
  rw [run_traceOf hrun, List.append_nil]
  rfl

/-- The one lookup is reported. -/
theorem fallback_counted :
    ∃ early c : Config (reporting (sampleOpener false)), lookupsEnded early = 1 ∧
      lookupsEnded early ≤
        fallbackStatus.localFallbacks + (fallbackStatus.servers.map ServerStatus.ok).sum ∧
      fallbackStatus.localFallbacks + (fallbackStatus.servers.map ServerStatus.ok).sum ≤
        lookupsBegun c := by
  obtain ⟨early, c, hearly, hrun, htrace, hended⟩ := statusSeg_runs
  exact ⟨early, c, hended, status_counts_lookups hearly hrun htrace statusSeg_returns⟩

end SshGate.DnsReport
