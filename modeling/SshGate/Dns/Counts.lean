import SshGate.Dns.Flights
import SshGate.Dns.Status
import SshGate.Dns.Walk

/-! # What the counters of the status add up to

A flight of the tunnel policy is begun, gets its answer from one tunnel resolver
or falls back to the local one, and ends. So the successes of all resolvers and
the fallbacks together count the lookups: at every moment at least those that
have ended and at most those that have begun. The status page reads the counters
one by one while lookups go on, and its sum still lies between the two.
-/

namespace SshGate

open Go Interaction Program System

/-! ## The stages of a lookup -/

/-- A flight of the tunnel policy takes off. -/
def begunKey : Event sig → Option Unit
  | ⟨.sfDo req, .lead _⟩ => if req.policy = .tunnel then some () else none
  | _ => none

/-- A tunnel resolver has answered, or none will. -/
def settledKey : Event sig → Option Unit
  | ⟨.answered _ _, _⟩ | ⟨.fallback, _⟩ => some ()
  | _ => none

/-- A flight of the tunnel policy ends. -/
def endedKey : Event sig → Option Unit
  | ⟨.sfEnd req _ _, _⟩ => if req.policy = .tunnel then some () else none
  | _ => none

/-- The actions that have none of these keys. -/
def Op.quiet : Op → Bool
  | .sfDo _ | .answered _ _ | .fallback | .sfEnd _ _ _ => false
  | _ => true

/-- The number of events with a key. -/
abbrev countOf (key : Event sig → Option Unit) (history : List (Event sig)) : Nat :=
  (history.filterMap key).count ()

/-- Where a call is with its flight of the tunnel policy, if it leads one. -/
inductive Stage where
  | idle
  | asking
  | answered
  deriving Repr, DecidableEq

/-- The history of a call at a stage. -/
def Stage.At (stage : Stage) (history : List (Event sig)) : Prop :=
  match stage with
  | .idle => countOf begunKey history = countOf settledKey history ∧
      countOf settledKey history = countOf endedKey history
  | .asking => countOf begunKey history = countOf settledKey history + 1 ∧
      countOf settledKey history = countOf endedKey history
  | .answered => countOf begunKey history = countOf settledKey history ∧
      countOf settledKey history = countOf endedKey history + 1

/-- Before a resolver is counted or a fallback, a flight has begun that was not
counted; before a flight ends it was counted. Only resolvers that there are
answer. -/
structure CountStep (n : Nat) (history : List (Event sig)) (op : Op) : Prop where
  settled : Covered begunKey settledKey history op
  ended : Covered settledKey endedKey history op
  listed : ∀ u rtt, op = .answered u rtt → u < n

section Keys

variable {history : List (Event sig)} {op : Op} {n : Nat}

theorem countOf_append (key : Event sig → Option Unit) (history : List (Event sig))
    (event : Event sig) :
    countOf key (history ++ [event]) = countOf key history + countOf key [event] := by
  simp [countOf]

theorem quiet_keys (hquiet : op.quiet = true) (reply : op.Reply) :
    begunKey ⟨op, reply⟩ = none ∧ settledKey ⟨op, reply⟩ = none ∧
      endedKey ⟨op, reply⟩ = none := by
  cases op <;> first | exact ⟨rfl, rfl, rfl⟩ | cases hquiet

theorem CountStep.quiet (hquiet : op.quiet = true) : CountStep n history op where
  settled := by
    intro reply k hkey
    rw [(quiet_keys hquiet reply).2.1] at hkey
    cases hkey
  ended := by
    intro reply k hkey
    rw [(quiet_keys hquiet reply).2.2] at hkey
    cases hkey
  listed := by
    rintro u rtt rfl
    cases hquiet

/-- An event without a key leaves a call where it is. -/
theorem Stage.At.skip {stage : Stage} (hat : stage.At history) {event : Event sig}
    (hbegun : begunKey event = none) (hsettled : settledKey event = none)
    (hended : endedKey event = none) : stage.At (history ++ [event]) := by
  cases stage <;> simpa [Stage.At, countOf, hbegun, hsettled, hended] using hat

theorem Stage.At.quiet {stage : Stage} (hat : stage.At history) (hquiet : op.quiet = true)
    (reply : op.Reply) : stage.At (history ++ [⟨op, reply⟩]) := by
  obtain ⟨hbegun, hsettled, hended⟩ := quiet_keys hquiet reply
  exact hat.skip hbegun hsettled hended

/-- A program of actions without a key leaves a call where it is. -/
theorem quiet_always {α : Type} {p : Prog α} (hp : Confined (fun op : Op => op.quiet = true) p)
    {stage : Stage} (hat : stage.At history) :
    Always (CountStep n) (fun history _ => stage.At history) history p := by
  induction p generalizing history with
  | ret value => exact hat
  | act op next ih =>
      exact ⟨.quiet hp.1, fun reply => ih reply (hp.2 reply) (hat.quiet hp.1 reply)⟩

theorem perform_quiet {α : Type} {f : op.Reply → Prog α} {post : List (Event sig) → α → Prop}
    (hquiet : op.quiet = true) {stage : Stage} (hat : stage.At history)
    (hf : ∀ reply, stage.At (history ++ [⟨op, reply⟩]) →
      Always (CountStep n) post (history ++ [⟨op, reply⟩]) (f reply)) :
    Always (CountStep n) post history (Program.perform op >>= f) :=
  Always.perform (.quiet hquiet) fun reply => hf reply (hat.quiet hquiet reply)

/-- A resolver's answer and a fallback are counted once. -/
theorem Stage.At.settle (hat : Stage.asking.At history) {event : Event sig}
    (hbegun : begunKey event = none) (hsettled : settledKey event = some ())
    (hended : endedKey event = none) : Stage.answered.At (history ++ [event]) := by
  obtain ⟨hopen, hcounted⟩ := hat
  simp only [Stage.At, countOf_append]
  simp only [countOf, List.filterMap_cons, List.filterMap_nil, hbegun, hsettled, hended] at *
  simp only [List.count_nil, List.count_singleton_self]
  omega

/-- While a flight is open a resolver may be counted or a fallback. -/
theorem Stage.At.settles (hat : Stage.asking.At history) :
    Covered begunKey settledKey history op := by
  intro reply k _
  have hlt : countOf settledKey history < countOf begunKey history := by
    have hopen := hat.1
    omega
  exact hlt

theorem Stage.At.ends (hat : Stage.answered.At history) :
    Covered settledKey endedKey history op := by
  intro reply k _
  have hlt : countOf endedKey history < countOf settledKey history := by
    have hcounted := hat.2
    omega
  exact hlt

theorem perform_answered {α : Type} {u rtt : Nat} {f : Unit → Prog α}
    {post : List (Event sig) → α → Prop} (hat : Stage.asking.At history) (hu : u < n)
    (hf : Stage.answered.At (history ++ [⟨.answered u rtt, ()⟩]) →
      Always (CountStep n) post (history ++ [⟨.answered u rtt, ()⟩]) (f ())) :
    Always (CountStep n) post history (act (.answered u rtt) >>= f) := by
  refine Always.perform ⟨hat.settles, ?_, ?_⟩ fun _ => hf (hat.settle rfl rfl rfl)
  · intro reply k hkey
    cases hkey
  · rintro _ _ ⟨⟩
    exact hu

theorem perform_fallback {α : Type} {f : Unit → Prog α} {post : List (Event sig) → α → Prop}
    (hat : Stage.asking.At history)
    (hf : Stage.answered.At (history ++ [⟨.fallback, ()⟩]) →
      Always (CountStep n) post (history ++ [⟨.fallback, ()⟩]) (f ())) :
    Always (CountStep n) post history (act .fallback >>= f) := by
  refine Always.perform ⟨hat.settles, ?_, ?_⟩ fun _ => hf (hat.settle rfl rfl rfl)
  · intro reply k hkey
    cases hkey
  · rintro _ _ ⟨⟩

end Keys

/-! ## The stages along a call -/

section Programs

variable {c : DnsCache} {host : Text} {history : List (Event sig)} {n : Nat}

theorem upstreamLookup_quiet (u : Nat) (share : Int) :
    Confined (fun op : Op => op.quiet = true) (upstreamLookup c u share host) := by
  apply (upstreamLookup_inAttempt c u share host).imp
  intro op hop
  cases op <;> first | rfl | cases hop

theorem lookupLocal_quiet : Confined (fun op : Op => op.quiet = true) (lookupLocal host) := by
  apply (lookupLocal_confined host).imp
  rintro op rfl
  rfl

theorem notFound_quiet : Confined (fun op : Op => op.quiet = true) (notFound c host) := by
  apply (notFound_confined c host).imp
  rintro op rfl
  rfl

theorem upstreamFailed_quiet (u : Nat) (err : Err) :
    Confined (fun op : Op => op.quiet = true) (upstreamFailed u err) := by
  apply (upstreamFailed_confined u err).imp
  rintro op (rfl | rfl)
  · rfl
  · rfl

theorem fallbackDirect_quiet : Confined (fun op : Op => op.quiet = true) (fallbackDirect c) := by
  unfold fallbackDirect
  split
  next => exact .perform rfl fun up => trivial
  next => trivial

/-- The claims: only resolvers that there are become active. -/
theorem claimAll_counts (now : Nat) (us : List Nat) {stage : Stage} (hat : stage.At history) :
    Always (CountStep n) (fun history' active => stage.At history' ∧ active ⊆ us) history
      (claimAll now us) := by
  induction us generalizing history with
  | nil => exact ⟨hat, List.Subset.refl _⟩
  | cons u rest ih =>
      refine perform_quiet rfl hat fun grant hat' => ?_
      apply (ih hat').bind
      rintro history' active ⟨hat'', hsubset⟩
      refine ⟨hat'', ?_⟩
      cases grant with
      | refused => exact List.subset_cons_of_subset u hsubset
      | «open» => exact List.cons_subset_cons u hsubset
      | probe => exact List.cons_subset_cons u hsubset

/-- The walk counts a resolver if and only if it has an answer. -/
theorem walk_counts (deadline : Nat) {us : List Nat} (hus : ∀ u ∈ us, u < n)
    (hat : Stage.asking.At history) :
    Always (CountStep n)
      (fun history' result => (if result.isSome then Stage.answered else .asking).At history')
      history (walk c deadline host us) := by
  induction us generalizing history with
  | nil => exact hat
  | cons u rest ih =>
      refine perform_quiet rfl hat fun reading hat => ?_
      refine perform_quiet rfl hat fun start hat => ?_
      apply (quiet_always (upstreamLookup_quiet u _) hat).bind
      intro history' result hat
      refine perform_quiet rfl hat fun stop hat => ?_
      have hu := hus u List.mem_cons_self
      cases result with
      | ok addrs => exact perform_answered hat hu fun hat => hat
      | error err =>
          dsimp only
          split
          next =>
            refine perform_answered hat hu fun hat => ?_
            exact (quiet_always notFound_quiet hat).bind fun _ _ hat => hat
          next =>
            apply (quiet_always (upstreamFailed_quiet u err) hat).bind
            intro history'' _ hat
            exact ih (fun v hv => hus v (List.mem_cons_of_mem u hv)) hat

theorem lookupFallback_counts (hat : Stage.asking.At history) :
    Always (CountStep n) (fun history' _ => Stage.answered.At history') history
      (lookupFallback c host) := by
  refine perform_fallback hat fun hat => perform_quiet rfl hat fun t hat => ?_
  refine perform_quiet rfl hat fun _ hat => ?_
  apply (quiet_always lookupLocal_quiet hat).bind
  intro history' result hat
  apply (quiet_always fallbackDirect_quiet hat).bind
  intro history'' localDirect hat
  cases result with
  | ok addrs => exact hat
  | error err => exact hat

/-- A lookup of the tunnel policy is counted once, as an answer of one resolver
or as a fallback. -/
theorem lookup_counts (ctx : Nat) (hn : c.tunnel.length = n) (hat : Stage.asking.At history) :
    Always (CountStep n) (fun history' _ => Stage.answered.At history') history
      (lookup c ctx host) := by
  refine perform_quiet rfl hat fun now hat => ?_
  apply (claimAll_counts now _ hat).bind
  rintro history' active ⟨hat, hsubset⟩
  refine perform_quiet rfl hat fun start hat => ?_
  have hactive : ∀ u ∈ active, u < n := by
    intro u hu
    rw [← hn]
    exact List.mem_range.mp (hsubset hu)
  apply (walk_counts _ hactive hat).bind
  intro history'' walked hat
  have hanswer : Always (CountStep n) (fun history' _ => Stage.answered.At history') history''
      (orFallback c host walked) := by
    cases walked with
    | none => exact lookupFallback_counts hat
    | some answer => exact hat
  apply hanswer.bind
  intro _ answer hat
  exact perform_quiet rfl hat fun _ hat => hat

theorem settle_quiet (req : Request) (answer : Answer) :
    Confined (fun op : Op => op.quiet = true) (settle c req answer) := by
  unfold settle
  split
  next =>
    split
    next => exact .perform rfl fun now => .perform rfl fun order => trivial
    next => trivial
  next =>
    split
    next => trivial
    next =>
      split
      next => exact .perform rfl fun now => .perform rfl fun order => trivial
      next => trivial

/-- The stage of a call that leads a flight for `req` in its own lookup. -/
def Request.stage (req : Request) (stage : Stage) : Stage :=
  if req.policy = .tunnel then stage else .idle

section Flight

variable {req : Request}

theorem countStep_sfDo (req : Request) : CountStep n history (.sfDo req) where
  settled := by
    rintro reply k ⟨⟩
  ended := by
    rintro reply k ⟨⟩
  listed := by
    rintro _ _ ⟨⟩

theorem Stage.At.begin (hat : Stage.idle.At history) (req : Request) (id : Nat) :
    (req.stage .asking).At (history ++ [⟨.sfDo req, .lead id⟩]) := by
  by_cases hpolicy : req.policy = .tunnel
  · obtain ⟨hsettled, hended⟩ := hat
    simp only [Request.stage, hpolicy, if_true, Stage.At, countOf_append]
    simp only [countOf, List.filterMap_cons, List.filterMap_nil, begunKey, settledKey, endedKey,
      hpolicy, if_true, List.count_nil, List.count_singleton_self] at *
    omega
  · rw [Request.stage, if_neg hpolicy]
    exact hat.skip (by simp [begunKey, hpolicy]) rfl rfl

theorem countStep_sfEnd (hat : (req.stage .answered).At history) (id : Nat) (answer : Answer) :
    CountStep n history (.sfEnd req id answer) where
  settled := by
    rintro reply k ⟨⟩
  ended := by
    intro reply k hkey
    by_cases hpolicy : req.policy = .tunnel
    · rw [Request.stage, if_pos hpolicy] at hat
      exact hat.ends reply k hkey
    · simp [endedKey, hpolicy] at hkey
  listed := by
    rintro _ _ ⟨⟩

theorem Stage.At.finish (hat : (req.stage .answered).At history) (id : Nat) (answer : Answer) :
    Stage.idle.At (history ++ [⟨.sfEnd req id answer, ()⟩]) := by
  by_cases hpolicy : req.policy = .tunnel
  · rw [Request.stage, if_pos hpolicy] at hat
    obtain ⟨hsettled, hended⟩ := hat
    simp only [Stage.At, countOf_append]
    simp only [countOf, List.filterMap_cons, List.filterMap_nil, begunKey, settledKey, endedKey,
      hpolicy, if_true, List.count_nil, List.count_singleton_self] at *
    omega
  · rw [Request.stage, if_neg hpolicy] at hat
    exact hat.skip rfl rfl (by simp [endedKey, hpolicy])

end Flight

theorem fly_counts (req : Request) (hn : c.tunnel.length = n)
    (hat : (req.stage .asking).At history) :
    Always (CountStep n) (fun history' _ => (req.stage .answered).At history') history
      (fly c req) := by
  refine perform_quiet rfl hat fun start hat => ?_
  refine perform_quiet rfl hat fun _ hat => ?_
  have hlookup : ∀ {history}, (req.stage .asking).At history →
      Always (CountStep n) (fun history' _ => (req.stage .answered).At history') history
        (req.policy.lookup c (start + lookupTimeout) req.host) := by
    intro history hat
    cases hpolicy : req.policy with
    | tunnel =>
        simp only [Request.stage, hpolicy, if_true] at hat ⊢
        exact lookup_counts _ hn hat
    | «local» =>
        simp only [Request.stage, hpolicy, reduceCtorEq, if_false] at hat ⊢
        apply (quiet_always lookupLocal_quiet hat).bind
        intro history' result hat
        cases result with
        | ok addrs => exact hat
        | error err => exact hat
  apply (hlookup hat).bind
  intro history' answer hat
  exact quiet_always (settle_quiet req answer) hat

/-- Every flight that a cached lookup leads is counted before it ends. -/
theorem cachedLookup_counts (req : Request) (hn : c.tunnel.length = n)
    (hat : Stage.idle.At history) :
    Always (CountStep n) (fun history' _ => Stage.idle.At history') history
      (cachedLookup c req) := by
  unfold cachedLookup
  split
  next => exact hat
  next =>
    refine perform_quiet rfl hat fun hit hat => ?_
    cases hit with
    | some cell => exact hat
    | none =>
        refine Always.perform (countStep_sfDo req) fun flight => ?_
        cases flight with
        | join id =>
            exact perform_quiet rfl (hat.skip rfl rfl rfl) fun shared hat => hat
        | lead id =>
            apply (fly_counts req hn (hat.begin req id)).bind
            intro history' answer hat
            exact Always.perform (countStep_sfEnd hat id answer) fun _ => hat.finish id answer

/-- Between its requests a call has no flight that is not counted and ended. -/
theorem program_counts (o : Opener) (call : Call) :
    Always (CountStep o.rules.dns.tunnel.length) (fun history _ => Stage.idle.At history) []
      (call.program o) := by
  refine Calls.always (program_calls o call) (fun history => Stage.idle.At history) ?_ ?_
    ⟨rfl, rfl⟩
  · intro req history hat
    exact cachedLookup_counts req rfl hat
  · intro op history hop hat
    have hquiet : op.quiet = true := by
      cases op <;> first | rfl | exact absurd rfl hop
    exact ⟨.quiet hquiet, fun reply => hat.quiet hquiet reply⟩

end Programs

/-! ## The counters -/

/-- The successes of the first `n` tunnel resolvers. -/
def World.okTotal (n : Nat) (w : World) : Nat :=
  ((List.range n).map fun u => (w.upstreams u).ok).sum

/-- What an action does to the counters. -/
inductive CounterStep (w w' : World) : Event sig → Prop
  | same {event : Event sig} (hkey : settledKey event = none)
      (hok : ∀ u, (w'.upstreams u).ok = (w.upstreams u).ok) (hfall : w'.fallbacks = w.fallbacks) :
      CounterStep w w' event
  | answered {u rtt : Nat}
      (hok : ∀ v, (w'.upstreams v).ok = (w.upstreams v).ok + if v = u then 1 else 0)
      (hfall : w'.fallbacks = w.fallbacks) : CounterStep w w' ⟨.answered u rtt, ()⟩
  | fallback (hok : ∀ u, (w'.upstreams u).ok = (w.upstreams u).ok)
      (hfall : w'.fallbacks = w.fallbacks + 1) : CounterStep w w' ⟨.fallback, ()⟩

section Perform

variable {event : Event sig} {w w' : World}

theorem perform_counterStep (hperform : World.perform event.op w event.reply = some w') :
    CounterStep w w' event := by
  have hok : ∀ u, (w'.upstreams u).ok =
      (w.upstreams u).ok + ((Mark.of event).elim 0 (Mark.adds u)).1 := fun u =>
    congrArg Prod.fst (perform_counters hperform)
  have hfall : w'.fallbacks = w.fallbacks + ((Mark.of event).elim 0 (Mark.adds 0)).2.2 :=
    congrArg (fun counters : Nat × Nat × Nat => counters.2.2) (perform_counters hperform)
  obtain ⟨op, reply⟩ := event
  cases op with
  | answered v rtt =>
      refine .answered (fun u => ?_) ?_
      · rw [hok, Mark.of, Option.elim_some, Mark.adds]
        split
        next => rfl
        next => rfl
      · rw [hfall, Mark.of, Option.elim_some, Mark.adds]
        split
        next => rfl
        next => rfl
  | fallback => exact .fallback hok hfall
  | failed v err =>
      refine .same rfl (fun u => ?_) ?_
      · rw [hok, Mark.of, Option.elim_some, Mark.adds]
        split
        next => rfl
        next => rfl
      · rw [hfall, Mark.of, Option.elim_some, Mark.adds]
        split
        next => rfl
        next => rfl
  | _ => exact .same rfl hok hfall

/-- Each answer of a resolver that there is, and each fallback, is counted. -/
theorem CounterStep.total {n : Nat} (hcounter : CounterStep w w' event)
    (hlisted : ∀ u rtt, event.op = .answered u rtt → u < n) :
    w'.okTotal n + w'.fallbacks =
      (settledKey event).toList.length + (w.okTotal n + w.fallbacks) := by
  cases hcounter with
  | same hkey hok hfall => simp [World.okTotal, hok, hfall, hkey]
  | @answered u rtt hok hfall =>
      have hone : ((List.range n).map fun v => if v = u then 1 else 0).sum = 1 := by
        have hmem := List.mem_range.mpr (hlisted u rtt rfl)
        rw [List.sum_map_eq_nsmul_single u _ fun v hv _ => if_neg hv,
          List.count_eq_one_of_mem List.nodup_range hmem]
        simp
      simp only [World.okTotal, hok, hfall, List.sum_map_add, hone]
      simp [settledKey]
      omega
  | fallback hok hfall =>
      simp only [World.okTotal, hok, hfall, settledKey]
      simp
      omega

theorem CounterStep.le (hcounter : CounterStep w w' event) :
    (∀ u, (w.upstreams u).ok ≤ (w'.upstreams u).ok) ∧ w.fallbacks ≤ w'.fallbacks := by
  cases hcounter with
  | same hkey hok hfall => exact ⟨fun u => (hok u).ge, hfall.ge⟩
  | answered hok hfall => exact ⟨fun u => (hok u).symm ▸ Nat.le_add_right _ _, hfall.ge⟩
  | fallback hok hfall => exact ⟨fun u => (hok u).ge, by omega⟩

end Perform

end SshGate
