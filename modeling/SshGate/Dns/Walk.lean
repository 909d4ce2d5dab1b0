import Mathlib.Algebra.Group.Prod
import SshGate.Dns.Paths
import SshGate.Interaction.Process
import SshGate.Steps

/-! # The walk over the tunnel resolvers

A lookup asks the resolvers it may use, in their order, until one gives
addresses or says that there is no such name; else it asks the local resolver.
The specification says so with the outcome of each resolver as a parameter, and
`lookup` refines it: what it asks, what it answers and what it counts.
-/

namespace SshGate

open Go Interaction Program

/-! ## Specification -/

/-- What the walk depends on. -/
structure Walk where
  /-- The resolvers it may use, in their order. -/
  claimable : List Nat
  outcome : Nat → Except Err (List Addr)
  localResult : Except Err (List Addr)
  localOnNXDomain : Bool
  up : Bool

namespace Walk

/-- The first resolver that answers. -/
def answering (s : Walk) : Option Nat := s.claimable.find? fun u => isAnswer (s.outcome u)

/-- The resolvers before that one. -/
def failing (s : Walk) : List Nat := s.claimable.takeWhile fun u => !isAnswer (s.outcome u)

def asked (s : Walk) : List Nat := s.failing ++ s.answering.toList

/-- The answer after a not-found. -/
def unknownName (s : Walk) : Answer :=
  match s.localOnNXDomain, s.localResult with
  | true, .ok addrs => ⟨{ addrs, authoritative := true, localDirect := true }, none⟩
  | _, _ => ⟨{ authoritative := true }, some .notFound⟩

def settled (s : Walk) (u : Nat) : Answer :=
  match s.outcome u with
  | .ok addrs => ⟨{ addrs, authoritative := true }, none⟩
  | .error _ => s.unknownName

/-- The answer where no resolver settled the lookup. -/
def unsettled (s : Walk) : Answer :=
  match s.localResult with
  | .ok addrs => ⟨{ addrs, localDirect := s.localOnNXDomain && !s.up }, none⟩
  | .error err => ⟨{ localDirect := s.localOnNXDomain && !s.up }, some err⟩

def answer (s : Walk) : Answer := (s.answering.map s.settled).getD s.unsettled

end Walk

/-- What a lookup counts, and what it asks the local resolver. -/
inductive Mark where
  | ok (u : Nat)
  | fail (u : Nat)
  | fallback
  | localLookup (host : Text) (result : Except Err (List Addr))
  deriving DecidableEq

namespace Walk

/-- A failure counts only while the tunnel is up. -/
def failMarks (s : Walk) : List Mark := if s.up then s.failing.map .fail else []

def settledMarks (s : Walk) (host : Text) (u : Nat) : List Mark :=
  .ok u :: match s.outcome u with
    | .ok _ => []
    | .error _ => if s.localOnNXDomain then [.localLookup host s.localResult] else []

def marks (s : Walk) (host : Text) : List Mark :=
  s.failMarks ++ (s.answering.map (s.settledMarks host)).getD
    [.fallback, .localLookup host s.localResult]

section Cons

variable {u : Nat} {rest : List Nat} {outcome : Nat → Except Err (List Addr)}
  {localResult : Except Err (List Addr)} {localOnNXDomain up : Bool}

theorem answering_cons_settled (h : isAnswer (outcome u) = true) :
    (mk (u :: rest) outcome localResult localOnNXDomain up).answering = some u := by
  simp only [answering, List.find?_cons, h]

theorem failing_cons_settled (h : isAnswer (outcome u) = true) :
    (mk (u :: rest) outcome localResult localOnNXDomain up).failing = [] := by
  simp only [failing, List.takeWhile_cons, h, Bool.not_true, Bool.false_eq_true, if_false]

theorem answering_cons_failed (h : isAnswer (outcome u) = false) :
    (mk (u :: rest) outcome localResult localOnNXDomain up).answering =
      (mk rest outcome localResult localOnNXDomain up).answering := by
  simp only [answering, List.find?_cons, h]

theorem failing_cons_failed (h : isAnswer (outcome u) = false) :
    (mk (u :: rest) outcome localResult localOnNXDomain up).failing =
      u :: (mk rest outcome localResult localOnNXDomain up).failing := by
  simp only [failing, List.takeWhile_cons, h, Bool.not_false, if_true]

end Cons

end Walk

/-! ## What the events of a lookup show -/

/-- What the local resolver's reply is for the gate. -/
def localResultOf : Except Text (List IPAddr) → Except Err (List Addr)
  | .error err => .error (.text err)
  | .ok addrs => .ok (toNetip addrs)

def Mark.of : Event sig → Option Mark
  | ⟨.answered u _, _⟩ => some (.ok u)
  | ⟨.failed u _, _⟩ => some (.fail u)
  | ⟨.fallback, _⟩ => some .fallback
  | ⟨.localLookup host, reply⟩ => some (.localLookup host (localResultOf reply))
  | _ => none

/-- In the trace exactly these resolvers are asked, one after the other, and
each has its outcome. -/
def Asks (c : DnsCache) (host : Text) (outcome : Nat → Except Err (List Addr)) :
    List (Event sig) → List Nat → Prop
  | trace, [] => ∀ event ∈ trace, event.op.inAttempt = false
  | trace, u :: rest => ∃ before attempt after share, trace = before ++ attempt ++ after ∧
      (∀ event ∈ before, event.op.inAttempt = false) ∧
      (upstreamLookup c u share host).Returns attempt (outcome u) ∧
      Asks c host outcome after rest

section Asks

variable {c : DnsCache} {host : Text} {outcome : Nat → Except Err (List Addr)}
  {trace more : List (Event sig)} {us : List Nat}

theorem Asks.after (hmore : ∀ event ∈ more, event.op.inAttempt = false)
    (h : Asks c host outcome trace us) : Asks c host outcome (more ++ trace) us := by
  cases us with
  | nil => exact List.forall_mem_append.mpr ⟨hmore, h⟩
  | cons u rest =>
      obtain ⟨before, attempt, after, share, rfl, hbefore, hattempt, hrest⟩ := h
      refine ⟨more ++ before, attempt, after, share, by simp, ?_, hattempt, hrest⟩
      exact List.forall_mem_append.mpr ⟨hmore, hbefore⟩

theorem Asks.cons {event : Event sig} (hop : event.op.inAttempt = false)
    (h : Asks c host outcome trace us) : Asks c host outcome (event :: trace) us :=
  h.after (List.forall_mem_singleton.mpr hop)

theorem Asks.append (hmore : ∀ event ∈ more, event.op.inAttempt = false)
    (h : Asks c host outcome trace us) : Asks c host outcome (trace ++ more) us := by
  induction us generalizing trace with
  | nil => exact List.forall_mem_append.mpr ⟨h, hmore⟩
  | cons u rest ih =>
      obtain ⟨before, attempt, after, share, rfl, hbefore, hattempt, hrest⟩ := h
      exact ⟨before, attempt, after ++ more, share, by simp, hbefore, hattempt, ih hrest⟩

end Asks

theorem lookupLocal_reply {host : Text} {trace : List (Event sig)}
    {result : Except Err (List Addr)} (h : (lookupLocal host).Returns trace result) :
    ∃ reply, trace = [⟨.localLookup host, reply⟩] ∧ localResultOf reply = result := by
  rcases lookupLocal_returns h with ⟨err, rfl, rfl⟩ | ⟨ips, rfl, rfl⟩
  · exact ⟨.error err, rfl, rfl⟩
  · exact ⟨.ok ips, rfl, rfl⟩

theorem notFound_meets {c : DnsCache} {host : Text} {trace : List (Event sig)} {answer : Answer}
    (h : (notFound c host).Returns trace answer) :
    ∃ localResult, ∀ s : Walk, s.localOnNXDomain = c.localOnNXDomain →
      s.localResult = localResult → answer = s.unknownName ∧
        trace.filterMap Mark.of =
          if s.localOnNXDomain then [.localLookup host s.localResult] else [] := by
  unfold notFound at h
  cases hsetting : c.localOnNXDomain with
  | false =>
      rw [hsetting] at h
      obtain ⟨rfl, rfl⟩ := returns_ret.mp h
      refine ⟨.error .notFound, fun s hs _ => ?_⟩
      simp [Walk.unknownName, hs]
  | true =>
      rw [hsetting] at h
      obtain ⟨first, result, second, rfl, hlocal, hrest⟩ := returns_bind.mp h
      obtain ⟨reply, rfl, rfl⟩ := lookupLocal_reply hlocal
      refine ⟨localResultOf reply, fun s hs hlocal => ?_⟩
      cases hresult : localResultOf reply with
      | ok addrs =>
          rw [hresult] at hrest
          obtain ⟨rfl, rfl⟩ := returns_ret.mp hrest
          simp [Walk.unknownName, hs, hlocal, hresult, Mark.of]
      | error err =>
          rw [hresult] at hrest
          obtain ⟨rfl, rfl⟩ := returns_ret.mp hrest
          simp [Walk.unknownName, hs, hlocal, hresult, Mark.of]

theorem fallbackDirect_meets {c : DnsCache} {trace : List (Event sig)} {up localDirect : Bool}
    (h : (fallbackDirect c).Returns trace localDirect)
    (hup : ∀ reply, (⟨.tunnelUp, reply⟩ : Event sig) ∈ trace → reply = up) :
    localDirect = (c.localOnNXDomain && !up) ∧ trace.filterMap Mark.of = [] := by
  unfold fallbackDirect at h
  split at h
  next hsetting =>
    obtain ⟨reply, rest, rfl, hrest⟩ := returns_perform.mp h
    obtain ⟨rfl, rfl⟩ := returns_ret.mp hrest
    rw [hup reply List.mem_cons_self, hsetting]
    exact ⟨rfl, rfl⟩
  next hsetting =>
    obtain ⟨rfl, rfl⟩ := returns_ret.mp h
    rw [Bool.eq_false_iff.mpr hsetting]
    exact ⟨rfl, rfl⟩

theorem lookupFallback_meets {c : DnsCache} {host : Text} {trace : List (Event sig)}
    {answer : Answer} {up : Bool} (h : (lookupFallback c host).Returns trace answer)
    (hup : ∀ reply, (⟨.tunnelUp, reply⟩ : Event sig) ∈ trace → reply = up) :
    ∃ localResult, ∀ s : Walk, s.localOnNXDomain = c.localOnNXDomain → s.up = up →
      s.localResult = localResult → answer = s.unsettled ∧
        trace.filterMap Mark.of = [.fallback, .localLookup host s.localResult] := by
  obtain ⟨_, _, rfl, hcounted⟩ := returns_perform.mp h
  obtain ⟨t, _, rfl, hread⟩ := returns_perform.mp hcounted
  obtain ⟨_, rest, rfl, hrest⟩ := returns_perform.mp hread
  obtain ⟨first, result, second, rfl, hlocal, hrest⟩ := returns_bind.mp hrest
  obtain ⟨reply, rfl, rfl⟩ := lookupLocal_reply hlocal
  obtain ⟨third, localDirect, last, rfl, hdirect, hrest⟩ := returns_bind.mp hrest
  obtain ⟨rfl, hnone⟩ := fallbackDirect_meets hdirect fun reply hmem => hup reply (by simp [hmem])
  refine ⟨localResultOf reply, fun s hs hsup hlocal => ?_⟩
  have hmarks : ∀ more : List (Event sig),
      (⟨.now, t⟩ :: ⟨.lastFallback t, ()⟩ :: more : List (Event sig)).filterMap Mark.of =
        more.filterMap Mark.of := fun _ => rfl
  cases hresult : localResultOf reply with
  | ok addrs =>
      rw [hresult] at hrest
      obtain ⟨rfl, rfl⟩ := returns_ret.mp hrest
      simp [Walk.unsettled, hs, hsup, hlocal, hresult, Mark.of, hnone, hmarks]
  | error err =>
      rw [hresult] at hrest
      obtain ⟨rfl, rfl⟩ := returns_ret.mp hrest
      simp [Walk.unsettled, hs, hsup, hlocal, hresult, Mark.of, hnone, hmarks]

theorem upstreamFailed_meets {u : Nat} {err : Err} {trace : List (Event sig)} {up : Bool}
    (h : (upstreamFailed u err).Returns trace ())
    (hup : ∀ reply, (⟨.tunnelUp, reply⟩ : Event sig) ∈ trace → reply = up) :
    (∀ event ∈ trace, event.op.inAttempt = false) ∧
      trace.filterMap Mark.of = if up then [.fail u] else [] := by
  obtain ⟨reply, rest, rfl, hrest⟩ := returns_perform.mp h
  obtain rfl := hup reply List.mem_cons_self
  cases reply with
  | true =>
      obtain ⟨_, last, rfl, hlast⟩ := returns_perform.mp hrest
      obtain ⟨rfl, _⟩ := returns_ret.mp hlast
      exact ⟨by simp [Op.inAttempt], rfl⟩
  | false =>
      obtain ⟨rfl, _⟩ := returns_ret.mp hrest
      exact ⟨by simp [Op.inAttempt], rfl⟩

/-- The part of a lookup after its claims. -/
structure Walked (c : DnsCache) (host : Text) (s : Walk) (trace : List (Event sig))
    (walked : Option Answer) : Prop where
  asks : Asks c host s.outcome trace s.asked
  answer : walked = s.answering.map s.settled
  marks : trace.filterMap Mark.of =
    s.failMarks ++ (s.answering.map (s.settledMarks host)).getD []

section Walked

variable {c : DnsCache} {host : Text} {u reading start stop : Nat} {share : Int}
  {rest : List Nat} {outcome : Nat → Except Err (List Addr)}
  {localResult : Except Err (List Addr)} {up : Bool} {attempt last : List (Event sig)}
  {walked : Option Answer}

/-- The attempt itself, with the clock readings around it, counts nothing. -/
theorem filterMap_attempt {result : Except Err (List Addr)}
    (hattempt : (upstreamLookup c u share host).Returns attempt result) :
    (⟨.now, reading⟩ :: ⟨.now, start⟩ :: attempt ++ ⟨.now, stop⟩ :: last).filterMap Mark.of =
      last.filterMap Mark.of := by
  have hnone : attempt.filterMap Mark.of = [] := by
    apply (upstreamLookup_inAttempt c u share host).filterMap_eq_nil hattempt
    rintro ⟨op, reply⟩ hop
    cases op <;> first | rfl | cases hop
  rw [List.cons_append, List.cons_append, List.filterMap_cons_none rfl,
    List.filterMap_cons_none rfl, List.filterMap_append, hnone, List.nil_append,
    List.filterMap_cons_none rfl]

/-- The first resolver settles the lookup. -/
theorem Walked.settled
    (hattempt : (upstreamLookup c u share host).Returns attempt (outcome u))
    (hanswer : isAnswer (outcome u) = true)
    (hquiet : ∀ event ∈ last, event.op.inAttempt = false)
    (hwalked : walked =
      some (Walk.settled ⟨u :: rest, outcome, localResult, c.localOnNXDomain, up⟩ u))
    (hmarks : last.filterMap Mark.of =
      Walk.settledMarks ⟨u :: rest, outcome, localResult, c.localOnNXDomain, up⟩ host u) :
    Walked c host ⟨u :: rest, outcome, localResult, c.localOnNXDomain, up⟩
      (⟨.now, reading⟩ :: ⟨.now, start⟩ :: attempt ++ ⟨.now, stop⟩ :: last) walked where
  asks := by
    rw [Walk.asked, Walk.failing_cons_settled hanswer, Walk.answering_cons_settled hanswer]
    refine ⟨[⟨.now, reading⟩, ⟨.now, start⟩], attempt, ⟨.now, stop⟩ :: last, share, rfl,
      by simp [Op.inAttempt], hattempt, ?_⟩
    exact List.forall_mem_cons.mpr ⟨rfl, hquiet⟩
  answer := by rw [hwalked, Walk.answering_cons_settled hanswer, Option.map_some]
  marks := by
    rw [Walk.failMarks, Walk.failing_cons_settled hanswer, Walk.answering_cons_settled hanswer,
      Option.map_some, Option.getD_some, ← hmarks, List.map_nil, ite_self, List.nil_append]
    exact filterMap_attempt hattempt

/-- The first resolver fails, and the walk goes on. -/
theorem Walked.failed {failure : List (Event sig)}
    (hattempt : (upstreamLookup c u share host).Returns attempt (outcome u))
    (hfailed : isAnswer (outcome u) = false)
    (hquiet : ∀ event ∈ failure, event.op.inAttempt = false)
    (hmarks : failure.filterMap Mark.of = if up then [.fail u] else [])
    (hrest : Walked c host ⟨rest, outcome, localResult, c.localOnNXDomain, up⟩ last walked) :
    Walked c host ⟨u :: rest, outcome, localResult, c.localOnNXDomain, up⟩
      (⟨.now, reading⟩ :: ⟨.now, start⟩ :: attempt ++ ⟨.now, stop⟩ :: (failure ++ last))
      walked where
  asks := by
    rw [Walk.asked, Walk.failing_cons_failed hfailed, Walk.answering_cons_failed hfailed]
    refine ⟨[⟨.now, reading⟩, ⟨.now, start⟩], attempt, ⟨.now, stop⟩ :: (failure ++ last), share,
      rfl, by simp [Op.inAttempt], hattempt, ?_⟩
    exact (hrest.asks.after hquiet).cons rfl
  answer := by
    rw [hrest.answer, Walk.answering_cons_failed hfailed]
    rfl
  marks := by
    rw [filterMap_attempt hattempt, List.filterMap_append, hmarks, hrest.marks, Walk.failMarks,
      Walk.failMarks, Walk.failing_cons_failed hfailed, Walk.answering_cons_failed hfailed]
    cases up <;> rfl

end Walked

theorem walk_walked {c : DnsCache} {deadline : Nat} {host : Text} {active : List Nat}
    {trace : List (Event sig)} {walked : Option Answer} {up : Bool} (hnodup : active.Nodup)
    (hreturns : (walk c deadline host active).Returns trace walked)
    (hup : ∀ reply, (⟨.tunnelUp, reply⟩ : Event sig) ∈ trace → reply = up) :
    ∃ (results : Nat → Except Err (List Addr)) (localResult : Except Err (List Addr)),
      ∀ outcome, (∀ u ∈ active, outcome u = results u) →
        Walked c host ⟨active, outcome, localResult, c.localOnNXDomain, up⟩ trace walked := by
  induction active generalizing trace with
  | nil =>
      obtain ⟨rfl, rfl⟩ := returns_ret.mp hreturns
      refine ⟨fun _ => .error .notFound, .error .notFound, fun outcome _ => ⟨nofun, rfl, ?_⟩⟩
      cases up <;> rfl
  | cons u rest ih =>
      obtain ⟨reading, _, rfl, hstart⟩ := returns_perform.mp hreturns
      obtain ⟨start, _, rfl, hlookup⟩ := returns_perform.mp hstart
      obtain ⟨attempt, result, _, rfl, hattempt, hstop⟩ := returns_bind.mp hlookup
      obtain ⟨stop, _, rfl, hresult⟩ := returns_perform.mp hstop
      cases result with
      | ok addrs =>
          obtain ⟨_, _, rfl, hend⟩ := returns_perform.mp hresult
          obtain ⟨rfl, rfl⟩ := returns_ret.mp hend
          refine ⟨fun _ => .ok addrs, .error .notFound, fun outcome houtcome => ?_⟩
          have hu : outcome u = .ok addrs := houtcome u List.mem_cons_self
          rw [← hu] at hattempt
          refine .settled hattempt (by rw [hu, isAnswer]) (by simp [Op.inAttempt]) ?_ ?_
          · simp [Walk.settled, hu]
          · simp [Walk.settledMarks, hu, Mark.of]
      | error err =>
          cases herr : err.isNotFound with
          | true =>
              simp only [herr, if_true] at hresult
              obtain ⟨_, _, rfl, hanswered⟩ := returns_perform.mp hresult
              obtain ⟨last, answer, _, rfl, hnotFound, hend⟩ := returns_bind.mp hanswered
              obtain ⟨rfl, rfl⟩ := returns_ret.mp hend
              obtain ⟨localResult, hspec⟩ := notFound_meets hnotFound
              refine ⟨fun _ => .error err, localResult, fun outcome houtcome => ?_⟩
              have hu : outcome u = .error err := houtcome u List.mem_cons_self
              obtain ⟨hanswer, hmarks⟩ :=
                hspec ⟨u :: rest, outcome, localResult, c.localOnNXDomain, up⟩ rfl rfl
              rw [← hu] at hattempt
              refine .settled hattempt (by rw [hu, isAnswer, herr]) ?_ ?_ ?_
              · rw [List.append_nil]
                refine List.forall_mem_cons.mpr ⟨rfl, fun event hmem => ?_⟩
                rw [(notFound_confined c host).of_mem hnotFound hmem]
                rfl
              · simp [Walk.settled, hu, hanswer]
              · simp [Walk.settledMarks, hu, Mark.of, hmarks]
          | false =>
              simp only [herr, Bool.false_eq_true, if_false] at hresult
              obtain ⟨failure, _, last, rfl, hfailure, hgoes⟩ := returns_bind.mp hresult
              obtain ⟨hu, hnodup⟩ := List.nodup_cons.mp hnodup
              obtain ⟨results, localResult, hrest⟩ := ih hnodup hgoes fun reply hmem =>
                hup reply (by simp [hmem])
              obtain ⟨hquiet, hmarks⟩ := upstreamFailed_meets hfailure fun reply hmem =>
                hup reply (by simp [hmem])
              refine ⟨Function.update results u (.error err), localResult,
                fun outcome houtcome => ?_⟩
              have houtcome' := houtcome u List.mem_cons_self
              rw [Function.update_self] at houtcome'
              rw [← houtcome'] at hattempt
              refine .failed hattempt (by rw [houtcome', isAnswer, herr]) hquiet hmarks ?_
              refine hrest outcome fun other hother => ?_
              rw [houtcome other (List.mem_cons_of_mem _ hother),
                Function.update_of_ne (ne_of_mem_of_not_mem hother hu)]

/-! ## The counters -/

section Counters

variable {event : Event sig} {w w' : World} {u : Nat}

/-- The counters of a resolver, and how often the local resolver stood in. -/
def World.counters (w : World) (u : Nat) : Nat × Nat × Nat :=
  ((w.upstreams u).ok, (w.upstreams u).fail, w.fallbacks)

theorem World.counters_setUpstream (w : World) (v : Nat) (state : Upstream) (u : Nat) :
    (w.setUpstream v state).counters u =
      if u = v then (state.ok, state.fail, w.fallbacks) else w.counters u := by
  by_cases huv : u = v
  · subst huv
    simp [World.counters]
  · simp [World.counters, huv]

theorem Upstream.claim_counters (s : Upstream) (now : Nat) :
    (s.claim now).2.ok = s.ok ∧ (s.claim now).2.fail = s.fail := by
  rcases s.claim_cases now with ⟨_, hclaim⟩ | ⟨_, _, _, hclaim⟩ | ⟨_, _, _, _, hclaim⟩
  · simp [hclaim]
  · simp [hclaim]
  · simp [hclaim]

/-- What an event adds to the counters. -/
def Mark.adds (u : Nat) : Mark → Nat × Nat × Nat
  | .ok v => if u = v then (1, 0, 0) else 0
  | .fail v => if u = v then (0, 1, 0) else 0
  | .fallback => (0, 0, 1)
  | .localLookup _ _ => 0

theorem perform_counters (hperform : World.perform event.op w event.reply = some w') :
    w'.counters u = w.counters u + (Mark.of event).elim 0 (Mark.adds u) := by
  obtain ⟨op, reply⟩ := event
  cases op with
  | answered v rtt =>
      cases hperform
      rw [World.counters_setUpstream, Mark.of, Option.elim_some, Mark.adds]
      split
      next huv => subst huv; rfl
      next => rw [add_zero]
  | failed v err =>
      simp only [World.perform, Option.ite_none_right_eq_some, Option.some.injEq] at hperform
      rw [← hperform.2, World.counters_setUpstream, Mark.of, Option.elim_some, Mark.adds]
      split
      next huv => subst huv; rfl
      next => rw [add_zero]
  | claim v now =>
      simp only [World.perform, Option.ite_none_right_eq_some, Option.some.injEq] at hperform
      rw [← hperform.2, World.counters_setUpstream, (Upstream.claim_counters _ now).1,
        (Upstream.claim_counters _ now).2]
      split
      next huv => subst huv; rfl
      next => rfl
  | releaseProbes claimed =>
      cases hperform
      simp only [World.counters, World.releaseProbes_upstreams]
      split
      next => rfl
      next => rfl
  | fallback =>
      cases hperform
      rfl
  | lastFallback t =>
      cases hperform
      rfl
  | sfDo req =>
      cases reply with
      | lead flight =>
          simp only [World.perform, Option.ite_none_right_eq_some, Option.some.injEq] at hperform
          rw [← hperform.2]
          rfl
      | join flight =>
          simp only [World.perform, Option.ite_none_right_eq_some, Option.some.injEq] at hperform
          rw [← hperform.2]
          rfl
  | sfEnd req flight answer =>
      cases hperform
      rfl
  | lookupsAdd =>
      cases hperform
      rfl
  | ask v name share =>
      cases hperform
      rfl
  | resolverReply v name =>
      cases hperform
      rfl
  | dohReply v name query =>
      cases hperform
      rfl
  | localLookup host =>
      cases hperform
      rfl
  | dialDirect ip port =>
      cases hperform
      rfl
  | _ =>
      simp only [World.perform, Option.ite_none_right_eq_some, Option.some.injEq] at hperform
      rw [← hperform.2]
      rfl

end Counters

namespace Walk

/-- What a walk adds to the counters. -/
def counts (s : Walk) (u : Nat) : Nat × Nat × Nat :=
  (if s.answering = some u then 1 else 0, if s.up ∧ u ∈ s.failing then 1 else 0,
    if s.answering = none then 1 else 0)

theorem sum_failMarks {us : List Nat} (hnodup : us.Nodup) (u : Nat) :
    ((us.map Mark.fail).map (Mark.adds u)).sum = (0, if u ∈ us then 1 else 0, 0) := by
  induction us with
  | nil => rfl
  | cons v rest ih =>
      obtain ⟨hv, hnodup⟩ := List.nodup_cons.mp hnodup
      rw [List.map_cons, List.map_cons, List.sum_cons, ih hnodup, Mark.adds]
      by_cases huv : u = v
      · subst huv
        simp [hv]
      · simp [huv]

theorem sum_settledMarks (s : Walk) (host : Text) (u v : Nat) :
    ((s.settledMarks host v).map (Mark.adds u)).sum = (if v = u then 1 else 0, 0, 0) := by
  have hlocal : (((s.settledMarks host v).tail).map (Mark.adds u)).sum = 0 := by
    rw [settledMarks, List.tail_cons]
    cases s.outcome v <;> cases s.localOnNXDomain <;> rfl
  have hok : Mark.adds u (.ok v) = (if v = u then 1 else 0, 0, 0) := by
    by_cases huv : v = u
    · simp [Mark.adds, huv]
    · rw [Mark.adds, if_neg (Ne.symm huv), if_neg huv]
      rfl
  rw [settledMarks, List.tail_cons] at hlocal
  rw [settledMarks, List.map_cons, List.sum_cons, hok, hlocal, add_zero]

theorem sum_marks {s : Walk} (hnodup : s.claimable.Nodup) (host : Text) (u : Nat) :
    ((s.marks host).map (Mark.adds u)).sum = s.counts u := by
  have hfail : (s.failMarks.map (Mark.adds u)).sum =
      (0, if s.up ∧ u ∈ s.failing then 1 else 0, 0) := by
    have hfailing : s.failing.Nodup := hnodup.sublist (List.takeWhile_sublist _)
    cases hup : s.up with
    | true => simpa [failMarks, hup] using sum_failMarks hfailing u
    | false =>
        simp only [failMarks, hup, Bool.false_eq_true, false_and, if_false]
        rfl
  rw [marks, List.map_append, List.sum_append, hfail, counts]
  cases s.answering with
  | none => simp [Mark.adds]
  | some v => simp [sum_settledMarks]

end Walk

/-! ## The lookup -/

/-- The resolver is not paused, or its pause has passed and no probe is under
way. -/
def Upstream.claimable (s : Upstream) (now : Nat) : Bool :=
  match s.pausedUntil with
  | none => true
  | some pausedUntil => !s.probing && decide (pausedUntil ≤ now)

theorem Upstream.claim_granted (s : Upstream) (now : Nat) :
    (s.claim now).1.granted = s.claimable now := by
  rcases s.claim_cases now with ⟨hpaused, hclaim⟩ | ⟨x, hpaused, hrefused, hclaim⟩ |
    ⟨x, hpaused, hprobing, hpassed, hclaim⟩
  · simp [hclaim, Grant.granted, claimable, hpaused]
  · rcases hrefused with hprobing | hearly
    · simp [hclaim, Grant.granted, claimable, hpaused, hprobing]
    · simp [hclaim, Grant.granted, claimable, hpaused, hearly]
  · simp [hclaim, Grant.granted, claimable, hpaused, hprobing, hpassed]

/-- Time passes and other calls use the cache, but the tunnel state and the
resolver states stay as they are. -/
structure World.Undisturbed (w w' : World) : Prop where
  clock : w.clock ≤ w'.clock
  up : w'.up = w.up
  upstreams : w'.upstreams = w.upstreams
  fallbacks : w'.fallbacks = w.fallbacks

theorem World.Undisturbed.refl (w : World) : w.Undisturbed w := ⟨le_rfl, rfl, rfl, rfl⟩

theorem claimAll_meets {now : Nat} {us active : List Nat} {trace : List (Event sig)}
    {w w' : World} {states : Nat → Upstream} (hnodup : us.Nodup)
    (hreturns : (claimAll now us).Returns trace active)
    (hpasses : Passes World.perform World.Undisturbed w trace w')
    (hstates : ∀ u ∈ us, w.upstreams u = states u) :
    active = us.filter fun u => (states u).claimable now := by
  induction us generalizing trace active w with
  | nil => exact (returns_ret.mp hreturns).2.symm
  | cons u rest ih =>
      obtain ⟨grant, _, rfl, hlater⟩ := returns_perform.mp hreturns
      obtain ⟨first, granted, _, rfl, hrest, hend⟩ := returns_bind.mp hlater
      obtain ⟨rfl, rfl⟩ := returns_ret.mp hend
      rw [List.append_nil] at hpasses
      obtain ⟨before, after, hbefore, hclaim, hafter⟩ := hpasses
      simp only [World.perform, Option.ite_none_right_eq_some, Option.some.injEq] at hclaim
      obtain ⟨hgrant, rfl⟩ := hclaim
      obtain ⟨hu, hnodup⟩ := List.nodup_cons.mp hnodup
      have hothers : ∀ v ∈ rest,
          (before.setUpstream u ((before.upstreams u).claim now).2).upstreams v = states v := by
        intro v hv
        rw [World.setUpstream_upstreams, Function.update_of_ne (ne_of_mem_of_not_mem hv hu),
          hbefore.upstreams, hstates v (List.mem_cons_of_mem _ hv)]
      rw [ih hnodup hrest hafter hothers, List.filter_cons, hgrant, Upstream.claim_granted,
        hbefore.upstreams, hstates u List.mem_cons_self]

/-- The walk, and the local resolver where no other settled the lookup. -/
theorem orFallback_meets {c : DnsCache} {host : Text} {s : Walk}
    {trace last : List (Event sig)} {walked : Option Answer} {answer : Answer}
    (hsetting : s.localOnNXDomain = c.localOnNXDomain) (hwalked : Walked c host s trace walked)
    (hreturns : (orFallback c host walked).Returns last answer)
    (hup : ∀ reply, (⟨.tunnelUp, reply⟩ : Event sig) ∈ last → reply = s.up) :
    ∃ localResult, answer = ({ s with localResult } : Walk).answer ∧
      (trace ++ last).filterMap Mark.of = ({ s with localResult } : Walk).marks host ∧
      Asks c host s.outcome (trace ++ last) s.asked := by
  have hquiet : ∀ event ∈ last, event.op.inAttempt = false := by
    intro event hmem
    have hop := (orFallback_inFallback c host walked).of_mem hreturns hmem
    obtain ⟨op, reply⟩ := event
    cases op <;> first | rfl | cases hop
  have hasks := hwalked.asks.append hquiet
  have hanswer := hwalked.answer
  cases hanswering : s.answering with
  | some u =>
      rw [hanswering] at hanswer
      subst hanswer
      obtain ⟨rfl, rfl⟩ := returns_ret.mp hreturns
      refine ⟨s.localResult, ?_, ?_, hasks⟩
      · rw [Walk.answer, hanswering, Option.map_some, Option.getD_some]
      · rw [List.append_nil, hwalked.marks, Walk.marks, hanswering, Option.map_some,
          Option.getD_some, Option.getD_some]
  | none =>
      rw [hanswering] at hanswer
      subst hanswer
      obtain ⟨localResult, hspec⟩ := lookupFallback_meets hreturns hup
      obtain ⟨hanswer, hmarks⟩ := hspec { s with localResult } hsetting rfl rfl
      have hnone : ({ s with localResult } : Walk).answering = none := hanswering
      refine ⟨localResult, ?_, ?_, hasks⟩
      · rw [hanswer, Walk.answer, hnone, Option.map_none, Option.getD_none]
      · rw [List.filterMap_append, hmarks, hwalked.marks, Walk.marks, hanswering, hnone,
          Option.map_none, Option.map_none, Option.getD_none, Option.getD_none, List.append_nil]
        rfl

/-- The lookup is the specified walk over the resolvers that can be claimed at
its start. -/
theorem lookup_refines_walk {c : DnsCache} {ctx : Nat} {host : Text} {trace : List (Event sig)}
    {answer : Answer} {w w' : World} (hreturns : (lookup c ctx host).Returns trace answer)
    (hpasses : Passes World.perform World.Undisturbed w trace w') :
    ∃ (now : Nat) (s : Walk), w.clock ≤ now ∧ trace.head? = some ⟨.now, now⟩ ∧
      s.claimable = (List.range c.tunnel.length).filter (fun u => (w.upstreams u).claimable now) ∧
      s.localOnNXDomain = c.localOnNXDomain ∧ s.up = w.up ∧
      Asks c host s.outcome trace s.asked ∧ answer = s.answer ∧
      trace.filterMap Mark.of = s.marks host ∧
      ∀ u, w'.counters u = w.counters u + s.counts u := by
  have hup : ∀ reply, (⟨.tunnelUp, reply⟩ : Event sig) ∈ trace → reply = w.up := by
    intro reply hmem
    obtain ⟨before, after, hbefore, hperform⟩ := hpasses.of_mem World.up (fun _ _ h => h.up)
      (fun _ _ _ h => perform_up h) hmem
    rw [← hbefore]
    exact (Option.ite_none_right_eq_some.mp hperform).1
  have hcounts := fun u => hpasses.count (fun w => w.counters u) Mark.of (Mark.adds u)
    (fun w w' h => by rw [World.counters, World.counters, h.upstreams, h.fallbacks])
    (fun _ _ _ h => perform_counters h)
  obtain ⟨now, _, rfl, hbody⟩ := returns_perform.mp hreturns
  obtain ⟨claims, active, _, rfl, hclaims, hstart⟩ := returns_bind.mp hbody
  obtain ⟨start, _, rfl, hlater⟩ := returns_perform.mp hstart
  obtain ⟨walking, walked, _, rfl, hwalk, hanswers⟩ := returns_bind.mp hlater
  obtain ⟨last, _, _, rfl, hfallback, hrelease⟩ := returns_bind.mp hanswers
  obtain ⟨_, _, rfl, hend⟩ := returns_perform.mp hrelease
  obtain ⟨rfl, rfl⟩ := returns_ret.mp hend
  -- Nothing has changed the resolver states before the claims.
  obtain ⟨before, after, hbefore, hnow, hrest⟩ := hpasses
  obtain ⟨hclock, rfl⟩ : now = before.clock ∧ before = after := by
    simpa [World.perform] using hnow
  obtain ⟨middle, hclaimed, -⟩ := hrest.split World.Undisturbed.refl
  have hactive := claimAll_meets List.nodup_range hclaims hclaimed fun u _ =>
    congrFun hbefore.upstreams u
  have hnodup : active.Nodup := by
    rw [hactive]
    exact List.nodup_range.filter _
  obtain ⟨results, localResult, hspec⟩ := walk_walked hnodup hwalk fun reply hmem =>
    hup reply (by simp [hmem])
  obtain ⟨localResult, hanswer, hmarks, hasks⟩ := orFallback_meets rfl
    (hspec results fun _ _ => rfl) hfallback fun reply hmem => hup reply (by simp [hmem])
  have hquiet : ∀ event ∈ claims, event.op.inAttempt = false := by
    intro event hmem
    obtain ⟨u, hop⟩ := (claimAll_confined now _).of_mem hclaims hmem
    rw [hop]
    rfl
  have hunmarked : claims.filterMap Mark.of = [] := by
    apply (claimAll_confined now _).filterMap_eq_nil hclaims
    rintro ⟨op, reply⟩ ⟨u, rfl⟩
    rfl
  have htotal : (⟨.now, now⟩ :: (claims ++ ⟨.now, start⟩ :: (walking ++
      (last ++ [⟨.releaseProbes active, ()⟩]))) : List (Event sig)).filterMap Mark.of =
      Walk.marks ⟨active, results, localResult, c.localOnNXDomain, w.up⟩ host := by
    rw [List.filterMap_cons_none rfl, List.filterMap_append, hunmarked, List.nil_append,
      List.filterMap_cons_none rfl, ← List.append_assoc, List.filterMap_append, hmarks]
    exact List.append_nil _
  refine ⟨now, ⟨active, results, localResult, c.localOnNXDomain, w.up⟩, hclock ▸ hbefore.clock,
    rfl, hactive, rfl, rfl, ?_, hanswer, htotal, fun u => ?_⟩
  · rw [← List.append_assoc walking]
    refine Asks.cons rfl (Asks.after hquiet (Asks.cons rfl (hasks.append ?_)))
    exact List.forall_mem_singleton.mpr rfl
  · rw [hcounts u, htotal, Walk.sum_marks hnodup]

theorem passes_of_replay {o : Opener} {events : List (Event sig)} {w w' : World}
    (h : (gate o).replay w events = some w') :
    Passes World.perform World.Undisturbed w events w' := by
  induction events generalizing w with
  | nil => exact Option.some.inj h ▸ World.Undisturbed.refl w
  | cons event rest ih =>
      obtain ⟨after, hperform, hrest⟩ := Option.bind_eq_some_iff.mp h
      exact ⟨w, after, World.Undisturbed.refl w, hperform, ih hrest⟩

/-- The first of two resolvers refuses the channel, the second one answers. -/
def twoResolvers : List (Event sig) :=
  [⟨.now, 0⟩, ⟨.claim 0 0, .open⟩, ⟨.claim 1 0, .open⟩, ⟨.now, 0⟩,
    ⟨.now, 0⟩, ⟨.now, 0⟩, ⟨.ask 0 (str "x.") 1500000000, 1⟩, ⟨.dialServer 0, .failed⟩,
    ⟨.resolverReply 0 (str "x."), .error (.dns false (str "refused"))⟩, ⟨.now, 0⟩,
    ⟨.tunnelUp, true⟩, ⟨.failed 0 (.unreachable (str "refused")), 0⟩,
    ⟨.now, 0⟩, ⟨.now, 0⟩, ⟨.ask 1 (str "x.") 3000000000, 1⟩, ⟨.dialServer 1, .opened⟩,
    ⟨.resolverReply 1 (str "x."), .ok [⟨[192, 0, 2, 1], []⟩]⟩, ⟨.now, 0⟩,
    ⟨.answered 1 0, ()⟩, ⟨.releaseProbes [0, 1], ()⟩]

theorem twoResolvers_walk :
    ∃ (w' : World) (s : Walk),
      (gate (sampleOpener false)).replay { up := true } twoResolvers = some w' ∧
      s.claimable.length = 2 ∧
      s.answer = ⟨{ addrs := [.v4 3221225985], authoritative := true }, none⟩ ∧
      ∀ u, w'.counters u = (0, 0, 0) + s.counts u := by
  have hreturns : (lookup (setTunnelDNS [str "1.1.1.1:53", str "8.8.8.8:53"]
      (sampleOpener false).rules.dns) lookupTimeout (str "x")).Returns twoResolvers
      ⟨{ addrs := [.v4 3221225985], authoritative := true }, none⟩ := by
    repeat apply Reaches.act
    exact .refl _
  obtain ⟨w', hreplay⟩ : ∃ w', (gate (sampleOpener false)).replay { up := true } twoResolvers =
      some w' := Option.isSome_iff_exists.mp (by decide +kernel)
  obtain ⟨now, s, -, hnow, hclaimable, -, -, -, hanswer, -, hcounts⟩ :=
    lookup_refines_walk hreturns (passes_of_replay hreplay)
  refine ⟨w', s, hreplay, ?_, hanswer.symm, hcounts⟩
  rw [hclaimable]
  rfl

end SshGate
