import SshGate.Dns.Pauses

/-! # Answers and contact

An attempt on a tunnel resolver counts as answered by what Go's resolver or
HTTP client returned, not by whether a channel to the server was opened. The
two agree as long as the client code gives no answer of its own.
-/

namespace SshGate

open Go Interaction Program System

/-- The resolver or the HTTP client reports an answer: addresses, a not-found,
or a response that is decoded without an error. -/
def replyAnswers : Event sig → Bool
  | ⟨.resolverReply _ _, .ok _⟩ => true
  | ⟨.resolverReply _ _, .error (.dns isNotFound _)⟩ => isNotFound
  | ⟨.resolverReply _ _, .error (.other _)⟩ => false
  | ⟨.dohReply _ _ q, reply⟩ => isAnswer (classifyDoh q reply.outcome)
  | _ => true

/-- The replies of an attempt are answers only if a channel to the server was
open. -/
def Honest (c : DnsCache) (u : Nat) (attempt : List (Event sig)) : Prop :=
  (∀ event ∈ attempt, replyAnswers event = true) → Contacted c u attempt

section Attempt

variable {u : Nat} {share : Int} {host : Text} {trace : List (Event sig)}
  {result : Except Err (List Addr)}

theorem isAnswer_classifyServer (opened : Bool) (name : Text)
    (reply : Except ResolverError (List IPAddr)) :
    isAnswer (classifyServer opened reply) = replyAnswers ⟨.resolverReply u name, reply⟩ := by
  cases reply with
  | ok addrs => rfl
  | error cause =>
      cases cause with
      | other message => rfl
      | dns isNotFound message =>
          cases isNotFound with
          | true => rfl
          | false => cases opened <;> rfl

/-- Asking and dialing are no replies: the last event decides. -/
theorem forall_query_iff {name : Text} {dials : Nat} {hook : List (Event sig)} {opened : Bool}
    (hhook : (dialHook u dials).Returns hook opened) (last : Event sig) :
    (∀ event ∈ (⟨.ask u name share, dials⟩ :: hook ++ [last] : List (Event sig)),
      replyAnswers event = true) ↔ replyAnswers last = true := by
  constructor
  · intro hall
    exact hall last (by simp)
  · intro hlast event hevent
    rcases List.mem_append.mp hevent with hquery | hreply
    · rcases List.mem_cons.mp hquery with rfl | hdial
      · rfl
      · obtain ⟨op, reply⟩ := event
        obtain rfl : op = .dialServer u := (dialHook_confined u dials).of_mem hhook hdial
        rfl
    · rw [List.mem_singleton.mp hreply]
      exact hlast

theorem dohQueries_isAnswer {queries : List DohQuery} {connected : Bool} {out : List Addr}
    (hpath : (dohQueries u share host queries connected out).Returns trace result) :
    isAnswer result = true ↔ ∀ event ∈ trace, replyAnswers event = true := by
  induction queries generalizing trace connected out with
  | nil =>
      obtain ⟨rfl, rfl⟩ := returns_ret.mp hpath
      refine iff_of_true ?_ nofun
      split <;> rfl
  | cons q rest ih =>
      obtain ⟨first, queried, second, rfl, hfirst, hsecond⟩ := returns_bind.mp hpath
      obtain ⟨dials, hook, opened, reply, rfl, hhook, rfl⟩ := query_returns hfirst
      rw [List.forall_mem_append, forall_query_iff hhook]
      cases hdoh : classifyDoh q reply.outcome with
      | error err =>
          have hreply : replyAnswers ⟨.dohReply u host q, reply⟩ = err.isNotFound := by
            simp only [replyAnswers, hdoh, isAnswer]
          simp only [hdoh] at hsecond
          split at hsecond
          next hcond =>
            obtain ⟨rfl, rfl⟩ := returns_ret.mp hsecond
            simp only [Bool.and_eq_true, Bool.not_eq_true'] at hcond
            simp [hreply, hcond.2, isAnswer, Err.isNotFound]
          next =>
            obtain ⟨rfl, rfl⟩ := returns_ret.mp hsecond
            simp [hreply, isAnswer]
      | ok addrs =>
          have hreply : replyAnswers ⟨.dohReply u host q, reply⟩ = true := by
            simp only [replyAnswers, hdoh, isAnswer]
          simp only [hdoh] at hsecond
          rw [ih hsecond, hreply, eq_self, true_and]

/-- An attempt is answered exactly if every reply in it is an answer. -/
theorem upstreamLookup_isAnswer {c : DnsCache}
    (hpath : (upstreamLookup c u share host).Returns trace result) :
    isAnswer result = true ↔ ∀ event ∈ trace, replyAnswers event = true := by
  unfold upstreamLookup at hpath
  split at hpath
  next => exact dohQueries_isAnswer hpath
  next =>
    obtain ⟨dials, hook, opened, reply, rfl, hhook, rfl⟩ := query_returns hpath
    rw [forall_query_iff hhook, isAnswer_classifyServer]

end Attempt

/-- An answer is recorded after the attempt that gave it. -/
theorem CallStep.answered {c : DnsCache} {allowed : Request → Prop} {history : List (Event sig)}
    {u rtt : Nat} (h : CallStep c allowed history (.answered u rtt)) :
    ∃ host attempt result, Tried c host history u attempt result ∧ isAnswer result = true := by
  rcases h with hdial | ⟨req, _, _, before, trace, rfl, hstep⟩
  · cases hdial
  cases hstep with
  | @flight id _ _ htrace hop =>
      cases hop with
      | @lookup start seg _ _ hflight hlookup _ =>
          cases hlookup with
          | attempt hop => cases hop
          | @answered _ attempt result _ htried hresult =>
              subst hflight htrace
              refine ⟨req.host, attempt, result, ((htried.after _).after _).after _, ?_⟩
              cases result with
              | ok addrs => rfl
              | error err => exact hresult err rfl

/-- An attempt that is answered has reached its server, and a recorded answer
is one of a server that was reached, exactly as far as the resolver and the
HTTP client give answers over an open channel only. -/
theorem answers_contact_iff (o : Opener) :
    (∀ (u : Nat) (share : Int) (host : Text) attempt result,
      (upstreamLookup o.rules.dns u share host).Returns attempt result →
      ((isAnswer result = true → Contacted o.rules.dns u attempt) ↔
        Honest o.rules.dns u attempt)) ∧
    ∀ (w : World) (schedule : List (Action (gate o))) (c c' : Config (gate o)) (i u rtt : Nat),
      (gate o).run ⟨w, []⟩ schedule = some c →
      (gate o).step c (.run i ⟨.answered u rtt, ()⟩) = some c' →
      ∃ host attempt result, Tried o.rules.dns host (traceOf c i) u attempt result ∧
        isAnswer result = true ∧
        (Contacted o.rules.dns u attempt ↔ Honest o.rules.dns u attempt) := by
  have hcall : ∀ (u : Nat) (share : Int) (host : Text) attempt result,
      (upstreamLookup o.rules.dns u share host).Returns attempt result →
      ((isAnswer result = true → Contacted o.rules.dns u attempt) ↔
        Honest o.rules.dns u attempt) := by
    intro u share host attempt result hreturns
    rw [upstreamLookup_isAnswer hreturns]
    rfl
  refine ⟨hcall, fun w schedule c c' i u rtt hrun hstep => ?_⟩
  obtain ⟨call, hguard⟩ := guarded_traceOf (program_always o) (run_faithful hrun) hstep
  obtain ⟨host, attempt, result, htried, hanswer⟩ := CallStep.answered hguard
  refine ⟨host, attempt, result, htried, hanswer, ?_⟩
  obtain ⟨_, _, share, _, _, hreturns⟩ := htried
  rw [← hcall u share host attempt result hreturns]
  exact ⟨fun hcontact _ => hcontact, fun hcontact => hcontact hanswer⟩

/-- A lookup of a name that is not a valid domain name: Go's resolver gives its
not-found without dialing. -/
def selfAnswered : List (Event sig) :=
  let req : Request := ⟨.tunnel, str "a..b"⟩
  [⟨.cacheGet req, none⟩, ⟨.sfDo req, .lead 0⟩, ⟨.now, 0⟩, ⟨.lookupsAdd, ()⟩, ⟨.now, 0⟩,
    ⟨.claim 0 0, .probe⟩, ⟨.now, 0⟩, ⟨.now, 0⟩, ⟨.now, 0⟩,
    ⟨.ask 0 (str "a..b.") tunnelLookupTimeout, 0⟩,
    ⟨.resolverReply 0 (str "a..b."), .error (.dns true (str "no such host"))⟩, ⟨.now, 0⟩]

/-- The resolver could not be reached before, and its pause has just passed. -/
def pausedBefore : World := { up := true, upstreams := fun _ => { pausedUntil := some 0 } }

/-- The server counts as having answered, and its pause ends, without a dial. -/
theorem selfAnswered_recorded :
    ∃ c c', (gate (sampleOpener false)).run ⟨pausedBefore, []⟩
        ((gate (sampleOpener false)).alone [] (.resolveTunnel (str "a..b")) selfAnswered) = some c ∧
      (gate (sampleOpener false)).step c (.run 0 ⟨.answered 0 0, ()⟩) = some c' ∧
      (∀ i u reply, ¬ Performed c i ⟨.dialServer u, reply⟩) ∧
      (c.state.upstreams 0).ok = 0 ∧ (c'.state.upstreams 0).ok = 1 ∧
      (c.state.upstreams 0).pausedUntil = some 0 ∧
      (c'.state.upstreams 0).pausedUntil = none := by
  have hsteps : (((gate (sampleOpener false)).run ⟨pausedBefore, []⟩
      ((gate (sampleOpener false)).alone [] (.resolveTunnel (str "a..b")) selfAnswered)).bind
      fun c => ((gate (sampleOpener false)).step c (.run 0 ⟨.answered 0 0, ()⟩)).map
        fun c' => (c, c')).any
      (fun pair : Config (gate (sampleOpener false)) × Config (gate (sampleOpener false)) =>
        decide ((pair.1.state.upstreams 0).ok = 0 ∧ (pair.2.state.upstreams 0).ok = 1 ∧
          (pair.1.state.upstreams 0).pausedUntil = some 0 ∧
          (pair.2.state.upstreams 0).pausedUntil = none)) = true := by
    decide +kernel
  obtain ⟨⟨c, c'⟩, hpair, hrecord⟩ := (Option.any_eq_true ..).mp hsteps
  obtain ⟨_, hrun, hnext⟩ := Option.bind_eq_some_iff.mp hpair
  obtain ⟨_, hstep, hsame⟩ := Option.map_eq_some_iff.mp hnext
  cases hsame
  refine ⟨c, c', hrun, hstep, ?_, of_decide_eq_true hrecord⟩
  rintro i u reply ⟨thread, hthread, hmem⟩
  obtain ⟨rest, hthreads⟩ := run_alone hrun
  have hfirst := List.mem_of_getElem? hthread
  rw [hthreads, List.mem_singleton] at hfirst
  subst hfirst
  simp [selfAnswered] at hmem

/-- An answer over an open channel. -/
theorem openChannel_contact :
    Honest (sampleOpener false).rules.dns 0
      [⟨.ask 0 (str "x.") 0, 1⟩, ⟨.dialServer 0, .opened⟩,
        ⟨.resolverReply 0 (str "x."), .ok []⟩] := by
  have hreturns : (upstreamLookup (sampleOpener false).rules.dns 0 0 (str "x")).Returns
      [⟨.ask 0 (str "x.") 0, 1⟩, ⟨.dialServer 0, .opened⟩, ⟨.resolverReply 0 (str "x."), .ok []⟩]
      (.ok []) := by
    repeat apply Reaches.act
    exact .refl _
  have hcontact : Contacted (sampleOpener false).rules.dns 0
      [⟨.ask 0 (str "x.") 0, 1⟩, ⟨.dialServer 0, .opened⟩,
        ⟨.resolverReply 0 (str "x."), .ok []⟩] := by
    change (⟨.dialServer 0, .opened⟩ : Event sig) ∈ _
    simp
  exact ((answers_contact_iff (sampleOpener false)).1 0 0 (str "x") _ _ hreturns).mp
    fun _ => hcontact

end SshGate
