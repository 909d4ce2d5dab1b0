import SshGate.Dns.Attempts

/-! # Every attempt is recorded

After an attempt on a tunnel resolver the thread records it: an answer at once,
a failure if the tunnel is up. The phase of a trace tells how far the thread is
with that; outside these phases nothing is to be recorded.
-/

namespace SshGate

open Go Interaction Program

/-- Nothing to record; a reply came; the attempt is over; it has failed, with
the tunnel up. -/
inductive Phase where
  | idle
  | replied
  | over
  | failing
  deriving Repr, DecidableEq

def phaseAfter : Phase → Event sig → Phase
  | _, ⟨.resolverReply _ _, _⟩ | _, ⟨.dohReply _ _ _, _⟩ => .replied
  | .replied, ⟨.now, _⟩ => .over
  | .over, ⟨.tunnelUp, true⟩ => .failing
  | _, _ => .idle

def phase (trace : List (Event sig)) : Phase := trace.foldl phaseAfter .idle

theorem phase_snoc (trace : List (Event sig)) (event : Event sig) :
    phase (trace ++ [event]) = phaseAfter (phase trace) event := by
  simp [phase]

theorem phaseAfter_reply {event : Event sig} (hop : event.op.isReply = true) (p : Phase) :
    phaseAfter p event = .replied := by
  obtain ⟨op, reply⟩ := event
  cases op with
  | resolverReply u name | dohReply u host q => cases p <;> rfl
  | _ => cases hop

theorem phaseAfter_idle {event : Event sig} (hop : event.op.isReply = false) :
    phaseAfter .idle event = .idle := by
  obtain ⟨op, reply⟩ := event
  cases op with
  | resolverReply u name | dohReply u host q => cases hop
  | tunnelUp => cases reply <;> rfl
  | _ => rfl

/-- Nothing to record stays so until a reply comes. -/
theorem phase_snoc_idle {trace : List (Event sig)} (hidle : phase trace = .idle)
    {event : Event sig} (hop : event.op.isReply = false) : phase (trace ++ [event]) = .idle := by
  rw [phase_snoc, hidle, phaseAfter_idle hop]

theorem Tried.phase {c : DnsCache} {host : Text} {trace attempt : List (Event sig)} {u : Nat}
    {result : Except Err (List Addr)} (htried : Tried c host trace u attempt result) :
    phase trace = .over := by
  obtain ⟨before, start, share, stop, rfl, hpath⟩ := htried
  obtain ⟨first, event, rfl, hevent⟩ := upstreamLookup_ends hpath
  have hsplit : before ++ ⟨.now, start⟩ :: (first ++ [event]) =
      (before ++ ⟨.now, start⟩ :: first) ++ [event] := by simp
  rw [phase_snoc, hsplit, phase_snoc, phaseAfter_reply hevent]
  rfl

/-- After an attempt the next action records it. -/
structure RecordStep (c : DnsCache) (history : List (Event sig)) (op : Op) : Prop where
  tried : ∀ {host u attempt result}, Tried c host history u attempt result →
    if isAnswer result then ∃ rtt, op = .answered u rtt else op = .tunnelUp
  failed : ∀ {before host u attempt result}, history = before ++ [⟨.tunnelUp, true⟩] →
    Tried c host before u attempt result → ∃ err, result = .error err ∧ op = .failed u err

section Records

variable {c : DnsCache} {history : List (Event sig)} {op : Op}

theorem RecordStep.of_phase (hover : phase history ≠ .over) (hfailing : phase history ≠ .failing) :
    RecordStep c history op where
  tried := fun htried => absurd htried.phase hover
  failed := by
    rintro before host u attempt result rfl htried
    rw [phase_snoc, htried.phase] at hfailing
    exact absurd rfl hfailing

theorem RecordStep.of_idle (hidle : phase history = .idle) : RecordStep c history op :=
  .of_phase (by simp [hidle]) (by simp [hidle])

theorem RecordStep.of_replied (hreplied : phase history = .replied) : RecordStep c history op :=
  .of_phase (by simp [hreplied]) (by simp [hreplied])

/-- A program without replies leaves nothing to record. -/
theorem records_of_confined {α : Type} {p : Prog α}
    (hp : Confined (fun op : Op => op.isReply = false) p) (hidle : phase history = .idle) :
    Always (RecordStep c) (fun history' _ => phase history' = .idle) history p := by
  induction p generalizing history with
  | ret value => exact hidle
  | act op next ih =>
      exact ⟨.of_idle hidle, fun reply => ih reply (hp.2 reply) (phase_snoc_idle hidle hp.1)⟩

/-- During an attempt there is nothing to record. -/
theorem records_of_inAttempt {α : Type} {p : Prog α}
    (hp : Confined (fun op : Op => op.inAttempt = true) p)
    (hphase : phase history = .idle ∨ phase history = .replied) :
    Always (RecordStep c)
      (fun history' _ => phase history' = .idle ∨ phase history' = .replied) history p := by
  induction p generalizing history with
  | ret value => exact hphase
  | act op next ih =>
      have hguard : RecordStep c history op := by
        rcases hphase with hidle | hreplied
        · exact .of_idle hidle
        · exact .of_replied hreplied
      refine ⟨hguard, fun reply => ih reply (hp.2 reply) ?_⟩
      rw [phase_snoc]
      cases op with
      | resolverReply u name | dohReply u host q => exact .inr (phaseAfter_reply rfl _)
      | ask u name share | dialServer u =>
          left
          rcases hphase with hidle | hreplied
          · rw [hidle]
            rfl
          · rw [hreplied]
            rfl
      | _ => cases hp.1

variable (c)

/-- The attempt that is over is the one just made. -/
theorem RecordStep.of_tried {host : Text} {u : Nat} {attempt : List (Event sig)}
    {result : Except Err (List Addr)} (htried : Tried c host history u attempt result)
    (hop : if isAnswer result then ∃ rtt, op = .answered u rtt else op = .tunnelUp) :
    RecordStep c history op where
  tried := by
    intro host' u' attempt' result' htried'
    obtain ⟨rfl, rfl⟩ := htried.unique htried'
    exact hop
  failed := by
    rintro before host' u' attempt' result' rfl htried'
    have hphase := htried.phase
    rw [phase_snoc, htried'.phase] at hphase
    cases hphase

theorem upstreamFailed_records {host : Text} {u : Nat} {attempt : List (Event sig)} {err : Err}
    (htried : Tried c host history u attempt (.error err)) (herr : err.isNotFound = false) :
    Always (RecordStep c) (fun history' _ => phase history' = .idle) history
      (upstreamFailed u err) := by
  refine Always.perform (.of_tried c htried (by simp [isAnswer, herr])) fun up => ?_
  cases up with
  | false =>
      show phase _ = .idle
      rw [phase_snoc, htried.phase]
      rfl
  | true =>
      have hphase : phase (history ++ [⟨.tunnelUp, true⟩]) = .failing := by
        rw [phase_snoc, htried.phase]
        rfl
      refine Always.perform ⟨?_, ?_⟩ fun reading => ?_
      · intro host' u' attempt' result' htried'
        rw [htried'.phase] at hphase
        cases hphase
      · intro before host' u' attempt' result' hhistory htried'
        obtain ⟨rfl, _⟩ := List.append_inj' hhistory rfl
        obtain ⟨rfl, rfl⟩ := htried.unique htried'
        exact ⟨err, rfl, rfl⟩
      · show phase _ = .idle
        rw [phase_snoc, hphase]
        rfl

theorem walk_records (deadline : Nat) (host : Text) (us : List Nat)
    (hidle : phase history = .idle) :
    Always (RecordStep c) (fun history' _ => phase history' = .idle) history
      (walk c deadline host us) := by
  induction us generalizing history with
  | nil => exact hidle
  | cons u rest ih =>
      refine Always.perform (.of_idle hidle) fun reading => ?_
      have hidle₁ : phase (history ++ [⟨.now, reading⟩]) = .idle := phase_snoc_idle hidle rfl
      refine Always.perform (.of_idle hidle₁) fun start => ?_
      have hidle₂ : phase (history ++ [⟨.now, reading⟩] ++ [⟨.now, start⟩]) = .idle :=
        phase_snoc_idle hidle₁ rfl
      have hattempts := records_of_inAttempt (c := c) (upstreamLookup_inAttempt c u
        (Int.tdiv (deadline - reading) (rest.length + 1)) host) (.inl hidle₂)
      apply hattempts.path.bind
      rintro _ result ⟨attempt, rfl, hattempt⟩
      have hreplied : phase (history ++ [⟨.now, reading⟩] ++ [⟨.now, start⟩] ++ attempt) =
          .replied := by
        obtain ⟨first, event, rfl, hevent⟩ := upstreamLookup_ends hattempt
        rw [← List.append_assoc, phase_snoc, phaseAfter_reply hevent]
      refine Always.perform (.of_replied hreplied) fun stop => ?_
      have htried : Tried c host (history ++ [⟨.now, reading⟩] ++ [⟨.now, start⟩] ++
          attempt ++ [⟨.now, stop⟩]) u attempt result :=
        ⟨history ++ [⟨.now, reading⟩], start, _, stop, by simp, hattempt⟩
      have hanswered : ∀ rtt, phase (history ++ [⟨.now, reading⟩] ++ [⟨.now, start⟩] ++
          attempt ++ [⟨.now, stop⟩] ++ [⟨.answered u rtt, ()⟩]) = .idle := by
        intro rtt
        rw [phase_snoc, htried.phase]
        rfl
      cases result with
      | ok addrs =>
          exact Always.perform (.of_tried c htried ⟨_, rfl⟩) fun _ => hanswered _
      | error err =>
          dsimp only
          split
          next hnotFound =>
            refine Always.perform (.of_tried c htried (by simp [isAnswer, hnotFound])) fun _ => ?_
            have hquiet : Confined (fun op : Op => op.isReply = false) (notFound c host) := by
              apply (notFound_confined c host).imp
              rintro op rfl
              rfl
            apply (records_of_confined hquiet (hanswered _)).bind
            exact fun _ answer hdone => hdone
          next hnotFound =>
            have herr : err.isNotFound = false := by simpa using hnotFound
            apply (upstreamFailed_records c htried herr).bind
            exact fun _ _ hdone => ih hdone

theorem lookup_records (ctx : Nat) (host : Text) (hidle : phase history = .idle) :
    Always (RecordStep c) (fun history' _ => phase history' = .idle) history
      (lookup c ctx host) := by
  have hclaims : ∀ now us, Confined (fun op : Op => op.isReply = false) (claimAll now us) := by
    intro now us
    apply (claimAll_confined now us).imp
    rintro op ⟨u, rfl⟩
    rfl
  refine Always.perform (.of_idle hidle) fun now => ?_
  apply (records_of_confined (hclaims now _) (phase_snoc_idle hidle rfl)).bind
  intro history₁ active hidle₁
  refine Always.perform (.of_idle hidle₁) fun start => ?_
  apply (walk_records c _ host active (phase_snoc_idle hidle₁ rfl)).bind
  intro history₂ walked hidle₂
  have hquiet : Confined (fun op : Op => op.isReply = false) (orFallback c host walked) := by
    apply (orFallback_inFallback c host walked).imp
    intro op hop
    cases op <;> simp_all [Op.inFallback, Op.isReply]
  apply (records_of_confined hquiet hidle₂).bind
  intro history₃ answer hidle₃
  exact Always.perform (.of_idle hidle₃) fun _ => phase_snoc_idle hidle₃ rfl

end Records

/-- In every call each attempt on a tunnel resolver is recorded. -/
theorem program_records (o : Opener) (call : Call) :
    Always (RecordStep o.rules.dns) (fun history _ => phase history = .idle) []
      (call.program o) := by
  refine (program_callsLookup o call).always (fun history => phase history = .idle) ?_ ?_ rfl
  · intro asked history hidle
    exact lookup_records o.rules.dns asked.1 asked.2 hidle
  · intro op history hop hidle
    have hreply : op.isReply = false := by
      cases op <;> simp_all [Op.inTunnelLookup, Op.isReply]
    exact ⟨.of_idle hidle, fun reply => phase_snoc_idle hidle hreply⟩

end SshGate
