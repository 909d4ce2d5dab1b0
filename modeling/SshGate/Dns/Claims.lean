import SshGate.Interaction.Breaker
import SshGate.Dns.Calls

/-! # The claims of a lookup

Which tunnel resolvers a thread holds can be read off its events: it holds what
it was granted since it last released its claims. Every lookup releases exactly
what it holds, and between lookups nothing is held.
-/

namespace SshGate

open Go Interaction Program

/-- The claims that are held after one more event. -/
def heldAfter (claims : List (Claim Nat)) : Event sig → List (Claim Nat)
  | ⟨.claim u now, .open⟩ => ⟨u, now, false⟩ :: claims
  | ⟨.claim u now, .probe⟩ => ⟨u, now, true⟩ :: claims
  | ⟨.releaseProbes _, _⟩ => []
  | _ => claims

/-- The claims that a thread with these events holds. -/
def held (trace : List (Event sig)) : List (Claim Nat) := trace.foldl heldAfter []

def Op.isClaim : Op → Bool
  | .claim _ _ | .releaseProbes _ => true
  | _ => false

theorem held_snoc (trace : List (Event sig)) (event : Event sig) :
    held (trace ++ [event]) = heldAfter (held trace) event := by
  simp [held]

theorem held_snoc_of_not_isClaim {event : Event sig} (hop : event.op.isClaim = false)
    (trace : List (Event sig)) : held (trace ++ [event]) = held trace := by
  rw [held_snoc]
  obtain ⟨op, reply⟩ := event
  cases op <;> simp_all [Op.isClaim, heldAfter]

/-- The thread holds resolver `u`. -/
def HeldIn (trace : List (Event sig)) (u : Nat) : Prop := ∃ claim ∈ held trace, claim.resource = u

theorem heldIn_snoc_claim (trace : List (Event sig)) (u now : Nat) (grant : Grant) (v : Nat) :
    HeldIn (trace ++ [⟨.claim u now, grant⟩]) v ↔
      HeldIn trace v ∨ grant.granted = true ∧ v = u := by
  unfold HeldIn
  rw [held_snoc]
  cases grant with
  | refused => simp [heldAfter, Grant.granted]
  | «open» =>
      simp only [heldAfter, List.mem_cons, exists_eq_or_imp, Grant.granted, true_and]
      rw [or_comm, eq_comm]
  | probe =>
      simp only [heldAfter, List.mem_cons, exists_eq_or_imp, Grant.granted, true_and]
      rw [or_comm, eq_comm]

/-- What precedes the actions on claims: a resolver that is not held yet is
claimed with a clock reading, and exactly the held ones are released. -/
def ClaimStep (trace : List (Event sig)) : Op → Prop
  | .claim u now => (⟨.now, now⟩ : Event sig) ∈ trace ∧ ¬ HeldIn trace u
  | .releaseProbes claimed => ∀ u, u ∈ claimed ↔ HeldIn trace u
  | _ => True

theorem ClaimStep.of_not_isClaim {op : Op} (hop : op.isClaim = false) (trace : List (Event sig)) :
    ClaimStep trace op := by
  cases op with
  | claim u now | releaseProbes claimed => cases hop
  | _ => trivial

theorem claims_of_confined {α : Type} {p : Prog α}
    (hp : Confined (fun op : Op => op.isClaim = false) p) (history : List (Event sig)) :
    Always ClaimStep (fun history' _ => held history' = held history) history p := by
  induction p generalizing history with
  | ret value => rfl
  | act op next ih =>
      refine ⟨.of_not_isClaim hp.1 history, fun reply => ?_⟩
      have hnext := ih reply (hp.2 reply) (history ++ [⟨op, reply⟩])
      rwa [held_snoc_of_not_isClaim hp.1] at hnext

/-- After the claims exactly the active resolvers are held in addition. -/
theorem claimAll_claims {now : Nat} {us : List Nat} (hnodup : us.Nodup)
    {history : List (Event sig)} (hnow : (⟨.now, now⟩ : Event sig) ∈ history)
    (hfree : ∀ u ∈ us, ¬ HeldIn history u) :
    Always ClaimStep
      (fun history' active => ∀ v, HeldIn history' v ↔ HeldIn history v ∨ v ∈ active)
      history (claimAll now us) := by
  induction us generalizing history with
  | nil => simp [claimAll]
  | cons u rest ih =>
      obtain ⟨hu, hrest⟩ := List.nodup_cons.mp hnodup
      refine Always.perform ⟨hnow, hfree u List.mem_cons_self⟩ fun grant => ?_
      have hfree' : ∀ v ∈ rest, ¬ HeldIn (history ++ [⟨.claim u now, grant⟩]) v := by
        intro v hv hheld
        rcases (heldIn_snoc_claim _ _ _ _ _).mp hheld with hold | ⟨_, rfl⟩
        · exact hfree v (List.mem_cons_of_mem _ hv) hold
        · exact hu hv
      apply (ih hrest (List.mem_append_left _ hnow) hfree').bind
      intro history' active hactive v
      rw [hactive v, heldIn_snoc_claim]
      cases hgrant : grant.granted with
      | true => simp only [true_and, if_true, List.mem_cons, or_assoc]
      | false => simp

theorem lookup_claims (c : DnsCache) (ctx : Nat) (host : Text) {history : List (Event sig)}
    (hidle : held history = []) :
    Always ClaimStep (fun history' _ => held history' = []) history (lookup c ctx host) := by
  refine Always.perform trivial fun now => ?_
  have hidle' : held (history ++ [⟨.now, now⟩]) = [] := by
    rw [held_snoc_of_not_isClaim rfl, hidle]
  have hnone : ∀ u, ¬ HeldIn (history ++ [⟨.now, now⟩]) u := by simp [HeldIn, hidle']
  apply (claimAll_claims List.nodup_range (by simp) fun u _ => hnone u).bind
  intro history₁ active hactive
  refine Always.perform trivial fun start => ?_
  -- Nothing is claimed or released until the end.
  have hwalk : Confined (fun op : Op => op.isClaim = false)
      (walk c (min ctx (start + tunnelLookupTimeout)) host active) := by
    apply (walk_inWalk c _ host active).imp
    intro op hop
    cases op <;> simp_all [Op.inWalk, Op.isClaim]
  apply (claims_of_confined hwalk _).bind
  intro history₂ walked hwalked
  have hanswer : Confined (fun op : Op => op.isClaim = false) (orFallback c host walked) := by
    apply (orFallback_inFallback c host walked).imp
    intro op hop
    cases op <;> simp_all [Op.inFallback, Op.isClaim]
  apply (claims_of_confined hanswer _).bind
  intro history₃ answer hanswered
  have hheld : held history₃ = held history₁ := by
    rw [hanswered, hwalked, held_snoc_of_not_isClaim rfl]
  refine Always.perform ?_ fun _ => ?_
  · intro u
    have hu := hactive u
    simp only [hnone u, false_or] at hu
    rw [← hu, HeldIn, HeldIn, hheld]
  · show held _ = []
    rw [held_snoc]
    rfl

/-- No call holds a claim when it starts, between its lookups or when it ends. -/
theorem program_claims (o : Opener) (call : Call) :
    Always ClaimStep (fun history _ => held history = []) [] (call.program o) := by
  refine (program_callsLookup o call).always (fun history => held history = []) ?_ ?_ rfl
  · intro asked history hidle
    exact lookup_claims o.rules.dns asked.1 asked.2 hidle
  · intro op history hop hidle
    have hclaim : op.isClaim = false := by
      cases op <;> simp_all [Op.inTunnelLookup, Op.isClaim]
    exact ⟨.of_not_isClaim hclaim history, fun reply => by
      rw [held_snoc_of_not_isClaim hclaim, hidle]⟩

end SshGate
