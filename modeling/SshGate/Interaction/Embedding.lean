import SshGate.Interaction.Tally

/-! # Programs over a part of a larger signature

A component with actions of its own also runs programs of another component.
Their actions are among its actions, and what holds along their paths holds
along the events that belong to them.
-/

namespace Interaction

/-- The actions of `S` among those of `T`, and the events that belong to them. -/
structure Embedding (S T : Signature) where
  op : S.Op → T.Op
  reply : (o : S.Op) → T.Reply (op o) → S.Reply o
  project : Event T → Option (Event S)
  project_op : ∀ o r, project ⟨op o, r⟩ = some ⟨o, reply o r⟩

namespace Program

variable {S T : Signature} {α K : Type}

def embed (e : Embedding S T) : Program S α → Program T α
  | .ret value => .ret value
  | .act o next => .act (e.op o) fun r => embed e (next (e.reply o r))

/-- A law of a program, read off the events that belong to it. -/
theorem Always.embed (e : Embedding S T) {guard : List (Event S) → S.Op → Prop}
    {guard' : List (Event T) → T.Op → Prop} {post : List (Event S) → α → Prop}
    (hguard : ∀ history o, guard (history.filterMap e.project) o → guard' history (e.op o))
    {p : Program S α} {history : List (Event T)}
    (halways : Always guard post (history.filterMap e.project) p) :
    Always guard' (fun history value => post (history.filterMap e.project) value) history
      (p.embed e) := by
  induction p generalizing history with
  | ret value => exact halways
  | act o next ih =>
      refine ⟨hguard history o halways.1, fun r => ih _ ?_⟩
      rw [List.filterMap_append, List.filterMap_cons_some (e.project_op o r), List.filterMap_nil]
      exact halways.2 _

theorem Confined.embed (e : Embedding S T) {allowed : S.Op → Prop} {allowed' : T.Op → Prop}
    (hallowed : ∀ o, allowed o → allowed' (e.op o)) {p : Program S α} (hp : Confined allowed p) :
    Confined allowed' (p.embed e) := by
  induction p with
  | ret value => trivial
  | act o next ih => exact ⟨hallowed o hp.1, fun r => ih _ (hp.2 _)⟩

/-- What an action comes after, it comes after in the larger component too. -/
theorem Covered.embed [DecidableEq K] (e : Embedding S T) {before key : Event S → Option K}
    {history : List (Event T)} {o : S.Op}
    (hcovered : Covered before key (history.filterMap e.project) o) :
    Covered (fun event => (e.project event).bind before) (fun event => (e.project event).bind key)
      history (e.op o) := by
  intro r k hkey
  simp only [e.project_op, Option.bind_some] at hkey
  have hlt := hcovered _ k hkey
  simpa only [List.filterMap_filterMap] using hlt

end Program

end Interaction
