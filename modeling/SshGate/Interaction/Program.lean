import Mathlib.Data.List.Basic

/-! # Programs over a signature of atomic actions

A program is a finite tree of atomic actions; the reply to an action selects
the branch that runs next. Nothing is assumed about replies here: a property
of all paths of a program holds whatever the other parties do. A trace is the
list of actions performed so far with the replies they got.
-/

namespace Interaction

/-- Atomic actions, each with the type of reply it gets. -/
structure Signature where
  Op : Type
  Reply : Op → Type

/-- One performed action with its reply. -/
structure Event (S : Signature) where
  op : S.Op
  reply : S.Reply op

/-- A finite program over a signature. -/
inductive Program (S : Signature) (α : Type) : Type where
  | ret (value : α)
  | act (op : S.Op) (next : S.Reply op → Program S α)

namespace Program

variable {S : Signature} {α β γ : Type}

/-- Sequential composition. -/
def bind : Program S α → (α → Program S β) → Program S β
  | .ret value, f => f value
  | .act op next, f => .act op fun reply => (next reply).bind f

instance : Monad (Program S) where
  pure := .ret
  bind := bind

/-- Perform one action and return its reply. -/
def perform (op : S.Op) : Program S (S.Reply op) := .act op .ret

@[simp] theorem pure_eq_ret (value : α) : (pure value : Program S α) = .ret value := rfl

@[simp] theorem ret_bind (value : α) (f : α → Program S β) :
    (Program.ret value >>= f) = f value := rfl

@[simp] theorem act_bind (op : S.Op) (next : S.Reply op → Program S α)
    (f : α → Program S β) :
    (Program.act op next >>= f) = .act op fun reply => next reply >>= f := rfl

instance [DecidableEq α] (p : Program S α) (value : α) : Decidable (p = .ret value) :=
  match p with
  | .ret other => decidable_of_iff (other = value) (by simp)
  | .act _ _ => isFalse nofun

/-! ## Paths -/

/-- `Reaches p trace q`: after the events of `trace` the program `p` continues
as `q`. -/
inductive Reaches : Program S α → List (Event S) → Program S α → Prop
  | refl (p : Program S α) : Reaches p [] p
  | act {op : S.Op} {next : S.Reply op → Program S α} {reply : S.Reply op}
      {trace : List (Event S)} {q : Program S α} :
      Reaches (next reply) trace q → Reaches (.act op next) (⟨op, reply⟩ :: trace) q

/-- `Returns p trace value`: `trace` is a complete path of `p` that ends with
`value`. -/
def Returns (p : Program S α) (trace : List (Event S)) (value : α) : Prop :=
  Reaches p trace (.ret value)

theorem Reaches.append {p q r : Program S α} {first second : List (Event S)}
    (hfirst : Reaches p first q) (hsecond : Reaches q second r) :
    Reaches p (first ++ second) r := by
  induction hfirst with
  | refl p => exact hsecond
  | act _ ih => exact .act (ih hsecond)

theorem Reaches.snoc {p : Program S α} {trace : List (Event S)} {op : S.Op}
    {next : S.Reply op → Program S α} (hpath : Reaches p trace (.act op next))
    (reply : S.Reply op) : Reaches p (trace ++ [⟨op, reply⟩]) (next reply) :=
  hpath.append (.act (.refl _))

/-- A path through an event stops right before it, at the action it answers. -/
theorem Reaches.split {p q : Program S α} {before after : List (Event S)} {event : Event S}
    (hpath : Reaches p (before ++ event :: after) q) :
    ∃ next, Reaches p before (.act event.op next) ∧ Reaches (next event.reply) after q := by
  induction before generalizing p with
  | nil =>
      cases hpath with
      | act hrest => exact ⟨_, .refl _, hrest⟩
  | cons head before ih =>
      cases hpath with
      | act hrest =>
          obtain ⟨next, hbefore, hafter⟩ := ih hrest
          exact ⟨next, .act hbefore, hafter⟩

/-- A list that has elements of a kind can be split at the last one. -/
theorem exists_last {ε : Type} {p : ε → Prop} {l : List ε} (hl : ∃ x ∈ l, p x) :
    ∃ before x after, l = before ++ x :: after ∧ p x ∧ ∀ y ∈ after, ¬ p y := by
  induction l with
  | nil => simp at hl
  | cons head rest ih =>
      by_cases hrest : ∃ x ∈ rest, p x
      · obtain ⟨before, x, after, rfl, hx, hafter⟩ := ih hrest
        exact ⟨head :: before, x, after, rfl, hx, hafter⟩
      · obtain ⟨x, hmem, hx⟩ := hl
        rcases List.mem_cons.mp hmem with rfl | hmem
        · exact ⟨[], x, rest, rfl, hx, fun y hy hpy => hrest ⟨y, hy, hpy⟩⟩
        · exact absurd ⟨x, hmem, hx⟩ hrest

/-- An element of two lists in a row is in the second one or in the first. -/
theorem append_eq_append_cons {ε : Type} {first second before after : List ε} {event : ε}
    (htrace : first ++ second = before ++ event :: after) :
    (∃ more, before = first ++ more ∧ second = more ++ event :: after) ∨
      ∃ more, first = before ++ event :: more ∧ after = more ++ second := by
  rcases List.append_eq_append_iff.mp htrace with ⟨more, hbefore, hsecond⟩ |
    ⟨more, hfirst, hafter⟩
  · exact .inl ⟨more, hbefore, hsecond⟩
  · cases more with
    | nil => exact .inl ⟨[], by simpa using hfirst.symm, by simpa using hafter.symm⟩
    | cons head rest =>
        simp only [List.cons_append, List.cons.injEq] at hafter
        obtain ⟨rfl, hafter⟩ := hafter
        exact .inr ⟨rest, hfirst, hafter⟩

@[simp] theorem returns_ret {value result : α} {trace : List (Event S)} :
    Returns (.ret value) trace result ↔ trace = [] ∧ value = result := by
  constructor
  · intro hpath
    cases hpath
    exact ⟨rfl, rfl⟩
  · rintro ⟨rfl, rfl⟩
    exact .refl _

theorem returns_act {op : S.Op} {next : S.Reply op → Program S α}
    {trace : List (Event S)} {result : α} :
    Returns (.act op next) trace result ↔
      ∃ reply rest, trace = ⟨op, reply⟩ :: rest ∧ Returns (next reply) rest result := by
  constructor
  · intro hpath
    cases hpath with
    | act hrest => exact ⟨_, _, rfl, hrest⟩
  · rintro ⟨reply, rest, rfl, hrest⟩
    exact .act hrest

/-- A path of a composition is inside the first part, or past it. -/
theorem reaches_bind {p : Program S α} {f : α → Program S β} {trace : List (Event S)}
    {q : Program S β} (hpath : Reaches (p >>= f) trace q) :
    (∃ p', Reaches p trace p' ∧ q = (p' >>= f)) ∨
      ∃ first value second, trace = first ++ second ∧ Returns p first value ∧
        Reaches (f value) second q := by
  induction p generalizing trace with
  | ret value => exact .inr ⟨[], value, trace, rfl, .refl _, hpath⟩
  | act op next ih =>
      cases hpath with
      | refl => exact .inl ⟨.act op next, .refl _, rfl⟩
      | act hrest =>
          rcases ih _ hrest with ⟨p', hp', rfl⟩ | ⟨first, value, second, rfl, hfirst, hsecond⟩
          · exact .inl ⟨p', .act hp', rfl⟩
          · exact .inr ⟨_ :: first, value, second, rfl, .act hfirst, hsecond⟩

theorem Reaches.bind_left {p q : Program S α} {trace : List (Event S)} (hpath : Reaches p trace q)
    (f : α → Program S β) : Reaches (p >>= f) trace (q >>= f) := by
  induction hpath with
  | refl p => exact .refl _
  | act _ ih => exact .act ih

/-- Complete paths of a composition are complete paths of its parts. -/
theorem returns_bind {p : Program S α} {f : α → Program S β} {trace : List (Event S)}
    {result : β} :
    Returns (p >>= f) trace result ↔
      ∃ first value second, trace = first ++ second ∧ Returns p first value ∧
        Returns (f value) second result := by
  constructor
  · intro hpath
    rcases reaches_bind hpath with ⟨p', hp', heq⟩ | hparts
    · cases p' with
      | ret value =>
          rw [ret_bind] at heq
          exact ⟨trace, value, [], by simp, hp', by rw [← heq]; exact .refl _⟩
      | act op next => simp at heq
    · exact hparts
  · rintro ⟨first, value, second, rfl, hfirst, hsecond⟩
    exact (hfirst.bind_left f).append hsecond

/-- What is left of a path after a pure last step. -/
theorem reaches_map {p : Program S α} {g : α → β} {trace : List (Event S)} {r : Program S β}
    (hpath : Reaches (p >>= fun value => .ret (g value)) trace r) :
    ∃ q, Reaches p trace q ∧ ∀ result, r = .ret result → ∃ value, q = .ret value ∧
      g value = result := by
  rcases reaches_bind hpath with ⟨q, hq, rfl⟩ | ⟨first, value, second, rfl, hfirst, hsecond⟩
  · refine ⟨q, hq, fun result hresult => ?_⟩
    cases q with
    | ret value => exact ⟨value, rfl, by simpa using hresult⟩
    | act op next => simp at hresult
  · cases hsecond
    rw [List.append_nil]
    refine ⟨.ret value, hfirst, fun result hresult => ⟨value, rfl, ?_⟩⟩
    simpa using hresult

/-- A complete path of the first part leads to the start of the second. -/
theorem Reaches.after_returns {p : Program S α} {f : α → Program S β}
    {first rest : List (Event S)} {value : α} {q : Program S β}
    (hpath : Reaches (p >>= f) (first ++ rest) q) (hfirst : Returns p first value) :
    Reaches (f value) rest q := by
  induction p generalizing first with
  | ret result =>
      obtain ⟨rfl, rfl⟩ := returns_ret.mp hfirst
      exact hpath
  | act op next ih =>
      obtain ⟨reply, tail, rfl, htail⟩ := returns_act.mp hfirst
      cases hpath with
      | act hrest => exact ih reply hrest htail

/-- The replies determine a path: of two complete paths none is longer. -/
theorem Returns.unique {p : Program S α} {first second rest rest' : List (Event S)}
    {value value' : α} (hfirst : Returns p first value) (hsecond : Returns p second value')
    (htrace : first ++ rest = second ++ rest') : first = second ∧ value = value' := by
  induction p generalizing first second with
  | ret result =>
      obtain ⟨rfl, rfl⟩ := returns_ret.mp hfirst
      obtain ⟨rfl, rfl⟩ := returns_ret.mp hsecond
      exact ⟨rfl, rfl⟩
  | act op next ih =>
      obtain ⟨reply, tail, rfl, htail⟩ := returns_act.mp hfirst
      obtain ⟨reply', tail', rfl, htail'⟩ := returns_act.mp hsecond
      simp only [List.cons_append, List.cons.injEq, Event.mk.injEq, heq_eq_eq, true_and] at htrace
      obtain ⟨rfl, htrace⟩ := htrace
      obtain ⟨rfl, hvalue⟩ := ih reply htail htail' htrace
      exact ⟨rfl, hvalue⟩

theorem returns_perform {op : S.Op} {f : S.Reply op → Program S α} {trace : List (Event S)}
    {result : α} :
    Returns (perform op >>= f) trace result ↔
      ∃ reply rest, trace = ⟨op, reply⟩ :: rest ∧ Returns (f reply) rest result :=
  returns_act

/-- Where every action can get a reply, a program can be run to its end. -/
theorem exists_returns (hreply : ∀ op, Nonempty (S.Reply op)) (p : Program S α) :
    ∃ trace value, Returns p trace value := by
  induction p with
  | ret value => exact ⟨[], value, .refl _⟩
  | act op next ih =>
      obtain ⟨reply⟩ := hreply op
      obtain ⟨trace, value, hpath⟩ := ih reply
      exact ⟨⟨op, reply⟩ :: trace, value, .act hpath⟩

/-! ## Guarded programs -/

/-- `Always guard post history p`: on every path of `p` that starts after
`history`, each action satisfies `guard` at the history it is performed in,
and each returned value satisfies `post`. -/
def Always (guard : List (Event S) → S.Op → Prop) (post : List (Event S) → α → Prop) :
    List (Event S) → Program S α → Prop
  | history, .ret value => post history value
  | history, .act op next => guard history op ∧
      ∀ reply, Always guard post (history ++ [⟨op, reply⟩]) (next reply)

variable {guard guard' : List (Event S) → S.Op → Prop}

@[simp] theorem always_ret {post : List (Event S) → α → Prop} {history : List (Event S)}
    {value : α} : Always guard post history (.ret value) ↔ post history value := Iff.rfl

@[simp] theorem always_act {post : List (Event S) → α → Prop} {history : List (Event S)}
    {op : S.Op} {next : S.Reply op → Program S α} :
    Always guard post history (.act op next) ↔ guard history op ∧
      ∀ reply, Always guard post (history ++ [⟨op, reply⟩]) (next reply) := Iff.rfl

theorem Always.perform {post : List (Event S) → α → Prop} {history : List (Event S)}
    {op : S.Op} {f : S.Reply op → Program S α} (hguard : guard history op)
    (hf : ∀ reply, Always guard post (history ++ [⟨op, reply⟩]) (f reply)) :
    Always guard post history (Program.perform op >>= f) :=
  ⟨hguard, hf⟩

/-- Sequencing: the first part's postcondition is what the second starts from. -/
theorem Always.bind {middle : List (Event S) → α → Prop} {post : List (Event S) → β → Prop}
    {history : List (Event S)} {p : Program S α} {f : α → Program S β}
    (hp : Always guard middle history p)
    (hf : ∀ history value, middle history value → Always guard post history (f value)) :
    Always guard post history (p >>= f) := by
  induction p generalizing history with
  | ret value => exact hf history value hp
  | act op next ih => exact ⟨hp.1, fun reply => ih reply (hp.2 reply)⟩

/-- Consequence. The path from the starting history is available to both
implications. -/
theorem Always.imp {post post' : List (Event S) → α → Prop} {history : List (Event S)}
    {p : Program S α} (halways : Always guard post history p)
    (hguard : ∀ trace op next, Reaches p trace (.act op next) →
      guard (history ++ trace) op → guard' (history ++ trace) op)
    (hpost : ∀ trace value, Returns p trace value →
      post (history ++ trace) value → post' (history ++ trace) value) :
    Always guard' post' history p := by
  induction p generalizing history with
  | ret value => simpa using hpost [] value (.refl _) (by simpa using halways)
  | act op next ih =>
      refine ⟨by simpa using hguard [] op next (.refl _) (by simpa using halways.1), ?_⟩
      intro reply
      apply ih reply (halways.2 reply)
      · intro trace op' next' hpath hholds
        have hnext := hguard (⟨op, reply⟩ :: trace) op' next' (.act hpath)
        simp only [List.append_assoc, List.cons_append, List.nil_append] at hholds ⊢
        exact hnext hholds
      · intro trace value hpath hholds
        have hnext := hpost (⟨op, reply⟩ :: trace) value (.act hpath)
        simp only [List.append_assoc, List.cons_append, List.nil_append] at hholds ⊢
        exact hnext hholds

/-- Weaken the postcondition only. -/
theorem Always.post_imp {post post' : List (Event S) → α → Prop} {history : List (Event S)}
    {p : Program S α} (halways : Always guard post history p)
    (hpost : ∀ history value, post history value → post' history value) :
    Always guard post' history p :=
  halways.imp (fun _ _ _ _ => id) (fun _ _ _ => hpost _ _)

/-- Weaken the guard only. -/
theorem Always.guard_imp {post : List (Event S) → α → Prop} {history : List (Event S)}
    {p : Program S α} (halways : Always guard post history p)
    (hguard : ∀ history op, guard history op → guard' history op) :
    Always guard' post history p :=
  halways.imp (fun _ _ _ _ => hguard _ _) (fun _ _ _ => id)

theorem Always.and {post post' : List (Event S) → α → Prop} {history : List (Event S)}
    {p : Program S α} (hfirst : Always guard post history p)
    (hsecond : Always guard' post' history p) :
    Always (fun history op => guard history op ∧ guard' history op)
      (fun history value => post history value ∧ post' history value) history p := by
  induction p generalizing history with
  | ret value => exact ⟨hfirst, hsecond⟩
  | act op next ih =>
      exact ⟨⟨hfirst.1, hsecond.1⟩, fun reply => ih reply (hfirst.2 reply) (hsecond.2 reply)⟩

/-- A returned value comes with the path that led to it. -/
theorem Always.path {post : List (Event S) → α → Prop} {history : List (Event S)}
    {p : Program S α} (halways : Always guard post history p) :
    Always guard (fun history' value => ∃ trace, history' = history ++ trace ∧
      Returns p trace value) history p :=
  halways.imp (fun _ _ _ _ => id) (fun trace _ hpath _ => ⟨trace, rfl, hpath⟩)

/-- A law about paths from the empty history, read after another history. -/
theorem Always.shift {post : List (Event S) → α → Prop} {p : Program S α}
    {history : List (Event S)} (before : List (Event S)) (halways : Always guard post history p) :
    Always (fun history op => ∃ trace, history = before ++ trace ∧ guard trace op)
      (fun history value => ∃ trace, history = before ++ trace ∧ post trace value)
      (before ++ history) p := by
  induction p generalizing history with
  | ret value => exact ⟨history, rfl, halways⟩
  | act op next ih =>
      refine ⟨⟨history, rfl, halways.1⟩, fun reply => ?_⟩
      rw [List.append_assoc]
      exact ih reply (halways.2 reply)

theorem Always.at_reached {post : List (Event S) → α → Prop} {history : List (Event S)}
    {p q : Program S α} {trace : List (Event S)} (halways : Always guard post history p)
    (hpath : Reaches p trace q) : Always guard post (history ++ trace) q := by
  induction hpath generalizing history with
  | refl p => simpa using halways
  | act _ ih =>
      have hrest := ih (halways.2 _)
      simpa only [List.append_assoc, List.cons_append, List.nil_append] using hrest

theorem Always.of_returns {post : List (Event S) → α → Prop} {history : List (Event S)}
    {p : Program S α} {trace : List (Event S)} {value : α}
    (halways : Always guard post history p) (hpath : Returns p trace value) :
    post (history ++ trace) value :=
  halways.at_reached hpath

/-- Every event of a path was guarded when it was performed. -/
theorem Always.of_event {post : List (Event S) → α → Prop} {history : List (Event S)}
    {p q : Program S α} {before after : List (Event S)} {event : Event S}
    (halways : Always guard post history p) (hpath : Reaches p (before ++ event :: after) q) :
    guard (history ++ before) event.op := by
  obtain ⟨next, hbefore, _⟩ := hpath.split
  exact (halways.at_reached hbefore).1

/-! ## Programs that keep to some actions -/

/-- Every action on every path of the program is `allowed`. -/
def Confined (allowed : S.Op → Prop) : Program S α → Prop
  | .ret _ => True
  | .act op next => allowed op ∧ ∀ reply, Confined allowed (next reply)

variable {allowed allowed' : S.Op → Prop}

@[simp] theorem confined_ret {value : α} :
    Confined allowed (.ret value : Program S α) ↔ True := Iff.rfl

@[simp] theorem confined_act {op : S.Op} {next : S.Reply op → Program S α} :
    Confined allowed (.act op next) ↔ allowed op ∧ ∀ reply, Confined allowed (next reply) := Iff.rfl

@[simp] theorem confined_perform {op : S.Op} : Confined allowed (perform op) ↔ allowed op := by
  simp [perform]

theorem Confined.perform {op : S.Op} {f : S.Reply op → Program S α} (hop : allowed op)
    (hf : ∀ reply, Confined allowed (f reply)) : Confined allowed (Program.perform op >>= f) :=
  ⟨hop, hf⟩

theorem Confined.bind {p : Program S α} {f : α → Program S β} (hp : Confined allowed p)
    (hf : ∀ value, Confined allowed (f value)) : Confined allowed (p >>= f) := by
  induction p with
  | ret value => exact hf value
  | act op next ih => exact ⟨hp.1, fun reply => ih reply (hp.2 reply)⟩

theorem Confined.imp {p : Program S α} (hp : Confined allowed p)
    (himp : ∀ op, allowed op → allowed' op) : Confined allowed' p := by
  induction p with
  | ret value => trivial
  | act op next ih => exact ⟨himp op hp.1, fun reply => ih reply (hp.2 reply)⟩

theorem Confined.of_mem {p q : Program S α} {trace : List (Event S)} {event : Event S}
    (hp : Confined allowed p) (hpath : Reaches p trace q) (hmem : event ∈ trace) :
    allowed event.op := by
  induction hpath with
  | refl p => simp at hmem
  | act _ ih =>
      rcases List.mem_cons.mp hmem with rfl | hmem
      · exact hp.1
      · exact ih (hp.2 _) hmem

/-- The action that comes next is an allowed one. -/
theorem Confined.at_reached {p : Program S α} {trace : List (Event S)} {op : S.Op}
    {next : S.Reply op → Program S α} (hp : Confined allowed p)
    (hpath : Reaches p trace (.act op next)) : allowed op := by
  induction trace generalizing p with
  | nil =>
      cases hpath with
      | refl => exact hp.1
  | cons event rest ih =>
      cases hpath with
      | act hpath => exact ih (hp.2 _) hpath

/-- Events that a program does not perform have no keys. -/
theorem Confined.filterMap_eq_nil {K : Type} {key : Event S → Option K} {p q : Program S α}
    {trace : List (Event S)} (hp : Confined allowed p) (hpath : Reaches p trace q)
    (hkey : ∀ event : Event S, allowed event.op → key event = none) :
    trace.filterMap key = [] := by
  rw [List.filterMap_eq_nil_iff]
  intro event hevent
  exact hkey event (hp.of_mem hpath hevent)

theorem Confined.always {p : Program S α} (hp : Confined allowed p) {history : List (Event S)}
    (hguard : ∀ history op, allowed op → guard history op) :
    Always guard (fun _ _ => True) history p := by
  induction p generalizing history with
  | ret value => trivial
  | act op next ih => exact ⟨hguard history op hp.1, fun reply => ih reply (hp.2 reply)⟩

/-- Actions of `first` occur in the program only as its first action. -/
def Opens (first : S.Op → Prop) : Program S α → Prop
  | .ret _ => True
  | .act _ next => ∀ reply, Confined (fun op => ¬ first op) (next reply)

/-! ## Programs built from calls of subprograms -/

theorem bind_assoc (p : Program S α) (f : α → Program S β) (g : β → Program S γ) :
    (p >>= f >>= g) = p >>= fun value => f value >>= g := by
  induction p with
  | ret value => rfl
  | act op next ih => exact congrArg (Program.act op) (funext fun reply => ih reply)

/-- The program performs actions of `kind` only inside calls of the
subprograms `sub`. -/
inductive Calls {ι : Type} (sub : ι → Program S α) (kind : S.Op → Prop) :
    Program S β → Prop
  | ret (value : β) : Calls sub kind (.ret value)
  | act {op : S.Op} {next : S.Reply op → Program S β} (hop : ¬ kind op)
      (hnext : ∀ reply, Calls sub kind (next reply)) : Calls sub kind (.act op next)
  | call (i : ι) {f : α → Program S β} (hf : ∀ value, Calls sub kind (f value)) :
      Calls sub kind (sub i >>= f)

namespace Calls

variable {ι κ : Type} {sub : ι → Program S α} {kind kind' : S.Op → Prop}

theorem perform {op : S.Op} {f : S.Reply op → Program S β} (hop : ¬ kind op)
    (hf : ∀ reply, Calls sub kind (f reply)) : Calls sub kind (Program.perform op >>= f) :=
  .act hop hf

theorem bind {δ : Type} {p : Program S β} {f : β → Program S δ} (hp : Calls sub kind p)
    (hf : ∀ value, Calls sub kind (f value)) : Calls sub kind (p >>= f) := by
  induction hp with
  | ret value => exact hf value
  | act hop _ ih => exact .act hop fun reply => ih reply
  | call i _ ih =>
      rw [bind_assoc]
      exact .call i fun value => ih value

theorem sub_self (i : ι) : Calls sub kind (sub i) := by
  have hcall : Calls sub kind (sub i >>= Program.ret) := .call i .ret
  have hret : ∀ p : Program S α, (p >>= Program.ret) = p := by
    intro p
    induction p with
    | ret value => rfl
    | act op next ih => exact congrArg (Program.act op) (funext fun reply => ih reply)
  rwa [hret] at hcall

/-- Calls of calls: the subprograms may themselves be built from others. -/
theorem trans {sub' : κ → Program S γ} {p : Program S β} (hp : Calls sub kind p)
    (hsub : ∀ i, Calls sub' kind' (sub i)) (hkind : ∀ op, kind' op → kind op) :
    Calls sub' kind' p := by
  induction hp with
  | ret value => exact .ret value
  | act hop _ ih => exact .act (fun h => hop (hkind _ h)) ih
  | call i _ ih => exact (hsub i).bind ih

theorem confined {p : Program S β} (hp : Calls sub kind p)
    (hsub : ∀ i, Confined allowed (sub i)) (hother : ∀ op, ¬ kind op → allowed op) :
    Confined allowed p := by
  induction hp with
  | ret value => trivial
  | act hop _ ih => exact ⟨hother _ hop, ih⟩
  | call i _ ih => exact (hsub i).bind ih

/-- An invariant of histories that the subprograms keep, and that the other
actions keep, holds between calls along every path; inside, each action is
guarded. -/
theorem always {p : Program S β} (hp : Calls sub kind p) (inv : List (Event S) → Prop)
    (hsub : ∀ i history, inv history →
      Always guard (fun history _ => inv history) history (sub i))
    (hother : ∀ op history, ¬ kind op → inv history →
      guard history op ∧ ∀ reply, inv (history ++ [⟨op, reply⟩]))
    {history : List (Event S)} (hinv : inv history) :
    Always guard (fun history _ => inv history) history p := by
  induction hp generalizing history with
  | ret value => exact hinv
  | act hop _ ih =>
      obtain ⟨hguard, hnext⟩ := hother _ history hop hinv
      exact ⟨hguard, fun reply => ih reply (hnext reply)⟩
  | call i _ ih => exact (hsub i history hinv).bind fun _ value hinv' => ih value hinv'

/-- An action that only opens subprograms marks where one of them was called;
what follows is a path of that call and of what comes after it. -/
theorem opened {p q : Program S β} (hp : Calls sub kind p) (first : S.Op → Prop)
    (hfirst : ∀ op, first op → kind op) (hsub : ∀ i, Opens first (sub i))
    {before after : List (Event S)} {event : Event S} (hevent : first event.op)
    (hpath : Reaches p (before ++ event :: after) q) :
    ∃ i, (∃ next, sub i = .act event.op next) ∧
      ∃ f : α → Program S β, Reaches (sub i >>= f) (event :: after) q := by
  induction hp generalizing before with
  | ret value =>
      obtain ⟨next, hbefore, _⟩ := hpath.split
      cases hbefore
  | act hop _ ih =>
      cases before with
      | nil =>
          cases hpath with
          | act hrest => exact absurd (hfirst _ hevent) hop
      | cons head rest =>
          cases hpath with
          | act hrest => exact ih _ hrest
  | @call i f hf ih =>
      cases hcall : sub i with
      | ret value =>
          rw [hcall] at hpath
          exact ih value hpath
      | act op next =>
          cases before with
          | nil =>
              have hop : event.op = op := by
                rw [hcall] at hpath
                cases hpath with
                | act hrest => rfl
              subst hop
              exact ⟨i, ⟨next, hcall⟩, f, hpath⟩
          | cons head rest =>
              have hconfined := hsub i
              rw [hcall] at hpath hconfined
              cases hpath with
              | @act _ _ reply _ _ hrest =>
                  rcases reaches_bind hrest with ⟨p', hp', _⟩ |
                    ⟨inside, value, outside, hsplit, hinside, houtside⟩
                  · exact absurd hevent ((hconfined reply).of_mem hp' (by simp))
                  · rcases append_eq_append_cons hsplit.symm with ⟨more, _, houter⟩ |
                      ⟨more, hinner, _⟩
                    · rw [houter] at houtside
                      exact ih value houtside
                    · exact absurd hevent ((hconfined reply).of_mem hinside (by simp [hinner]))

end Calls

end Program

end Interaction
