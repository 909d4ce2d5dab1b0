import Mathlib.Algebra.Group.Basic
import Mathlib.Logic.Relation
import SshGate.Interaction.Program

/-! # A process that can be cut off

A process runs one program over a state. It can be cut off between any two
actions and started again; part of the state survives that. Meanwhile the
world around it disturbs the state. What a run does to the part of the state
that only the process changes follows from what the program guarantees for
each of its actions.
-/

namespace Interaction

namespace Program

variable {S : Signature} {V α β : Type}

/-- From the given state on, each action of the program changes it as
`guarantee` says, and each result satisfies `post`. `effect` gives no state
for a reply that is impossible. -/
def Keeps (effect : (op : S.Op) → V → S.Reply op → Option V) (guarantee : V → V → Prop)
    (post : V → α → Prop) : Program S α → V → Prop
  | .ret value, v => post v value
  | .act op next, v => ∀ reply v', effect op v reply = some v' →
      guarantee v v' ∧ Keeps effect guarantee post (next reply) v'

variable {effect : (op : S.Op) → V → S.Reply op → Option V} {guarantee : V → V → Prop}

theorem Keeps.perform {post : V → α → Prop} {op : S.Op} {f : S.Reply op → Program S α} {v : V}
    (hf : ∀ reply v', effect op v reply = some v' →
      guarantee v v' ∧ Keeps effect guarantee post (f reply) v') :
    Keeps effect guarantee post (perform op >>= f) v :=
  hf

/-- The rule of composition. -/
theorem Keeps.bind {middle : V → α → Prop} {post : V → β → Prop} {p : Program S α}
    {f : α → Program S β} {v : V} (hp : Keeps effect guarantee middle p v)
    (hf : ∀ v' value, middle v' value → Keeps effect guarantee post (f value) v') :
    Keeps effect guarantee post (p >>= f) v := by
  induction p generalizing v with
  | ret value => exact hf v value hp
  | act op next ih =>
      intro reply v' hv'
      obtain ⟨hguarantee, hnext⟩ := hp reply v' hv'
      exact ⟨hguarantee, ih reply hnext⟩

/-- The rule of consequence. -/
theorem Keeps.imp {post post' : V → α → Prop} {p : Program S α} {v : V}
    (hp : Keeps effect guarantee post p v) (hpost : ∀ v' value, post v' value → post' v' value) :
    Keeps effect guarantee post' p v := by
  induction p generalizing v with
  | ret value => exact hpost v value hp
  | act op next ih =>
      intro reply v' hv'
      obtain ⟨hguarantee, hnext⟩ := hp reply v' hv'
      exact ⟨hguarantee, ih reply hnext⟩

/-- A guarantee may be weakened under an invariant that it keeps. -/
theorem Keeps.guarantee_imp {guarantee' : V → V → Prop} {post : V → α → Prop} (inv : V → Prop)
    (himp : ∀ v v', inv v → guarantee v v' → inv v' ∧ guarantee' v v') {p : Program S α} {v : V}
    (hinv : inv v) (hp : Keeps effect guarantee post p v) :
    Keeps effect guarantee' post p v := by
  induction p generalizing v with
  | ret value => exact hp
  | act op next ih =>
      intro reply v' hv'
      obtain ⟨hguarantee, hnext⟩ := hp reply v' hv'
      obtain ⟨hinv', hguarantee'⟩ := himp v v' hinv hguarantee
      exact ⟨hguarantee', ih reply hinv' hnext⟩

/-- What a program keeps of a part of the state, it keeps of the whole. -/
theorem Keeps.of_view {W : Type} (view : W → V)
    {effect' : (op : S.Op) → W → S.Reply op → Option W}
    (hview : ∀ op w reply w', effect' op w reply = some w' →
      effect op (view w) reply = some (view w')) {post : V → α → Prop} {p : Program S α} {w : W}
    (hp : Keeps effect guarantee post p (view w)) :
    Keeps effect' (fun w w' => guarantee (view w) (view w')) (fun w value => post (view w) value)
      p w := by
  induction p generalizing w with
  | ret value => exact hp
  | act op next ih =>
      intro reply w' hw'
      obtain ⟨hguarantee, hnext⟩ := hp reply (view w') (hview op w reply w' hw')
      exact ⟨hguarantee, ih reply hnext⟩

/-- A program of actions that change nothing that `same` speaks of. -/
theorem Confined.keeps {quiet : S.Op → Prop} {same : V → V → Prop}
    (hrefl : ∀ v, same v v) (htrans : ∀ v v' v'', same v v' → same v' v'' → same v v'')
    (hquiet : ∀ op v reply v', quiet op → effect op v reply = some v' →
      same v v' ∧ guarantee v v') {p : Program S α} (hp : Confined quiet p) (v : V) :
    Keeps effect guarantee (fun v' _ => same v v') p v := by
  induction p generalizing v with
  | ret value => exact hrefl v
  | act op next ih =>
      intro reply v' hv'
      obtain ⟨hsame, hguarantee⟩ := hquiet op v reply v' hp.1 hv'
      refine ⟨hguarantee, (ih reply (hp.2 reply) v').imp fun v'' _ hv'' => ?_⟩
      exact htrans v v' v'' hsame hv''

/-- The events take effect one after the other, from one state to the other;
before each of them and at the end others may act. -/
def Passes (effect : (op : S.Op) → V → S.Reply op → Option V) (others : V → V → Prop) :
    V → List (Event S) → V → Prop
  | v, [], v' => others v v'
  | v, event :: rest, v' => ∃ before after, others v before ∧
      effect event.op before event.reply = some after ∧ Passes effect others after rest v'

section Passes

variable {others : V → V → Prop}

theorem Passes.split (hrefl : ∀ v, others v v) {first second : List (Event S)} {v v' : V}
    (h : Passes effect others v (first ++ second) v') :
    ∃ middle, Passes effect others v first middle ∧ Passes effect others middle second v' := by
  induction first generalizing v with
  | nil => exact ⟨v, hrefl v, h⟩
  | cons event rest ih =>
      obtain ⟨before, after, hothers, heffect, hrest⟩ := h
      obtain ⟨middle, hfirst, hsecond⟩ := ih hrest
      exact ⟨middle, ⟨before, after, hothers, heffect, hfirst⟩, hsecond⟩

/-- A counter that only the marked events change has grown by what they add. -/
theorem Passes.count {K M : Type} [AddMonoid M] (counter : V → M) (mark : Event S → Option K)
    (adds : K → M) (hothers : ∀ v v', others v v' → counter v' = counter v)
    (heffect : ∀ (event : Event S) v v', effect event.op v event.reply = some v' →
      counter v' = counter v + (mark event).elim 0 adds)
    {trace : List (Event S)} {v v' : V} (h : Passes effect others v trace v') :
    counter v' = counter v + ((trace.filterMap mark).map adds).sum := by
  induction trace generalizing v with
  | nil => simpa using hothers v v' h
  | cons event rest ih =>
      obtain ⟨before, after, hbefore, hafter, hrest⟩ := h
      rw [ih hrest, heffect event before after hafter, hothers v before hbefore, add_assoc]
      cases hmark : mark event with
      | none => rw [Option.elim_none, zero_add, List.filterMap_cons_none hmark]
      | some kind =>
          rw [Option.elim_some, List.filterMap_cons_some hmark, List.map_cons, List.sum_cons]

/-- What holds of every state that an event finds. -/
theorem Passes.of_mem {X : Type} (view : V → X)
    (hothers : ∀ v v', others v v' → view v' = view v)
    (heffect : ∀ (event : Event S) v v', effect event.op v event.reply = some v' →
      view v' = view v)
    {trace : List (Event S)} {v v' : V} (h : Passes effect others v trace v') {event : Event S}
    (hmem : event ∈ trace) :
    ∃ before after, view before = view v ∧ effect event.op before event.reply = some after := by
  induction trace generalizing v with
  | nil => cases hmem
  | cons head rest ih =>
      obtain ⟨before, after, hbefore, hafter, hrest⟩ := h
      have hview : view before = view v := hothers v before hbefore
      rcases List.mem_cons.mp hmem with rfl | hmem
      · exact ⟨before, after, hview, hafter⟩
      · obtain ⟨before', after', hview', hafter'⟩ := ih hrest hmem
        refine ⟨before', after', ?_, hafter'⟩
        rw [hview', heffect head before after hafter, hview]

/-- Others may also act before the first event. -/
theorem Passes.of_others {trace : List (Event S)} {v v' v'' : V}
    (h : Passes effect others v' trace v'')
    (hothers : ∀ w, others v' w → others v w) : Passes effect others v trace v'' := by
  cases trace with
  | nil => exact hothers v'' h
  | cons event rest =>
      obtain ⟨before, after, hbefore, hafter, hrest⟩ := h
      exact ⟨before, after, hothers before hbefore, hafter, hrest⟩

/-- What passes through a state passes through a part of it. -/
theorem Passes.map {W : Type} (view : W → V)
    {effect' : (op : S.Op) → W → S.Reply op → Option W} {others' : W → W → Prop}
    (heffect : ∀ op w reply w', effect' op w reply = some w' →
      effect op (view w) reply = some (view w'))
    (hothers : ∀ w w', others' w w' → others (view w) (view w')) {trace : List (Event S)}
    {w w' : W} (h : Passes effect' others' w trace w') :
    Passes effect others (view w) trace (view w') := by
  induction trace generalizing w with
  | nil => exact hothers w w' h
  | cons event rest ih =>
      obtain ⟨before, after, hbefore, hafter, hrest⟩ := h
      exact ⟨view before, view after, hothers w before hbefore,
        heffect event.op before event.reply after hafter, ih hrest⟩

end Passes

/-- From the history and the state on, whatever others do meanwhile, `guard`
holds whenever an action is about to be performed and `post` of each result. -/
def AlwaysIn (effect : (op : S.Op) → V → S.Reply op → Option V) (others : V → V → Prop)
    (guard : List (Event S) → V → S.Op → Prop) (post : List (Event S) → V → α → Prop) :
    List (Event S) → V → Program S α → Prop
  | history, v, .ret value => post history v value
  | history, v, .act op next => ∀ before, others v before → guard history before op ∧
      ∀ reply after, effect op before reply = some after →
        AlwaysIn effect others guard post (history ++ [⟨op, reply⟩]) after (next reply)

section AlwaysIn

variable {others : V → V → Prop} {guard : List (Event S) → V → S.Op → Prop}
  {history : List (Event S)} {v : V}

theorem AlwaysIn.perform {post : List (Event S) → V → α → Prop} {op : S.Op}
    {f : S.Reply op → Program S α}
    (hf : ∀ before, others v before → guard history before op ∧
      ∀ reply after, effect op before reply = some after →
        AlwaysIn effect others guard post (history ++ [⟨op, reply⟩]) after (f reply)) :
    AlwaysIn effect others guard post history v (Program.perform op >>= f) :=
  hf

/-- The rule of composition. -/
theorem AlwaysIn.bind {middle : List (Event S) → V → α → Prop}
    {post : List (Event S) → V → β → Prop} {p : Program S α} {f : α → Program S β}
    (hp : AlwaysIn effect others guard middle history v p)
    (hf : ∀ history' v' value, middle history' v' value →
      AlwaysIn effect others guard post history' v' (f value)) :
    AlwaysIn effect others guard post history v (p >>= f) := by
  induction p generalizing history v with
  | ret value => exact hf history v value hp
  | act op next ih =>
      intro before hbefore
      obtain ⟨hguard, hnext⟩ := hp before hbefore
      exact ⟨hguard, fun reply after hafter => ih reply (hnext reply after hafter)⟩

/-- The rule of consequence. -/
theorem AlwaysIn.imp {post post' : List (Event S) → V → α → Prop} {p : Program S α}
    (hp : AlwaysIn effect others guard post history v p)
    (hpost : ∀ history' v' value, post history' v' value → post' history' v' value) :
    AlwaysIn effect others guard post' history v p := by
  induction p generalizing history v with
  | ret value => exact hpost history v value hp
  | act op next ih =>
      intro before hbefore
      obtain ⟨hguard, hnext⟩ := hp before hbefore
      exact ⟨hguard, fun reply after hafter => ih reply (hnext reply after hafter)⟩

/-- A program of actions that change nothing that `same` speaks of: its paths
tell what holds. -/
theorem Confined.alwaysIn {quiet : S.Op → Prop} {same : V → V → Prop}
    {post : List (Event S) → V → α → Prop} (hrefl : ∀ v, same v v)
    (htrans : ∀ v v' v'', same v v' → same v' v'' → same v v'')
    (hothers : ∀ v v', others v v' → same v v')
    (hquiet : ∀ op v reply v', quiet op → effect op v reply = some v' → same v v')
    {p : Program S α} (hp : Confined quiet p)
    (hguard : ∀ trace op next v', Reaches p trace (.act op next) → same v v' →
      guard (history ++ trace) v' op)
    (hpost : ∀ trace value v', Returns p trace value → same v v' →
      post (history ++ trace) v' value) :
    AlwaysIn effect others guard post history v p := by
  induction p generalizing history v with
  | ret value =>
      have hend := hpost [] value v (.refl _) (hrefl v)
      rwa [List.append_nil] at hend
  | act op next ih =>
      intro before hbefore
      have hsame := hothers v before hbefore
      refine ⟨by simpa using hguard [] op next before (.refl _) hsame, fun reply after hafter => ?_⟩
      have hstep := htrans v before after hsame (hquiet op before reply after hp.1 hafter)
      refine ih reply (hp.2 reply) (fun trace op' next' v' hpath hv' => ?_)
        (fun trace value v' hpath hv' => ?_)
      · rw [List.append_assoc]
        exact hguard _ op' next' v' (.act hpath) (htrans v after v' hstep hv')
      · rw [List.append_assoc]
        exact hpost _ value v' (.act hpath) (htrans v after v' hstep hv')

/-- A program of actions that keep an invariant, as others do. -/
theorem Confined.alwaysIn_inv {quiet : S.Op → Prop} {post : List (Event S) → V → α → Prop}
    {inv : V → Prop} {p : Program S α} (hp : Confined quiet p) (hinv : inv v)
    (hothers : ∀ v v', inv v → others v v' → inv v')
    (hquiet : ∀ op v reply v', quiet op → inv v → effect op v reply = some v' → inv v')
    (hguard : ∀ trace op next v', Reaches p trace (.act op next) → quiet op → inv v' →
      guard (history ++ trace) v' op)
    (hpost : ∀ trace value v', Returns p trace value → inv v' →
      post (history ++ trace) v' value) :
    AlwaysIn effect others guard post history v p := by
  refine @Confined.alwaysIn _ _ _ _ _ _ _ _ quiet (fun v v' => inv v → inv v') _ (fun _ => id)
    (fun _ _ _ hfirst hsecond h => hsecond (hfirst h)) (fun v v' h hv => hothers v v' hv h)
    (fun op v reply v' hop heffect hv => hquiet op v reply v' hop hv heffect) p hp ?_ ?_
  · exact fun trace op next v' hpath hv' =>
      hguard trace op next v' hpath (hp.at_reached hpath) (hv' hinv)
  · exact fun trace value v' hpath hv' => hpost trace value v' hpath (hv' hinv)

/-- What holds whenever an action is about to be performed holds at the end of
every path that passes through the state. -/
theorem AlwaysIn.at_reached {post : List (Event S) → V → α → Prop} {p : Program S α}
    (hp : AlwaysIn effect others guard post history v p) {trace : List (Event S)} {op : S.Op}
    {next : S.Reply op → Program S α} (hpath : Reaches p trace (.act op next)) {v' : V}
    (hpasses : Passes effect others v trace v') : guard (history ++ trace) v' op := by
  induction trace generalizing history v p with
  | nil =>
      cases hpath with
      | refl => simpa using (hp v' hpasses).1
  | cons event rest ih =>
      cases hpath with
      | act hpath =>
          obtain ⟨before, after, hbefore, hafter, hrest⟩ := hpasses
          rw [List.append_cons]
          exact ih ((hp before hbefore).2 _ after hafter) hpath hrest

end AlwaysIn

end Program

/-- A process: the program it runs when it is started, its actions on the
state, and what is left of the state when it is started again. -/
structure Process where
  sig : Signature
  [decEq : DecidableEq sig.Op]
  Entry : Type
  Result : Type
  main : Entry → Program sig Result
  State : Type
  Disturbance : Type
  perform : (op : sig.Op) → State → sig.Reply op → Option State
  disturb : State → Disturbance → Option State
  restart : State → State

attribute [instance] Process.decEq

namespace Process

/-- A moment of a process: the state and what remains to run. -/
structure Moment (P : Process) where
  state : P.State
  rest : Program P.sig P.Result

/-- One step: the process is started, after cutting off the one that ran; it
performs its next action; or the state is disturbed. -/
inductive Step (P : Process) where
  | start (entry : P.Entry)
  | run (event : Event P.sig)
  | disturb (disturbance : P.Disturbance)

variable {P : Process}

def advance (P : Process) (m : Moment P) (event : Event P.sig) : Option (Moment P) :=
  match m.rest with
  | .ret _ => none
  | .act op next =>
      if h : event.op = op then
        let reply : P.sig.Reply op := h ▸ event.reply
        (P.perform op m.state reply).map fun state => ⟨state, next reply⟩
      else none

def step (P : Process) (m : Moment P) : Step P → Option (Moment P)
  | .start entry => some ⟨P.restart m.state, P.main entry⟩
  | .run event => P.advance m event
  | .disturb disturbance => (P.disturb m.state disturbance).map fun state => ⟨state, m.rest⟩

/-- Execute a list of steps; `none` means that one of them is not possible. -/
def run (P : Process) : Moment P → List (Step P) → Option (Moment P)
  | m, [] => some m
  | m, action :: rest => (P.step m action).bind fun m' => P.run m' rest

theorem advance_eq_some {m m' : Moment P} {event : Event P.sig} :
    P.advance m event = some m' ↔ ∃ next state, m.rest = .act event.op next ∧
      P.perform event.op m.state event.reply = some state ∧
      m' = ⟨state, next event.reply⟩ := by
  unfold advance
  constructor
  · intro hadvance
    split at hadvance
    next => cases hadvance
    next op next hrest =>
      split at hadvance
      next heq =>
        subst heq
        obtain ⟨state, hperform, rfl⟩ := Option.map_eq_some_iff.mp hadvance
        exact ⟨next, state, hrest, hperform, rfl⟩
      next => cases hadvance
  · rintro ⟨next, state, hrest, hperform, rfl⟩
    simp [hrest, hperform]

/-- The events of the process among the steps. -/
def events : List (Step P) → List (Event P.sig)
  | [] => []
  | .run event :: rest => event :: events rest
  | .start _ :: rest | .disturb _ :: rest => events rest

/-- The state changes by some of the allowed disturbances. -/
def Disturbed (allowed : P.Disturbance → Prop) : P.State → P.State → Prop :=
  Relation.ReflTransGen fun state state' =>
    ∃ disturbance, allowed disturbance ∧ P.disturb state disturbance = some state'

/-- Without a new start, a run follows the program and passes through the
state. -/
theorem run_passes {allowed : P.Disturbance → Prop} {m m' : Moment P} {steps : List (Step P)}
    (hsteps : ∀ action ∈ steps, (∃ event, action = .run event) ∨
      ∃ disturbance, allowed disturbance ∧ action = .disturb disturbance)
    (hrun : P.run m steps = some m') :
    m.rest.Reaches (events steps) m'.rest ∧
      Program.Passes P.perform (Disturbed allowed) m.state (events steps) m'.state := by
  induction steps generalizing m with
  | nil =>
      simp only [run, Option.some.injEq] at hrun
      subst hrun
      exact ⟨.refl _, .refl⟩
  | cons action rest ih =>
      simp only [run, Option.bind_eq_some_iff] at hrun
      obtain ⟨middle, hmiddle, hrun⟩ := hrun
      obtain ⟨haction, hrest⟩ := List.forall_mem_cons.mp hsteps
      obtain ⟨hpath, hpasses⟩ := ih hrest hrun
      rcases haction with ⟨event, rfl⟩ | ⟨disturbance, hallowed, rfl⟩
      · obtain ⟨next, state, hnext, hperform, rfl⟩ := advance_eq_some.mp hmiddle
        rw [hnext]
        exact ⟨.act hpath, m.state, state, .refl, hperform, hpasses⟩
      · obtain ⟨state, hdisturb, rfl⟩ := Option.map_eq_some_iff.mp hmiddle
        refine ⟨hpath, hpasses.of_others fun state' hstate' => ?_⟩
        exact .head ⟨disturbance, hallowed, hdisturb⟩ hstate'

section Guarantee

variable {V : Type} {view : P.State → V} {effect : (op : P.sig.Op) → V → P.sig.Reply op → Option V}
  {guarantee : V → V → Prop} {post : V → P.Result → Prop}

/-- The process changes its view as its actions say, and nobody else does. -/
structure Owns (view : P.State → V)
    (effect : (op : P.sig.Op) → V → P.sig.Reply op → Option V) : Prop where
  perform : ∀ op state reply state', P.perform op state reply = some state' →
    effect op (view state) reply = some (view state')
  disturb : ∀ state disturbance state', P.disturb state disturbance = some state' →
    view state' = view state
  restart : ∀ state, view (P.restart state) = view state

/-- The rest of the process keeps its guarantee and leads to what it promises. -/
def Keeping (effect : (op : P.sig.Op) → V → P.sig.Reply op → Option V) (guarantee : V → V → Prop)
    (post : V → P.Result → Prop) (view : P.State → V) (m : Moment P) : Prop :=
  m.rest.Keeps effect guarantee post (view m.state)

theorem step_keeping (howns : Owns view effect)
    (hmain : ∀ entry v, (P.main entry).Keeps effect guarantee post v)
    {m m' : Moment P} {action : Step P} (hm : Keeping effect guarantee post view m)
    (hstep : P.step m action = some m') :
    Keeping effect guarantee post view m' ∧
      Relation.ReflTransGen guarantee (view m.state) (view m'.state) := by
  cases action with
  | start entry =>
      simp only [step, Option.some.injEq] at hstep
      subst hstep
      refine ⟨hmain entry _, ?_⟩
      rw [howns.restart]
  | run event =>
      obtain ⟨next, state, hrest, hperform, rfl⟩ := advance_eq_some.mp hstep
      have heffect := howns.perform event.op m.state event.reply state hperform
      unfold Keeping at hm
      rw [hrest] at hm
      obtain ⟨hguarantee, hnext⟩ := hm event.reply (view state) heffect
      exact ⟨hnext, .single hguarantee⟩
  | disturb disturbance =>
      obtain ⟨state, hdisturb, rfl⟩ := Option.map_eq_some_iff.mp hstep
      have hview := howns.disturb m.state disturbance state hdisturb
      unfold Keeping at hm ⊢
      rw [hview]
      exact ⟨hm, .refl⟩

/-- Through any number of starts, everything the process changes it changes as
its guarantee says. -/
theorem run_keeping (howns : Owns view effect)
    (hmain : ∀ entry v, (P.main entry).Keeps effect guarantee post v)
    {m m' : Moment P} {steps : List (Step P)} (hm : Keeping effect guarantee post view m)
    (hrun : P.run m steps = some m') :
    Keeping effect guarantee post view m' ∧
      Relation.ReflTransGen guarantee (view m.state) (view m'.state) := by
  induction steps generalizing m with
  | nil =>
      simp only [run, Option.some.injEq] at hrun
      subst hrun
      exact ⟨hm, .refl⟩
  | cons action rest ih =>
      simp only [run, Option.bind_eq_some_iff] at hrun
      obtain ⟨middle, hmiddle, hrun⟩ := hrun
      obtain ⟨hkeeping, hfirst⟩ := step_keeping howns hmain hm hmiddle
      obtain ⟨hend, hrest⟩ := ih hkeeping hrun
      exact ⟨hend, hfirst.trans hrest⟩

end Guarantee

end Process

end Interaction
