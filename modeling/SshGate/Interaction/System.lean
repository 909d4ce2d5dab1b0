import SshGate.Interaction.Program

/-! # Interleaved calls on a shared state

Any number of calls run programs over one shared state. A step performs one
action of one call, starts a call, or disturbs the state from outside, in any
order. The reply of an action is an input of the step: the state decides which
replies are possible and what they change, so a schedule with its replies can
be executed.
-/

namespace Interaction

/-- Calls, the programs they run, and the meaning of their actions on the
shared state. `perform` and `disturb` give no state where the reply or the
disturbance is impossible. -/
structure System where
  sig : Signature
  [decEq : DecidableEq sig.Op]
  Call : Type
  Result : Type
  program : Call → Program sig Result
  State : Type
  Disturbance : Type
  perform : (op : sig.Op) → State → sig.Reply op → Option State
  disturb : State → Disturbance → Option State

attribute [instance] System.decEq

/-- A call with the events it performed so far and what remains to run. -/
structure Thread (M : System) where
  call : M.Call
  trace : List (Event M.sig)
  rest : Program M.sig M.Result

/-- The shared state with all calls ever started, in starting order. -/
structure Config (M : System) where
  state : M.State
  threads : List (Thread M)

/-- One step of a schedule. -/
inductive Action (M : System) where
  | spawn (call : M.Call)
  | disturb (disturbance : M.Disturbance)
  | run (thread : Nat) (event : Event M.sig)

namespace System

variable {M : System}

/-- A call that has performed nothing yet. -/
def start (M : System) (call : M.Call) : Thread M := ⟨call, [], M.program call⟩

/-- Let a thread perform its next action with the given reply. -/
def advance (M : System) (state : M.State) (thread : Thread M) (event : Event M.sig) :
    Option (M.State × Thread M) :=
  match thread.rest with
  | .ret _ => none
  | .act op next =>
      if h : event.op = op then
        let reply : M.sig.Reply op := h ▸ event.reply
        (M.perform op state reply).map fun state' =>
          (state', ⟨thread.call, thread.trace ++ [event], next reply⟩)
      else none

/-- Execute one step of a schedule; `none` means it is not possible. -/
def step (M : System) (c : Config M) : Action M → Option (Config M)
  | .spawn call => some ⟨c.state, c.threads ++ [M.start call]⟩
  | .disturb disturbance => (M.disturb c.state disturbance).map fun state => ⟨state, c.threads⟩
  | .run i event =>
      (c.threads[i]?).bind fun thread =>
        (M.advance c.state thread event).map fun (state, thread') =>
          ⟨state, c.threads.set i thread'⟩

/-- Execute a schedule. -/
def run (M : System) : Config M → List (Action M) → Option (Config M)
  | c, [] => some c
  | c, action :: rest => (M.step c action).bind fun c' => M.run c' rest

/-- What a run step does: the thread's next action is the event's, the state
accepts its reply, and only this thread moves. -/
theorem step_run_eq_some {c c' : Config M} {i : Nat} {event : Event M.sig} :
    M.step c (.run i event) = some c' ↔
      ∃ thread next state, c.threads[i]? = some thread ∧
        thread.rest = .act event.op next ∧
        M.perform event.op c.state event.reply = some state ∧
        c' = ⟨state, c.threads.set i ⟨thread.call, thread.trace ++ [event],
          next event.reply⟩⟩ := by
  simp only [step, Option.bind_eq_some_iff, Option.map_eq_some_iff, Prod.exists]
  constructor
  · rintro ⟨thread, hthread, state, thread', hadvance, rfl⟩
    unfold advance at hadvance
    split at hadvance
    next => simp at hadvance
    next op next hrest =>
      split at hadvance
      next heq =>
        subst heq
        simp only [Option.map_eq_some_iff, Prod.mk.injEq] at hadvance
        obtain ⟨_, hperform, rfl, rfl⟩ := hadvance
        exact ⟨thread, next, _, hthread, hrest, hperform, rfl⟩
      next => simp at hadvance
  · rintro ⟨thread, next, state, hthread, hrest, hperform, rfl⟩
    refine ⟨thread, hthread, state, _, ?_, rfl⟩
    simp [advance, hrest, hperform]

/-- Schedules compose. -/
theorem run_append {c : Config M} {first second : List (Action M)} :
    M.run c (first ++ second) = (M.run c first).bind fun c' => M.run c' second := by
  induction first generalizing c with
  | nil => rfl
  | cons action rest ih =>
      simp only [List.cons_append, run, Option.bind_assoc]
      exact congrArg _ (funext fun c' => ih)

/-- A run stops before and after every step of its schedule. -/
theorem run_split {c c' : Config M} {before after : List (Action M)} {action : Action M} :
    M.run c (before ++ action :: after) = some c' ↔
      ∃ reached next, M.run c before = some reached ∧ M.step reached action = some next ∧
        M.run next after = some c' := by
  simp [run_append, run, Option.bind_eq_some_iff]

/-! ## What a schedule does to the threads -/

/-- The calls that a schedule starts, in order. -/
def spawned : List (Action M) → List M.Call
  | [] => []
  | .spawn call :: rest => call :: spawned rest
  | .disturb _ :: rest | .run _ _ :: rest => spawned rest

theorem mem_spawned {call : M.Call} {schedule : List (Action M)} :
    call ∈ spawned schedule ↔ .spawn call ∈ schedule := by
  induction schedule with
  | nil => simp [spawned]
  | cons action rest ih => cases action <;> simp [spawned, ih]

/-- The events that a schedule lets thread `i` perform. -/
def eventsOf (i : Nat) : List (Action M) → List (Event M.sig)
  | [] => []
  | .run j event :: rest => if j = i then event :: eventsOf i rest else eventsOf i rest
  | .spawn _ :: rest | .disturb _ :: rest => eventsOf i rest

theorem eventsOf_append (i : Nat) (first second : List (Action M)) :
    eventsOf i (first ++ second) = eventsOf i first ++ eventsOf i second := by
  induction first with
  | nil => rfl
  | cons action rest ih =>
      cases action with
      | spawn call => exact ih
      | disturb disturbance => exact ih
      | run j event => by_cases hij : j = i <;> simp [eventsOf, hij, ih]

@[simp] theorem eventsOf_run (i : Nat) (event : Event M.sig) (rest : List (Action M)) :
    eventsOf i (.run i event :: rest) = event :: eventsOf i rest := by
  simp [eventsOf]

theorem eventsOf_mid (i : Nat) (event : Event M.sig) (before after : List (Action M)) :
    eventsOf i (before ++ .run i event :: after) =
      eventsOf i before ++ event :: eventsOf i after := by
  rw [eventsOf_append, eventsOf_run]

/-- An event of thread `i` tells where the schedule lets it perform it. -/
theorem eventsOf_split {i : Nat} {schedule : List (Action M)} {first second : List (Event M.sig)}
    {event : Event M.sig} (hevents : eventsOf i schedule = first ++ event :: second) :
    ∃ before after, schedule = before ++ .run i event :: after ∧ eventsOf i before = first ∧
      eventsOf i after = second := by
  induction schedule generalizing first with
  | nil => simp [eventsOf] at hevents
  | cons action rest ih =>
      have hlater : eventsOf i [action] = [] → ∃ before after,
          action :: rest = before ++ .run i event :: after ∧ eventsOf i before = first ∧
            eventsOf i after = second := by
        intro hnone
        have hsplit := eventsOf_append i [action] rest
        rw [hnone, List.nil_append] at hsplit
        obtain ⟨before, after, rfl, hbefore, hafter⟩ := ih (hsplit.symm.trans hevents)
        refine ⟨action :: before, after, rfl, ?_, hafter⟩
        rw [← hbefore]
        exact (eventsOf_append i [action] before).trans (by rw [hnone, List.nil_append])
      cases action with
      | spawn call => exact hlater rfl
      | disturb disturbance => exact hlater rfl
      | run j other =>
          by_cases hij : j = i
          · subst hij
            rw [eventsOf_run] at hevents
            cases first with
            | nil =>
                cases hevents
                exact ⟨[], rest, rfl, rfl, rfl⟩
            | cons head first =>
                obtain ⟨rfl, hrest⟩ := List.cons_eq_cons.mp hevents
                obtain ⟨before, after, rfl, rfl, hafter⟩ := ih hrest
                exact ⟨.run j other :: before, after, rfl, eventsOf_run .., hafter⟩
          · exact hlater (by simp [eventsOf, hij])

/-- The events of thread `i` so far; none if it has not been started. -/
def traceOf (c : Config M) (i : Nat) : List (Event M.sig) :=
  ((c.threads[i]?).map Thread.trace).getD []

theorem traceOf_eq {c : Config M} {i : Nat} {thread : Thread M}
    (hthread : c.threads[i]? = some thread) : traceOf c i = thread.trace := by
  simp [traceOf, hthread]

/-- A schedule that can be executed starts exactly its calls. -/
theorem run_calls {c c' : Config M} {schedule : List (Action M)}
    (hrun : M.run c schedule = some c') :
    c'.threads.map Thread.call = c.threads.map Thread.call ++ spawned schedule := by
  induction schedule generalizing c with
  | nil =>
      simp only [run, Option.some.injEq] at hrun
      simp [spawned, hrun]
  | cons action rest ih =>
      simp only [run, Option.bind_eq_some_iff] at hrun
      obtain ⟨middle, hmiddle, hrun⟩ := hrun
      rw [ih hrun]
      cases action with
      | spawn call =>
          simp only [step, Option.some.injEq] at hmiddle
          simp [← hmiddle, start, spawned]
      | disturb disturbance =>
          simp only [step, Option.map_eq_some_iff] at hmiddle
          obtain ⟨state, _, rfl⟩ := hmiddle
          rfl
      | run i event =>
          obtain ⟨thread, next, state, hthread, _, _, rfl⟩ := step_run_eq_some.mp hmiddle
          have hcall : (c.threads.map Thread.call)[i]? = some thread.call := by simp [hthread]
          obtain ⟨hlt, hcall⟩ := List.getElem?_eq_some_iff.mp hcall
          rw [List.map_set, spawned, ← hcall, List.set_getElem_self hlt]

/-- A step extends the trace of the thread it lets run, and no other. -/
theorem step_traceOf {c c' : Config M} {action : Action M} (hstep : M.step c action = some c')
    (i : Nat) : traceOf c' i = traceOf c i ++ eventsOf i [action] := by
  cases action with
  | spawn call =>
      simp only [step, Option.some.injEq] at hstep
      subst hstep
      rcases Nat.lt_trichotomy i c.threads.length with hlt | heq | hgt
      · simp [traceOf, eventsOf, List.getElem?_append_left hlt]
      · simp [traceOf, eventsOf, heq, start]
      · have hnone : (c.threads ++ [M.start call])[i]? = none := by
          rw [List.getElem?_eq_none_iff, List.length_append, List.length_singleton]
          omega
        simp [traceOf, eventsOf, hnone, List.getElem?_eq_none (Nat.le_of_lt hgt)]
  | disturb disturbance =>
      simp only [step, Option.map_eq_some_iff] at hstep
      obtain ⟨state, _, rfl⟩ := hstep
      simp [traceOf, eventsOf]
  | run j event =>
      obtain ⟨thread, next, state, hthread, _, _, rfl⟩ := step_run_eq_some.mp hstep
      have hlt : j < c.threads.length := (List.getElem?_eq_some_iff.mp hthread).1
      by_cases hij : j = i
      · subst hij
        have hself := List.getElem?_set_self hlt (a := ⟨thread.call, thread.trace ++ [event],
          next event.reply⟩)
        simp only [traceOf, eventsOf, hself, hthread, Option.map_some, Option.getD_some, if_true]
      · simp [traceOf, eventsOf, hij]

/-- The trace of a thread is what the schedule let it perform. -/
theorem run_traceOf {c c' : Config M} {schedule : List (Action M)}
    (hrun : M.run c schedule = some c') (i : Nat) :
    traceOf c' i = traceOf c i ++ eventsOf i schedule := by
  induction schedule generalizing c with
  | nil =>
      simp only [run, Option.some.injEq] at hrun
      simp [eventsOf, hrun]
  | cons action rest ih =>
      simp only [run, Option.bind_eq_some_iff] at hrun
      obtain ⟨middle, hmiddle, hrun⟩ := hrun
      rw [ih hrun, step_traceOf hmiddle, List.append_assoc, ← eventsOf_append]
      rfl

/-- What a thread performs during a run it performs at some step of it. -/
theorem run_event {c c' : Config M} {schedule : List (Action M)}
    (hrun : M.run c schedule = some c') {i : Nat} {event : Event M.sig}
    {first rest : List (Event M.sig)}
    (htrace : traceOf c' i = traceOf c i ++ (first ++ event :: rest)) :
    ∃ before after reached next, schedule = before ++ .run i event :: after ∧
      M.run c before = some reached ∧ M.step reached (.run i event) = some next ∧
      M.run next after = some c' ∧ traceOf reached i = traceOf c i ++ first := by
  have hevents : eventsOf i schedule = first ++ event :: rest := by
    rw [run_traceOf hrun] at htrace
    exact List.append_cancel_left htrace
  obtain ⟨before, after, rfl, hfirst, _⟩ := eventsOf_split hevents
  obtain ⟨reached, next, hreached, hstep, hrest⟩ := run_split.mp hrun
  refine ⟨before, after, reached, next, rfl, hreached, hstep, hrest, ?_⟩
  rw [run_traceOf hreached, hfirst]

theorem mem_eventsOf {i : Nat} {event : Event M.sig} {schedule : List (Action M)} :
    event ∈ eventsOf i schedule ↔ .run i event ∈ schedule := by
  induction schedule with
  | nil => simp [eventsOf]
  | cons action rest ih =>
      cases action with
      | spawn call => simp [eventsOf, ih]
      | disturb disturbance => simp [eventsOf, ih]
      | run j other =>
          by_cases hij : j = i
          · simp [eventsOf, hij, ih]
          · simp [eventsOf, hij, ih, Ne.symm hij]

/-- The thread of the `i`-th call of a schedule. -/
theorem run_thread {state : M.State} {c : Config M} {schedule : List (Action M)}
    (hrun : M.run ⟨state, []⟩ schedule = some c) {i : Nat} {call : M.Call}
    (hcall : (spawned schedule)[i]? = some call) :
    ∃ rest, c.threads[i]? = some ⟨call, eventsOf i schedule, rest⟩ := by
  have hcalls : c.threads.map Thread.call = spawned schedule := run_calls hrun
  rw [← hcalls, List.getElem?_map, Option.map_eq_some_iff] at hcall
  obtain ⟨⟨_, trace, rest⟩, hthread, rfl⟩ := hcall
  have htrace : traceOf c i = eventsOf i schedule := run_traceOf hrun i
  rw [← htrace, traceOf, hthread]
  exact ⟨rest, rfl⟩

/-- The schedule of one call that runs alone after some disturbances. -/
def alone (M : System) (disturbances : List M.Disturbance) (call : M.Call)
    (events : List (Event M.sig)) : List (Action M) :=
  disturbances.map .disturb ++ .spawn call :: events.map (.run 0)

theorem spawned_alone (disturbances : List M.Disturbance) (call : M.Call)
    (events : List (Event M.sig)) : spawned (M.alone disturbances call events) = [call] := by
  have hevents : spawned (events.map (Action.run (M := M) 0)) = [] := by
    induction events with
    | nil => rfl
    | cons event rest ih => exact ih
  induction disturbances with
  | nil => exact congrArg _ hevents
  | cons disturbance rest ih => exact ih

theorem eventsOf_alone (disturbances : List M.Disturbance) (call : M.Call)
    (events : List (Event M.sig)) : eventsOf 0 (M.alone disturbances call events) = events := by
  have hevents : eventsOf 0 (events.map (Action.run (M := M) 0)) = events := by
    induction events with
    | nil => rfl
    | cons event rest ih => simp [ih]
  induction disturbances with
  | nil => exact hevents
  | cons disturbance rest ih => exact ih

/-- A call that runs alone has performed exactly the scheduled events. -/
theorem run_alone {state : M.State} {disturbances : List M.Disturbance} {call : M.Call}
    {events : List (Event M.sig)} {c : Config M}
    (hrun : M.run ⟨state, []⟩ (M.alone disturbances call events) = some c) :
    ∃ rest, c.threads = [⟨call, events, rest⟩] := by
  have hcalls : c.threads.map Thread.call = [call] :=
    (run_calls hrun).trans (spawned_alone disturbances call events)
  obtain ⟨thread, hthreads, _⟩ := List.map_eq_singleton_iff.mp hcalls
  have hcall : (spawned (M.alone disturbances call events))[0]? = some call := by
    rw [spawned_alone]
    rfl
  obtain ⟨rest, hthread⟩ := run_thread hrun hcall
  rw [eventsOf_alone, hthreads] at hthread
  exact ⟨rest, by rw [hthreads, Option.some.inj hthread]⟩

/-- The state after the events of one call. -/
def replay (M : System) : M.State → List (Event M.sig) → Option M.State
  | state, [] => some state
  | state, event :: rest => (M.perform event.op state event.reply).bind fun state' =>
      M.replay state' rest

theorem run_path {p q : Program M.sig M.Result} {events : List (Event M.sig)}
    (hpath : p.Reaches events q) {c : Config M} {i : Nat} {call : M.Call}
    {done : List (Event M.sig)} (hthread : c.threads[i]? = some ⟨call, done, p⟩)
    {state : M.State} (hreplay : M.replay c.state events = some state) :
    M.run c (events.map (.run i)) =
      some ⟨state, c.threads.set i ⟨call, done ++ events, q⟩⟩ := by
  induction hpath generalizing c done with
  | refl p =>
      simp only [replay, Option.some.injEq] at hreplay
      obtain ⟨hlt, hself⟩ := List.getElem?_eq_some_iff.mp hthread
      rw [List.append_nil, ← hself, List.set_getElem_self hlt, ← hreplay]
      rfl
  | @act op next reply trace q htrace ih =>
      simp only [replay, Option.bind_eq_some_iff] at hreplay
      obtain ⟨middle, hperform, hreplay⟩ := hreplay
      have hlt : i < c.threads.length := (List.getElem?_eq_some_iff.mp hthread).1
      have hstep : M.step c (.run i ⟨op, reply⟩) =
          some ⟨middle, c.threads.set i ⟨call, done ++ [⟨op, reply⟩], next reply⟩⟩ :=
        step_run_eq_some.mpr ⟨_, next, middle, hthread, rfl, hperform, rfl⟩
      have hself : (c.threads.set i ⟨call, done ++ [⟨op, reply⟩], next reply⟩)[i]? = _ :=
        List.getElem?_set_self hlt
      simp only [List.map_cons, run, hstep, Option.bind_some]
      rw [ih hself hreplay, List.set_set, List.append_assoc]
      rfl

/-- Some schedule leads from one configuration to the other. -/
def Runs (c c' : Config M) : Prop := ∃ schedule, M.run c schedule = some c'

theorem Runs.trans {c c' c'' : Config M} (hfirst : Runs c c') (hsecond : Runs c' c'') :
    Runs c c'' := by
  obtain ⟨first, hfirst⟩ := hfirst
  obtain ⟨second, hsecond⟩ := hsecond
  exact ⟨first ++ second, by rw [run_append, hfirst, Option.bind_some, hsecond]⟩

theorem Runs.step {c c' c'' : Config M} {action : Action M} (hruns : Runs c c')
    (hstep : M.step c' action = some c'') : Runs c c'' :=
  hruns.trans ⟨[action], by simp [run, hstep]⟩

/-- A thread can run along any path of its program whose replies the state
accepts. -/
theorem Runs.path {c : Config M} {i : Nat} {call : M.Call} {done : List (Event M.sig)}
    {p q : Program M.sig M.Result} (hthread : c.threads[i]? = some ⟨call, done, p⟩)
    {events : List (Event M.sig)} (hpath : p.Reaches events q) {state : M.State}
    (hreplay : M.replay c.state events = some state) :
    Runs c ⟨state, c.threads.set i ⟨call, done ++ events, q⟩⟩ :=
  ⟨events.map (.run i), run_path hpath hthread hreplay⟩

/-- A new call can do so too. -/
theorem Runs.call {c : Config M} {call : M.Call} {q : Program M.sig M.Result}
    {events : List (Event M.sig)} (hpath : (M.program call).Reaches events q) {state : M.State}
    (hreplay : M.replay c.state events = some state) :
    Runs c ⟨state, c.threads ++ [⟨call, events, q⟩]⟩ := by
  have hspawn : Runs c ⟨c.state, c.threads ++ [M.start call]⟩ := ⟨[.spawn call], rfl⟩
  have hthread : (c.threads ++ [M.start call])[c.threads.length]? =
      some ⟨call, [], M.program call⟩ := List.getElem?_concat_length
  have hruns := Runs.path (c := ⟨c.state, c.threads ++ [M.start call]⟩) hthread hpath hreplay
  rw [List.set_append_right _ _ (Nat.le_refl _), Nat.sub_self] at hruns
  exact hspawn.trans hruns

/-- The invariant rule for schedules of `allowed` actions. -/
theorem run_invariant_of_forall (allowed : Action M → Prop) (inv : Config M → Prop)
    (hstep : ∀ c action c', allowed action → inv c → M.step c action = some c' → inv c')
    {c c' : Config M} {schedule : List (Action M)} (hallowed : ∀ action ∈ schedule, allowed action)
    (hinv : inv c) (hrun : M.run c schedule = some c') : inv c' := by
  induction schedule generalizing c with
  | nil =>
      simp only [run, Option.some.injEq] at hrun
      exact hrun ▸ hinv
  | cons action rest ih =>
      simp only [run, Option.bind_eq_some_iff] at hrun
      obtain ⟨middle, hmiddle, hrest⟩ := hrun
      obtain ⟨haction, hallowed⟩ := List.forall_mem_cons.mp hallowed
      exact ih hallowed (hstep c action middle haction hinv hmiddle) hrest

/-- A property that every step preserves holds after every schedule. -/
theorem run_invariant (inv : Config M → Prop)
    (hstep : ∀ c action c', inv c → M.step c action = some c' → inv c')
    {c c' : Config M} {schedule : List (Action M)} (hinv : inv c)
    (hrun : M.run c schedule = some c') : inv c' :=
  run_invariant_of_forall (fun _ => True) inv (fun c action c' _ => hstep c action c')
    (fun _ _ => trivial) hinv hrun

/-- An invariant that speaks of the steps taken so far. -/
theorem run_invariant_schedule (inv : List (Action M) → Config M → Prop)
    (hstep : ∀ before c action c', inv before c → M.step c action = some c' →
      inv (before ++ [action]) c')
    {before : List (Action M)} {c c' : Config M} {schedule : List (Action M)}
    (hinv : inv before c) (hrun : M.run c schedule = some c') : inv (before ++ schedule) c' := by
  induction schedule generalizing before c with
  | nil =>
      simp only [run, Option.some.injEq] at hrun
      rw [List.append_nil, ← hrun]
      exact hinv
  | cons action rest ih =>
      simp only [run, Option.bind_eq_some_iff] at hrun
      obtain ⟨middle, hmiddle, hrest⟩ := hrun
      have hlast := ih (hstep before c action middle hinv hmiddle) hrest
      rwa [List.append_assoc] at hlast

/-- `holds` is true before every step of the schedule and at its end. -/
def Throughout (holds : Config M → Prop) : Config M → List (Action M) → Prop
  | c, [] => holds c
  | c, action :: rest => holds c ∧ ∀ c', M.step c action = some c' → Throughout holds c' rest

theorem Throughout.head {holds : Config M → Prop} {c : Config M} {schedule : List (Action M)}
    (hall : Throughout holds c schedule) : holds c := by
  cases schedule with
  | nil => exact hall
  | cons action rest => exact hall.1

instance Throughout.instDecidable {holds : Config M → Prop} [DecidablePred holds] (c : Config M)
    (schedule : List (Action M)) : Decidable (Throughout holds c schedule) :=
  match schedule with
  | [] => inferInstanceAs (Decidable (holds c))
  | action :: rest =>
      match h : M.step c action with
      | none => decidable_of_iff (holds c) (by simp [Throughout, h])
      | some c' =>
          have : Decidable (Throughout holds c' rest) := Throughout.instDecidable c' rest
          decidable_of_iff (holds c ∧ Throughout holds c' rest) (by simp [Throughout, h])

/-- The invariant rule for schedules that keep a side condition throughout. -/
theorem run_invariant_throughout (holds inv : Config M → Prop)
    (hstep : ∀ c action c', holds c → holds c' → inv c → M.step c action = some c' → inv c')
    {c c' : Config M} {schedule : List (Action M)} (hall : Throughout holds c schedule)
    (hinv : inv c) (hrun : M.run c schedule = some c') : inv c' := by
  induction schedule generalizing c with
  | nil =>
      simp only [run, Option.some.injEq] at hrun
      exact hrun ▸ hinv
  | cons action rest ih =>
      simp only [run, Option.bind_eq_some_iff] at hrun
      obtain ⟨middle, hmiddle, hrest⟩ := hrun
      have hnext := hall.2 middle hmiddle
      exact ih hnext (hstep c action middle hall.1 hnext.head hinv hmiddle) hrest

theorem Throughout.last {holds : Config M → Prop} {c c' : Config M} {schedule : List (Action M)}
    (hall : Throughout holds c schedule) (hrun : M.run c schedule = some c') : holds c' :=
  run_invariant_throughout holds holds (fun _ _ _ _ hlast _ _ => hlast) hall hall.head hrun

/-- Every step of the schedule is `ok` where it is taken. -/
def Along (ok : Config M → Action M → Prop) : Config M → List (Action M) → Prop
  | _, [] => True
  | c, action :: rest => ok c action ∧ ∀ c', M.step c action = some c' → Along ok c' rest

theorem Along.imp {ok ok' : Config M → Action M → Prop}
    (himp : ∀ c action, ok c action → ok' c action) {c : Config M} {schedule : List (Action M)}
    (hall : Along ok c schedule) : Along ok' c schedule := by
  induction schedule generalizing c with
  | nil => trivial
  | cons action rest ih => exact ⟨himp c action hall.1, fun c' hstep => ih (hall.2 c' hstep)⟩

theorem Along.of_append {ok : Config M → Action M → Prop} {c : Config M}
    {first second : List (Action M)} (hall : Along ok c (first ++ second)) : Along ok c first := by
  induction first generalizing c with
  | nil => trivial
  | cons action rest ih => exact ⟨hall.1, fun c' hstep => ih (hall.2 c' hstep)⟩

instance Along.instDecidable {ok : Config M → Action M → Prop}
    [∀ c action, Decidable (ok c action)] (c : Config M) (schedule : List (Action M)) :
    Decidable (Along ok c schedule) :=
  match schedule with
  | [] => isTrue trivial
  | action :: rest =>
      match h : M.step c action with
      | none => decidable_of_iff (ok c action) (by simp [Along, h])
      | some c' =>
          have : Decidable (Along ok c' rest) := Along.instDecidable c' rest
          decidable_of_iff (ok c action ∧ Along ok c' rest) (by simp [Along, h])

/-- The invariant rule for schedules with a side condition on their steps. -/
theorem run_invariant_along (ok : Config M → Action M → Prop) (inv : Config M → Prop)
    (hstep : ∀ c action c', ok c action → inv c → M.step c action = some c' → inv c')
    {c c' : Config M} {schedule : List (Action M)} (hall : Along ok c schedule)
    (hinv : inv c) (hrun : M.run c schedule = some c') : inv c' := by
  induction schedule generalizing c with
  | nil =>
      simp only [run, Option.some.injEq] at hrun
      exact hrun ▸ hinv
  | cons action rest ih =>
      simp only [run, Option.bind_eq_some_iff] at hrun
      obtain ⟨middle, hmiddle, hrest⟩ := hrun
      exact ih (hall.2 middle hmiddle) (hstep c action middle hall.1 hinv hmiddle) hrest

/-! ## Threads follow their programs -/

/-- Every thread's trace is a path of its call's program. -/
def Faithful (c : Config M) : Prop :=
  ∀ thread ∈ c.threads, (M.program thread.call).Reaches thread.trace thread.rest

theorem step_faithful {c c' : Config M} {action : Action M} (hc : Faithful c)
    (hstep : M.step c action = some c') : Faithful c' := by
  cases action with
  | spawn call =>
      simp only [step, Option.some.injEq] at hstep
      subst hstep
      intro thread hthread
      rcases List.mem_append.mp hthread with hold | hnew
      · exact hc thread hold
      · rw [List.mem_singleton.mp hnew]
        exact .refl _
  | disturb disturbance =>
      simp only [step, Option.map_eq_some_iff] at hstep
      obtain ⟨state, _, rfl⟩ := hstep
      exact hc
  | run i event =>
      obtain ⟨thread, next, state, hthread, hrest, _, rfl⟩ := step_run_eq_some.mp hstep
      intro thread' hthread'
      rcases List.mem_or_eq_of_mem_set hthread' with hold | rfl
      · exact hc thread' hold
      · have hpath := hc thread (List.mem_of_getElem? hthread)
        rw [hrest] at hpath
        exact hpath.snoc event.reply

theorem run_faithful {state : M.State} {c : Config M} {schedule : List (Action M)}
    (hrun : M.run ⟨state, []⟩ schedule = some c) : Faithful c :=
  run_invariant Faithful (fun _ _ _ hc hstep => step_faithful hc hstep) (by simp [Faithful]) hrun

/-! ## Events of a configuration -/

/-- Thread `i` has performed `event`. -/
def Performed (c : Config M) (i : Nat) (event : Event M.sig) : Prop :=
  ∃ thread, c.threads[i]? = some thread ∧ event ∈ thread.trace

theorem performed_iff {c : Config M} {i : Nat} {event : Event M.sig} :
    Performed c i event ↔ event ∈ traceOf c i := by
  unfold Performed traceOf
  cases c.threads[i]? with
  | none => simp
  | some thread => simp

/-- A step extends one trace by at most one event and keeps all calls. -/
theorem step_thread {c c' : Config M} {action : Action M} (hstep : M.step c action = some c')
    {i : Nat} {thread' : Thread M} (hthread' : c'.threads[i]? = some thread') :
    (∃ call, action = .spawn call ∧ i = c.threads.length ∧ thread' = M.start call) ∨
      ∃ thread, c.threads[i]? = some thread ∧ thread'.call = thread.call ∧
        (thread' = thread ∨ ∃ event, action = .run i event ∧
          thread'.trace = thread.trace ++ [event]) := by
  cases action with
  | spawn call =>
      simp only [step, Option.some.injEq] at hstep
      subst hstep
      rcases Nat.lt_trichotomy i c.threads.length with hlt | heq | hgt
      · rw [List.getElem?_append_left hlt] at hthread'
        exact .inr ⟨thread', hthread', rfl, .inl rfl⟩
      · subst heq
        simp only [List.getElem?_concat_length, Option.some.injEq] at hthread'
        exact .inl ⟨call, rfl, rfl, hthread'.symm⟩
      · rw [List.getElem?_eq_none (by simp; omega)] at hthread'
        simp at hthread'
  | disturb disturbance =>
      simp only [step, Option.map_eq_some_iff] at hstep
      obtain ⟨state, _, rfl⟩ := hstep
      exact .inr ⟨thread', hthread', rfl, .inl rfl⟩
  | run j event =>
      obtain ⟨thread, next, state, hthread, hrest, _, rfl⟩ := step_run_eq_some.mp hstep
      by_cases hij : j = i
      · subst hij
        have hlt : j < c.threads.length := (List.getElem?_eq_some_iff.mp hthread).1
        simp only [List.getElem?_set_self hlt, Option.some.injEq] at hthread'
        subst hthread'
        exact .inr ⟨thread, hthread, rfl, .inr ⟨event, rfl, rfl⟩⟩
      · rw [List.getElem?_set_ne hij] at hthread'
        exact .inr ⟨thread', hthread', rfl, .inl rfl⟩

/-- Every event of the next configuration is old or the one just performed. -/
theorem performed_of_step {c c' : Config M} {action : Action M}
    (hstep : M.step c action = some c') {i : Nat} {event : Event M.sig}
    (hevent : Performed c' i event) : Performed c i event ∨ action = .run i event := by
  obtain ⟨thread', hthread', hmem⟩ := hevent
  rcases step_thread hstep hthread' with ⟨call, _, _, rfl⟩ | ⟨thread, hthread, _, hcases⟩
  · simp [start] at hmem
  · rcases hcases with rfl | ⟨last, rfl, htrace⟩
    · exact .inl ⟨thread', hthread, hmem⟩
    · rw [htrace, List.mem_append, List.mem_singleton] at hmem
      rcases hmem with hold | rfl
      · exact .inl ⟨thread, hthread, hold⟩
      · exact .inr rfl

/-- Threads are never lost and their traces only grow. -/
theorem thread_of_step {c c' : Config M} {action : Action M}
    (hstep : M.step c action = some c') {i : Nat} {thread : Thread M}
    (hthread : c.threads[i]? = some thread) :
    ∃ thread', c'.threads[i]? = some thread' ∧ thread'.call = thread.call ∧
      thread.trace <+: thread'.trace := by
  have hlt : i < c.threads.length := (List.getElem?_eq_some_iff.mp hthread).1
  cases action with
  | spawn call =>
      simp only [step, Option.some.injEq] at hstep
      subst hstep
      exact ⟨thread, by rw [List.getElem?_append_left hlt]; exact hthread, rfl,
        List.prefix_refl _⟩
  | disturb disturbance =>
      simp only [step, Option.map_eq_some_iff] at hstep
      obtain ⟨state, _, rfl⟩ := hstep
      exact ⟨thread, hthread, rfl, List.prefix_refl _⟩
  | run j event =>
      obtain ⟨moved, next, state, hmoved, _, _, rfl⟩ := step_run_eq_some.mp hstep
      by_cases hij : j = i
      · subst hij
        obtain rfl : moved = thread := Option.some.inj (hmoved.symm.trans hthread)
        exact ⟨_, List.getElem?_set_self hlt, rfl, List.prefix_append _ _⟩
      · exact ⟨thread, by rw [List.getElem?_set_ne hij]; exact hthread, rfl,
          List.prefix_refl _⟩

theorem Performed.of_step {c c' : Config M} {action : Action M}
    (hstep : M.step c action = some c') {i : Nat} {event : Event M.sig}
    (hevent : Performed c i event) : Performed c' i event := by
  obtain ⟨thread, hthread, hmem⟩ := hevent
  obtain ⟨thread', hthread', _, hprefix⟩ := thread_of_step hstep hthread
  exact ⟨thread', hthread', hprefix.subset hmem⟩

/-- The event of a run step is performed afterwards. -/
theorem performed_run {c c' : Config M} {i : Nat} {event : Event M.sig}
    (hstep : M.step c (.run i event) = some c') : Performed c' i event := by
  obtain ⟨thread, next, state, hthread, _, _, rfl⟩ := step_run_eq_some.mp hstep
  have hlt : i < c.threads.length := (List.getElem?_eq_some_iff.mp hthread).1
  exact ⟨_, List.getElem?_set_self hlt, by simp⟩

/-- What the schedule of a run lets a thread perform is performed. -/
theorem performed_iff_mem {state : M.State} {c : Config M} {schedule : List (Action M)}
    (hrun : M.run ⟨state, []⟩ schedule = some c) {i : Nat} {event : Event M.sig} :
    Performed c i event ↔ .run i event ∈ schedule := by
  rw [performed_iff, run_traceOf hrun, List.mem_append, mem_eventsOf]
  simp [traceOf]

/-- What a thread has left to do stays confined. -/
theorem confined_of_step {allowed : M.sig.Op → Prop} {c c' : Config M} {action : Action M}
    (hstep : M.step c action = some c') {i : Nat} {thread : Thread M}
    (hthread : c.threads[i]? = some thread) (hconfined : thread.rest.Confined allowed) :
    ∃ thread', c'.threads[i]? = some thread' ∧ thread.trace <+: thread'.trace ∧
      thread'.rest.Confined allowed := by
  have hlt : i < c.threads.length := (List.getElem?_eq_some_iff.mp hthread).1
  cases action with
  | spawn call =>
      simp only [step, Option.some.injEq] at hstep
      subst hstep
      exact ⟨thread, by simp [List.getElem?_append_left hlt, hthread], List.prefix_refl _,
        hconfined⟩
  | disturb disturbance =>
      simp only [step, Option.map_eq_some_iff] at hstep
      obtain ⟨state, _, rfl⟩ := hstep
      exact ⟨thread, hthread, List.prefix_refl _, hconfined⟩
  | run j event =>
      obtain ⟨moved, next, state, hmoved, hrest, _, rfl⟩ := step_run_eq_some.mp hstep
      by_cases hij : j = i
      · subst hij
        cases hthread.symm.trans hmoved
        rw [hrest] at hconfined
        exact ⟨_, List.getElem?_set_self hlt, List.prefix_append .., hconfined.2 event.reply⟩
      · exact ⟨thread, by simp [List.getElem?_set_ne hij, hthread], List.prefix_refl _, hconfined⟩

/-- Some thread's trace satisfies `holds`. -/
def Seen (c : Config M) (holds : List (Event M.sig) → Prop) : Prop :=
  ∃ thread ∈ c.threads, holds thread.trace

/-- What a trace once showed it shows for ever. -/
theorem Seen.of_step {holds : List (Event M.sig) → Prop}
    (happend : ∀ trace more, holds trace → holds (trace ++ more)) {c c' : Config M}
    {action : Action M} (hstep : M.step c action = some c') (hseen : Seen c holds) :
    Seen c' holds := by
  obtain ⟨thread, hthread, hholds⟩ := hseen
  obtain ⟨i, hi⟩ := List.mem_iff_getElem?.mp hthread
  obtain ⟨thread', hthread', _, ⟨more, hmore⟩⟩ := thread_of_step hstep hi
  exact ⟨thread', List.mem_of_getElem? hthread', hmore ▸ happend _ _ hholds⟩

/-- A run step was guarded by the trace of the thread that took it. -/
theorem guarded_of_step {guard : M.Call → List (Event M.sig) → M.sig.Op → Prop}
    {post : List (Event M.sig) → M.Result → Prop}
    (hprogram : ∀ call, (M.program call).Always (guard call) post []) {c c' : Config M}
    (hc : Faithful c) {i : Nat} {event : Event M.sig}
    (hstep : M.step c (.run i event) = some c') :
    ∃ thread thread', c.threads[i]? = some thread ∧ c'.threads[i]? = some thread' ∧
      thread'.trace = thread.trace ++ [event] ∧ guard thread.call thread.trace event.op := by
  obtain ⟨thread, next, state, hthread, hrest, _, rfl⟩ := step_run_eq_some.mp hstep
  have hlt : i < c.threads.length := (List.getElem?_eq_some_iff.mp hthread).1
  refine ⟨thread, _, hthread, List.getElem?_set_self hlt, rfl, ?_⟩
  have hpath := hc thread (List.mem_of_getElem? hthread)
  rw [hrest] at hpath
  have hreached := (hprogram thread.call).at_reached hpath
  exact hreached.1

theorem guarded_traceOf {guard : M.Call → List (Event M.sig) → M.sig.Op → Prop}
    {post : List (Event M.sig) → M.Result → Prop}
    (hprogram : ∀ call, (M.program call).Always (guard call) post []) {c c' : Config M}
    (hc : Faithful c) {i : Nat} {event : Event M.sig}
    (hstep : M.step c (.run i event) = some c') :
    ∃ call, guard call (traceOf c i) event.op := by
  obtain ⟨thread, _, hthread, _, _, hguard⟩ := guarded_of_step hprogram hc hstep
  rw [← traceOf_eq hthread] at hguard
  exact ⟨thread.call, hguard⟩

/-- Every step of a schedule is guarded by the events of its thread before it. -/
theorem guarded_eventsOf {guard : M.Call → List (Event M.sig) → M.sig.Op → Prop}
    {post : List (Event M.sig) → M.Result → Prop}
    (hprogram : ∀ call, (M.program call).Always (guard call) post []) {state : M.State}
    {c : Config M} {before after : List (Action M)} {i : Nat} {event : Event M.sig}
    (hrun : M.run ⟨state, []⟩ (before ++ .run i event :: after) = some c) :
    ∃ call, guard call (eventsOf i before) event.op := by
  obtain ⟨reached, next, hreached, hstep, _⟩ := run_split.mp hrun
  obtain ⟨call, hguard⟩ := guarded_traceOf hprogram (run_faithful hreached) hstep
  rw [run_traceOf hreached] at hguard
  exact ⟨call, hguard⟩

/-- Every event of a trace was guarded by the events before it. -/
theorem guarded_of_mem {guard : M.Call → List (Event M.sig) → M.sig.Op → Prop}
    {post : List (Event M.sig) → M.Result → Prop}
    (hprogram : ∀ call, (M.program call).Always (guard call) post []) {c : Config M}
    (hc : Faithful c) {thread : Thread M} (hthread : thread ∈ c.threads) {event : Event M.sig}
    (hevent : event ∈ thread.trace) :
    ∃ before after, thread.trace = before ++ event :: after ∧
      guard thread.call before event.op := by
  obtain ⟨before, after, hsplit⟩ := List.append_of_mem hevent
  have hpath := hc thread hthread
  rw [hsplit] at hpath
  have hguard := (hprogram thread.call).of_event hpath
  rw [List.nil_append] at hguard
  exact ⟨before, after, hsplit, hguard⟩

end System

end Interaction
