import SshGate.Proxy.IdleGuard

/-! # When a request is cut off

The handler stores the time after each transfer, and the watchdog closes the
connections right after a look that found the stored time old.
-/

namespace SshGate.Idle

open Go Interaction Program

/-! ## Transfers and their times -/

/-- The bytes that an event moved. -/
def movedBytes : Event sig → Nat
  | ⟨.read _ _, got⟩ => got.bytes.length
  | ⟨.write _ _, put⟩ => put.n
  | _ => 0

/-- Where the handler is after a transfer that moved bytes: it has to read the
clock and to store what it read. -/
inductive Stage where
  | settled
  | moved
  | read (t : Nat)
  deriving Repr, DecidableEq

def stageStep (stage : Stage) (event : Event sig) : Stage :=
  if 0 < movedBytes event then .moved
  else if stage = .moved then
    match event with
    | ⟨.now, t⟩ => .read t
    | _ => .settled
  else .settled

def stage (trace : List (Event sig)) : Stage := trace.foldl stageStep .settled

@[simp] theorem stage_snoc (trace : List (Event sig)) (event : Event sig) :
    stage (trace ++ [event]) = stageStep (stage trace) event :=
  List.foldl_concat ..

theorem stageStep_moved {stage : Stage} {event : Event sig} (h : 0 < movedBytes event) :
    stageStep stage event = .moved := if_pos h

theorem stageStep_settled {event : Event sig} (h : movedBytes event = 0) :
    stageStep .settled event = .settled := by
  unfold stageStep
  rw [if_neg (by omega), if_neg (by rintro ⟨⟩)]

/-- A transfer that moved bytes is followed by its recording. -/
def Records (history : List (Event sig)) (op : Op) : Prop :=
  (stage history = .moved → op = .now) ∧ ∀ t, stage history = .read t → op = .storeLast t

/-- The program records its transfers, wherever it starts and ends. -/
def Recording {α : Type} (p : Prog α) : Prop :=
  ∀ history, stage history = .settled →
    p.Always Records (fun history _ => stage history = .settled) history

section Recording

variable {α β : Type}

theorem Records.of_settled {history : List (Event sig)} (h : stage history = .settled) (op : Op) :
    Records history op := by
  constructor
  · rw [h]
    rintro ⟨⟩
  · rw [h]
    rintro _ ⟨⟩

theorem Recording.ret (value : α) : Recording (.ret value) := fun _ h => h

theorem Recording.bind {p : Prog α} {f : α → Prog β} (hp : Recording p)
    (hf : ∀ value, Recording (f value)) : Recording (p >>= f) :=
  fun history h => (hp history h).bind fun history' value h' => hf value history' h'

theorem Recording.act {op : Op} (hop : ∀ reply, movedBytes ⟨op, reply⟩ = 0) :
    Recording (act op) := by
  intro history h
  refine ⟨Records.of_settled h op, fun reply => ?_⟩
  rw [always_ret, stage_snoc, h]
  exact stageStep_settled (hop reply)

theorem touch_recording : Recording touch :=
  (Recording.act fun _ => rfl).bind fun _ => Recording.act fun _ => rfl

/-- After a transfer that moved bytes the time is stored. -/
theorem touch_of_moved {history : List (Event sig)} (h : stage history = .moved) (value : α) :
    (do let _ ← touch; return value : Prog α).Always Records
      (fun history _ => stage history = .settled) history := by
  refine Always.perform ⟨fun _ => rfl, by rw [h]; rintro _ ⟨⟩⟩ fun t => ?_
  have hread : stage (history ++ [⟨.now, t⟩]) = .read t := by
    rw [stage_snoc, h]
    rfl
  refine Always.perform ⟨by rw [hread]; rintro ⟨⟩, fun t' ht' => ?_⟩ fun _ => ?_
  · rw [hread] at ht'
    cases ht'
    rfl
  · rw [Program.pure_eq_ret, always_ret, stage_snoc, hread]
    rfl

theorem guardedRead_recording (src : Source) (room : Nat) : Recording (guardedRead src room) := by
  intro history h
  refine Always.perform (Records.of_settled h _) fun got => ?_
  split
  next hbytes =>
    refine touch_of_moved ?_ got
    rw [stage_snoc]
    exact stageStep_moved (List.length_pos_iff.mpr hbytes)
  next hbytes =>
    rw [Program.pure_eq_ret, always_ret, stage_snoc, h]
    exact stageStep_settled (List.length_eq_zero_iff.mpr (not_not.mp hbytes))

theorem guardedWrite_recording (dst : Sink) (bytes : Text) :
    Recording (guardedWrite dst bytes) := by
  intro history h
  refine Always.perform (Records.of_settled h _) fun put => ?_
  split
  next hmoved =>
    refine touch_of_moved ?_ put
    rw [stage_snoc]
    exact stageStep_moved hmoved
  next hmoved =>
    rw [Program.pure_eq_ret, always_ret, stage_snoc, h]
    exact stageStep_settled (Nat.eq_zero_of_not_pos hmoved)

theorem Guarded.recording {p : Prog α} (hp : Guarded p) : Recording p := by
  induction hp with
  | ret value => exact Recording.ret value
  | read src room _ ih => exact (guardedRead_recording src room).bind ih
  | write dst bytes _ ih => exact (guardedWrite_recording dst bytes).bind ih

theorem handleHTTP_recording (task : Task) (rounds : Nat) : Recording (handleHTTP task rounds) := by
  refine Recording.bind (touch_recording.bind fun _ => Recording.act fun _ => rfl) fun _ => ?_
  refine Recording.bind (transfer_guarded task rounds).recording fun ended => ?_
  have hclose : Recording (do
      let _ ← act .closeDone
      let _ ← act .closeUpstream
      act .closeClient) :=
    (Recording.act fun _ => rfl).bind fun _ =>
      (Recording.act fun _ => rfl).bind fun _ => Recording.act fun _ => rfl
  cases ended with
  | unfinished => exact Recording.ret _
  | well => exact hclose
  | failed => exact hclose

end Recording

/-! ## The look that cuts -/

/-- The client is closed right after a look that found the stored time old. -/
def CutStep (timeout : Nat) (history : List (Event sig)) (op : Op) : Prop :=
  op = .closeClient → ∃ first last idle, (timeout : Int) ≤ idle ∧
    history = first ++ ⟨.loadLast, last⟩ :: [⟨.since last, idle⟩]

theorem CutStep.of_ne {timeout : Nat} {history : List (Event sig)} {op : Op}
    (hop : op ≠ .closeClient) : CutStep timeout history op := fun heq => absurd heq hop

theorem watch_cutStep (timeout rounds : Nat) :
    (watch timeout rounds).Always (CutStep timeout) (fun _ _ => True) [] := by
  refine Always.perform (.of_ne (by rintro ⟨⟩)) fun _ => ?_
  generalize [] ++ _ = history
  induction rounds generalizing history with
  | zero => trivial
  | succ rounds ih =>
      refine Always.perform (.of_ne (by rintro ⟨⟩)) fun wake => ?_
      cases wake with
      | done => exact ⟨.of_ne (by rintro ⟨⟩), fun _ => trivial⟩
      | tick due =>
          refine Always.perform (.of_ne (by rintro ⟨⟩)) fun last => ?_
          refine Always.perform (.of_ne (by rintro ⟨⟩)) fun idle => ?_
          split
          next hold =>
            have hlooked : CutStep timeout (history ++ [⟨.select, .tick due⟩] ++
                [⟨.loadLast, last⟩] ++ [⟨.since last, idle⟩]) .closeClient :=
              fun _ => ⟨history ++ [⟨.select, .tick due⟩], last, idle, hold, by simp⟩
            refine Always.perform hlooked fun _ => ?_
            refine Always.perform (.of_ne (by rintro ⟨⟩)) fun _ => ?_
            exact ⟨.of_ne (by rintro ⟨⟩), fun _ => trivial⟩
          next => exact ih _

theorem watch_byWatch (timeout rounds : Nat) :
    (watch timeout rounds).Confined fun op : Op => op.byWatch timeout = true := by
  refine Confined.perform (by simp [Op.byWatch]) fun _ => ?_
  induction rounds with
  | zero => trivial
  | succ rounds ih =>
      refine Confined.perform rfl fun wake => ?_
      cases wake with
      | done => exact ⟨rfl, fun _ => trivial⟩
      | tick due =>
          refine Confined.perform rfl fun last => Confined.perform rfl fun idle => ?_
          split
          next => exact Confined.perform rfl fun _ => Confined.perform rfl fun _ =>
            ⟨rfl, fun _ => trivial⟩
          next => exact ih

section Cut

variable {timeout clock : Nat} {task : Task} {rounds rounds' : Nat}
  {schedule : List (Action (guarding timeout))} {c : Config (guarding timeout)}

/-- The parts of both goroutines in any run. -/
abbrev anytime (timeout : Nat) : RelyGuarantee (guarding timeout) (fun _ => True) :=
  discipline timeout (fun _ => True) (fun _ _ => True)

theorem opened_assured_anytime :
    (anytime timeout).Assured (opened timeout clock task rounds rounds') := by
  refine ⟨opened_sound clock, fun i thread hthread => ?_⟩
  rcases i with _ | _ | i
  · cases hthread
    exact ⟨_, (anytime timeout).refl 0 _, handleHTTP_kept task rounds [] _⟩
  · cases hthread
    refine ⟨_, (anytime timeout).refl 1 _, ?_⟩
    refine @Confined.alwaysIn_inv _ _ _ _ _ _ _ _ _ _ (fun _ => True) _
      (watch_byWatch timeout rounds') trivial (fun _ _ _ _ => trivial)
      (fun _ _ _ _ _ _ _ => trivial) ?_ (fun _ _ _ _ _ => trivial)
    exact fun _ _ _ _ _ hop _ => ⟨hop, trivial⟩
  · cases hthread

theorem getElem?_of_run (hspawn : ∀ call, .spawn call ∉ schedule)
    (hrun : (guarding timeout).run (opened timeout clock task rounds rounds') schedule = some c)
    {i : Nat} {thread : Thread (guarding timeout)} (hthread : c.threads[i]? = some thread) :
    i = 0 ∧ thread.call = .handle task rounds ∨ i = 1 ∧ thread.call = .watch rounds' := by
  have hcalls := System.run_calls hrun
  have hnone : System.spawned schedule = [] := by
    rw [List.eq_nil_iff_forall_not_mem]
    exact fun call hmem => hspawn call (System.mem_spawned.mp hmem)
  rw [hnone, List.append_nil] at hcalls
  have hcall : (c.threads.map Thread.call)[i]? = some thread.call := by simp [hthread]
  rw [hcalls] at hcall
  rcases i with _ | _ | i
  · exact .inl ⟨rfl, (Option.some.inj hcall).symm⟩
  · exact .inr ⟨rfl, (Option.some.inj hcall).symm⟩
  · cases hcall

/-- Both goroutines follow their programs. -/
theorem reaches_of_run (hspawn : ∀ call, .spawn call ∉ schedule)
    (hrun : (guarding timeout).run (opened timeout clock task rounds rounds') schedule = some c) :
    (∃ rest, (handleHTTP task rounds).Reaches (System.eventsOf 0 schedule) rest) ∧
      ∃ rest, (watch timeout rounds').Reaches (System.eventsOf 1 schedule) rest := by
  have hfaithful : System.Faithful c := by
    refine System.run_invariant System.Faithful (fun _ _ _ => System.step_faithful) ?_ hrun
    intro thread hthread
    simp only [opened, List.mem_cons, List.not_mem_nil, or_false] at hthread
    rcases hthread with rfl | rfl <;> exact .refl _
  have hlength : 2 ≤ c.threads.length := by
    have hcalls := congrArg List.length (System.run_calls hrun)
    simp only [List.length_map, List.length_append] at hcalls
    rw [hcalls]
    exact Nat.le_add_right 2 _
  have hthread : ∀ i, i < 2 → ∃ thread, c.threads[i]? = some thread ∧
      thread.trace = System.eventsOf i schedule := by
    intro i hi
    refine ⟨_, List.getElem?_eq_getElem (by omega), ?_⟩
    rw [← System.traceOf_eq (List.getElem?_eq_getElem (by omega)), System.run_traceOf hrun]
    rcases i with _ | _ | i
    · rfl
    · rfl
    · omega
  constructor
  · obtain ⟨thread, hget, htrace⟩ := hthread 0 (by omega)
    have hpath := hfaithful thread (List.mem_of_getElem? hget)
    rcases getElem?_of_run hspawn hrun hget with ⟨-, hcall⟩ | ⟨⟨⟩, -⟩
    rw [hcall, htrace] at hpath
    exact ⟨_, hpath⟩
  · obtain ⟨thread, hget, htrace⟩ := hthread 1 (by omega)
    have hpath := hfaithful thread (List.mem_of_getElem? hget)
    rcases getElem?_of_run hspawn hrun hget with ⟨⟨⟩, -⟩ | ⟨-, hcall⟩
    rw [hcall, htrace] at hpath
    exact ⟨_, hpath⟩

/-- Along a run neither the clock nor the stored time goes back. -/
theorem run_grows {more : List (Action (guarding timeout))} {c' : Config (guarding timeout)}
    (hspawn : ∀ call, .spawn call ∉ schedule ++ more)
    (hrun : (guarding timeout).run (opened timeout clock task rounds rounds') schedule = some c)
    (hmore : (guarding timeout).run c more = some c') : c.state.Grows c'.state := by
  have hsome : ∀ c call, .spawn call ∈ schedule ++ more → (anytime timeout).Assured c → True →
      (anytime timeout).Assures c.threads.length ((guarding timeout).start call) c.state :=
    fun _ call hmem => absurd hmem (hspawn call)
  have hassured := RelyGuarantee.run_assured opened_assured_anytime
    (.of_forall (fun _ => trivial) _ _) (fun c call hmem => hsome c call (by simp [hmem])) hrun
  -- No thread has the index 2, so what it could rely on holds of the whole run.
  refine RelyGuarantee.run_rely (i := 2) hassured (.of_forall (fun _ => trivial) _ _)
    (fun c call hmem => hsome c call (by simp [hmem])) (fun event hmem => ?_) hmore
  obtain ⟨before, after, rfl⟩ := List.append_of_mem hmem
  obtain ⟨reached, next, hreached, hstep, -⟩ := System.run_split.mp hmore
  obtain ⟨thread, _, _, hthread, -⟩ := System.step_run_eq_some.mp hstep
  have hall : (guarding timeout).run (opened timeout clock task rounds rounds')
      (schedule ++ before) = some reached := by
    rw [System.run_append, hrun, Option.bind_some, hreached]
  have hnospawn : ∀ call, .spawn call ∉ schedule ++ before := by
    intro call hmem
    refine hspawn call ?_
    rw [← List.append_assoc]
    exact List.mem_append_left _ hmem
  rcases getElem?_of_run hnospawn hall hthread with ⟨⟨⟩, -⟩ | ⟨⟨⟩, -⟩

/-- What follows a transfer that moved bytes, once a time was stored after it. -/
theorem recorded {pre post : List (Event sig)} {event : Event sig} {rest : Prog Unit}
    (hpath : (handleHTTP task rounds).Reaches (pre ++ event :: post) rest)
    (hmoved : 0 < movedBytes event) {t : Nat} (hstored : ⟨.storeLast t, ()⟩ ∈ post) :
    ∃ t more, post = ⟨.now, t⟩ :: ⟨.storeLast t, ()⟩ :: more := by
  have halways := handleHTTP_recording task rounds [] rfl
  have hstage : stage (pre ++ [event]) = .moved := by
    rw [stage_snoc]
    exact stageStep_moved hmoved
  cases post with
  | nil => cases hstored
  | cons first post =>
      rw [List.append_cons] at hpath
      have hfirst := (halways.of_event hpath).1 hstage
      obtain ⟨op, t₁⟩ := first
      cases hfirst
      cases post with
      | nil => simp at hstored
      | cons second post =>
          have hread : stage (pre ++ [event] ++ [⟨.now, t₁⟩]) = .read t₁ := by
            rw [stage_snoc, hstage]
            rfl
          rw [List.append_cons] at hpath
          have hsecond := (halways.of_event hpath).2 t₁ hread
          obtain ⟨op, reply⟩ := second
          cases hsecond
          exact ⟨t₁, post, rfl⟩

/-- The time of a recorded transfer is not after the stored one. -/
theorem clock_le_last {early late : List (Action (guarding timeout))} {event : Event sig}
    (hspawn : ∀ call, .spawn call ∉ early ++ .run 0 event :: late)
    {reached : Config (guarding timeout)}
    (hreached : (guarding timeout).run (opened timeout clock task rounds rounds') early =
      some reached)
    (hrun : (guarding timeout).run (opened timeout clock task rounds rounds')
      (early ++ .run 0 event :: late) = some c)
    (hmoved : 0 < movedBytes event) {t : Nat} (hstored : .run 0 ⟨.storeLast t, ()⟩ ∈ late) :
    reached.state.clock ≤ c.state.last := by
  obtain ⟨⟨rest, hpath⟩, -⟩ := reaches_of_run hspawn hrun
  rw [System.eventsOf_mid] at hpath
  obtain ⟨t, more, hevents⟩ := recorded hpath hmoved (System.mem_eventsOf.mpr hstored)
  obtain ⟨idle, later, rfl, -, hlater⟩ := @System.eventsOf_split _ _ _ [] _ _ hevents
  obtain ⟨waiting, last, rfl, -, -⟩ := @System.eventsOf_split _ _ _ [] _ _ hlater
  -- The clock is read after the transfer, and the reading is stored after that.
  have hread : reached.state.clock ≤ t := by
    rw [← List.cons_append, ← List.append_assoc] at hrun
    obtain ⟨before, after, hbefore, hstep, -⟩ := System.run_split.mp hrun
    obtain ⟨_, _, _, _, _, hnow, _⟩ := System.step_run_eq_some.mp hstep
    obtain ⟨rfl, -⟩ : t = before.state.clock ∧ _ := by simpa [World.perform] using hnow
    rw [System.run_append, hreached, Option.bind_some] at hbefore
    refine (run_grows (fun call hmem => hspawn call ?_) hreached hbefore).clock
    simp only [List.mem_append, List.mem_cons] at hmem ⊢
    tauto
  have hkept : t ≤ c.state.last := by
    have hsplit : early ++ .run 0 event :: (idle ++ .run 0 ⟨.now, t⟩ ::
        (waiting ++ .run 0 ⟨.storeLast t, ()⟩ :: last)) =
        (early ++ .run 0 event :: (idle ++ .run 0 ⟨.now, t⟩ :: waiting)) ++
          .run 0 ⟨.storeLast t, ()⟩ :: last := by simp
    rw [hsplit] at hrun
    obtain ⟨before, after, hbefore, hstep, hafter⟩ := System.run_split.mp hrun
    have hnext : (guarding timeout).run (opened timeout clock task rounds rounds')
        ((early ++ .run 0 event :: (idle ++ .run 0 ⟨.now, t⟩ :: waiting)) ++
          [.run 0 ⟨.storeLast t, ()⟩]) = some after := by
      rw [System.run_append, hbefore, Option.bind_some, System.run, hstep]
      rfl
    have hlast : after.state.last = t := by
      obtain ⟨_, _, state, _, _, hstore, rfl⟩ := System.step_run_eq_some.mp hstep
      cases hstore
      rfl
    rw [← hlast]
    refine (run_grows (fun call hmem => hspawn call ?_) hnext hafter).last
    simp only [List.mem_append, List.mem_cons, List.not_mem_nil] at hmem ⊢
    tauto
  exact hread.trans hkept

/-- A request is cut off only after a look that found the stored time old: every
transfer whose time was stored before the look lies at least the timeout back. A
transfer that the handler has not recorded by then can be younger. -/
theorem idle_cut_justified {before after : List (Action (guarding timeout))}
    (hspawn : ∀ call, .spawn call ∉ before)
    (hrun : (guarding timeout).run (opened timeout clock task rounds rounds')
      (before ++ .run 1 ⟨.closeClient, ()⟩ :: after) = some c) :
    ∃ first last middle idle rest looked,
      before = first ++ .run 1 ⟨.loadLast, last⟩ ::
        (middle ++ .run 1 ⟨.since last, idle⟩ :: rest) ∧
      (guarding timeout).run (opened timeout clock task rounds rounds')
        (first ++ .run 1 ⟨.loadLast, last⟩ :: middle) = some looked ∧
      ∀ early event late reached, first = early ++ .run 0 event :: late →
        0 < movedBytes event → (∃ t, .run 0 ⟨.storeLast t, ()⟩ ∈ late) →
        (guarding timeout).run (opened timeout clock task rounds rounds') early = some reached →
        reached.state.clock + timeout ≤ looked.state.clock := by
  obtain ⟨cutting, next, hbefore, hstep, -⟩ := System.run_split.mp hrun
  obtain ⟨pre, last, idle, hidle, hevents⟩ : ∃ pre last idle, (timeout : Int) ≤ idle ∧
      System.eventsOf 1 before = pre ++ ⟨.loadLast, last⟩ :: [⟨.since last, idle⟩] := by
    have hnext : (guarding timeout).run (opened timeout clock task rounds rounds')
        (before ++ [.run 1 ⟨.closeClient, ()⟩]) = some next := by
      rw [System.run_append, hbefore, Option.bind_some, System.run, hstep]
      rfl
    have hnospawn : ∀ call, .spawn call ∉ before ++ [.run 1 ⟨.closeClient, ()⟩] := by
      intro call hmem
      simp only [List.mem_append, List.mem_singleton, reduceCtorEq, or_false] at hmem
      exact hspawn call hmem
    obtain ⟨-, rest, hpath⟩ := reaches_of_run hnospawn hnext
    rw [System.eventsOf_mid] at hpath
    exact (watch_cutStep timeout rounds').of_event hpath rfl
  obtain ⟨first, later, rfl, -, hlater⟩ := System.eventsOf_split hevents
  obtain ⟨middle, rest, rfl, -, -⟩ := @System.eventsOf_split _ _ _ [] _ _ hlater
  obtain ⟨loading, _, hloading, hload, -⟩ := System.run_split.mp hbefore
  rw [← List.cons_append, ← List.append_assoc] at hbefore
  obtain ⟨looked, _, hlooked, hsince, -⟩ := System.run_split.mp hbefore
  refine ⟨first, last, middle, idle, rest, looked, rfl, hlooked, ?_⟩
  rintro early event late reached rfl hmoved ⟨t, hstored⟩ hreached
  have hlast : reached.state.clock ≤ last := by
    obtain ⟨_, _, _, _, _, hloaded, _⟩ := System.step_run_eq_some.mp hload
    obtain ⟨rfl, -⟩ : last = loading.state.last ∧ _ := by simpa [World.perform] using hloaded
    refine clock_le_last (fun call hmem => hspawn call ?_) hreached hloading hmoved hstored
    exact List.mem_append_left _ hmem
  have hclock : idle = (looked.state.clock : Int) - last := by
    obtain ⟨_, _, _, _, _, hread, _⟩ := System.step_run_eq_some.mp hsince
    obtain ⟨h, -⟩ : idle = (looked.state.clock : Int) - last ∧ _ := by
      simpa [World.perform] using hread
    exact h
  omega

end Cut

/-- The head of the request of these runs. -/
def sentHead : Text := Http.requestHead id Http.blankedGet none

/-- The upstream takes the head of a request and then does not answer. -/
def unanswered : List (Action (guarding 20)) :=
  [.run 0 ⟨.now, (100 : Nat)⟩, .run 0 ⟨.storeLast 100, ()⟩, .run 0 ⟨.goWatch, ()⟩,
    .run 1 ⟨.newTicker 2, ()⟩, .disturb (.tick 1),
    .run 0 ⟨.write .upstream sentHead, (⟨sentHead.length, none⟩ : Written)⟩,
    .run 0 ⟨.now, (101 : Nat)⟩, .run 0 ⟨.storeLast 101, ()⟩, .disturb (.tick 21), .disturb .fire,
    .run 1 ⟨.select, Wake.tick 102⟩, .run 1 ⟨.loadLast, (101 : Nat)⟩,
    .run 1 ⟨.since 101, (21 : Int)⟩]

theorem unanswered_runs : ((guarding 20).run (opened 20 100 (.of id Http.blankedGet) 1 2)
    (unanswered ++ [.run 1 ⟨.closeClient, ()⟩])).isSome := by decide +kernel

theorem unanswered_cut :
    ∃ first last middle idle rest looked,
      unanswered = first ++ .run 1 ⟨.loadLast, last⟩ ::
        (middle ++ .run 1 ⟨.since last, idle⟩ :: rest) ∧
      (guarding 20).run (opened 20 100 (.of id Http.blankedGet) 1 2)
        (first ++ .run 1 ⟨.loadLast, last⟩ :: middle) = some looked ∧
      ∀ early event late reached, first = early ++ .run 0 event :: late →
        0 < movedBytes event → (∃ t, .run 0 ⟨.storeLast t, ()⟩ ∈ late) →
        (guarding 20).run (opened 20 100 (.of id Http.blankedGet) 1 2) early = some reached →
        reached.state.clock + 20 ≤ looked.state.clock :=
  idle_cut_justified (by simp [unanswered]) (Option.some_get unanswered_runs).symm

end SshGate.Idle
