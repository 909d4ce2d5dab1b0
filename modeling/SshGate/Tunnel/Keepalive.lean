import SshGate.Go.Ticker
import SshGate.Interaction.RelyGuarantee

/-! # The keepalive of a client

For each client that the monitor publishes, `keepalive` sends a probe every
period and drops the client when a probe fails or is not answered within one
period. It ends by itself once its client is replaced or the dialer is stopped.
What the monitor, `stop` and the peer do meanwhile disturbs the state.
-/

namespace SshGate.Tunnel.Keepalive

open Go Interaction Program

/-! ## The goroutine -/

/-- What the `select` receives: the result of the probe, or the tick of
`time.After`. -/
inductive Answer where
  | alive (ok : Bool)
  | timeout
  deriving Repr, DecidableEq

inductive Op where
  | newTicker (period : Nat)
  | receiveTick
  | getClient
  | loadDone
  /-- The goroutine that sends the request and waits for its reply. -/
  | goProbe
  /-- `time.After` -/
  | after (period : Nat)
  | select
  | stopTicker
  | closeClient
  deriving Repr, DecidableEq

@[reducible] def Op.Reply : Op → Type
  | .receiveTick => Nat
  | .getClient => Option Nat
  | .loadDone => Bool
  | .select => Answer
  | .newTicker _ | .goProbe | .after _ | .stopTicker | .closeClient => Unit

@[reducible] def sig : Signature := ⟨Op, Op.Reply⟩

abbrev Prog (α : Type) := Program sig α

abbrev act (op : Op) : Prog op.Reply := Program.perform (S := sig) op

/-- `cur != client || d.done.Load()` -/
def retired (client : Nat) (cur : Option Nat) : Prog Bool :=
  if cur ≠ some client then return true else act .loadDone

/-- The first `rounds` rounds of the loop. -/
def keepaliveLoop (client period : Nat) : (rounds : Nat) → Prog Unit
  | 0 => return ()
  | rounds + 1 => do
      let _ ← act .receiveTick
      let cur ← act .getClient
      let gone ← retired client cur
      if gone then act .stopTicker
      else do
        let _ ← act .goProbe
        let _ ← act (.after period)
        let answer ← act .select
        if answer = .alive true then keepaliveLoop client period rounds
        else do
          let _ ← act .stopTicker
          act .closeClient

def keepalive (client period rounds : Nat) : Prog Unit := do
  let _ ← act (.newTicker period)
  keepaliveLoop client period rounds

/-! ## What goes on around it -/

inductive Probe where
  | idle
  | sent (time : Nat)
  | answered (ok : Bool) (time : Nat)
  deriving Repr, DecidableEq

/-- Why the goroutine has to end: the peer does not answer any more, or the
client was replaced or the dialer stopped. -/
inductive Reason where
  | unanswered
  | retired
  deriving Repr, DecidableEq

structure World where
  clock : Nat
  /-- The time of the `go` statement. -/
  launched : Nat := clock
  /-- `d.client` -/
  current : Option Nat
  done : Bool := false
  closed : Bool := false
  deaf : Bool := false
  timer : Ticker.Phase := .absent
  /-- The tick that the goroutine has received and not acted on yet. -/
  hand : Option Nat := none
  probe : Probe := .idle
  /-- When the last answer was taken up. -/
  resumed : Nat := 0
  /-- When `time.After` fires, while a probe is awaited. -/
  deadline : Option Nat := none
  /-- Since when there is a reason to end, and which one came first. -/
  since : Option (Nat × Reason) := none
  deriving Repr, DecidableEq

namespace World

def perform : (op : Op) → World → op.Reply → Option World
  | .newTicker period, w, () =>
      if w.timer = .absent then some { w with timer := .running (.new w.clock period) } else none
  | .receiveTick, w, tick =>
      match w.timer with
      | .running ticker => (ticker.receive tick).map fun ticker =>
          { w with timer := .running ticker, hand := some tick }
      | .absent | .stopped => none
  | .getClient, w, cur => if cur = w.current then some w else none
  | .loadDone, w, done => if done = w.done then some w else none
  | .goProbe, w, () => some { w with probe := .sent w.clock }
  | .after period, w, () => some { w with deadline := some (w.clock + period), hand := none }
  | .select, w, .alive ok =>
      match w.probe with
      | .answered ok' _ =>
          if ok' ≠ ok then none
          else if ok then some { w with probe := .idle, deadline := none, resumed := w.clock }
          else some w
      | .idle | .sent _ => none
  | .select, w, .timeout =>
      match w.deadline with
      | some due => if due ≤ w.clock then some w else none
      | none => none
  | .stopTicker, w, () => some { w with timer := .stopped, hand := none }
  | .closeClient, w, () => some { w with closed := true, deadline := none }

inductive Disturbance where
  | tick (elapsed : Nat)
  | fire
  /-- The probe's request returns. -/
  | answer (ok : Bool)
  /-- From now on the peer sends no more replies. -/
  | deafen
  /-- The monitor publishes another client, or none. -/
  | replace (other : Option Nat)
  | stop
  /-- The connection is lost, or closed by `stop`. -/
  | lose
  deriving Repr, DecidableEq

def mark (w : World) (reason : Reason) : World :=
  { w with since := some (w.since.getD (w.clock, reason)) }

/-- What others do. A client that was replaced does not come back. -/
def disturb (client : Nat) (w : World) : Disturbance → Option World
  | .tick elapsed => some { w with clock := w.clock + elapsed }
  | .fire =>
      match w.timer with
      | .running ticker =>
          (ticker.fire w.clock).map fun ticker => { w with timer := .running ticker }
      | .absent | .stopped => none
  | .answer ok =>
      match w.probe with
      | .sent _ =>
          if ok = true → w.deaf = false then some { w with probe := .answered ok w.clock } else none
      | .idle | .answered _ _ => none
  | .deafen => some ({ w with deaf := true }.mark .unanswered)
  | .replace other =>
      if other ≠ some client then some ({ w with current := other }.mark .retired) else none
  | .stop => some ({ w with done := true }.mark .retired)
  | .lose => some { w with closed := true }

/-- When the goroutine can act on this tick. -/
def turn (w : World) (tick : Nat) : Nat := max tick w.resumed

/-- The client was replaced or the dialer stopped. -/
def Gone (client : Nat) (w : World) : Prop := w.current ≠ some client ∨ w.done = true

end World

/-- The goroutine of one client; its call is the number of rounds looked at. -/
@[reducible] def probing (client period : Nat) : System where
  sig := sig
  Call := Nat
  Result := Unit
  program := keepalive client period
  State := World
  Disturbance := World.Disturbance
  perform := World.perform
  disturb := World.disturb client

/-- The goroutine before its first step. -/
def launched (client period clock rounds : Nat) : Config (probing client period) where
  state := { clock, current := some client }
  threads := [(probing client period).start rounds]

/-! ## Timing -/

/-- The runtime lets the goroutine get going, act on each tick, and take up the
answer or the end of each probe within `slack`. A tick that comes before the last
answer was taken up waits until then. -/
structure Prompt (slack : Nat) (w : World) : Prop where
  start : w.timer = .absent → w.clock ≤ w.launched + slack
  waiting : ∀ ticker, w.timer = .running ticker → w.hand = none → w.deadline = none →
    w.clock ≤ w.turn ticker.owed + slack
  handling : ∀ tick, w.hand = some tick → w.clock ≤ w.turn tick + slack
  timeout : ∀ due, w.deadline = some due → w.clock ≤ due + slack
  answer : ∀ due ok time, w.deadline = some due → w.probe = .answered ok time →
    w.clock ≤ time + slack

def Probe.answer : Probe → List (Bool × Nat)
  | .answered ok time => [(ok, time)]
  | .idle | .sent _ => []

instance (slack : Nat) (w : World) : Decidable (Prompt slack w) :=
  decidable_of_iff ((w.timer = .absent → w.clock ≤ w.launched + slack) ∧
      (∀ ticker ∈ w.timer.ticker, w.hand = none → w.deadline = none →
        w.clock ≤ w.turn ticker.owed + slack) ∧
      (∀ tick ∈ w.hand.toList, w.clock ≤ w.turn tick + slack) ∧
      (∀ due ∈ w.deadline.toList, w.clock ≤ due + slack ∧
        ∀ answer ∈ w.probe.answer, w.clock ≤ answer.2 + slack)) (by
    constructor
    · rintro ⟨hstart, hwaiting, hhandling, hdue⟩
      refine ⟨hstart,
        fun ticker hticker => hwaiting ticker (by simp [hticker, Ticker.Phase.ticker]),
        fun tick htick => hhandling tick (by simp [htick]),
        fun due hdeadline => (hdue due (by simp [hdeadline])).1, ?_⟩
      intro due ok time hdeadline hprobe
      exact (hdue due (by simp [hdeadline])).2 (ok, time) (by simp [hprobe, Probe.answer])
    · rintro ⟨hstart, hwaiting, hhandling, htimeout, hanswer⟩
      refine ⟨hstart, fun ticker hticker => ?_,
        fun tick htick => hhandling tick (by simpa using htick),
        fun due hdue => ⟨htimeout due (by simpa using hdue), fun answer hmem => ?_⟩⟩
      · cases htimer : w.timer with
        | running ticker' =>
            obtain rfl : ticker = ticker' := by simpa [htimer, Ticker.Phase.ticker] using hticker
            exact hwaiting ticker htimer
        | _ => simp [htimer, Ticker.Phase.ticker] at hticker
      · cases hprobe : w.probe with
        | answered ok time =>
            obtain rfl : answer = (ok, time) := by simpa [hprobe, Probe.answer] using hmem
            exact hanswer due ok time (by simpa using hdue) hprobe
        | _ => simp [hprobe, Probe.answer] at hmem)

section Timing

variable (client period slack : Nat)

/-- A tick that comes soon enough after the reason to end. -/
def Soon (tick : Nat) (w : World) : Prop :=
  ∀ t reason, w.since = some (t, reason) → tick ≤ t + period + slack ∨
    reason = .retired ∧ tick ≤ t + 2 * period + 2 * slack

/-- A probe that ends soon enough after the reason to end. -/
def Ends (due : Nat) (w : World) : Prop :=
  ∀ t reason, w.since = some (t, reason) → due ≤ t + period + slack ∨
    reason = .unanswered ∧ due ≤ t + 2 * period + 2 * slack

/-- What holds at any moment of a prompt run. -/
structure Sound (w : World) : Prop where
  launched_le : w.launched ≤ w.clock
  ticker : ∀ ticker, w.timer = .running ticker → ticker.Sound w.clock ∧ ticker.period = period
  hand_le : ∀ tick, w.hand = some tick → tick ≤ w.clock
  resumed_le : w.resumed ≤ w.clock
  deadline_le : ∀ due, w.deadline = some due → due ≤ w.clock + period
  answer_le : ∀ ok time, w.probe = .answered ok time → time ≤ w.clock
  since_le : ∀ t reason, w.since = some (t, reason) → w.launched ≤ t ∧ t ≤ w.clock
  since_none : w.since = none → ¬ w.Gone client ∧ w.deaf = false
  retired : ∀ t, w.since = some (t, .retired) → w.Gone client
  unanswered : ∀ t, w.since = some (t, .unanswered) →
    w.deaf = true ∧ ∀ time, w.probe = .answered true time → time ≤ t
  absent : w.timer = .absent → w.hand = none ∧ w.deadline = none
  awaiting : w.deadline ≠ none → w.hand = none
  stopped : w.timer = .stopped → w.Gone client ∨ w.deadline ≠ none ∨ w.closed = true
  next : ∀ ticker, w.timer = .running ticker → w.hand = none → w.deadline = none →
    Soon period slack (w.turn ticker.owed) w
  held : ∀ tick, w.hand = some tick → Soon period slack (w.turn tick) w
  ends : ∀ due, w.deadline = some due → Ends period slack due w

end Timing

section Steps

variable {client period slack : Nat} {w w' : World}

/-- What the goroutine relies on. -/
structure Waits (client : Nat) (w w' : World) : Prop where
  clock : w.clock ≤ w'.clock
  hand : w'.hand = w.hand
  resumed : w'.resumed = w.resumed
  deadline : w'.deadline = w.deadline
  absent : w'.timer = .absent ↔ w.timer = .absent
  stopped : w'.timer = .stopped ↔ w.timer = .stopped
  since : w'.since = w.since ∨ ∃ t reason, w'.since = some (t, reason) ∧ w.clock ≤ t
  done : w.done = true → w'.done = true
  gone : w.Gone client → w'.Gone client

theorem Waits.refl (client : Nat) (w : World) : Waits client w w :=
  ⟨le_rfl, rfl, rfl, rfl, Iff.rfl, Iff.rfl, .inl rfl, id, id⟩

theorem Waits.trans {w'' : World} (h : Waits client w w') (h' : Waits client w' w'') :
    Waits client w w'' where
  clock := h.clock.trans h'.clock
  hand := h'.hand.trans h.hand
  resumed := h'.resumed.trans h.resumed
  deadline := h'.deadline.trans h.deadline
  absent := h'.absent.trans h.absent
  stopped := h'.stopped.trans h.stopped
  since := by
    rcases h'.since with heq | ⟨t, reason, hsince, hle⟩
    · rcases h.since with heq' | ⟨t, reason, hsince, hle⟩
      · exact .inl (heq.trans heq')
      · exact .inr ⟨t, reason, heq.trans hsince, hle⟩
    · exact .inr ⟨t, reason, hsince, h.clock.trans hle⟩
  done := fun hdone => h'.done (h.done hdone)
  gone := fun hgone => h'.gone (h.gone hgone)

theorem Waits.turn (h : Waits client w w') (tick : Nat) : w'.turn tick = w.turn tick := by
  rw [World.turn, World.turn, h.resumed]

theorem mark_since_cases {reason reason' : Reason} {t : Nat}
    (h : (w.mark reason).since = some (t, reason')) :
    w.since = some (t, reason') ∨ w.since = none ∧ t = w.clock ∧ reason' = reason := by
  cases hsince : w.since with
  | none =>
      simp only [World.mark, hsince, Option.getD_none, Option.some.injEq, Prod.mk.injEq] at h
      exact .inr ⟨rfl, h.1.symm, h.2.symm⟩
  | some first =>
      simp only [World.mark, hsince, Option.getD_some] at h
      exact .inl h

theorem Soon.mark {tick : Nat} {reason : Reason} (h : Soon period slack tick w)
    (hle : tick ≤ w.clock + period) : Soon period slack tick (w.mark reason) := by
  intro t reason' hsince
  rcases mark_since_cases hsince with hold | ⟨-, rfl, rfl⟩
  · exact h t reason' hold
  · exact .inl (by omega)

theorem Ends.mark {due : Nat} {reason : Reason} (h : Ends period slack due w)
    (hle : due ≤ w.clock + period) : Ends period slack due (w.mark reason) := by
  intro t reason' hsince
  rcases mark_since_cases hsince with hold | ⟨-, rfl, rfl⟩
  · exact h t reason' hold
  · exact .inl (by omega)

theorem Sound.turn_le (hw : Sound client period slack w) {tick : Nat}
    (htick : tick ≤ w.clock + period) : w.turn tick ≤ w.clock + period :=
  max_le htick (hw.resumed_le.trans (Nat.le_add_right ..))

/-- A reason to end that comes up leaves time enough. -/
theorem Sound.mark (hw : Sound client period slack w) {deaf done : Bool} {current : Option Nat}
    {reason : Reason} (hgone : w.Gone client → ({ w with deaf, current, done } : World).Gone client)
    (hretired : reason = .retired → ({ w with deaf, current, done } : World).Gone client)
    (hdone : w.done = true → done = true) (hdeaf : w.deaf = true → deaf = true)
    (hunanswered : reason = .unanswered → deaf = true) :
    Sound client period slack (({ w with deaf, current, done } : World).mark reason) ∧
      Waits client w (({ w with deaf, current, done } : World).mark reason) := by
  constructor
  · exact {
      launched_le := hw.launched_le
      ticker := hw.ticker
      hand_le := hw.hand_le
      resumed_le := hw.resumed_le
      deadline_le := hw.deadline_le
      answer_le := hw.answer_le
      since_le := fun t reason' hsince => by
        rcases mark_since_cases hsince with hold | ⟨-, rfl, -⟩
        · exact hw.since_le t reason' hold
        · exact ⟨hw.launched_le, le_rfl⟩
      since_none := by rintro ⟨⟩
      retired := fun t hsince => by
        rcases mark_since_cases hsince with hold | ⟨-, -, rfl⟩
        · exact hgone (hw.retired t hold)
        · exact hretired rfl
      unanswered := fun t hsince => by
        rcases mark_since_cases hsince with hold | ⟨-, rfl, rfl⟩
        · obtain ⟨hwas, hanswers⟩ := hw.unanswered t hold
          exact ⟨hdeaf hwas, hanswers⟩
        · exact ⟨hunanswered rfl, fun time => hw.answer_le true time⟩
      absent := hw.absent
      awaiting := hw.awaiting
      stopped := fun hstopped => (hw.stopped hstopped).imp_left hgone
      next := fun ticker hticker hhand hdeadline => by
        obtain ⟨hsound, rfl⟩ := hw.ticker ticker hticker
        exact Soon.mark (hw.next ticker hticker hhand hdeadline) (hw.turn_le hsound.owed_le)
      held := fun tick htick => Soon.mark (hw.held tick htick)
        (hw.turn_le ((hw.hand_le tick htick).trans (Nat.le_add_right ..)))
      ends := fun due hdue => Ends.mark (hw.ends due hdue) (hw.deadline_le due hdue) }
  · refine ⟨le_rfl, rfl, rfl, rfl, Iff.rfl, Iff.rfl, ?_, hdone, hgone⟩
    cases hsince : w.since with
    | none => exact .inr ⟨w.clock, reason, by simp [World.mark], le_rfl⟩
    | some first => exact .inl (by simp [World.mark])

theorem Sound.later (hw : Sound client period slack w) (elapsed : Nat) :
    Sound client period slack { w with clock := w.clock + elapsed } where
  launched_le := hw.launched_le.trans (Nat.le_add_right ..)
  ticker := fun ticker hticker =>
    ⟨(hw.ticker ticker hticker).1.mono (Nat.le_add_right ..), (hw.ticker ticker hticker).2⟩
  hand_le := fun tick htick => (hw.hand_le tick htick).trans (Nat.le_add_right ..)
  resumed_le := hw.resumed_le.trans (Nat.le_add_right ..)
  deadline_le := fun due hdue => by
    have hle := hw.deadline_le due hdue
    change due ≤ w.clock + elapsed + period
    omega
  answer_le := fun ok time h => (hw.answer_le ok time h).trans (Nat.le_add_right ..)
  since_le := fun t reason h =>
    ⟨(hw.since_le t reason h).1, (hw.since_le t reason h).2.trans (Nat.le_add_right ..)⟩
  since_none := hw.since_none
  retired := hw.retired
  unanswered := hw.unanswered
  absent := hw.absent
  awaiting := hw.awaiting
  stopped := hw.stopped
  next := hw.next
  held := hw.held
  ends := hw.ends

theorem disturb_answer {ok : Bool} (h : World.disturb client w (.answer ok) = some w') :
    (∃ time, w.probe = .sent time) ∧ (ok = true → w.deaf = false) ∧
      w' = { w with probe := .answered ok w.clock } := by
  simp only [World.disturb] at h
  split at h
  next time hprobe =>
    obtain ⟨hheard, heq⟩ := Option.ite_none_right_eq_some.mp h
    exact ⟨⟨time, hprobe⟩, hheard, (Option.some.inj heq).symm⟩
  next => cases h
  next => cases h

theorem sound_of_disturb {d : World.Disturbance} (hw : Sound client period slack w)
    (hdisturb : World.disturb client w d = some w') :
    Sound client period slack w' ∧ Waits client w w' := by
  cases d with
  | tick elapsed =>
      cases hdisturb
      exact ⟨hw.later elapsed,
        ⟨Nat.le_add_right .., rfl, rfl, rfl, Iff.rfl, Iff.rfl, .inl rfl, id, id⟩⟩
  | fire =>
      simp only [World.disturb] at hdisturb
      split at hdisturb
      next ticker hticker =>
        obtain ⟨ticker', hfire, rfl⟩ := Option.map_eq_some_iff.mp hdisturb
        obtain ⟨hsound, hperiod⟩ := hw.ticker ticker hticker
        obtain ⟨hsound', howed, hperiod'⟩ := hsound.fire hfire
        refine ⟨{ hw with ticker := ?_, absent := by rintro ⟨⟩, stopped := by rintro ⟨⟩,
                          next := ?_ },
          ⟨le_rfl, rfl, rfl, rfl, by simp [hticker], by simp [hticker], .inl rfl, id, id⟩⟩
        · rintro _ ⟨⟩
          exact ⟨hsound', hperiod'.trans hperiod⟩
        · rintro _ ⟨⟩ hhand hdeadline
          rw [howed]
          exact hw.next ticker hticker hhand hdeadline
      next => cases hdisturb
      next => cases hdisturb
  | answer ok =>
      obtain ⟨-, hheard, rfl⟩ := disturb_answer hdisturb
      refine ⟨{ hw with answer_le := ?_, unanswered := ?_ }, ⟨le_rfl, rfl, rfl, rfl, Iff.rfl,
        Iff.rfl, .inl rfl, id, id⟩⟩
      · rintro _ _ ⟨⟩
        exact le_rfl
      · intro t hsince
        obtain ⟨hdeaf, -⟩ := hw.unanswered t hsince
        refine ⟨hdeaf, ?_⟩
        rintro _ ⟨⟩
        exact absurd hdeaf (by simp [hheard rfl])
  | deafen =>
      cases hdisturb
      exact hw.mark id (by rintro ⟨⟩) id (fun _ => rfl) (fun _ => rfl)
  | replace other =>
      obtain ⟨hother, rfl⟩ := by simpa [World.disturb] using hdisturb
      exact hw.mark (fun _ => .inl hother) (fun _ => .inl hother) id id (by rintro ⟨⟩)
  | stop =>
      cases hdisturb
      exact hw.mark (fun _ => .inr rfl) (fun _ => .inr rfl) (fun _ => rfl) id (by rintro ⟨⟩)
  | lose =>
      cases hdisturb
      exact ⟨{ hw with stopped := fun _ => .inr (.inr rfl) },
        ⟨le_rfl, rfl, rfl, rfl, Iff.rfl, Iff.rfl, .inl rfl, id, id⟩⟩

/-- A tick is at hand, and unless `excuse` holds its turn came before the client was
replaced or the dialer stopped. -/
structure Held (excuse : World → Prop) (tick : Nat) (w : World) : Prop where
  hand : w.hand = some tick
  le : w.turn tick ≤ w.clock
  deadline : w.deadline = none
  retired : ∀ t, w.since = some (t, .retired) → w.turn tick ≤ t ∨ excuse w

/-- When the goroutine may perform an action. -/
def Allowed (client period : Nat) (w : World) : Op → Prop
  | .newTicker p => p = period
  | .receiveTick => w.hand = none ∧ w.deadline = none
  | .after p => p = period ∧ ∃ tick, Held (fun _ => False) tick w
  | .stopTicker => w.Gone client ∨ w.deadline ≠ none
  | .select => w.deadline ≠ none ∧ w.timer ≠ .stopped
  | .closeClient => w.timer = .stopped
  | .getClient | .loadDone | .goProbe => True

/-- After a good answer the next tick comes soon enough. -/
theorem Sound.continue (hw : Sound client period slack w) (hprompt : Prompt slack w)
    {due time : Nat} (hdeadline : w.deadline = some due) (hprobe : w.probe = .answered true time)
    {ticker : Ticker} (hticker : w.timer = .running ticker) :
    Soon period slack (max ticker.owed w.clock) w := by
  intro t reason hsince
  have hturn : max ticker.owed w.clock ≤ w.clock + period := by
    obtain ⟨hsound, rfl⟩ := hw.ticker ticker hticker
    exact max_le hsound.owed_le (Nat.le_add_right ..)
  have hclock := hprompt.timeout due hdeadline
  cases reason with
  | unanswered =>
      have hbefore := (hw.unanswered t hsince).2 time hprobe
      have htaken := hprompt.answer due true time hdeadline hprobe
      exact .inl (hturn.trans (by omega))
  | retired =>
      obtain hdue | ⟨⟨⟩, -⟩ := hw.ends due hdeadline t _ hsince
      exact .inr ⟨rfl, hturn.trans (by omega)⟩

/-- A probe that is sent for a tick in time ends in time. -/
theorem Held.ends {tick : Nat} (h : Held (fun _ => False) tick w)
    (hw : Sound client period slack w) (hprompt : Prompt slack w) :
    Ends period slack (w.clock + period) w := by
  intro t reason hsince
  have hclock := hprompt.handling tick h.hand
  cases reason with
  | unanswered =>
      obtain hsoon | ⟨⟨⟩, -⟩ := hw.held tick h.hand t _ hsince
      exact .inr ⟨rfl, by omega⟩
  | retired =>
      obtain hbefore | hfalse := h.retired t hsince
      · exact .inl (by omega)
      · exact hfalse.elim

theorem perform_select {answer : Answer} (hselect : World.perform .select w answer = some w') :
    answer = .alive true ∧ (∃ time, w.probe = .answered true time) ∧
        w' = { w with probe := .idle, deadline := none, resumed := w.clock } ∨
      answer ≠ .alive true ∧ w' = w ∧ ((∃ time, w.probe = .answered false time) ∨
        ∃ due, w.deadline = some due ∧ due ≤ w.clock) := by
  cases answer with
  | alive ok =>
      simp only [World.perform] at hselect
      split at hselect
      next ok' time hprobe =>
        cases ok with
        | true =>
            obtain ⟨rfl, rfl⟩ : ok' = true ∧ _ = w' := by simpa using hselect
            exact .inl ⟨rfl, ⟨time, hprobe⟩, rfl⟩
        | false =>
            obtain ⟨rfl, rfl⟩ : ok' = false ∧ w = w' := by simpa using hselect
            exact .inr ⟨by simp, rfl, .inl ⟨time, hprobe⟩⟩
      next => cases hselect
      next => cases hselect
  | timeout =>
      simp only [World.perform] at hselect
      split at hselect
      next due hdue =>
        obtain ⟨hclock, rfl⟩ := by simpa using hselect
        exact .inr ⟨by simp, rfl, .inr ⟨due, hdue, hclock⟩⟩
      next => cases hselect

theorem sound_of_perform {op : Op} {reply : op.Reply} (hw : Sound client period slack w)
    (hprompt : Prompt slack w) (hallowed : Allowed client period w op)
    (hperform : World.perform op w reply = some w') : Sound client period slack w' := by
  cases op with
  | newTicker p =>
      obtain rfl : p = period := hallowed
      obtain ⟨habsent, rfl⟩ := by simpa [World.perform] using hperform
      have hclock := hprompt.start habsent
      refine { hw with ticker := ?_, absent := by rintro ⟨⟩, stopped := by rintro ⟨⟩, next := ?_ }
      · rintro _ ⟨⟩
        exact ⟨Ticker.sound_new .., rfl⟩
      · rintro _ ⟨⟩ - - t reason hsince
        have hlaunched := (hw.since_le t reason hsince).1
        rw [Ticker.owed_new]
        exact .inl ((hw.turn_le le_rfl).trans (by omega))
  | receiveTick =>
      obtain ⟨hhand, hdeadline⟩ : w.hand = none ∧ w.deadline = none := hallowed
      simp only [World.perform] at hperform
      split at hperform
      next ticker hticker =>
        obtain ⟨ticker', hreceive, rfl⟩ := Option.map_eq_some_iff.mp hperform
        obtain ⟨hsound, hperiod⟩ := hw.ticker ticker hticker
        have howed := hw.next ticker hticker hhand hdeadline
        obtain ⟨hsound', hnext, hperiod'⟩ := hsound.receive hreceive
        refine { hw with ticker := ?_, hand_le := ?_, absent := by rintro ⟨⟩, awaiting := ?_,
                         stopped := by rintro ⟨⟩, next := ?_, held := ?_ }
        · rintro _ ⟨⟩
          exact ⟨hsound', hperiod'.trans hperiod⟩
        · rintro _ ⟨⟩
          exact hsound.received_le hreceive
        · exact fun hne => absurd hdeadline hne
        · rintro _ ⟨⟩ ⟨⟩
        · rintro _ ⟨⟩
          rw [hnext]
          exact howed
      next => cases hperform
      next => cases hperform
  | getClient | loadDone =>
      obtain ⟨-, rfl⟩ := by simpa [World.perform] using hperform
      exact hw
  | goProbe =>
      cases hperform
      refine { hw with answer_le := by rintro _ _ ⟨⟩, unanswered := fun t hsince => ?_ }
      exact ⟨(hw.unanswered t hsince).1, by rintro _ ⟨⟩⟩
  | after p =>
      obtain ⟨rfl, tick, hheld⟩ := hallowed
      cases hperform
      refine { hw with hand_le := by rintro _ ⟨⟩, deadline_le := ?_, absent := ?_,
                       awaiting := fun _ => rfl, stopped := ?_, next := by rintro _ _ _ ⟨⟩,
                       held := by rintro _ ⟨⟩, ends := ?_ }
      · rintro _ ⟨⟩
        exact le_rfl
      · exact fun habsent => absurd (hw.absent habsent).1 (by simp [hheld.hand])
      · exact fun _ => .inr (.inl (by simp))
      · rintro _ ⟨⟩
        exact hheld.ends hw hprompt
  | select =>
      rcases perform_select hperform with ⟨-, ⟨time, hprobe⟩, rfl⟩ | ⟨-, rfl, -⟩
      · refine { hw with resumed_le := le_rfl, deadline_le := by rintro _ ⟨⟩,
                         answer_le := by rintro _ _ ⟨⟩, unanswered := fun t hsince => ?_,
                         absent := fun habsent => ?_, awaiting := fun hne => absurd rfl hne,
                         stopped := ?_, next := ?_, held := ?_, ends := by rintro _ ⟨⟩ }
        · exact ⟨(hw.unanswered t hsince).1, by rintro _ ⟨⟩⟩
        · exact ⟨(hw.absent habsent).1, rfl⟩
        · exact fun hstopped => absurd hstopped hallowed.2
        · intro ticker hticker _ _
          obtain ⟨due, hdue⟩ := Option.ne_none_iff_exists'.mp hallowed.1
          exact hw.continue hprompt hdue hprobe hticker
        · intro tick htick
          cases (hw.awaiting hallowed.1).symm.trans htick
      · exact hw
  | stopTicker =>
      cases hperform
      refine { hw with ticker := by rintro _ ⟨⟩, hand_le := by rintro _ ⟨⟩,
                       absent := by rintro ⟨⟩, awaiting := fun _ => rfl, stopped := ?_,
                       next := by rintro _ ⟨⟩, held := by rintro _ ⟨⟩ }
      exact fun _ => hallowed.imp_right .inl
  | closeClient =>
      have hstopped : w.timer = .stopped := hallowed
      cases hperform
      refine { hw with deadline_le := by rintro _ ⟨⟩, absent := ?_, awaiting := ?_,
                       stopped := fun _ => .inr (.inr rfl), next := ?_, ends := by rintro _ ⟨⟩ }
      · exact fun habsent => absurd (hstopped.symm.trans habsent) (by simp)
      · exact fun hne => absurd rfl hne
      · exact fun ticker hticker => absurd (hstopped.symm.trans hticker) (by simp)

end Steps

/-! ## The goroutine keeps to its part -/

def discipline (client period slack : Nat) :
    RelyGuarantee (probing client period) (Prompt slack) where
  inv := Sound client period slack
  rely
    | 0 => Waits client
    | _ => fun _ _ => True
  guard
    | 0 => fun _ w op => Allowed client period w op
    | _ => fun _ _ _ => False
  post := fun _ _ _ _ => True
  refl := by
    intro i w
    rcases i with _ | i
    · exact Waits.refl client w
    · trivial
  trans := by
    intro i a b c hab hbc
    rcases i with _ | i
    · exact hab.trans hbc
    · trivial
  disturb := by
    intro w d w' _ _ hw hdisturb
    obtain ⟨hsound, hwaits⟩ := sound_of_disturb hw hdisturb
    refine ⟨hsound, fun i => ?_⟩
    rcases i with _ | i
    · exact hwaits
    · trivial
  perform := by
    intro j history op w reply w' hprompt _ hw hguard hperform
    rcases j with _ | j
    · refine ⟨sound_of_perform hw hprompt hguard hperform, fun i hi => ?_⟩
      rcases i with _ | i
      · exact absurd rfl hi
      · trivial
    · exact hguard.elim

section Program

variable {client period slack : Nat} {history : List (Event sig)} {w w' : World}

theorem Held.of_waits {excuse : World → Prop} {tick : Nat} (h : Held excuse tick w)
    (hwaits : Waits client w w') (hexcuse : excuse w → excuse w') : Held excuse tick w' where
  hand := hwaits.hand.trans h.hand
  le := by
    rw [hwaits.turn]
    exact h.le.trans hwaits.clock
  deadline := hwaits.deadline.trans h.deadline
  retired := by
    intro t hsince
    rw [hwaits.turn]
    rcases hwaits.since with heq | ⟨t', reason, hnew, hle⟩
    · exact (h.retired t (heq ▸ hsince)).imp_right hexcuse
    · -- The reason came up while the tick was at hand.
      cases hnew.symm.trans hsince
      exact .inl (h.le.trans hle)

theorem Held.excuse_imp {excuse excuse' : World → Prop} {tick : Nat} (h : Held excuse tick w)
    (himp : excuse w → excuse' w) : Held excuse' tick w :=
  { h with retired := fun t hsince => (h.retired t hsince).imp_right himp }

/-- The ticker runs. -/
def Running (w : World) : Prop := w.timer ≠ .absent ∧ w.timer ≠ .stopped

theorem Running.of_waits (h : Running w) (hwaits : Waits client w w') : Running w' :=
  ⟨fun heq => h.1 (hwaits.absent.mp heq), fun heq => h.2 (hwaits.stopped.mp heq)⟩

/-- The rest of the program keeps to the part of the goroutine. -/
abbrev Keeping (client period slack : Nat) (history : List (Event sig)) (w : World)
    (p : Prog Unit) : Prop :=
  AlwaysIn World.perform ((discipline client period slack).others 0)
    ((discipline client period slack).guard 0) (fun _ _ _ => True) history w p

theorem Keeping.perform {op : Op} {next : op.Reply → Prog Unit}
    (h : ∀ w₁, Waits client w w₁ → Sound client period slack w₁ → Allowed client period w₁ op ∧
      ∀ reply w₂, World.perform op w₁ reply = some w₂ →
        Keeping client period slack (history ++ [⟨op, reply⟩]) w₂ (next reply)) :
    Keeping client period slack history w (act op >>= next) :=
  AlwaysIn.perform fun w₁ hothers => h w₁ hothers.1 hothers.2.1

theorem keeping_retire (hgone : w.Gone client) :
    Keeping client period slack history w (act .stopTicker) :=
  fun _ hothers => ⟨.inl (hothers.1.gone hgone), fun _ _ _ => trivial⟩

/-- The probe failed: the ticker is stopped and the client closed. -/
theorem keeping_drop (hdeadline : w.deadline ≠ none) :
    Keeping client period slack history w (do
      let _ ← act .stopTicker
      act .closeClient) := by
  refine Keeping.perform fun w₁ hwaits₁ _ => ⟨?_, fun _ w₂ hstop => ?_⟩
  · exact .inr (hwaits₁.deadline ▸ hdeadline)
  · cases hstop
    exact fun _ hothers => ⟨hothers.1.stopped.mpr rfl, fun _ _ _ => trivial⟩

/-- From the check on: the tick came before the client was replaced or the dialer
stopped, as far as the check can tell. -/
theorem keeping_probe {tick : Nat} {next : Answer → Prog Unit}
    (hheld : Held (fun _ => False) tick w) (hrunning : Running w)
    (hnext : ∀ history answer w', Running w' → w'.hand = none →
      (answer = .alive true ∧ w'.deadline = none ∨ answer ≠ .alive true ∧ w'.deadline ≠ none) →
      Keeping client period slack history w' (next answer)) :
    Keeping client period slack history w (do
      let _ ← act .goProbe
      let _ ← act (.after period)
      let answer ← act .select
      next answer) := by
  refine Keeping.perform fun w₁ hwaits₁ _ => ⟨trivial, fun _ w₂ hgo => ?_⟩
  have hheld₁ := hheld.of_waits hwaits₁ id
  have hrunning₁ := hrunning.of_waits hwaits₁
  cases hgo
  have hheld₂ : Held (fun _ => False) tick { w₁ with probe := .sent w₁.clock } :=
    ⟨hheld₁.hand, hheld₁.le, hheld₁.deadline, hheld₁.retired⟩
  refine Keeping.perform fun w₃ hwaits₃ _ => ⟨⟨rfl, tick, hheld₂.of_waits hwaits₃ id⟩,
    fun _ w₄ hafter => ?_⟩
  have hrunning₂ : Running { w₁ with probe := .sent w₁.clock } := hrunning₁
  have hrunning₃ := hrunning₂.of_waits hwaits₃
  cases hafter
  refine Keeping.perform fun w₅ hwaits₅ _ => ?_
  have hdeadline : w₅.deadline ≠ none := by
    rw [hwaits₅.deadline]
    simp
  have hrunning₄ : Running { w₃ with deadline := some (w₃.clock + period), hand := none } :=
    hrunning₃
  have hrunning₅ := hrunning₄.of_waits hwaits₅
  refine ⟨⟨hdeadline, hrunning₅.2⟩, fun answer w₆ hselect => ?_⟩
  rcases perform_select hselect with ⟨hanswer, -, rfl⟩ | ⟨hanswer, rfl, -⟩
  · exact hnext _ answer _ hrunning₅ hwaits₅.hand (.inl ⟨hanswer, rfl⟩)
  · exact hnext _ answer _ hrunning₅ hwaits₅.hand (.inr ⟨hanswer, hdeadline⟩)

theorem keepaliveLoop_keeping (rounds : Nat) (hrunning : Running w) (hhand : w.hand = none)
    (hdeadline : w.deadline = none) :
    Keeping client period slack history w (keepaliveLoop client period rounds) := by
  induction rounds generalizing history w with
  | zero => trivial
  | succ rounds ih =>
      refine Keeping.perform fun w₁ hwaits₁ hsound₁ => ?_
      have hhand₁ := hwaits₁.hand.trans hhand
      have hdeadline₁ := hwaits₁.deadline.trans hdeadline
      refine ⟨⟨hhand₁, hdeadline₁⟩, fun tick w₂ hreceive => ?_⟩
      obtain ⟨hheld₂, hrunning₂⟩ : Held (World.Gone client) tick w₂ ∧ Running w₂ := by
        simp only [World.perform] at hreceive
        split at hreceive
        next ticker hticker =>
          obtain ⟨ticker', hticker', rfl⟩ := Option.map_eq_some_iff.mp hreceive
          have hle := (hsound₁.ticker ticker hticker).1.received_le hticker'
          exact ⟨⟨rfl, max_le hle hsound₁.resumed_le, hdeadline₁,
            fun t hsince => .inr (hsound₁.retired t hsince)⟩, by rintro ⟨⟩, by rintro ⟨⟩⟩
        next => cases hreceive
        next => cases hreceive
      refine Keeping.perform fun w₃ hwaits₃ _ => ⟨trivial, fun cur w₄ hget => ?_⟩
      obtain ⟨rfl, rfl⟩ := by simpa [World.perform] using hget
      have hheld₃ := hheld₂.of_waits hwaits₃ hwaits₃.gone
      have hrunning₃ := hrunning₂.of_waits hwaits₃
      unfold retired
      split
      next hcur => exact keeping_retire (.inl hcur)
      next hcur =>
        have hheld₃ : Held (fun w => w.done = true) tick w₃ :=
          hheld₃.excuse_imp fun hgone => hgone.resolve_left hcur
        refine Keeping.perform fun w₄ hwaits₄ _ => ⟨trivial, fun done w₅ hload => ?_⟩
        obtain ⟨rfl, rfl⟩ := by simpa [World.perform] using hload
        have hheld₄ := hheld₃.of_waits hwaits₄ hwaits₄.done
        split
        next hdone => exact keeping_retire (.inr hdone)
        next hdone =>
          refine keeping_probe (hheld₄.excuse_imp hdone) (hrunning₃.of_waits hwaits₄) ?_
          rintro history answer w₆ hrunning₆ hhand₆ hcase
          split
          next hanswer =>
            obtain ⟨-, hnone⟩ | ⟨hne, -⟩ := hcase
            · exact ih hrunning₆ hhand₆ hnone
            · exact absurd hanswer hne
          next hanswer =>
            obtain ⟨heq, -⟩ | ⟨-, hsome⟩ := hcase
            · exact absurd heq hanswer
            · exact keeping_drop hsome

theorem keepalive_keeping (rounds : Nat) (hhand : w.hand = none) (hdeadline : w.deadline = none) :
    Keeping client period slack [] w (keepalive client period rounds) := by
  refine Keeping.perform fun w₁ hwaits₁ _ => ⟨rfl, fun _ w₂ hnew => ?_⟩
  obtain ⟨-, rfl⟩ := by simpa [World.perform] using hnew
  exact keepaliveLoop_keeping rounds ⟨by rintro ⟨⟩, by rintro ⟨⟩⟩ (hwaits₁.hand.trans hhand)
    (hwaits₁.deadline.trans hdeadline)

end Program

/-! ## How long a client is kept that has to go -/

section Bound

variable {client period slack clock rounds : Nat} {schedule : List (Action (probing client period))}
  {c : Config (probing client period)}

theorem launched_assured :
    (discipline client period slack).Assured (launched client period clock rounds) := by
  constructor
  · exact {
      launched_le := le_rfl
      ticker := by rintro _ ⟨⟩
      hand_le := by rintro _ ⟨⟩
      resumed_le := Nat.zero_le _
      deadline_le := by rintro _ ⟨⟩
      answer_le := by rintro _ _ ⟨⟩
      since_le := by rintro _ _ ⟨⟩
      since_none := fun _ => ⟨by simp [World.Gone, launched], rfl⟩
      retired := by rintro _ ⟨⟩
      unanswered := by rintro _ ⟨⟩
      absent := fun _ => ⟨rfl, rfl⟩
      awaiting := fun _ => rfl
      stopped := by rintro ⟨⟩
      next := by rintro _ ⟨⟩
      held := by rintro _ ⟨⟩
      ends := by rintro _ ⟨⟩ }
  · intro i thread hthread
    rcases i with _ | i
    · cases hthread
      exact ⟨_, (discipline client period slack).refl 0 _, keepalive_keeping rounds rfl rfl⟩
    · cases hthread

/-- Where the goroutine still has something to do, it is not late. -/
theorem Sound.clock_le {w : World} (hw : Sound client period slack w) (hprompt : Prompt slack w)
    {t : Nat} {reason : Reason} (hsince : w.since = some (t, reason))
    (hbusy : w.timer ≠ .stopped ∨ w.deadline ≠ none) :
    w.clock ≤ t + 2 * period + 3 * slack := by
  have hsoon : ∀ {tick}, Soon period slack tick w → w.clock ≤ tick + slack →
      w.clock ≤ t + 2 * period + 3 * slack := by
    intro tick hsoon hclock
    rcases hsoon t reason hsince with hle | ⟨-, hle⟩ <;> omega
  cases hdeadline : w.deadline with
  | some due =>
      have hclock := hprompt.timeout due hdeadline
      rcases hw.ends due hdeadline t reason hsince with hle | ⟨-, hle⟩ <;> omega
  | none =>
      cases htimer : w.timer with
      | absent =>
          have hclock := hprompt.start htimer
          have hlaunched := (hw.since_le t reason hsince).1
          omega
      | running ticker =>
          cases hhand : w.hand with
          | none =>
              exact hsoon (hw.next ticker htimer hhand hdeadline)
                (hprompt.waiting ticker htimer hhand hdeadline)
          | some tick => exact hsoon (hw.held tick hhand) (hprompt.handling tick hhand)
      | stopped => exact absurd hbusy (by simp [htimer, hdeadline])

/-- Two periods and three times the slack of the runtime after the peer stopped
answering, the client was replaced or the dialer was stopped, the goroutine has
stopped its ticker; a client that is still the dialer's is closed then. -/
theorem keepalive_ends_in_time (hspawn : ∀ call, .spawn call ∉ schedule)
    (hrun : (probing client period).run (launched client period clock rounds) schedule = some c)
    (hprompt : System.Throughout (fun c => Prompt slack c.state)
      (launched client period clock rounds) schedule)
    {t : Nat} {reason : Reason} (hsince : c.state.since = some (t, reason))
    (hlate : t + 2 * period + 3 * slack < c.state.clock) :
    c.state.timer = .stopped ∧
      (c.state.current = some client → c.state.done = false → c.state.closed = true) := by
  have hassured := RelyGuarantee.run_assured launched_assured hprompt
    (fun _ call hmem => absurd hmem (hspawn call)) hrun
  have hsound : Sound client period slack c.state := hassured.inv
  have hidle : c.state.timer = .stopped ∧ c.state.deadline = none := by
    by_contra hbusy
    have hle := hsound.clock_le (hprompt.last hrun) hsince (by tauto)
    omega
  refine ⟨hidle.1, fun hcurrent hdone => ?_⟩
  rcases hsound.stopped hidle.1 with hgone | hdeadline | hclosed
  · simp [World.Gone, hcurrent, hdone] at hgone
  · exact absurd hidle.2 hdeadline
  · exact hclosed

end Bound

/-- The peer falls silent at once: the first probe is not answered. -/
def silenced : List (Action (probing 7 10)) :=
  [.run 0 ⟨.newTicker 10, ()⟩, .disturb .deafen, .disturb (.tick 10), .disturb .fire,
    .run 0 ⟨.receiveTick, (10 : Nat)⟩, .run 0 ⟨.getClient, some 7⟩, .run 0 ⟨.loadDone, false⟩,
    .run 0 ⟨.goProbe, ()⟩, .run 0 ⟨.after 10, ()⟩, .disturb (.tick 10),
    .run 0 ⟨.select, Answer.timeout⟩, .run 0 ⟨.stopTicker, ()⟩, .run 0 ⟨.closeClient, ()⟩,
    .disturb (.tick 4)]

theorem silenced_runs : ((probing 7 10).run (launched 7 10 0 2) silenced).isSome := by
  decide +kernel

theorem silenced_closed :
    ∃ c, (probing 7 10).run (launched 7 10 0 2) silenced = some c ∧ c.state.timer = .stopped ∧
      c.state.closed = true := by
  refine ⟨_, (Option.some_get silenced_runs).symm, ?_⟩
  have hprompt : System.Throughout (fun c => Prompt 1 c.state) (launched 7 10 0 2) silenced := by
    decide +kernel
  have hsince : (Option.get _ silenced_runs).state.since = some (0, .unanswered) := by
    decide +kernel
  obtain ⟨hstopped, hclosed⟩ := keepalive_ends_in_time (by simp [silenced])
    (Option.some_get silenced_runs).symm hprompt hsince (by decide +kernel)
  exact ⟨hstopped, hclosed (by decide +kernel) (by decide +kernel)⟩

/-! ## A peer that answers is kept -/

/-- Every probe is answered well, within the given time. -/
structure Healthy (rtt : Nat) (w : World) : Prop where
  sent : ∀ time, w.probe = .sent time → w.clock ≤ time + rtt
  answered : ∀ ok time, w.probe = .answered ok time → ok = true

instance (rtt : Nat) (w : World) : Decidable (Healthy rtt w) :=
  match hprobe : w.probe with
  | .idle => isTrue ⟨by simp [hprobe], by simp [hprobe]⟩
  | .sent time =>
      decidable_of_iff (w.clock ≤ time + rtt)
        ⟨fun h => ⟨by simpa [hprobe] using h, by simp [hprobe]⟩, fun h => h.sent time hprobe⟩
  | .answered ok time =>
      decidable_of_iff (ok = true)
        ⟨fun h => ⟨by simp [hprobe], by simpa [hprobe] using h⟩, fun h => h.answered ok time hprobe⟩

section Healthy

variable {client period slack rtt : Nat} {history : List (Event sig)} {w w' : World}

/-- While a probe is awaited it was sent, and it was answered, if it was, long
before its deadline. -/
structure Answers (period rtt : Nat) (w : World) : Prop where
  sent_le : ∀ time, w.probe = .sent time → time ≤ w.clock
  answered_le : ∀ ok time, w.probe = .answered ok time → time ≤ w.clock
  idle : ∀ due, w.deadline = some due → w.probe ≠ .idle
  sent : ∀ due time, w.deadline = some due → w.probe = .sent time → time + period ≤ due
  answered : ∀ due ok time, w.deadline = some due → w.probe = .answered ok time →
    time + period ≤ due + rtt

theorem answers_of_disturb {d : World.Disturbance} (hw : Answers period rtt w)
    (hhealthy : Healthy rtt w) (hdisturb : World.disturb client w d = some w') :
    Answers period rtt w' ∧ w'.deadline = w.deadline ∧ (w.probe ≠ .idle → w'.probe ≠ .idle) := by
  cases d with
  | tick elapsed =>
      cases hdisturb
      exact ⟨{ hw with
        sent_le := fun time h => (hw.sent_le time h).trans (Nat.le_add_right ..)
        answered_le := fun ok time h => (hw.answered_le ok time h).trans (Nat.le_add_right ..) },
        rfl, id⟩
  | fire =>
      simp only [World.disturb] at hdisturb
      split at hdisturb
      next ticker hticker =>
        obtain ⟨ticker', -, rfl⟩ := Option.map_eq_some_iff.mp hdisturb
        exact ⟨{ hw with }, rfl, id⟩
      next => cases hdisturb
      next => cases hdisturb
  | answer ok =>
      obtain ⟨⟨sent, hsent⟩, -, rfl⟩ := disturb_answer hdisturb
      have hclock := hhealthy.sent sent hsent
      refine ⟨⟨by rintro _ ⟨⟩, ?_, by rintro _ _ ⟨⟩, by rintro _ _ _ ⟨⟩, ?_⟩, rfl, by rintro _ ⟨⟩⟩
      · rintro _ _ ⟨⟩
        exact le_rfl
      · rintro due _ _ hdue ⟨⟩
        have hle := hw.sent due sent hdue hsent
        omega
  | replace other =>
      obtain ⟨-, rfl⟩ := by simpa [World.disturb] using hdisturb
      exact ⟨{ hw with }, rfl, id⟩
  | deafen | stop | lose =>
      cases hdisturb
      exact ⟨{ hw with }, rfl, id⟩

/-- When the goroutine of a healthy peer may perform an action. -/
def Harmless (period : Nat) (w : World) : Op → Prop
  | .goProbe => w.deadline = none
  | .after p => p = period ∧ w.probe ≠ .idle
  | .closeClient => False
  | _ => True

theorem answers_of_perform {op : Op} {reply : op.Reply} (hw : Answers period rtt w)
    (hharmless : Harmless period w op) (hperform : World.perform op w reply = some w') :
    Answers period rtt w' := by
  cases op with
  | newTicker p =>
      obtain ⟨-, rfl⟩ := by simpa [World.perform] using hperform
      exact { hw with }
  | receiveTick =>
      simp only [World.perform] at hperform
      split at hperform
      next ticker hticker =>
        obtain ⟨ticker', -, rfl⟩ := Option.map_eq_some_iff.mp hperform
        exact { hw with }
      next => cases hperform
      next => cases hperform
  | getClient | loadDone =>
      obtain ⟨-, rfl⟩ := by simpa [World.perform] using hperform
      exact hw
  | goProbe =>
      have hdeadline : w.deadline = none := hharmless
      cases hperform
      refine ⟨?_, by rintro _ _ ⟨⟩, by rintro _ _ ⟨⟩, fun due _ hdue => ?_, by rintro _ _ _ _ ⟨⟩⟩
      · rintro _ ⟨⟩
        exact le_rfl
      · exact absurd (hdeadline.symm.trans hdue) (by simp)
  | after p =>
      obtain ⟨rfl, hprobe⟩ : p = period ∧ w.probe ≠ .idle := hharmless
      cases hperform
      refine { hw with idle := fun _ _ => hprobe, sent := ?_, answered := ?_ }
      · rintro _ time ⟨⟩ hsent
        exact Nat.add_le_add_right (hw.sent_le time hsent) _
      · rintro _ ok time ⟨⟩ hanswered
        have hle := hw.answered_le ok time hanswered
        omega
  | select =>
      rcases perform_select hperform with ⟨-, -, rfl⟩ | ⟨-, rfl, -⟩
      · exact ⟨by rintro _ ⟨⟩, by rintro _ _ ⟨⟩, by rintro _ ⟨⟩, by rintro _ _ ⟨⟩,
          by rintro _ _ _ ⟨⟩⟩
      · exact hw
  | stopTicker =>
      cases hperform
      exact { hw with }
  | closeClient => exact hharmless.elim

/-- The part of the goroutine in prompt runs with a healthy peer. -/
def harmless (client period slack rtt : Nat) :
    RelyGuarantee (probing client period) (fun w => Prompt slack w ∧ Healthy rtt w) where
  inv := Answers period rtt
  rely
    | 0 => fun w w' => w'.deadline = w.deadline ∧ (w.probe ≠ .idle → w'.probe ≠ .idle)
    | _ => fun _ _ => True
  guard
    | 0 => fun _ w op => Harmless period w op
    | _ => fun _ _ _ => False
  post := fun _ _ _ _ => True
  refl := by
    intro i w
    rcases i with _ | i
    · exact ⟨rfl, id⟩
    · trivial
  trans := by
    intro i a b c hab hbc
    rcases i with _ | i
    · exact ⟨hbc.1.trans hab.1, fun h => hbc.2 (hab.2 h)⟩
    · trivial
  disturb := by
    intro w d w' hside _ hw hdisturb
    obtain ⟨hanswers, hframe⟩ := answers_of_disturb hw hside.2 hdisturb
    refine ⟨hanswers, fun i => ?_⟩
    rcases i with _ | i
    · exact hframe
    · trivial
  perform := by
    intro j history op w reply w' _ _ hw hguard hperform
    rcases j with _ | j
    · refine ⟨answers_of_perform hw hguard hperform, fun i hi => ?_⟩
      rcases i with _ | i
      · exact absurd rfl hi
      · trivial
    · exact hguard.elim

/-- A probe that is answered in time is answered well. -/
theorem alive_of_select (hfast : rtt + slack < period) (hw : Answers period rtt w)
    (hprompt : Prompt slack w) (hhealthy : Healthy rtt w) {due : Nat}
    (hdeadline : w.deadline = some due) {answer : Answer}
    (hselect : World.perform .select w answer = some w') :
    answer = .alive true ∧
      w' = { w with probe := .idle, deadline := none, resumed := w.clock } := by
  rcases perform_select hselect with ⟨hanswer, -, hw'⟩ | ⟨-, -, ⟨time, hfalse⟩ | ⟨_, hdue, hlate⟩⟩
  · exact ⟨hanswer, hw'⟩
  · exact absurd (hhealthy.answered false time hfalse) (by simp)
  · cases hdeadline.symm.trans hdue
    cases hprobe : w.probe with
    | idle => exact absurd hprobe (hw.idle due hdeadline)
    | sent time =>
        have hsent := hw.sent due time hdeadline hprobe
        have hclock := hhealthy.sent time hprobe
        omega
    | answered ok time =>
        have hanswered := hw.answered due ok time hdeadline hprobe
        have hclock := hprompt.answer due ok time hdeadline hprobe
        omega

/-- The rest of the program does no harm. -/
abbrev DoesNoHarm (client period slack rtt : Nat) (history : List (Event sig)) (w : World)
    (p : Prog Unit) : Prop :=
  AlwaysIn World.perform ((harmless client period slack rtt).others 0)
    ((harmless client period slack rtt).guard 0) (fun _ _ _ => True) history w p

theorem keepaliveLoop_harmless (hfast : rtt + slack < period) (rounds : Nat)
    (hdeadline : w.deadline = none) :
    DoesNoHarm client period slack rtt history w (keepaliveLoop client period rounds) := by
  have hstop : ∀ history w, DoesNoHarm client period slack rtt history w (act .stopTicker) :=
    fun _ _ _ _ => ⟨trivial, fun _ _ _ => trivial⟩
  induction rounds generalizing history w with
  | zero => trivial
  | succ rounds ih =>
      refine AlwaysIn.perform fun w₁ hothers₁ => ⟨trivial, fun tick w₂ hreceive => ?_⟩
      have hdeadline₂ : w₂.deadline = none := by
        simp only [World.perform] at hreceive
        split at hreceive
        next ticker hticker =>
          obtain ⟨ticker', -, rfl⟩ := Option.map_eq_some_iff.mp hreceive
          exact hothers₁.1.1.trans hdeadline
        next => cases hreceive
        next => cases hreceive
      refine AlwaysIn.perform fun w₃ hothers₃ => ⟨trivial, fun cur w₄ hget => ?_⟩
      obtain ⟨-, rfl⟩ := by simpa [World.perform] using hget
      have hdeadline₃ := hothers₃.1.1.trans hdeadline₂
      unfold retired
      split
      next => exact hstop _ _
      next =>
        refine AlwaysIn.perform fun w₄ hothers₄ => ⟨trivial, fun done w₅ hload => ?_⟩
        obtain ⟨-, rfl⟩ := by simpa [World.perform] using hload
        have hdeadline₄ := hothers₄.1.1.trans hdeadline₃
        split
        next => exact hstop _ _
        next =>
          refine AlwaysIn.perform fun w₅ hothers₅ =>
            ⟨hothers₅.1.1.trans hdeadline₄, fun _ w₆ hgo => ?_⟩
          cases hgo
          refine AlwaysIn.perform fun w₇ hothers₇ =>
            ⟨⟨rfl, hothers₇.1.2 (by rintro ⟨⟩)⟩, fun _ w₈ hafter => ?_⟩
          cases hafter
          refine AlwaysIn.perform fun w₉ hothers₉ => ⟨trivial, fun answer w₁₀ hselect => ?_⟩
          obtain ⟨hframe, hanswers, hprompt, hhealthy⟩ := hothers₉
          obtain ⟨rfl, rfl⟩ :=
            alive_of_select hfast hanswers hprompt hhealthy hframe.1 hselect
          rw [if_pos rfl]
          exact ih rfl

variable {clock rounds : Nat} {schedule : List (Action (probing client period))}
  {c : Config (probing client period)}

/-- A client whose peer answers every probe well, early enough for the runtime to
take the answer up before the period is over, is never closed by its keepalive. -/
theorem keepalive_keeps_healthy (hfast : rtt + slack < period)
    (hspawn : ∀ call, .spawn call ∉ schedule)
    (hrun : (probing client period).run (launched client period clock rounds) schedule = some c)
    (hside : System.Throughout (fun c => Prompt slack c.state ∧ Healthy rtt c.state)
      (launched client period clock rounds) schedule) (i : Nat) :
    .run i ⟨.closeClient, ()⟩ ∉ schedule := by
  intro hmem
  obtain ⟨before, after, rfl⟩ := List.append_of_mem hmem
  have hassured : (harmless client period slack rtt).Assured
      (launched client period clock rounds) := by
    refine ⟨⟨by rintro _ ⟨⟩, by rintro _ _ ⟨⟩, by rintro _ ⟨⟩, by rintro _ _ ⟨⟩,
      by rintro _ _ _ ⟨⟩⟩, fun i thread hthread => ?_⟩
    rcases i with _ | i
    · cases hthread
      refine ⟨_, (harmless client period slack rtt).refl 0 _, ?_⟩
      refine AlwaysIn.perform fun w₁ hothers₁ => ⟨trivial, fun _ w₂ hnew => ?_⟩
      obtain ⟨-, rfl⟩ := by simpa [World.perform] using hnew
      exact keepaliveLoop_harmless hfast rounds hothers₁.1.1
    · cases hthread
  obtain ⟨reached, -, -, hguard⟩ := RelyGuarantee.run_guard hassured hside
    (fun _ call hmem => absurd (List.mem_append_left _ hmem) (hspawn call)) hrun
  rcases i with _ | i
  · exact hguard
  · exact hguard

end Healthy

/-- One probe, answered after two nanoseconds. -/
def answering : List (Action (probing 7 10)) :=
  [.run 0 ⟨.newTicker 10, ()⟩, .disturb (.tick 10), .disturb .fire,
    .run 0 ⟨.receiveTick, (10 : Nat)⟩, .run 0 ⟨.getClient, some 7⟩, .run 0 ⟨.loadDone, false⟩,
    .run 0 ⟨.goProbe, ()⟩, .run 0 ⟨.after 10, ()⟩, .disturb (.tick 2), .disturb (.answer true),
    .disturb (.tick 1), .run 0 ⟨.select, Answer.alive true⟩, .disturb (.tick 7)]

theorem answering_runs : ((probing 7 10).run (launched 7 10 0 2) answering).isSome := by
  decide +kernel

theorem answering_kept : .run 0 ⟨.closeClient, ()⟩ ∉ answering := by
  have hside : System.Throughout (fun c => Prompt 1 c.state ∧ Healthy 2 c.state)
      (launched 7 10 0 2) answering := by
    decide +kernel
  exact keepalive_keeps_healthy (by decide) (by simp [answering])
    (Option.some_get answering_runs).symm hside 0

end SshGate.Tunnel.Keepalive
