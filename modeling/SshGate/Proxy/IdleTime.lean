import SshGate.Proxy.IdleGuard

/-! # How long a request can stand still

A tick that finds the stored time recent leaves at most the timeout, a period of
the ticker and what the runtime takes until the tick that does not.
-/

namespace SshGate.Idle

open Go Interaction Program

/-! ## The watchdog keeps to its part -/

/-- The tick that the watchdog took up and has not answered yet: it is answered
by a look at the stored time that finds it recent. -/
def handStep (timeout : Nat) (hand : Option Nat) : Event sig → Option Nat
  | ⟨.select, .tick due⟩ => some due
  | ⟨.since _, idle⟩ => if idle < timeout then none else hand
  | _ => hand

def hand (timeout : Nat) (trace : List (Event sig)) : Option Nat :=
  trace.foldl (handStep timeout) none

@[simp] theorem hand_snoc (timeout : Nat) (trace : List (Event sig)) (event : Event sig) :
    hand timeout (trace ++ [event]) = handStep timeout (hand timeout trace) event :=
  List.foldl_concat ..

/-- The tick that is to be answered next is not much older than the stored time
allows. -/
def Timely (timeout slack : Nat) (trace : List (Event sig)) (w : World) : Prop :=
  w.timer = .absent ∨ ∃ owed, w.owed = some owed ∧
    (w.Active → (hand timeout trace).getD owed < w.last + timeout + checkPeriod timeout + slack)

/-- The goroutine gets going in time. -/
def StartsPromptly (slack : Nat) (w : World) : Prop :=
  w.Active → w.timer = .absent → w.launched = true → w.clock ≤ w.last + slack

section Watch

variable {timeout slack : Nat} {history : List (Event sig)} {w w' : World}

theorem Timely.of_watched (h : Timely timeout slack history w) (hw : w.Watched w') :
    Timely timeout slack history w' := by
  rcases h with habsent | ⟨owed, howed, hbound⟩
  · exact .inl (hw.absent.mpr habsent)
  · refine .inr ⟨owed, hw.owed.trans howed, fun hactive => ?_⟩
    have hlast := hw.last
    have hold := hbound (hw.active hactive)
    omega

/-- Where a tick is due, it is no more than a period ahead. -/
theorem World.Sound.owed_le {period owed : Nat} (hw : w.Sound period) (howed : w.owed = some owed) :
    owed ≤ w.clock + period := by
  unfold World.owed at howed
  split at howed
  next ticker hticker =>
    obtain ⟨hsound, rfl⟩ := hw.ticker ticker hticker
    cases howed
    exact hsound.owed_le
  next => cases howed
  next => cases howed

/-- An event that answers no tick and takes up none. -/
theorem Timely.snoc (h : Timely timeout slack history w) {event : Event sig}
    (hevent : handStep timeout (hand timeout history) event = hand timeout history) :
    Timely timeout slack (history ++ [event]) w := by
  unfold Timely
  rw [hand_snoc, hevent]
  exact h

/-- The parts of both goroutines, in runs where the watchdog starts promptly. -/
abbrev promptly (timeout slack : Nat) : RelyGuarantee (guarding timeout) (StartsPromptly slack) :=
  discipline timeout (StartsPromptly slack) (Timely timeout slack)

/-- The rest of the program keeps to the part of the watchdog. -/
abbrev Watches (timeout slack : Nat) (history : List (Event sig)) (w : World) (p : Prog Unit) :
    Prop :=
  AlwaysIn World.perform ((promptly timeout slack).others 1) ((promptly timeout slack).guard 1)
    (fun _ _ _ => True) history w p

/-- An action that leaves the state and the answered ticks as they are. -/
theorem Watches.quiet {op : Op} {next : op.Reply → Prog Unit} (hop : op.byWatch timeout = true)
    (h : Timely timeout slack history w)
    (hnext : ∀ reply w₁ w₂, w.Watched w₁ → w₁.Sound (checkPeriod timeout) →
      World.perform op w₁ reply = some w₂ → Timely timeout slack history w₁ →
      Watches timeout slack (history ++ [⟨op, reply⟩]) w₂ (next reply)) :
    Watches timeout slack history w (act op >>= next) := by
  refine AlwaysIn.perform fun w₁ hothers => ?_
  have hwatched : w.Watched w₁ := hothers.1
  have htimely := h.of_watched hwatched
  exact ⟨⟨hop, htimely⟩, fun reply w₂ hperform =>
    hnext reply w₁ w₂ hwatched hothers.2.1 hperform htimely⟩

theorem watches_stopTicker (h : Timely timeout slack history w) :
    Watches timeout slack history w (act .stopTicker) :=
  fun _ hothers => ⟨⟨rfl, h.of_watched hothers.1⟩, fun _ _ _ => trivial⟩

/-- Closing the connections leaves the tick that led to it unanswered. -/
theorem watches_cut (h : Timely timeout slack history w) :
    Watches timeout slack history w (do
      let _ ← act .closeClient
      let _ ← act .closeUpstream
      act .stopTicker) := by
  refine Watches.quiet rfl h fun _ w₁ w₂ _ hsound hclose htimely => ?_
  have hclosed := (World.sound_of_byHandler rfl (by rintro _ ⟨⟩) hsound hclose).2
  refine Watches.quiet rfl ((htimely.of_watched hclosed).snoc rfl)
    fun _ w₃ w₄ _ hsound hclose htimely => ?_
  have hclosed := (World.sound_of_byHandler rfl (by rintro _ ⟨⟩) hsound hclose).2
  exact watches_stopTicker ((htimely.of_watched hclosed).snoc rfl)

/-- A tick is taken up: it is the one that was due. -/
theorem Timely.take {due : Nat} {period : Nat} (h : Timely timeout slack history w)
    (hsound : w.Sound period) (hticker : w.timer ≠ .absent) (hhand : hand timeout history = none)
    (hselect : World.perform .select w (.tick due) = some w') :
    Timely timeout slack (history ++ [⟨.select, .tick due⟩]) w' ∧ w'.timer ≠ .absent := by
  obtain ⟨owed, howed, hbound⟩ := h.resolve_left hticker
  simp only [World.perform] at hselect
  unfold World.owed at howed
  split at howed
  next ticker hrunning =>
    rw [hrunning] at hselect
    obtain ⟨ticker', hreceive, rfl⟩ := Option.map_eq_some_iff.mp hselect
    obtain ⟨-, rfl, -⟩ := (hsound.ticker ticker hrunning).1.receive hreceive
    cases howed
    refine ⟨.inr ⟨ticker'.owed, rfl, fun hactive => ?_⟩, by rintro ⟨⟩⟩
    have hbound := hbound hactive
    rw [hhand] at hbound
    rw [hand_snoc]
    exact hbound
  next => cases howed
  next => cases howed

/-- A look that finds the stored time recent answers the tick. -/
theorem Timely.answer {last : Nat} {idle : Int} (h : Timely timeout slack history w)
    (hsound : w.Sound (checkPeriod timeout)) (hlast : last ≤ w.last)
    (hidle : idle = (w.clock : Int) - last) (hrecent : idle < timeout) :
    Timely timeout slack (history ++ [⟨.since last, idle⟩]) w := by
  rcases h with habsent | ⟨owed, howed, -⟩
  · exact .inl habsent
  · refine .inr ⟨owed, howed, fun _ => ?_⟩
    have hle := hsound.owed_le howed
    rw [hand_snoc, handStep, if_pos hrecent, Option.getD_none]
    omega

theorem watchLoop_watches (rounds : Nat) (hhand : hand timeout history = none)
    (h : Timely timeout slack history w) (hticker : w.timer ≠ .absent) :
    Watches timeout slack history w (watchLoop timeout rounds) := by
  induction rounds generalizing history w with
  | zero => trivial
  | succ rounds ih =>
      refine Watches.quiet rfl h fun wake w₁ w₂ hwatched₁ hsound₁ hselect htimely₁ => ?_
      have hticker₁ : w₁.timer ≠ .absent := fun heq => hticker (hwatched₁.absent.mp heq)
      cases wake with
      | done =>
          obtain ⟨-, rfl⟩ := by simpa [World.perform] using hselect
          exact watches_stopTicker (htimely₁.snoc rfl)
      | tick due =>
          obtain ⟨htimely₂, hticker₂⟩ := htimely₁.take hsound₁ hticker₁ hhand hselect
          refine Watches.quiet rfl htimely₂ fun last w₃ _ hwatched₃ _ hload htimely₃ => ?_
          obtain ⟨rfl, rfl⟩ := by simpa [World.perform] using hload
          refine Watches.quiet rfl (htimely₃.snoc rfl)
            fun idle w₄ _ hwatched₄ hsound₄ hsince htimely₄ => ?_
          obtain ⟨hidle, rfl⟩ := by simpa [World.perform] using hsince
          split
          next hold =>
            refine watches_cut (htimely₄.snoc ?_)
            rw [handStep, if_neg (not_lt.mpr hold)]
          next hrecent =>
            have hlt : idle < timeout := not_le.mp hrecent
            refine ih ?_ (htimely₄.answer hsound₄ hwatched₄.last hidle hlt) ?_
            · rw [hand_snoc, handStep, if_pos hlt]
            · exact fun heq => hticker₂ (hwatched₃.absent.mp (hwatched₄.absent.mp heq))

theorem watch_watches (hpos : 0 < timeout) (rounds : Nat) (habsent : w.timer = .absent) :
    Watches timeout slack [] w (watch timeout rounds) := by
  refine AlwaysIn.perform fun w₁ hothers => ?_
  have hwatched : w.Watched w₁ := hothers.1
  have hsound : w₁.Sound (checkPeriod timeout) := hothers.2.1
  have hprompt : StartsPromptly slack w₁ := hothers.2.2
  have habsent₁ := hwatched.absent.mpr habsent
  refine ⟨⟨by simp [Op.byWatch], .inl habsent₁⟩, fun _ w₂ hnew => ?_⟩
  obtain ⟨⟨hlaunched, -⟩, rfl⟩ := by simpa [World.perform] using hnew
  refine watchLoop_watches rounds rfl (.inr ⟨w₁.clock + checkPeriod timeout, ?_, ?_⟩) ?_
  · simp [World.owed]
  · intro hactive
    have hle := hprompt hactive habsent₁ hlaunched
    change w₁.clock + checkPeriod timeout < w₁.last + timeout + checkPeriod timeout + slack
    omega
  · rintro ⟨⟩

end Watch

/-! ## How long a request can stand still -/

/-- The runtime lets the watchdog get going within `slack` of the stored time, and
answer each tick within `slack` of its own: by a look that finds the stored time
recent, or by closing both connections. -/
def Prompt (timeout slack : Nat) (c : Config (guarding timeout)) : Prop :=
  StartsPromptly slack c.state ∧ ∀ owed, c.state.owed = some owed → c.state.Active →
    c.state.clock ≤ (hand timeout (System.traceOf c 1)).getD owed + slack

instance (w : World) : Decidable w.Active :=
  inferInstanceAs (Decidable
    (w.stopped = false ∧ ¬ (w.clientClosed = true ∧ w.upstreamClosed = true)))

instance (slack : Nat) (w : World) : Decidable (StartsPromptly slack w) :=
  inferInstanceAs (Decidable (w.Active → w.timer = .absent → w.launched = true →
    w.clock ≤ w.last + slack))

instance (timeout slack : Nat) (c : Config (guarding timeout)) :
    Decidable (Prompt timeout slack c) :=
  match howed : c.state.owed with
  | none => decidable_of_iff (StartsPromptly slack c.state) (by simp [Prompt, howed])
  | some owed =>
      decidable_of_iff (StartsPromptly slack c.state ∧ (c.state.Active →
        c.state.clock ≤ (hand timeout (System.traceOf c 1)).getD owed + slack))
        (by simp [Prompt, howed])

section Bound

variable {timeout slack clock : Nat} {task : Task} {rounds rounds' : Nat}
  {schedule : List (Action (guarding timeout))} {c : Config (guarding timeout)}

theorem opened_assured (hpos : 0 < timeout) :
    (promptly timeout slack).Assured (opened timeout clock task rounds rounds') := by
  refine ⟨opened_sound clock, fun i thread hthread => ?_⟩
  rcases i with _ | _ | i
  · cases hthread
    exact ⟨_, (promptly timeout slack).refl 0 _, handleHTTP_kept task rounds [] _⟩
  · cases hthread
    exact ⟨_, (promptly timeout slack).refl 1 _, watch_watches hpos rounds' rfl⟩
  · cases hthread

end Bound

/-- A request without a body whose upstream takes the head and does not answer:
the first tick finds the guard two nanoseconds old. -/
def silent : List (Action (guarding 20)) :=
  [.run 0 ⟨.now, (100 : Nat)⟩, .run 0 ⟨.storeLast 100, ()⟩, .run 0 ⟨.goWatch, ()⟩,
    .run 1 ⟨.newTicker 2, ()⟩, .disturb (.tick 2), .disturb .fire,
    .run 1 ⟨.select, Wake.tick 102⟩, .run 1 ⟨.loadLast, (100 : Nat)⟩,
    .run 1 ⟨.since 100, (2 : Int)⟩, .disturb (.tick 1)]

theorem silent_runs : ((guarding 20).run
    (opened 20 100 (.of id Http.blankedGet) 1 2) silent).isSome := by decide +kernel

theorem silent_watching : ((Option.get _ silent_runs).threads[1]?).isSome := by decide +kernel

end SshGate.Idle
