import Mathlib.Order.Nat

/-! # Tickers

A `time.Ticker` fires once a period. Its channel holds one tick, and a tick that
finds the channel full is dropped. What counts for whoever waits on it is the
time of the tick that comes next, which firing does not change.
-/

namespace Go

/-- A running ticker: when it fires next, its period, and the tick in its
channel. -/
structure Ticker where
  due : Nat
  period : Nat
  channel : Option Nat := none
  deriving Repr, DecidableEq

namespace Ticker

/-- What has become of a ticker: not made yet, running, or stopped. -/
inductive Phase where
  | absent
  | running (ticker : Ticker)
  | stopped
  deriving Repr, DecidableEq

def Phase.ticker : Phase → List Ticker
  | .running ticker => [ticker]
  | .absent | .stopped => []

/-- `time.NewTicker` -/
def new (now period : Nat) : Ticker := { due := now + period, period }

def fire (t : Ticker) (now : Nat) : Option Ticker :=
  if t.due ≤ now then
    some { t with due := t.due + t.period, channel := some (t.channel.getD t.due) }
  else none

def receive (t : Ticker) (tick : Nat) : Option Ticker :=
  if t.channel = some tick then some { t with channel := none } else none

/-- The time of the tick that is received next. -/
def owed (t : Ticker) : Nat := t.channel.getD t.due

/-- The ticker at some time: no tick comes early, and the next one is at most a
period away. -/
structure Sound (now : Nat) (t : Ticker) : Prop where
  channel_le : ∀ tick, t.channel = some tick → tick ≤ now
  due_le : t.due ≤ now + t.period

variable {t t' : Ticker} {now : Nat}

@[simp] theorem owed_new (now period : Nat) : (new now period).owed = now + period := rfl

theorem sound_new (now period : Nat) : (new now period).Sound now where
  channel_le := by rintro _ ⟨⟩
  due_le := le_rfl

theorem Sound.mono (h : t.Sound now) {later : Nat} (hlater : now ≤ later) : t.Sound later where
  channel_le := fun tick htick => (h.channel_le tick htick).trans hlater
  due_le := h.due_le.trans (Nat.add_le_add_right hlater _)

theorem Sound.owed_le (h : t.Sound now) : t.owed ≤ now + t.period := by
  unfold owed
  cases hchannel : t.channel with
  | none => exact h.due_le
  | some tick => exact (h.channel_le tick hchannel).trans (Nat.le_add_right ..)

theorem Sound.fire (h : t.Sound now) (hfire : t.fire now = some t') :
    t'.Sound now ∧ t'.owed = t.owed ∧ t'.period = t.period := by
  obtain ⟨hdue, rfl⟩ := by simpa [Ticker.fire] using hfire
  refine ⟨⟨?_, Nat.add_le_add_right hdue _⟩, rfl, rfl⟩
  rintro _ ⟨⟩
  cases hchannel : t.channel with
  | none => exact hdue
  | some tick => exact h.channel_le tick hchannel

theorem Sound.receive (h : t.Sound now) {tick : Nat} (hreceive : t.receive tick = some t') :
    t'.Sound now ∧ tick = t.owed ∧ t'.period = t.period := by
  obtain ⟨hchannel, rfl⟩ := by simpa [Ticker.receive] using hreceive
  refine ⟨⟨by rintro _ ⟨⟩, h.due_le⟩, ?_, rfl⟩
  rw [owed, hchannel, Option.getD_some]

theorem Sound.received_le (h : t.Sound now) {tick : Nat} (hreceive : t.receive tick = some t') :
    tick ≤ now := by
  obtain ⟨hchannel, -⟩ := by simpa [Ticker.receive] using hreceive
  exact h.channel_le tick hchannel

end Ticker

end Go
