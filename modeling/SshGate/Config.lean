import SshGate.Go.Text

/-! # The dial timeout setting

The part of `loadConfig` that reads `SSH_DIAL_TIMEOUT`. Durations are in
nanoseconds; `parseDuration` is `time.ParseDuration`.
-/

namespace SshGate

open Go

/-- `10 * time.Minute` -/
def connHistoryMaxAge : Int := 10 * 60 * 1000000000

/-- The errors of the setting. -/
inductive DialTimeoutError where
  /-- `invalid SSH_DIAL_TIMEOUT %q (Go duration, e.g. 30s): %w` -/
  | invalid (raw err : Text)
  /-- `SSH_DIAL_TIMEOUT must be positive, got %s` -/
  | notPositive (raw : Text)
  /-- `invalid SSH_DIAL_TIMEOUT %s: must be below %s (connection history window)` -/
  | tooLong (timeout : Int)
  deriving Repr, DecidableEq

def getEnv (env : Text → Text) (key fallback : Text) : Text :=
  if env key ≠ [] then env key else fallback

section DialTimeout

variable (parseDuration : Text → Except Text Int)

def parseDialTimeout (raw : Text) : Except DialTimeoutError Int :=
  match parseDuration raw with
  | .error err => .error (.invalid raw err)
  | .ok d => if d ≤ 0 then .error (.notPositive raw) else .ok d

/-- The lines of `loadConfig` for the dial timeout. -/
def loadDialTimeout (env : Text → Text) : Except DialTimeoutError Int := do
  let dialTimeout ← parseDialTimeout parseDuration
    (getEnv env (str "SSH_DIAL_TIMEOUT") (str "30s"))
  if dialTimeout ≥ connHistoryMaxAge then throw (.tooLong dialTimeout)
  return dialTimeout

/-- An accepted dial timeout is positive and below the history window. -/
theorem loadDialTimeout_bounds {env : Text → Text} {timeout : Int}
    (hload : loadDialTimeout parseDuration env = .ok timeout) :
    0 < timeout ∧ timeout < connHistoryMaxAge := by
  unfold loadDialTimeout parseDialTimeout at hload
  split at hload
  next => cases hload
  next d _ =>
    split at hload
    next => cases hload
    next hpositive =>
      simp only [bind, Except.bind] at hload
      split at hload
      next => cases hload
      next hshort =>
        cases hload
        exact ⟨Int.not_le.mp hpositive, Int.not_le.mp hshort⟩

end DialTimeout

end SshGate
