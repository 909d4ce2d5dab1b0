import Mathlib.Logic.Function.Basic

/-! # Pauses that end with a probe

Users claim resources for a while. A resource can be paused; once its pause
has passed, one user gets it as a probe and the others are refused while the
probing flag stands. A user that gives its claims back clears the flag of all
of them, also of those it had claimed before the pause. That the flag still
keeps a second probe away is a matter of time: claims are held for less time
than a pause lasts.
-/

namespace Interaction

/-- A claim on a resource, made at the time `now`; a probe if the resource had
been paused. -/
structure Claim (R : Type) where
  resource : R
  now : Nat
  probe : Bool
  deriving Repr, DecidableEq

/-- The clock, the state of the resources and the claims that are held. -/
@[ext] structure Breaker (U R : Type) where
  clock : Nat
  pausedUntil : R → Option Nat
  probing : R → Bool
  holds : U → Claim R → Prop

namespace Breaker

variable {U R : Type}

/-- User `i` makes the claim. -/
def grant (s : Breaker U R) (i : U) (claim : Claim R) : Breaker U R :=
  { s with holds := fun j held => s.holds j held ∨ j = i ∧ held = claim }

/-- No claim is held for longer than `bound`. -/
def InTime (bound : Nat) (s : Breaker U R) : Prop :=
  ∀ i held, s.holds i held → s.clock ≤ held.now + bound

/-- The flag stands for a probe that is held. -/
def Flagged (s : Breaker U R) : Prop :=
  ∀ r, s.probing r = true → ∃ i now, s.holds i ⟨r, now, true⟩

/-- What holds while claims are held in time: they were made in the past; there
is at most one probe of a resource; and a pause is younger than the claims on
its resource by `pause`, unless it is the pause that a probe ended. -/
structure Sound (pause : Nat) (s : Breaker U R) : Prop where
  past : ∀ i held, s.holds i held → held.now ≤ s.clock
  unique : ∀ r i j now now', s.holds i ⟨r, now, true⟩ → s.holds j ⟨r, now', true⟩ → i = j
  openPause : ∀ i r now x, s.holds i ⟨r, now, false⟩ → s.pausedUntil r = some x → now + pause ≤ x
  probePause : ∀ i r now x, s.holds i ⟨r, now, true⟩ → s.pausedUntil r = some x →
    now + pause ≤ x ∨ x ≤ now ∧ s.probing r = true

variable {bound pause : Nat} {s : Breaker U R}

/-- When a probe can be granted, nobody holds the resource. -/
theorem Sound.free_of_passed (hbound : bound < pause) (hs : Sound pause s)
    (htime : InTime bound s) {r : R} {now x : Nat} (hnow : now ≤ s.clock)
    (hpaused : s.pausedUntil r = some x) (hpassed : x ≤ now) (hprobing : s.probing r = false)
    {i : U} {held : Claim R} (hheld : s.holds i held) : held.resource ≠ r := by
  obtain ⟨r', claimed, probe⟩ := held
  rintro rfl
  have hclock := htime i _ hheld
  simp only at hclock
  have hyoung : claimed + pause ≤ x := by
    cases probe with
    | false => exact hs.openPause i _ claimed x hheld hpaused
    | true =>
        rcases hs.probePause i _ claimed x hheld hpaused with hyoung | ⟨_, hflag⟩
        · exact hyoung
        · rw [hprobing] at hflag
          cases hflag
  omega

theorem Sound.wait (hs : Sound pause s) (elapsed : Nat) :
    Sound pause { s with clock := s.clock + elapsed } where
  past := fun i held hheld => Nat.le_add_right_of_le (hs.past i held hheld)
  unique := hs.unique
  openPause := hs.openPause
  probePause := hs.probePause

theorem Sound.claimOpen (hs : Sound pause s) {i : U} {r : R} {now : Nat} (hnow : now ≤ s.clock)
    (hopen : s.pausedUntil r = none) : Sound pause (s.grant i ⟨r, now, false⟩) where
  past := by
    rintro j held (hold | ⟨_, rfl⟩)
    · exact hs.past j held hold
    · exact hnow
  unique := by
    rintro r' j k t t' (hj | ⟨_, hj⟩) (hk | ⟨_, hk⟩)
    · exact hs.unique r' j k t t' hj hk
    · cases hk
    · cases hj
    · cases hj
  openPause := by
    rintro j r' t x (hj | ⟨_, hj⟩) hpaused
    · exact hs.openPause j r' t x hj hpaused
    · cases hj
      exact absurd (hopen.symm.trans hpaused) (by simp)
  probePause := by
    rintro j r' t x (hj | ⟨_, hj⟩) hpaused
    · exact hs.probePause j r' t x hj hpaused
    · cases hj

section Steps

variable [DecidableEq R]

/-- User `i` gets a paused resource as a probe. -/
def startProbe (s : Breaker U R) (i : U) (r : R) (now : Nat) : Breaker U R :=
  { s.grant i ⟨r, now, true⟩ with probing := Function.update s.probing r true }

def setPause (s : Breaker U R) (r : R) (limit : Option Nat) : Breaker U R :=
  { s with pausedUntil := Function.update s.pausedUntil r limit }

/-- User `i` gives all its claims back. -/
def release (s : Breaker U R) (i : U) (claimed : List R) : Breaker U R :=
  { s with probing := fun r => if r ∈ claimed then false else s.probing r
           holds := fun j held => j ≠ i ∧ s.holds j held }

/-- One step. A claim may be made with an older clock reading; a pause lasts
`pause` from the moment it is set. -/
inductive Step (pause : Nat) (s : Breaker U R) : Breaker U R → Prop
  | wait (elapsed : Nat) : Step pause s { s with clock := s.clock + elapsed }
  | claimOpen {i : U} {r : R} {now : Nat} (hnow : now ≤ s.clock) (hopen : s.pausedUntil r = none) :
      Step pause s (s.grant i ⟨r, now, false⟩)
  | claimProbe {i : U} {r : R} {now x : Nat} (hnow : now ≤ s.clock)
      (hpaused : s.pausedUntil r = some x) (hpassed : x ≤ now) (hprobing : s.probing r = false) :
      Step pause s (s.startProbe i r now)
  | resume (r : R) : Step pause s (s.setPause r none)
  | suspend (r : R) : Step pause s (s.setPause r (some (s.clock + pause)))
  | release {i : U} {claimed : List R}
      (hclaimed : ∀ r, r ∈ claimed ↔ ∃ held, s.holds i held ∧ held.resource = r) :
      Step pause s (s.release i claimed)

theorem Sound.claimProbe (hbound : bound < pause) (hs : Sound pause s) (htime : InTime bound s)
    {i : U} {r : R} {now x : Nat} (hnow : now ≤ s.clock) (hpaused : s.pausedUntil r = some x)
    (hpassed : x ≤ now) (hprobing : s.probing r = false) :
    Sound pause (s.startProbe i r now) := by
  have hfree : ∀ j held, s.holds j held → held.resource ≠ r := fun j held hheld =>
    hs.free_of_passed hbound htime hnow hpaused hpassed hprobing hheld
  have hflag : ∀ r' , s.probing r' = true → Function.update s.probing r true r' = true := by
    intro r' hr'
    by_cases hr : r' = r
    · rw [hr, Function.update_self]
    · rw [Function.update_of_ne hr, hr']
  constructor
  · rintro j held (hold | ⟨_, rfl⟩)
    · exact hs.past j held hold
    · exact hnow
  · rintro r' j k t t' (hj | ⟨hji, hj⟩) (hk | ⟨hki, hk⟩)
    · exact hs.unique r' j k t t' hj hk
    · cases hk
      exact absurd rfl (hfree j _ hj)
    · cases hj
      exact absurd rfl (hfree k _ hk)
    · rw [hji, hki]
  · rintro j r' t y (hj | ⟨_, hj⟩) hy
    · exact hs.openPause j r' t y hj hy
    · cases hj
  · rintro j r' t y (hj | ⟨_, hj⟩) hy
    · rcases hs.probePause j r' t y hj hy with hyoung | ⟨hold, hprobe⟩
      · exact .inl hyoung
      · exact .inr ⟨hold, hflag r' hprobe⟩
    · cases hj
      obtain rfl : x = y := Option.some.inj (hpaused.symm.trans hy)
      exact .inr ⟨hpassed, Function.update_self ..⟩

theorem Sound.resume (hs : Sound pause s) (r : R) :
    Sound pause (s.setPause r none) := by
  have hpaused : ∀ r' x, Function.update s.pausedUntil r none r' = some x →
      s.pausedUntil r' = some x := by
    intro r' x hx
    by_cases hr : r' = r
    · rw [hr, Function.update_self] at hx
      cases hx
    · rwa [Function.update_of_ne hr] at hx
  constructor
  · exact hs.past
  · exact hs.unique
  · exact fun i r' now x hheld hx => hs.openPause i r' now x hheld (hpaused r' x hx)
  · exact fun i r' now x hheld hx => hs.probePause i r' now x hheld (hpaused r' x hx)

theorem Sound.suspend (hs : Sound pause s) (r : R) :
    Sound pause (s.setPause r (some (s.clock + pause))) := by
  -- A new pause is young enough for all claims, since these are in the past.
  have hyoung : ∀ i held x, s.holds i held →
      Function.update s.pausedUntil r (some (s.clock + pause)) held.resource = some x →
      held.now + pause ≤ x ∨ s.pausedUntil held.resource = some x := by
    intro i held x hheld hx
    have hpast := hs.past i held hheld
    by_cases hr : held.resource = r
    · rw [hr, Function.update_self] at hx
      cases hx
      exact .inl (by omega)
    · rw [Function.update_of_ne hr] at hx
      exact .inr hx
  constructor
  · exact hs.past
  · exact hs.unique
  · intro i r' now x hheld hx
    rcases hyoung i _ x hheld hx with hnew | hold
    · exact hnew
    · exact hs.openPause i r' now x hheld hold
  · intro i r' now x hheld hx
    rcases hyoung i _ x hheld hx with hnew | hold
    · exact .inl hnew
    · exact hs.probePause i r' now x hheld hold

theorem Sound.release (hbound : bound < pause) (hs : Sound pause s) (htime : InTime bound s)
    {i : U} {claimed : List R}
    (hclaimed : ∀ r, r ∈ claimed ↔ ∃ held, s.holds i held ∧ held.resource = r) :
    Sound pause (s.release i claimed) where
  past := fun j held hheld => hs.past j held hheld.2
  unique := fun r j k t t' hj hk => hs.unique r j k t t' hj.2 hk.2
  openPause := fun j r now x hheld hx => hs.openPause j r now x hheld.2 hx
  probePause := by
    rintro j r now x ⟨hji, hheld⟩ hx
    rcases hs.probePause j r now x hheld hx with hyoung | ⟨hpassed, hprobe⟩
    · exact .inl hyoung
    · by_cases hr : r ∈ claimed
      · -- The one who clears the flag had claimed the resource when it was not
        -- paused, so the pause is younger than that claim: it cannot have passed.
        obtain ⟨⟨_, t, probe⟩, hmine, rfl⟩ := (hclaimed r).mp hr
        cases probe with
        | true => exact absurd (hs.unique _ j i now t hheld hmine) hji
        | false =>
            have hyoung := hs.openPause i _ t x hmine hx
            have hpast := hs.past j _ hheld
            have hclock := htime i _ hmine
            simp only at hpast hclock hyoung
            omega
      · exact .inr ⟨hpassed, by simp only [Breaker.release, if_neg hr, hprobe]⟩

/-- The flag is right whatever the timing: who holds a probe gives it back with
all its claims. -/
theorem Step.flagged {s' : Breaker U R} (hstep : Step pause s s') (hs : Flagged s) :
    Flagged s' := by
  intro r hprobing
  cases hstep with
  | wait elapsed => exact hs r hprobing
  | claimOpen hnow hopen =>
      obtain ⟨j, t, hheld⟩ := hs r hprobing
      exact ⟨j, t, .inl hheld⟩
  | @claimProbe i r' now x hnow hpaused hpassed hfree =>
      by_cases hr : r = r'
      · exact ⟨i, now, .inr ⟨rfl, by rw [hr]⟩⟩
      · simp only [startProbe, Function.update_of_ne hr] at hprobing
        obtain ⟨j, t, hheld⟩ := hs r hprobing
        exact ⟨j, t, .inl hheld⟩
  | resume r' => exact hs r hprobing
  | suspend r' => exact hs r hprobing
  | @release i claimed hclaimed =>
      simp only [Breaker.release] at hprobing
      split at hprobing
      next => cases hprobing
      next hr =>
        obtain ⟨j, now, hheld⟩ := hs r hprobing
        refine ⟨j, now, ?_, hheld⟩
        rintro rfl
        exact hr ((hclaimed r).mpr ⟨_, hheld, rfl⟩)

/-- Every step in time keeps the invariant, if claims are held for less time
than a pause lasts. -/
theorem Step.sound (hbound : bound < pause) {s' : Breaker U R} (hstep : Step pause s s')
    (htime : InTime bound s) (hs : Sound pause s) : Sound pause s' := by
  cases hstep with
  | wait elapsed => exact hs.wait elapsed
  | claimOpen hnow hopen => exact hs.claimOpen hnow hopen
  | claimProbe hnow hpaused hpassed hprobing =>
      exact hs.claimProbe hbound htime hnow hpaused hpassed hprobing
  | resume r => exact hs.resume r
  | suspend r => exact hs.suspend r
  | release hclaimed => exact hs.release hbound htime hclaimed

end Steps

end Breaker

end Interaction
