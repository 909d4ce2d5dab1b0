import SshGate.Tracker.Lifecycle

/-! # What records are told

A record is told its protocol, client, host, address and port by `Begin`. No
action changes them, and none but `Done`, or one that retires the record, changes
anything else of an active record.
-/

namespace SshGate.Tracker

open Go Interaction

variable {w w' : World} {event : Event sig}

/-- A record that stays and is not the one marked stays as it is. -/
theorem effect_keeps {rec : ConnRecord} (hw : w.tracker.Accounted) (heffect : Effect w event w')
    (hrec : rec ∈ w.tracker.active) (hstays : ¬ Retires w rec event)
    (hdone : event.op ≠ .done rec.id) : rec ∈ w'.tracker.active := by
  have hid : rec.id ∈ w'.tracker.activeIds := by
    by_contra hgone
    exact hstays ((effect_leaves hw heffect hrec).mp hgone)
  -- among the old records the one of this id is this one
  have hold : (∀ other ∈ w'.tracker.active, other ∈ w.tracker.active) →
      rec ∈ w'.tracker.active := by
    intro hsubset
    obtain ⟨other, hother, heq⟩ := ConnTracker.mem_activeIds.mp hid
    rwa [hw.eq_of_id hrec (hsubset other hother) heq.symm]
  cases heffect with
  | begin hclock => exact List.mem_cons_of_mem _ hrec
  | mark hmark =>
      refine List.mem_map.mpr ⟨rec, hrec, ?_⟩
      rw [if_neg fun heq => hdone (by rw [heq])]
  | fail hclosed hnow =>
      refine hold fun other hother => ?_
      rw [ConnTracker.fail, ConnTracker.active_retire] at hother
      exact List.mem_of_mem_filter hother
  | finish hclosed hnow =>
      refine hold fun other hother => ?_
      rw [ConnTracker.finish, ConnTracker.active_retire] at hother
      exact List.mem_of_mem_filter hother
  | sweep hsweep =>
      refine hold fun other hother => ?_
      rw [ConnTracker.active_dropStalled hw] at hother
      exact List.mem_of_mem_filter hother
  | list hsweep =>
      refine hold fun other hother => ?_
      rw [ConnTracker.active_dropStalled (hw.pruneRing _)] at hother
      exact List.mem_of_mem_filter hother
  | late | swap | counters | quiet => exact hrec

/-- What a record is told at its birth. -/
structure Origin where
  id : Nat
  proto : Text
  src : Text
  host : Text
  dstIP : Text
  port : Int
  deriving Repr, DecidableEq

def ConnRecord.origin (rec : ConnRecord) : Origin :=
  ⟨rec.id, rec.proto, rec.src, rec.host, rec.dstIP, rec.port⟩

/-- The active records with those that were pushed to the ring. -/
def ConnTracker.allRecords (t : ConnTracker) : List ConnRecord := t.active ++ t.finished

/-- The records of one tracker come from those of another. -/
def ConnTracker.From (t t' : ConnTracker) : Prop :=
  ∀ rec ∈ t'.allRecords, ∃ old ∈ t.allRecords, old.origin = rec.origin

namespace ConnTracker

variable {t t' t'' : ConnTracker}

theorem From.refl (t : ConnTracker) : t.From t := fun rec hrec => ⟨rec, hrec, rfl⟩

theorem From.trans (hfirst : t.From t') (hsecond : t'.From t'') : t.From t'' := by
  intro rec hrec
  obtain ⟨middle, hmiddle, heq⟩ := hsecond rec hrec
  obtain ⟨old, hold, heq'⟩ := hfirst middle hmiddle
  exact ⟨old, hold, heq'.trans heq⟩

theorem from_done (id tc : Nat) : t.From (t.done id tc) := by
  intro rec hrec
  rcases List.mem_append.mp hrec with hactive | hfinished
  · obtain ⟨old, hold, rfl⟩ := List.mem_map.mp hactive
    refine ⟨old, List.mem_append_left _ hold, ?_⟩
    split <;> rfl
  · exact ⟨rec, List.mem_append_right _ hfinished, rfl⟩

theorem from_pruneRing (now : Int) : t.From (t.pruneRing now) := by
  intro rec hrec
  rw [allRecords, finished_pruneRing] at hrec
  exact ⟨rec, hrec, rfl⟩

theorem from_retire {id : Nat} {finished' : ConnRecord → ConnRecord} {now : Int}
    (horigin : ∀ rec, (finished' rec).origin = rec.origin) :
    t.From (t.retire id finished' now) := by
  intro rec hrec
  rw [allRecords, active_retire, finished_retire, List.mem_append, List.mem_append] at hrec
  rcases hrec with hactive | hfinished | hnew
  · exact ⟨rec, List.mem_append_left _ (List.mem_of_mem_filter hactive), rfl⟩
  · exact ⟨rec, List.mem_append_right _ hfinished, rfl⟩
  · simp only [Option.mem_toList, Option.map_eq_some_iff] at hnew
    obtain ⟨old, hold, rfl⟩ := hnew
    exact ⟨old, List.mem_append_left _ (List.mem_of_find?_eq_some hold), (horigin old).symm⟩

theorem from_dropStalled (now : Int) (visits : List (Nat × Int)) :
    t.From (t.dropStalled now visits) := by
  refine dropStalled_induction (P := t.From) (fun t' visit hfrom => hfrom.trans ?_) (.refl t) visits
  rcases dropIfStalled_cases now visit with heq | heq
  · rw [heq]
    exact .refl t'
  · rw [heq]
    exact from_retire fun _ => rfl

end ConnTracker

/-- Only `Begin` adds a record, and no record changes what it was told. -/
theorem effect_origins (heffect : Effect w event w') :
    w.tracker.From w'.tracker ∨
      ∃ info host port now, event = ⟨.begin info host port, (now, w.tracker.nextID + 1)⟩ ∧
        w'.tracker = w.tracker.begin info host port now := by
  cases heffect with
  | begin hclock => exact .inr ⟨_, _, _, _, rfl, rfl⟩
  | mark hid => exact .inl (ConnTracker.from_done _ _)
  | fail hclosed hnow => exact .inl (ConnTracker.from_retire fun _ => rfl)
  | finish hclosed hnow => exact .inl (ConnTracker.from_retire fun _ => rfl)
  | sweep hsweep => exact .inl (ConnTracker.from_dropStalled _ _)
  | list hsweep =>
      exact .inl ((ConnTracker.from_pruneRing _).trans (ConnTracker.from_dropStalled _ _))
  | late | swap | counters | quiet => exact .inl (.refl _)

end SshGate.Tracker
