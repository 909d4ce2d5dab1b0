import SshGate.Interaction.AgeQueue
import SshGate.Interaction.RingBuffer
import SshGate.Dns.Actions

/-! # The connection tracker

Active records and a ring of finished ones. Every function here is one section
under the tracker's lock; the readings of the clock that it takes are
arguments, in the order in which they are taken, and so is the order in which
it ranges over the active map. `log` records every prune and push of the ring;
no function looks at it.
-/

namespace SshGate.Tracker

open Go Interaction

inductive ConnState where
  | dialing
  | active
  | closed
  | error
  deriving Repr, DecidableEq, Inhabited

/-- The states of a record that has moved to history. -/
def ConnState.IsTerminal (status : ConnState) : Prop := status = .closed ∨ status = .error

/-- The metadata of a dial with the address it goes to. -/
structure DialMeta extends ConnMeta where
  dstIP : Text := []
  deriving Repr, DecidableEq

structure ConnRecord where
  id : Nat
  proto : Text
  src : Text
  host : Text
  dstIP : Text
  port : Int
  status : ConnState
  startedAt : Int
  closedAt : Int := 0
  bytesUp : Int := 0
  bytesDown : Int := 0
  reason : Text := []
  /-- The tracked connection that `Done` made. -/
  live : Option Nat := none
  deriving Repr, DecidableEq, Inhabited

/-- The map of active records is a list of them: the key of a record is its id.
The ids are `uint64` numbers and stay below `2 ^ 64` here: no tracker begins that
many records. -/
structure ConnTracker where
  active : List ConnRecord := []
  ring : RingBuffer ConnRecord
  maxAge : Int
  nextID : Nat := 0
  log : List (QueueEvent ConnRecord) := []

/-- The size of the ring for the capacity asked for. -/
def ringCapacity (capacity : Int) : Nat := if capacity ≤ 0 then 1000 else capacity.toNat

theorem ringCapacity_pos (capacity : Int) : 0 < ringCapacity capacity := by
  unfold ringCapacity
  split <;> omega

def newConnTracker (capacity maxAge : Int) : ConnTracker where
  ring := .empty (ringCapacity capacity) default (ringCapacity_pos capacity)
  maxAge := maxAge

namespace ConnTracker

variable (t : ConnTracker)

/-- `t.active[id]`. -/
def lookup (id : Nat) : Option ConnRecord := t.active.find? (·.id = id)

/-- `delete(t.active, id)`. -/
def delete (id : Nat) : ConnTracker := { t with active := t.active.filter (·.id ≠ id) }

def begin (info : DialMeta) (host : Text) (port : Int) (now : Int) : ConnTracker :=
  { t with
    nextID := t.nextID + 1
    active :=
      { id := t.nextID + 1, proto := info.proto, src := info.src, host, dstIP := info.dstIP, port
        status := .dialing, startedAt := now } :: t.active }

/-- The locked part of `Done`; `tc` is the wrapped connection. -/
def done (id tc : Nat) : ConnTracker :=
  { t with
    active := t.active.map fun rec =>
      if rec.id = id then { rec with status := .active, live := some tc } else rec }

def pruneRing (now : Int) : ConnTracker :=
  { t with
    ring := t.ring.discard fun oldest => !decide (now - oldest.closedAt ≤ t.maxAge)
    log := t.log ++ [.prune now] }

def pushRing (rec : ConnRecord) (now : Int) : ConnTracker :=
  let t := t.pruneRing now
  { t with
    ring := t.ring.push rec
    log := t.log ++ [.push rec] }

/-- Move the record of an id, if it is active, to history as `finished` makes
it. -/
def retire (id : Nat) (finished : ConnRecord → ConnRecord) (now : Int) : ConnTracker :=
  match t.lookup id with
  | none => t
  | some rec => (t.delete id).pushRing (finished rec) now

def fail (id : Nat) (err : Text) (closedAt now : Int) : ConnTracker :=
  t.retire id (fun rec => { rec with status := .error, reason := err, closedAt }) now

def finish (id : Nat) (bytesUp bytesDown : Int) (firstErr : Option Text) (closedAt now : Int) :
    ConnTracker :=
  t.retire id (fun rec =>
    { rec with
      status := if firstErr.isSome then .error else .closed
      reason := firstErr.getD rec.reason
      bytesUp, bytesDown, closedAt }) now

/-- The test of `dropStalled`. -/
def stalled (now : Int) (rec : ConnRecord) : Bool :=
  rec.status = .dialing && decide (now - rec.startedAt > t.maxAge)

/-- One turn of the loop of `dropStalled`: an id of the map, and the reading of
the clock that `pushRing` takes if it comes to that. -/
def dropIfStalled (now : Int) (visit : Nat × Int) : ConnTracker :=
  if (t.lookup visit.1).any (t.stalled now) then
    t.retire visit.1 (fun rec =>
      { rec with status := .error, reason := str "dial timeout", closedAt := now }) visit.2
  else t

/-- `visits` is the order in which the map is ranged over. -/
def dropStalled (now : Int) (visits : List (Nat × Int)) : ConnTracker :=
  visits.foldl (fun t visit => t.dropIfStalled now visit) t

/-! ## The accounts of a tracker -/

def activeIds : List Nat := t.active.map ConnRecord.id

/-- Every record that was pushed to the ring, in that order. -/
def finished : List ConnRecord := AgeQueue.pushed t.log

def finishedIds : List Nat := t.finished.map ConnRecord.id

/-- The id and the start of every record there ever was. -/
def births : List (Nat × Int) :=
  (t.active ++ t.finished).map fun rec => (rec.id, rec.startedAt)

theorem map_births : t.births.map Prod.fst = t.activeIds ++ t.finishedIds := by
  simp only [births, activeIds, finishedIds, List.map_append, List.map_map]
  rfl

/-- Every id handed out so far is in the active map or was pushed to the ring,
and that once; a record has a terminal status exactly if it was pushed. -/
structure Accounted : Prop where
  ids : (t.activeIds ++ t.finishedIds).Perm (List.range' 1 t.nextID)
  running : ∀ rec ∈ t.active, ¬ rec.status.IsTerminal
  terminal : ∀ rec ∈ t.finished, rec.status.IsTerminal

variable {t}

theorem Accounted.nodup (ht : t.Accounted) : (t.activeIds ++ t.finishedIds).Nodup :=
  ht.ids.nodup_iff.mpr List.nodup_range'

theorem Accounted.issued (ht : t.Accounted) {id : Nat} :
    id ∈ t.activeIds ∨ id ∈ t.finishedIds ↔ 1 ≤ id ∧ id ≤ t.nextID := by
  rw [← List.mem_append, ht.ids.mem_iff, List.mem_range'_1]
  omega

/-- The records of one id. -/
theorem Accounted.eq_of_id (ht : t.Accounted) {rec other : ConnRecord} (hrec : rec ∈ t.active)
    (hother : other ∈ t.active) (hid : rec.id = other.id) : rec = other :=
  List.inj_on_of_nodup_map (List.nodup_append.mp ht.nodup).1 hrec hother hid

theorem mem_activeIds {id : Nat} : id ∈ t.activeIds ↔ ∃ rec ∈ t.active, rec.id = id :=
  List.mem_map

theorem lookup_eq_none {id : Nat} : t.lookup id = none ↔ id ∉ t.activeIds := by
  simp [lookup, activeIds]

theorem lookup_eq_some (ht : t.Accounted) {id : Nat} {rec : ConnRecord} :
    t.lookup id = some rec ↔ rec ∈ t.active ∧ rec.id = id := by
  constructor
  · intro hlookup
    exact ⟨List.mem_of_find?_eq_some hlookup, by simpa using List.find?_some hlookup⟩
  · rintro ⟨hrec, rfl⟩
    cases hlookup : t.lookup rec.id with
    | none => exact absurd (mem_activeIds.mpr ⟨rec, hrec, rfl⟩) (lookup_eq_none.mp hlookup)
    | some found =>
        have hid : found.id = rec.id := by simpa using List.find?_some hlookup
        rw [ht.eq_of_id (List.mem_of_find?_eq_some hlookup) hrec hid]

theorem newConnTracker_accounted (capacity maxAge : Int) :
    (newConnTracker capacity maxAge).Accounted := by
  refine ⟨?_, ?_, ?_⟩ <;> simp [newConnTracker, activeIds, finishedIds, finished, AgeQueue.pushed]

/-! ## What the sections do -/

@[simp] theorem activeIds_begin (info : DialMeta) (host : Text) (port now : Int) :
    (t.begin info host port now).activeIds = (t.nextID + 1) :: t.activeIds := rfl

@[simp] theorem finished_begin (info : DialMeta) (host : Text) (port now : Int) :
    (t.begin info host port now).finished = t.finished := rfl

theorem Accounted.begin (ht : t.Accounted) (info : DialMeta) (host : Text) (port now : Int) :
    (t.begin info host port now).Accounted := by
  refine ⟨?_, ?_, ht.terminal⟩
  · have hrange : List.range' 1 (t.nextID + 1) = List.range' 1 t.nextID ++ [t.nextID + 1] := by
      rw [List.range'_1_concat, Nat.add_comm 1]
    show ((t.nextID + 1) :: (t.activeIds ++ t.finishedIds)).Perm (List.range' 1 (t.nextID + 1))
    rw [hrange]
    exact (ht.ids.cons _).trans (List.perm_append_singleton _ _).symm
  · intro rec hrec
    rcases List.mem_cons.mp hrec with rfl | hold
    · simp [ConnState.IsTerminal]
    · exact ht.running rec hold

/-- Marking a record changes nothing but its status and its connection. -/
theorem map_done {α : Type} (read : ConnRecord → α) (id tc : Nat)
    (hread : ∀ rec, read { rec with status := .active, live := some tc } = read rec) :
    (t.done id tc).active.map read = t.active.map read := by
  simp only [done, List.map_map]
  apply List.map_congr_left
  intro rec _
  simp only [Function.comp]
  split
  next => exact hread rec
  next => rfl

@[simp] theorem activeIds_done (id tc : Nat) : (t.done id tc).activeIds = t.activeIds :=
  map_done ConnRecord.id id tc fun _ => rfl

theorem births_done (id tc : Nat) : (t.done id tc).births = t.births := by
  rw [births, births, List.map_append, List.map_append]
  exact congrArg (· ++ _) (map_done _ id tc fun _ => rfl)

/-- A record that is marked active keeps everything but its status. -/
theorem mem_done {id tc : Nat} {rec : ConnRecord} (hrec : rec ∈ (t.done id tc).active) :
    ∃ old ∈ t.active, old.id = rec.id ∧ old.startedAt = rec.startedAt ∧
      (rec.id ≠ id ∧ rec = old ∨ rec.id = id ∧ rec.status = .active) := by
  obtain ⟨old, hold, rfl⟩ := List.mem_map.mp hrec
  refine ⟨old, hold, ?_⟩
  split
  next hid => exact ⟨rfl, rfl, .inr ⟨hid, rfl⟩⟩
  next hid => exact ⟨rfl, rfl, .inl ⟨hid, rfl⟩⟩

theorem Accounted.done (ht : t.Accounted) (id tc : Nat) : (t.done id tc).Accounted := by
  refine ⟨?_, ?_, ht.terminal⟩
  · rw [activeIds_done]
    exact ht.ids
  · intro rec hrec
    obtain ⟨old, hold, _, _, ⟨_, rfl⟩ | ⟨_, hstatus⟩⟩ := mem_done hrec
    · exact ht.running rec hold
    · simp [ConnState.IsTerminal, hstatus]

@[simp] theorem maxAge_pruneRing (now : Int) : (t.pruneRing now).maxAge = t.maxAge := rfl

@[simp] theorem finished_pruneRing (now : Int) : (t.pruneRing now).finished = t.finished := by
  simp [finished, pruneRing, AgeQueue.pushed_append, AgeQueue.pushed]

@[simp] theorem finished_pushRing (rec : ConnRecord) (now : Int) :
    (t.pushRing rec now).finished = t.finished ++ [rec] := by
  simp [finished, pushRing, pruneRing, AgeQueue.pushed_append, AgeQueue.pushed]

theorem Accounted.pruneRing (ht : t.Accounted) (now : Int) : (t.pruneRing now).Accounted := by
  refine ⟨?_, ht.running, ?_⟩
  · rw [finishedIds, finished_pruneRing]
    exact ht.ids
  · rw [finished_pruneRing]
    exact ht.terminal

section Retire

variable {id : Nat} {finished' : ConnRecord → ConnRecord} {now : Int}

theorem retire_eq_self (hid : id ∉ t.activeIds) : t.retire id finished' now = t := by
  rw [retire, lookup_eq_none.mpr hid]

theorem active_retire : (t.retire id finished' now).active = t.active.filter (·.id ≠ id) := by
  unfold retire
  split
  next hnone =>
    have hid := lookup_eq_none.mp hnone
    symm
    rw [List.filter_eq_self]
    intro rec hrec
    simpa using fun heq => hid (mem_activeIds.mpr ⟨rec, hrec, heq⟩)
  next => rfl

theorem finished_retire :
    (t.retire id finished' now).finished = t.finished ++ ((t.lookup id).map finished').toList := by
  unfold retire
  split
  next hnone => simp [hnone]
  next rec hsome =>
    rw [hsome, finished_pushRing]
    rfl

@[simp] theorem nextID_retire : (t.retire id finished' now).nextID = t.nextID := by
  unfold retire
  split <;> rfl

@[simp] theorem maxAge_retire : (t.retire id finished' now).maxAge = t.maxAge := by
  unfold retire
  split <;> rfl

/-- The record of an id is one of the active ones, and the only one of its id. -/
theorem Accounted.perm_cons (ht : t.Accounted) {rec : ConnRecord} (hrec : rec ∈ t.active) :
    t.active.Perm (rec :: t.active.filter (·.id ≠ rec.id)) := by
  have hids : t.activeIds.Nodup := (List.nodup_append.mp ht.nodup).1
  have hactive : t.active.Nodup := hids.of_map
  have hrest : (rec :: t.active.filter (·.id ≠ rec.id)).Nodup :=
    List.nodup_cons.mpr ⟨by simp, hactive.filter _⟩
  rw [List.perm_ext_iff_of_nodup hactive hrest]
  intro other
  simp only [List.mem_cons, List.mem_filter, decide_eq_true_eq]
  constructor
  · intro hother
    by_cases hid : other.id = rec.id
    · exact .inl (ht.eq_of_id hother hrec hid)
    · exact .inr ⟨hother, hid⟩
  · rintro (rfl | ⟨hother, _⟩)
    · exact hrec
    · exact hother

/-- Retiring moves a record from the one list to the other. -/
theorem Accounted.births_retire (ht : t.Accounted)
    (hfinished : ∀ rec, (finished' rec).id = rec.id ∧ (finished' rec).startedAt = rec.startedAt) :
    (t.retire id finished' now).births.Perm t.births := by
  cases hlookup : t.lookup id with
  | none => rw [retire_eq_self (lookup_eq_none.mp hlookup)]
  | some rec =>
      obtain ⟨hrec, rfl⟩ := (lookup_eq_some ht).mp hlookup
      let birth (rec : ConnRecord) : Nat × Int := (rec.id, rec.startedAt)
      have hactive := ((ht.perm_cons hrec).append_right t.finished).map birth
      have hbirth : birth (finished' rec) = birth rec :=
        Prod.ext (hfinished rec).1 (hfinished rec).2
      rw [births, active_retire, finished_retire, hlookup, Option.map_some, Option.toList_some,
        ← List.append_assoc, List.map_append, List.map_cons, List.map_nil]
      refine List.Perm.trans ?_ hactive.symm
      rw [List.cons_append, List.map_cons, ← hbirth]
      exact List.perm_append_singleton _ _

theorem Accounted.retire (ht : t.Accounted)
    (hfinished : ∀ rec, (finished' rec).id = rec.id ∧ (finished' rec).startedAt = rec.startedAt)
    (hterminal : ∀ rec, (finished' rec).status.IsTerminal) :
    (t.retire id finished' now).Accounted := by
  refine ⟨?_, ?_, ?_⟩
  · rw [← map_births, nextID_retire]
    exact ((ht.births_retire hfinished).map Prod.fst).trans (t.map_births ▸ ht.ids)
  · rw [active_retire]
    exact fun rec hrec => ht.running rec (List.mem_of_mem_filter hrec)
  · rw [finished_retire]
    intro rec hrec
    rcases List.mem_append.mp hrec with hold | hnew
    · exact ht.terminal rec hold
    · simp only [Option.mem_toList, Option.map_eq_some_iff] at hnew
      obtain ⟨old, _, rfl⟩ := hnew
      exact hterminal old

end Retire

section DropStalled

variable {now : Int}

/-- A turn of the loop leaves the tracker alone or retires its record. -/
theorem dropIfStalled_cases (now : Int) (visit : Nat × Int) :
    t.dropIfStalled now visit = t ∨
      t.dropIfStalled now visit = t.retire visit.1 (fun rec =>
        { rec with status := .error, reason := str "dial timeout", closedAt := now }) visit.2 := by
  unfold dropIfStalled
  split
  next => exact .inr rfl
  next => exact .inl rfl

/-- What every turn of the loop keeps, the loop keeps. -/
theorem dropStalled_induction {P : ConnTracker → Prop}
    (hstep : ∀ t visit, P t → P (t.dropIfStalled now visit)) (ht : P t)
    (visits : List (Nat × Int)) : P (t.dropStalled now visits) := by
  induction visits generalizing t with
  | nil => exact ht
  | cons visit rest ih => exact ih (hstep t visit ht)

theorem Accounted.dropIfStalled (ht : t.Accounted) (visit : Nat × Int) :
    (t.dropIfStalled now visit).Accounted := by
  rcases dropIfStalled_cases now visit with heq | heq
  · rwa [heq]
  · rw [heq]
    exact ht.retire (fun _ => ⟨rfl, rfl⟩) fun _ => .inr rfl

theorem Accounted.dropStalled (ht : t.Accounted) (visits : List (Nat × Int)) :
    (t.dropStalled now visits).Accounted :=
  dropStalled_induction (fun _ visit hacc => hacc.dropIfStalled visit) ht visits

theorem Accounted.births_dropStalled (ht : t.Accounted) (now : Int) (visits : List (Nat × Int)) :
    (t.dropStalled now visits).births.Perm t.births := by
  refine (dropStalled_induction (P := fun t' => t'.Accounted ∧ t'.births.Perm t.births) ?_
    ⟨ht, .refl _⟩ visits).2
  rintro t' visit ⟨hacc, hbirths⟩
  refine ⟨hacc.dropIfStalled visit, ?_⟩
  rcases dropIfStalled_cases now visit with heq | heq
  · rwa [heq]
  · rw [heq]
    refine (hacc.births_retire ?_).trans hbirths
    exact fun _ => ⟨rfl, rfl⟩

theorem settings_dropStalled (now : Int) (visits : List (Nat × Int)) :
    (t.dropStalled now visits).maxAge = t.maxAge ∧
      (t.dropStalled now visits).nextID = t.nextID := by
  refine dropStalled_induction
    (P := fun t' => t'.maxAge = t.maxAge ∧ t'.nextID = t.nextID) ?_ ⟨rfl, rfl⟩ visits
  intro t' visit hsame
  rcases dropIfStalled_cases now visit with heq | heq
  · rwa [heq]
  · rwa [heq, maxAge_retire, nextID_retire]

/-- The loop only adds to the history. -/
theorem finished_dropStalled (now : Int) (visits : List (Nat × Int)) :
    t.finished <+: (t.dropStalled now visits).finished := by
  refine dropStalled_induction (P := fun t' => t.finished <+: t'.finished) ?_
    (List.prefix_refl _) visits
  intro t' visit hprefix
  rcases dropIfStalled_cases now visit with heq | heq
  · rwa [heq]
  · rw [heq, finished_retire]
    exact hprefix.trans (List.prefix_append _ _)

theorem active_dropIfStalled (ht : t.Accounted) (visit : Nat × Int) :
    (t.dropIfStalled now visit).active =
      t.active.filter fun rec => !(decide (rec.id = visit.1) && t.stalled now rec) := by
  unfold dropIfStalled
  split
  next hstalled =>
    rw [Option.any_eq_true] at hstalled
    obtain ⟨rec, hlookup, hstalled⟩ := hstalled
    obtain ⟨hrec, hid⟩ := (lookup_eq_some ht).mp hlookup
    rw [active_retire]
    apply List.filter_congr
    intro other hother
    by_cases heq : other.id = visit.1
    · rw [ht.eq_of_id hother hrec (heq.trans hid.symm)]
      simp [hid, hstalled]
    · simp [heq]
  next hkept =>
    symm
    rw [List.filter_eq_self]
    intro other hother
    by_cases heq : other.id = visit.1
    · rw [(lookup_eq_some ht).mpr ⟨hother, heq⟩] at hkept
      simpa [heq] using hkept
    · simp [heq]

/-- Of the ids it visits, the loop takes the stalled ones. -/
theorem active_dropStalled (ht : t.Accounted) (now : Int) (visits : List (Nat × Int)) :
    (t.dropStalled now visits).active =
      t.active.filter fun rec => !(decide (rec.id ∈ visits.map Prod.fst) && t.stalled now rec) := by
  induction visits generalizing t with
  | nil => simp [dropStalled]
  | cons visit rest ih =>
      have hmaxAge : (t.dropIfStalled now visit).maxAge = t.maxAge :=
        (settings_dropStalled now [visit]).1
      calc (t.dropStalled now (visit :: rest)).active
        _ = (t.dropIfStalled now visit).active.filter fun rec =>
              !(decide (rec.id ∈ rest.map Prod.fst) && t.stalled now rec) := by
            rw [← (funext fun _ => by rw [stalled, stalled, hmaxAge] :
              (t.dropIfStalled now visit).stalled now = t.stalled now)]
            exact ih (ht.dropIfStalled visit)
        _ = _ := by
            rw [active_dropIfStalled ht, List.filter_filter]
            apply List.filter_congr
            intro rec _
            by_cases hid : rec.id = visit.1 <;> cases t.stalled now rec <;> simp [hid]

end DropStalled

end ConnTracker

end SshGate.Tracker
