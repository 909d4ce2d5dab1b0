import SshGate.Tracker.Machine

/-! # The history ring is a bounded, age-limited queue

`pruneRing` looks only at the head of the ring. That is enough, because records
reach the ring in the order in which they were closed: `Fail`, `finish` and
every push of a `dropStalled` sweep take `closedAt` from one clock, under one
lock.
-/

namespace SshGate.Tracker

open Go Interaction

namespace ConnTracker

variable {t : ConnTracker} {now clock : Int}

/-- The queue that the ring stands for. -/
def queue (t : ConnTracker) : AgeQueue ConnRecord :=
  { stamp := ConnRecord.closedAt, capacity := t.ring.capacity, maxAge := t.maxAge }

/-- The ring holds what the queue holds after the same pushes and prunes. -/
def Refines (t : ConnTracker) : Prop := t.ring.contents = t.queue.run t.log

@[simp] theorem queue_pruneRing (t : ConnTracker) (now : Int) :
    (t.pruneRing now).queue = t.queue := by
  simp [queue, pruneRing]

@[simp] theorem queue_pushRing (t : ConnTracker) (rec : ConnRecord) (now : Int) :
    (t.pushRing rec now).queue = t.queue := by
  simp [queue, pushRing, pruneRing]

@[simp] theorem queue_retire {id : Nat} {finished' : ConnRecord → ConnRecord} :
    (t.retire id finished' now).queue = t.queue := by
  unfold retire
  split
  next => rfl
  next => exact queue_pushRing _ _ _

theorem contents_pruneRing :
    (t.pruneRing now).ring.contents = t.ring.contents.dropWhile (t.queue.tooOld now) := by
  simp only [pruneRing, RingBuffer.contents_discard]
  congr 1
  funext rec
  rw [← decide_not]
  exact decide_eq_decide.mpr Int.not_le

theorem Refines.pruneRing (ht : t.Refines) (now : Int) : (t.pruneRing now).Refines := by
  rw [Refines, contents_pruneRing, queue_pruneRing]
  simp only [ConnTracker.pruneRing]
  rw [AgeQueue.run_concat, ← ht]
  rfl

theorem Refines.pushRing (ht : t.Refines) (rec : ConnRecord) (now : Int) :
    (t.pushRing rec now).Refines := by
  have hpruned := ht.pruneRing now
  rw [Refines, queue_pushRing, ← queue_pruneRing t now]
  simp only [ConnTracker.pushRing]
  rw [AgeQueue.run_concat, ← hpruned, RingBuffer.contents_push]
  rfl

theorem Refines.retire (ht : t.Refines) (id : Nat) (finished' : ConnRecord → ConnRecord)
    (now : Int) : (t.retire id finished' now).Refines := by
  unfold ConnTracker.retire
  split
  next => exact ht
  next rec _ => exact Refines.pushRing (t := t.delete id) ht _ now

theorem Refines.dropStalled (ht : t.Refines) (visits : List (Nat × Int)) :
    (t.dropStalled now visits).Refines := by
  refine dropStalled_induction ?_ ht visits
  intro t' visit ht'
  rcases dropIfStalled_cases now visit with heq | heq
  · rwa [heq]
  · rw [heq]
    exact ht'.retire _ _ _

theorem queue_dropStalled (visits : List (Nat × Int)) :
    (t.dropStalled now visits).queue = t.queue := by
  refine dropStalled_induction (P := fun t' => t'.queue = t.queue) ?_ rfl visits
  intro t' visit ht'
  rcases dropIfStalled_cases now visit with heq | heq
  · rwa [heq]
  · rwa [heq, queue_retire]

/-- Records were pushed in the order in which they were closed, up to `clock`. -/
structure Ordered (t : ConnTracker) (clock : Int) : Prop where
  sorted : t.finished.Pairwise (·.closedAt ≤ ·.closedAt)
  past : ∀ rec ∈ t.finished, rec.closedAt ≤ clock

theorem Ordered.mono (ht : t.Ordered clock) {later : Int} (hlater : clock ≤ later) :
    t.Ordered later :=
  ⟨ht.sorted, fun rec hrec => (ht.past rec hrec).trans hlater⟩

theorem Ordered.of_finished {t' : ConnTracker} (ht : t.Ordered clock)
    (hfinished : t'.finished = t.finished) : t'.Ordered clock := by
  obtain ⟨hsorted, hpast⟩ := ht
  rw [← hfinished] at hsorted hpast
  exact ⟨hsorted, hpast⟩

theorem Ordered.retire (ht : t.Ordered clock) {id : Nat} {finished' : ConnRecord → ConnRecord}
    (hclosed : ∀ rec, (finished' rec).closedAt = clock) :
    (t.retire id finished' now).Ordered clock := by
  have hnew : ∀ rec ∈ ((t.lookup id).map finished').toList, rec.closedAt = clock := by
    intro rec hrec
    simp only [Option.mem_toList, Option.map_eq_some_iff] at hrec
    obtain ⟨old, _, rfl⟩ := hrec
    exact hclosed old
  constructor
  · rw [finished_retire, List.pairwise_append]
    refine ⟨ht.sorted, ?_, fun rec hrec new hmem => ?_⟩
    · cases t.lookup id <;> simp
    · rw [hnew new hmem]
      exact ht.past rec hrec
  · rw [finished_retire]
    intro rec hrec
    rcases List.mem_append.mp hrec with hold | hmem
    · exact ht.past rec hold
    · exact (hnew rec hmem).le

theorem Ordered.dropStalled (ht : t.Ordered now) (visits : List (Nat × Int)) :
    (t.dropStalled now visits).Ordered now := by
  refine dropStalled_induction (P := fun t' => t'.Ordered now) ?_ ht visits
  intro t' visit ht'
  rcases dropIfStalled_cases now visit with heq | heq
  · rwa [heq]
  · rw [heq]
    exact ht'.retire fun _ => rfl

theorem mem_contents_pushRing {rec new : ConnRecord}
    (hrec : rec ∈ (t.pushRing new now).ring.contents) : rec ∈ t.ring.contents ∨ rec = new := by
  simp only [pushRing, RingBuffer.contents_push, contents_pruneRing, List.mem_append,
    List.mem_singleton] at hrec
  refine hrec.imp_left fun hold => ?_
  apply (List.dropWhile_sublist _).subset
  split at hold
  next => exact List.mem_of_mem_tail hold
  next => exact hold

/-- The ring is sorted, as a part of what was pushed. -/
theorem Refines.window (ht : t.Refines) (hordered : t.Ordered clock) :
    ∃ gone, t.queue.Window t.log gone ∧ t.ring.contents.Pairwise (·.closedAt ≤ ·.closedAt) := by
  obtain ⟨gone, hwindow⟩ :=
    AgeQueue.exists_window (q := t.queue) t.ring.capacity_pos hordered.sorted
  refine ⟨gone, hwindow, ?_⟩
  rw [ht]
  exact hwindow.sorted hordered.sorted

/-- What a prune leaves is young enough, and so is what the sweep after it
adds. -/
theorem young_list (hmaxAge : 0 ≤ t.maxAge) (ht : t.Refines) (hordered : t.Ordered clock)
    (visits : List (Nat × Int)) :
    ∀ rec ∈ ((t.pruneRing now).dropStalled now visits).ring.contents,
      now - rec.closedAt ≤ t.maxAge := by
  refine dropStalled_induction (P := fun t' => ∀ rec ∈ t'.ring.contents,
    now - rec.closedAt ≤ t.maxAge) ?_ ?_ visits
  · intro t' visit hyoung
    rcases dropIfStalled_cases now visit with heq | heq
    · rwa [heq]
    · rw [heq, ConnTracker.retire]
      split
      next => exact hyoung
      next old _ =>
        intro rec hrec
        rcases mem_contents_pushRing hrec with hold | rfl
        · exact hyoung rec hold
        · simpa using hmaxAge
  · intro rec hrec
    obtain ⟨_, _, hsorted⟩ := ht.window hordered
    rw [contents_pruneRing] at hrec
    have hyoung := AgeQueue.not_tooOld_of_mem_dropWhile (q := t.queue) hsorted hrec
    exact Int.not_lt.mp (of_decide_eq_false hyoung)

end ConnTracker

/-! ## Along a run -/

/-- The history of a world: the ring refines the queue of these limits, and
records come in the order of their closing. -/
structure Kept (capacity : Nat) (maxAge : Int) (w : World) : Prop where
  limits : w.tracker.queue = { stamp := ConnRecord.closedAt, capacity, maxAge }
  refines : w.tracker.Refines
  ordered : w.tracker.Ordered w.clock

variable {lower : Nat → Nat} {capacity : Nat} {maxAge : Int}

theorem Kept.retire {w : World} (hw : Kept capacity maxAge w) {id : Nat}
    {finished' : ConnRecord → ConnRecord} {closedAt now : Int} (hclosed : w.clock ≤ closedAt)
    (hnow : closedAt ≤ now) (hfinished : ∀ rec, (finished' rec).closedAt = closedAt) :
    Kept capacity maxAge { w with tracker := w.tracker.retire id finished' now, clock := now } where
  limits := ConnTracker.queue_retire.trans hw.limits
  refines := hw.refines.retire _ _ _
  ordered := ((hw.ordered.mono hclosed).retire hfinished).mono hnow

theorem effect_kept {w w' : World} {event : Event sig} (hw : Kept capacity maxAge w)
    (heffect : Effect w event w') : Kept capacity maxAge w' := by
  cases heffect with
  | begin hclock => exact ⟨hw.limits, hw.refines, (hw.ordered.mono hclock).of_finished rfl⟩
  | mark hid => exact ⟨hw.limits, hw.refines, hw.ordered.of_finished rfl⟩
  | late hid => exact hw
  | fail hclosed hnow => exact hw.retire hclosed hnow fun _ => rfl
  | finish hclosed hnow => exact hw.retire hclosed hnow fun _ => rfl
  | sweep hsweep =>
      have hswept := (hw.ordered.mono hsweep.clock_le).dropStalled
      exact ⟨(ConnTracker.queue_dropStalled _).trans hw.limits, hw.refines.dropStalled _,
        (hswept _).mono hsweep.now_le_ends⟩
  | @list tab sweep hsweep =>
      have hpruned := hw.ordered.of_finished (ConnTracker.finished_pruneRing sweep.now)
      have hswept := (hpruned.mono hsweep.clock_le).dropStalled
      refine ⟨?_, (hw.refines.pruneRing _).dropStalled _, (hswept _).mono hsweep.now_le_ends⟩
      rw [ConnTracker.queue_dropStalled, ConnTracker.queue_pruneRing]
      exact hw.limits
  | swap hconn => exact ⟨hw.limits, hw.refines, hw.ordered⟩
  | counters hconn => exact hw
  | quiet hquiet hconns => exact ⟨hw.limits, hw.refines, hw.ordered⟩

theorem new_kept (size maxAge start : Int) :
    Kept (ringCapacity size) maxAge (.new size maxAge start) := by
  refine ⟨?_, rfl, ⟨List.Pairwise.nil, List.forall_mem_nil _⟩⟩
  simp [ConnTracker.queue, World.new, newConnTracker, RingBuffer.capacity, RingBuffer.empty]

theorem run_kept {size start : Int} {schedule : List (Action (tracking lower))}
    {c : Config (tracking lower)}
    (hrun : (tracking lower).run ⟨.new size maxAge start, []⟩ schedule = some c) :
    Kept (ringCapacity size) maxAge c.state := by
  refine run_world_invariant (Kept (ringCapacity size) maxAge) ?_ ?_ (new_kept size maxAge start)
    hrun
  · intro w elapsed hw
    exact ⟨hw.limits, hw.refines, hw.ordered.mono (by simp)⟩
  · exact fun w event w' hw heffect => effect_kept hw heffect

/-- The ring as a bounded, age-limited queue. Read from its head it holds, in
the order in which records finished, the longest suffix of all finished records
that fits and in which no record was too old at a prune since it finished. -/
structure HistoryWindow (capacity : Nat) (maxAge : Int) (t : ConnTracker) : Prop where
  head_lt : t.ring.head < capacity
  count_le : t.ring.count ≤ capacity
  index_lt : ∀ i, (t.ring.head + i) % capacity < t.ring.cells.length
  longest : ∃ kept : List ConnRecord,
    (List.range t.ring.count).map (fun i => t.ring.cells[(t.ring.head + i) % capacity]?) =
      kept.map some ∧
    LongestSuffix (fun kept => kept.length ≤ capacity ∧ ∀ x ∈ kept, x.2 = false)
      (AgeQueue.aged ⟨ConnRecord.closedAt, capacity, maxAge⟩ t.log) (kept.map (·, false)) ∧
    kept.Pairwise (·.closedAt ≤ ·.closedAt)

theorem Kept.historyWindow {w : World} (hw : Kept capacity maxAge w) :
    HistoryWindow capacity maxAge w.tracker := by
  obtain ⟨hlimits, hrefines, hordered⟩ := hw
  obtain ⟨gone, hwindow, hsorted⟩ := hrefines.window hordered
  obtain rfl : w.tracker.ring.capacity = capacity := congrArg AgeQueue.capacity hlimits
  refine ⟨w.tracker.ring.head_lt, w.tracker.ring.count_le, w.tracker.ring.index_lt,
    w.tracker.ring.contents, ?_, ?_, hsorted⟩
  · exact w.tracker.ring.map_getElem?_cells
  · have hlongest := hwindow.longestSuffix
    rw [← hrefines, hlimits] at hlongest
    exact hlongest

/-- In every run of tracker operations on a clock that does not go backwards,
the ring is the bounded, age-limited queue of what has finished, and right
after the locked section of `List` nothing in it is older than `maxAge`. -/
theorem history_refines_ageQueue {size maxAge start : Int} (hsize : 1 ≤ size)
    (hmaxAge : 0 ≤ maxAge) {schedule : List (Action (tracking lower))}
    {c : Config (tracking lower)}
    (hrun : (tracking lower).run ⟨.new size maxAge start, []⟩ schedule = some c) :
    HistoryWindow size.toNat maxAge c.state.tracker ∧
      ∀ before i tab (sweep : Sweep), schedule = before ++ [.run i ⟨.list tab, sweep⟩] →
        ∀ rec ∈ c.state.tracker.ring.contents, sweep.now - rec.closedAt ≤ maxAge := by
  have hcapacity : ringCapacity size = size.toNat := if_neg (by omega)
  refine ⟨hcapacity ▸ (run_kept hrun).historyWindow, ?_⟩
  rintro before i tab sweep rfl
  rw [System.run_append, Option.bind_eq_some_iff] at hrun
  obtain ⟨middle, hbefore, hlist⟩ := hrun
  simp only [System.run, Option.bind_eq_some_iff, Option.some.injEq, exists_eq_right] at hlist
  have hkept := run_kept hbefore
  obtain rfl : middle.state.tracker.maxAge = maxAge := congrArg AgeQueue.maxAge hkept.limits
  have heffect : Effect middle.state ⟨.list tab, sweep⟩ c.state := run_effect hlist
  generalize c.state = w at heffect
  cases heffect with
  | list hsweep =>
      exact ConnTracker.young_list hmaxAge hkept.refines hkept.ordered sweep.visits
  | quiet hquiet _ => exact absurd hquiet id

/-- Two dials that fail, at times 5 and 7. -/
def twoFailed : List (Action (tracking id)) :=
  let info : DialMeta := { proto := str "http", src := str "10.0.0.2:4000", host := [] }
  let dial : Call := .begin info (str "a") 443
  [.spawn dial, .spawn dial, .run 0 ⟨.begin info (str "a") 443, (0, 1)⟩,
    .run 1 ⟨.begin info (str "a") 443, (1, 2)⟩, .spawn (.fail 1 (str "refused")),
    .spawn (.fail 2 (str "refused")), .run 2 ⟨.fail 1 (str "refused"), (5, 5)⟩,
    .run 3 ⟨.fail 2 (str "refused"), (7, 7)⟩]

/-- The history of one that `List` sees at time 12. -/
def lastFailed : Sweep where
  now := 12
  visits := []
  recs :=
    [{ id := 2, proto := str "http", src := str "10.0.0.2:4000", host := str "a", dstIP := []
       port := 443, status := .error, startedAt := 1, closedAt := 7, reason := str "refused" }]

theorem twoFailed_refines_ageQueue :
    ∃ c, (tracking id).run ⟨.new 1 10 0, []⟩
        ((twoFailed ++ [.spawn (.list (str "history") [] [] 1 50)]) ++
          [.run 4 ⟨.list .history, lastFailed⟩]) = some c ∧
      HistoryWindow 1 10 c.state.tracker ∧
      ∀ rec ∈ c.state.tracker.ring.contents, 12 - rec.closedAt ≤ 10 := by
  obtain ⟨c, hrun⟩ : ∃ c, (tracking id).run ⟨.new 1 10 0, []⟩
      ((twoFailed ++ [.spawn (.list (str "history") [] [] 1 50)]) ++
        [.run 4 ⟨.list .history, lastFailed⟩]) = some c :=
    Option.isSome_iff_exists.mp (by decide +kernel)
  obtain ⟨hwindow, hyoung⟩ := history_refines_ageQueue (by decide) (by decide) hrun
  exact ⟨c, hrun, hwindow, hyoung _ 4 .history lastFailed rfl⟩

end SshGate.Tracker
