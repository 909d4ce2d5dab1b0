import Mathlib.Data.List.Induction
import Mathlib.Data.List.TakeWhile
import Mathlib.Order.Basic

/-! # Bounded queues with an age limit

A queue keeps at most `capacity` elements and gives up those that are too old,
but it looks only at its oldest element. As long as elements come in the order
of their stamps, that is enough: what it holds is the longest suffix of
everything pushed that fits and in which no element was ever found too old.
-/

namespace Interaction

/-- What happens to a queue. -/
inductive QueueEvent (α : Type) where
  | push (a : α)
  | prune (now : Int)
  deriving Repr, DecidableEq

/-- `kept` is the longest suffix of `all` with the property. -/
structure LongestSuffix {α : Type} (good : List α → Prop) (all kept : List α) : Prop where
  suffix : kept <:+ all
  holds : good kept
  longest : ∀ other, other <:+ all → good other → other.length ≤ kept.length

/-- The limits of a queue, and the time stamp of an element. -/
structure AgeQueue (α : Type) where
  stamp : α → Int
  capacity : Nat
  maxAge : Int

namespace AgeQueue

variable {α : Type} (q : AgeQueue α)

def tooOld (now : Int) (a : α) : Bool := decide (q.maxAge < now - q.stamp a)

def step (queue : List α) : QueueEvent α → List α
  | .push a => (if queue.length = q.capacity then queue.tail else queue) ++ [a]
  | .prune now => queue.dropWhile (q.tooOld now)

/-- The queue after a log of events. -/
def run (log : List (QueueEvent α)) : List α := log.foldl q.step []

/-- A prune finds the element too old. -/
def expires (a : α) : QueueEvent α → Bool
  | .push _ => false
  | .prune now => q.tooOld now a

/-- Everything ever pushed, each with whether a prune since then found it too
old. -/
def aged : List (QueueEvent α) → List (α × Bool)
  | [] => []
  | .push a :: rest => (a, rest.any (q.expires a)) :: aged rest
  | .prune _ :: rest => aged rest

/-- Everything ever pushed. -/
def pushed : List (QueueEvent α) → List α
  | [] => []
  | .push a :: rest => a :: pushed rest
  | .prune _ :: rest => pushed rest

theorem pushed_append (first second : List (QueueEvent α)) :
    pushed (first ++ second) = pushed first ++ pushed second := by
  induction first with
  | nil => rfl
  | cons event rest ih =>
      cases event with
      | push a => exact congrArg (a :: ·) ih
      | prune now => exact ih

theorem run_concat (log : List (QueueEvent α)) (event : QueueEvent α) :
    q.run (log ++ [event]) = q.step (q.run log) event := by
  simp only [run, List.foldl_append, List.foldl_cons, List.foldl_nil]

theorem map_aged (log : List (QueueEvent α)) : (q.aged log).map Prod.fst = pushed log := by
  induction log with
  | nil => rfl
  | cons event rest ih =>
      cases event with
      | push a => exact congrArg (a :: ·) ih
      | prune now => exact ih

theorem aged_push (log : List (QueueEvent α)) (a : α) :
    q.aged (log ++ [.push a]) = q.aged log ++ [(a, false)] := by
  induction log with
  | nil => rfl
  | cons event rest ih =>
      cases event with
      | push b => simp [aged, expires, ih]
      | prune now => exact ih

theorem aged_prune (log : List (QueueEvent α)) (now : Int) :
    q.aged (log ++ [.prune now]) =
      (q.aged log).map fun x => (x.1, x.2 || q.tooOld now x.1) := by
  induction log with
  | nil => rfl
  | cons event rest ih =>
      cases event with
      | push b => simp [aged, expires, ih]
      | prune now => exact ih

/-- The queue is what remains of the pushed elements after those that are
`gone`; the last of these was found too old, unless the queue is full. -/
structure Window (log : List (QueueEvent α)) (gone : List (α × Bool)) : Prop where
  split : q.aged log = gone ++ (q.run log).map (·, false)
  bound : (q.run log).length ≤ q.capacity
  edge : gone = [] ∨ (q.run log).length = q.capacity ∨ ∃ before a, gone = before ++ [(a, true)]

variable {q} {log : List (QueueEvent α)} {gone : List (α × Bool)}

theorem Window.push (hwindow : q.Window log gone) (hcapacity : 0 < q.capacity) (a : α) :
    ∃ gone', q.Window (log ++ [.push a]) gone' := by
  obtain ⟨hsplit, hbound, hedge⟩ := hwindow
  have hrun : q.run (log ++ [.push a]) = _ := q.run_concat log (.push a)
  rw [step] at hrun
  split at hrun
  next hfull =>
    -- The oldest element makes room and the queue stays full.
    obtain ⟨oldest, rest, hqueue⟩ := List.exists_cons_of_length_pos (hfull ▸ hcapacity)
    rw [hqueue, List.tail_cons] at hrun
    have hlength : (q.run (log ++ [.push a])).length = q.capacity := by
      rw [hrun, ← hfull, hqueue, List.length_append, List.length_cons]
      rfl
    refine ⟨gone ++ [(oldest, false)], ?_, hlength.le, .inr (.inl hlength)⟩
    rw [aged_push, hsplit, hqueue, hrun]
    simp
  next hroom =>
    refine ⟨gone, ?_, ?_, ?_⟩
    · rw [aged_push, hsplit, hrun]
      simp
    · rw [hrun, List.length_append, List.length_singleton]
      omega
    · rcases hedge with hnil | hfull | hlast
      · exact .inl hnil
      · exact absurd hfull hroom
      · exact .inr (.inr hlast)

/-- In stamp order everything behind a young enough element is young enough. -/
theorem not_tooOld_of_mem_dropWhile {queue : List α} {now : Int}
    (hsorted : queue.Pairwise (q.stamp · ≤ q.stamp ·)) {a : α}
    (ha : a ∈ queue.dropWhile (q.tooOld now)) : q.tooOld now a = false := by
  induction queue with
  | nil => exact absurd ha List.not_mem_nil
  | cons head rest ih =>
      obtain ⟨hhead, hrest⟩ := List.pairwise_cons.mp hsorted
      rw [List.dropWhile_cons] at ha
      split at ha
      next => exact ih hrest ha
      next hyoung =>
        rcases List.mem_cons.mp ha with rfl | hmem
        · exact Bool.eq_false_iff.mpr hyoung
        · have hstamp := hhead a hmem
          simp only [tooOld, decide_eq_true_eq, decide_eq_false_iff_not] at hyoung ⊢
          omega

theorem Window.pushed_eq (hwindow : q.Window log gone) :
    pushed log = gone.map Prod.fst ++ q.run log := by
  rw [← q.map_aged, hwindow.split, List.map_append, List.map_map]
  exact congrArg _ (List.map_id _)

theorem Window.sorted (hwindow : q.Window log gone)
    (hsorted : (pushed log).Pairwise (q.stamp · ≤ q.stamp ·)) :
    (q.run log).Pairwise (q.stamp · ≤ q.stamp ·) := by
  rw [hwindow.pushed_eq] at hsorted
  exact (List.pairwise_append.mp hsorted).2.1

theorem Window.prune (hwindow : q.Window log gone)
    (hsorted : (pushed log).Pairwise (q.stamp · ≤ q.stamp ·)) (now : Int) :
    ∃ gone', q.Window (log ++ [.prune now]) gone' := by
  have hqueue := hwindow.sorted hsorted
  obtain ⟨hsplit, hbound, hedge⟩ := hwindow
  have hrun : q.run (log ++ [.prune now]) = (q.run log).dropWhile (q.tooOld now) :=
    q.run_concat log (.prune now)
  let mark (x : α × Bool) : α × Bool := (x.1, x.2 || q.tooOld now x.1)
  have hold : ((q.run log).takeWhile (q.tooOld now)).map (fun a => mark (a, false)) =
      ((q.run log).takeWhile (q.tooOld now)).map (·, true) :=
    List.map_congr_left fun a ha => by simp [mark, List.mem_takeWhile_imp ha]
  have hyoung : ((q.run log).dropWhile (q.tooOld now)).map (fun a => mark (a, false)) =
      ((q.run log).dropWhile (q.tooOld now)).map (·, false) :=
    List.map_congr_left fun a ha => by
      simp [mark, not_tooOld_of_mem_dropWhile hqueue ha]
  refine ⟨gone.map mark ++ ((q.run log).takeWhile (q.tooOld now)).map (·, true), ?_, ?_, ?_⟩
  · calc q.aged (log ++ [.prune now])
        = (q.aged log).map mark := q.aged_prune log now
      _ = gone.map mark ++ (q.run log).map (fun a => mark (a, false)) := by
          rw [hsplit, List.map_append, List.map_map]
          rfl
      _ = _ := by
          rw [hrun, List.append_assoc, ← hold, ← hyoung, ← List.map_append,
            List.takeWhile_append_dropWhile]
  · rw [hrun]
    exact (List.dropWhile_sublist _).length_le.trans hbound
  · -- Either this prune dropped something, or the edge is where it was.
    rcases List.eq_nil_or_concat ((q.run log).takeWhile (q.tooOld now)) with
      hnone | ⟨init, a, hsome⟩
    · have hsame : (q.run log).dropWhile (q.tooOld now) = q.run log := by
        have := List.takeWhile_append_dropWhile (p := q.tooOld now) (l := q.run log)
        rwa [hnone] at this
      rw [hrun, hsame, hnone]
      rcases hedge with rfl | hfull | ⟨before, a, rfl⟩
      · exact .inl rfl
      · exact .inr (.inl hfull)
      · exact .inr (.inr ⟨before.map mark, a, by simp [mark]⟩)
    · refine .inr (.inr ⟨gone.map mark ++ init.map (·, true), a, ?_⟩)
      rw [hsome]
      simp

/-- Pushes come in the order of their stamps. -/
theorem exists_window (hcapacity : 0 < q.capacity)
    (hsorted : (pushed log).Pairwise (q.stamp · ≤ q.stamp ·)) : ∃ gone, q.Window log gone := by
  induction log using List.reverseRecOn with
  | nil => exact ⟨[], rfl, Nat.zero_le _, .inl rfl⟩
  | append_singleton log event ih =>
      rw [pushed_append] at hsorted
      have hbefore := (List.pairwise_append.mp hsorted).1
      obtain ⟨gone, hwindow⟩ := ih hbefore
      cases event with
      | push a => exact hwindow.push hcapacity a
      | prune now => exact hwindow.prune hbefore now

/-- A longer suffix would reach over the edge: it is too long, or it contains
an element that was found too old. -/
theorem Window.longestSuffix (hwindow : q.Window log gone) :
    LongestSuffix (fun kept => kept.length ≤ q.capacity ∧ ∀ x ∈ kept, x.2 = false)
      (q.aged log) ((q.run log).map (·, false)) := by
  obtain ⟨hsplit, hbound, hedge⟩ := hwindow
  refine ⟨⟨gone, hsplit.symm⟩, ⟨by simpa using hbound, by simp⟩, ?_⟩
  intro other hother ⟨hlength, hfresh⟩
  rw [List.length_map]
  rcases hedge with rfl | hfull | ⟨before, a, rfl⟩
  · rw [hsplit] at hother
    simpa using hother.length_le
  · omega
  · by_contra hlonger
    have hedge : (a, true) :: (q.run log).map (·, false) <:+ q.aged log :=
      ⟨before, by rw [hsplit, List.append_assoc, List.singleton_append]⟩
    have hover : (a, true) :: (q.run log).map (·, false) <:+ other :=
      List.suffix_of_suffix_length_le hedge hother (by simp; omega)
    exact absurd (hfresh (a, true) (hover.subset List.mem_cons_self)) (by simp)

end AgeQueue

end Interaction
