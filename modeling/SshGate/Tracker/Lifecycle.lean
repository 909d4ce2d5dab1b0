import SshGate.Config
import SshGate.Tracker.Machine

/-! # Every tracked dial reaches history once

A record leaves the active map by `Fail`, by the `finish` of the first `Close`
of its connection, or by a sweep that finds it stalled. All three take it out
of the map and push it in one section under the lock, so whichever comes first
is the only one that sees it.
-/

namespace SshGate.Tracker

open Go Interaction

/-- A sweep finds the record stalled: still dialing, and older than `maxAge`. -/
def Drops (w : World) (rec : ConnRecord) : Event sig → Prop
  | ⟨.activeByProto, sweep⟩ =>
      rec.status = .dialing ∧ w.tracker.maxAge < sweep.now - rec.startedAt
  | ⟨.list _, sweep⟩ =>
      rec.status = .dialing ∧ w.tracker.maxAge < sweep.now - rec.startedAt
  | _ => False

/-- The events that end the active time of a record. -/
def Retires (w : World) (rec : ConnRecord) (event : Event sig) : Prop :=
  (∃ err, event.op = .fail rec.id err) ∨
    (∃ up down firstErr, event.op = .finish rec.id up down firstErr) ∨ Drops w rec event

/-- The action is one on the record of this id. -/
def Op.IsFor (id : Nat) : Op → Prop
  | .done id' | .fail id' _ | .finish id' _ _ _ => id' = id
  | _ => False

/-- What one event does to the records. -/
structure Lifecycle (w : World) (event : Event sig) (w' : World) : Prop where
  /-- Every id handed out is active or was pushed to the ring, once, with a
  terminal status. -/
  accounted : w'.tracker.Accounted
  /-- A record leaves the active map exactly at an event that retires it. -/
  leaves : ∀ rec ∈ w.tracker.active, rec.id ∉ w'.tracker.activeIds ↔ Retires w rec event
  /-- What leaves the active map is what this event pushes. -/
  pushes : ∃ new, w'.tracker.finished = w.tracker.finished ++ new ∧
    ∀ id, id ∈ new.map ConnRecord.id ↔ id ∈ w.tracker.activeIds ∧ id ∉ w'.tracker.activeIds
  /-- After that no event for the id changes anything. -/
  settled : ∀ id, event.op.IsFor id → id ∉ w.tracker.activeIds → w'.tracker = w.tracker

theorem ConnTracker.Accounted.not_mem_iff {t t' : ConnTracker} (ht : t.Accounted)
    {keep : ConnRecord → Bool} (hactive : t'.active = t.active.filter keep) {rec : ConnRecord}
    (hrec : rec ∈ t.active) : rec.id ∉ t'.activeIds ↔ keep rec = false := by
  rw [ConnTracker.mem_activeIds, hactive]
  constructor
  · intro hgone
    by_contra hkeep
    exact hgone ⟨rec, List.mem_filter.mpr ⟨hrec, by simpa using hkeep⟩, rfl⟩
  · rintro hdrop ⟨other, hother, hid⟩
    obtain ⟨hmem, hkeep⟩ := List.mem_filter.mp hother
    rw [ht.eq_of_id hmem hrec hid, hdrop] at hkeep
    cases hkeep

variable {lower : Nat → Nat} {w w' : World} {event : Event sig}

theorem effect_accounted (hw : w.tracker.Accounted) (heffect : Effect w event w') :
    w'.tracker.Accounted := by
  cases heffect with
  | begin hclock => exact hw.begin _ _ _ _
  | mark hid => exact hw.done _ _
  | late hid => exact hw
  | fail hclosed hnow => exact hw.retire (fun _ => ⟨rfl, rfl⟩) fun _ => .inr rfl
  | @finish id up down firstErr closedAt now hclosed hnow =>
      refine hw.retire (fun _ => ⟨rfl, rfl⟩) fun rec => ?_
      cases firstErr with
      | none => exact .inl rfl
      | some err => exact .inr rfl
  | sweep hsweep => exact hw.dropStalled _
  | list hsweep => exact (hw.pruneRing _).dropStalled _
  | swap hconn => exact hw
  | counters hconn => exact hw
  | quiet hquiet hconns => exact hw

theorem Op.IsQuiet.not_retires (hquiet : event.op.IsQuiet) {rec : ConnRecord} :
    ¬ Retires w rec event := by
  obtain ⟨op, reply⟩ := event
  cases op <;> simp_all [Op.IsQuiet, Retires, Drops]

/-- The map ranged over in a sweep has every active id. -/
theorem World.CanSweep.mem {sweep : Sweep} (hsweep : w.CanSweep sweep) {rec : ConnRecord}
    (hrec : rec ∈ w.tracker.active) : rec.id ∈ sweep.visits.map Prod.fst :=
  hsweep.2.mem_iff.mpr (ConnTracker.mem_activeIds.mpr ⟨rec, hrec, rfl⟩)

theorem effect_leaves (hw : w.tracker.Accounted) (heffect : Effect w event w')
    {rec : ConnRecord} (hrec : rec ∈ w.tracker.active) :
    rec.id ∉ w'.tracker.activeIds ↔ Retires w rec event := by
  have hid : rec.id ∈ w.tracker.activeIds := ConnTracker.mem_activeIds.mpr ⟨rec, hrec, rfl⟩
  cases heffect with
  | begin hclock => simp [Retires, Drops, hid]
  | mark hmark => simp [Retires, Drops, hid]
  | late hlate => simp [Retires, Drops, hid]
  | fail hclosed hnow =>
      refine (hw.not_mem_iff ConnTracker.active_retire hrec).trans ?_
      simp only [Retires, Drops, Op.fail.injEq, reduceCtorEq, exists_const, or_false,
        exists_and_left, exists_eq', and_true]
      simpa using eq_comm
  | finish hclosed hnow =>
      refine (hw.not_mem_iff ConnTracker.active_retire hrec).trans ?_
      simp only [Retires, Drops, Op.finish.injEq, reduceCtorEq, exists_const, or_false, false_or,
        exists_and_left, exists_eq', and_true]
      simpa using eq_comm
  | sweep hsweep =>
      rw [hw.not_mem_iff (ConnTracker.active_dropStalled hw _ _) hrec]
      simp [Retires, Drops, ConnTracker.stalled, hsweep.mem hrec]
  | @list tab sweep hsweep =>
      rw [hw.not_mem_iff (ConnTracker.active_dropStalled (hw.pruneRing sweep.now) _ _) hrec]
      simp [Retires, Drops, ConnTracker.stalled, hsweep.mem hrec]
  | swap hconn => simp [Retires, Drops, hid]
  | counters hconn => simp [Retires, Drops, hid]
  | quiet hquiet hconns => exact iff_of_false (not_not_intro hid) hquiet.not_retires

theorem effect_settled (heffect : Effect w event w') {id : Nat} (hfor : event.op.IsFor id)
    (hid : id ∉ w.tracker.activeIds) : w'.tracker = w.tracker := by
  cases heffect with
  | mark hmark =>
      obtain rfl := hfor
      exact absurd hmark hid
  | late hlate => rfl
  | fail hclosed hnow =>
      obtain rfl := hfor
      exact ConnTracker.retire_eq_self hid
  | finish hclosed hnow =>
      obtain rfl := hfor
      exact ConnTracker.retire_eq_self hid
  | begin | sweep | list | swap | counters => exact hfor.elim
  | quiet hquiet hconns => rfl

/-- The history only grows. -/
theorem effect_grows (heffect : Effect w event w') :
    w.tracker.finished <+: w'.tracker.finished := by
  cases heffect with
  | fail hclosed hnow =>
      exact ConnTracker.finished_retire (t := w.tracker) ▸ List.prefix_append _ _
  | finish hclosed hnow =>
      exact ConnTracker.finished_retire (t := w.tracker) ▸ List.prefix_append _ _
  | sweep hsweep => exact ConnTracker.finished_dropStalled _ _
  | @list tab sweep hsweep =>
      rw [← ConnTracker.finished_pruneRing sweep.now]
      exact ConnTracker.finished_dropStalled _ _
  | begin | mark | late | swap | counters | quiet => exact List.prefix_refl _

/-- A birth is forever, and only `begin` adds one. -/
theorem effect_births (hw : w.tracker.Accounted) (heffect : Effect w event w') :
    w'.tracker.births.Perm w.tracker.births ∨
      ∃ info host port now, event = ⟨.begin info host port, (now, w.tracker.nextID + 1)⟩ ∧
        w'.tracker = w.tracker.begin info host port now := by
  cases heffect with
  | begin hclock => exact .inr ⟨_, _, _, _, rfl, rfl⟩
  | mark hid =>
      rw [ConnTracker.births_done]
      exact .inl (.refl _)
  | fail hclosed hnow => exact .inl (hw.births_retire fun _ => ⟨rfl, rfl⟩)
  | finish hclosed hnow => exact .inl (hw.births_retire fun _ => ⟨rfl, rfl⟩)
  | sweep hsweep => exact .inl (hw.births_dropStalled _ _)
  | @list tab sweep hsweep =>
      have hpruned : (w.tracker.pruneRing sweep.now).births = w.tracker.births := by
        rw [ConnTracker.births, ConnTracker.finished_pruneRing]
        rfl
      exact .inl (hpruned ▸ (hw.pruneRing sweep.now).births_dropStalled _ _)
  | late | swap | counters | quiet => exact .inl (.refl _)

theorem mem_ids_iff_of_births {t t' : ConnTracker} (hbirths : t'.births.Perm t.births) (id : Nat) :
    id ∈ t'.activeIds ∨ id ∈ t'.finishedIds ↔ id ∈ t.activeIds ∨ id ∈ t.finishedIds := by
  rw [← List.mem_append, ← List.mem_append, ← ConnTracker.map_births, ← ConnTracker.map_births]
  exact (hbirths.map Prod.fst).mem_iff

/-- The only way into the active map is a new id. -/
theorem effect_activeIds (hw : w.tracker.Accounted) (heffect : Effect w event w') {id : Nat}
    (hid : id ∈ w'.tracker.activeIds) :
    id ∈ w.tracker.activeIds ∨ id = w.tracker.nextID + 1 := by
  have hw' := effect_accounted hw heffect
  rcases effect_births hw heffect with hbirths | ⟨info, host, port, now, _, hbegin⟩
  · refine .inl (((mem_ids_iff_of_births hbirths id).mp (.inl hid)).resolve_right fun hold => ?_)
    have hstill := ((effect_grows heffect).map ConnRecord.id).subset hold
    exact List.disjoint_of_nodup_append hw'.nodup hid hstill
  · rw [hbegin, ConnTracker.activeIds_begin, List.mem_cons] at hid
    exact hid.symm

theorem effect_pushes (hw : w.tracker.Accounted) (heffect : Effect w event w') :
    ∃ new, w'.tracker.finished = w.tracker.finished ++ new ∧
      ∀ id, id ∈ new.map ConnRecord.id ↔
        id ∈ w.tracker.activeIds ∧ id ∉ w'.tracker.activeIds := by
  have hw' := effect_accounted hw heffect
  obtain ⟨new, hnew⟩ := effect_grows heffect
  refine ⟨new, hnew.symm, fun id => ?_⟩
  have hids : w'.tracker.finishedIds = w.tracker.finishedIds ++ new.map ConnRecord.id := by
    rw [ConnTracker.finishedIds, ← hnew, List.map_append]
    rfl
  rcases effect_births hw heffect with hbirths | ⟨info, host, port, now, _, hbegin⟩
  · have hsame := mem_ids_iff_of_births hbirths id
    have hbefore := List.disjoint_of_nodup_append hw.nodup
    have hafter := List.disjoint_of_nodup_append hw'.nodup
    have hgrown := (List.nodup_append.mp hw'.nodup).2.1
    rw [hids] at hsame hafter hgrown
    have hnew := List.disjoint_of_nodup_append hgrown
    rw [List.mem_append] at hsame
    constructor
    · intro hmem
      have hgone : id ∉ w'.tracker.activeIds := fun hactive =>
        hafter hactive (List.mem_append_right _ hmem)
      have hold : id ∉ w.tracker.finishedIds := fun hold => hnew hold hmem
      tauto
    · rintro ⟨hactive, hgone⟩
      have hold : id ∉ w.tracker.finishedIds := hbefore hactive
      tauto
  · rw [hbegin, ConnTracker.finished_begin] at hnew
    have hnil : new = [] := by simpa using hnew
    rw [hnil, hbegin, ConnTracker.activeIds_begin]
    simp only [List.map_nil, List.not_mem_nil, List.mem_cons, false_iff]
    tauto

theorem effect_lifecycle (hw : w.tracker.Accounted) (heffect : Effect w event w') :
    Lifecycle w event w' where
  accounted := effect_accounted hw heffect
  leaves _ hrec := effect_leaves hw heffect hrec
  pushes := effect_pushes hw heffect
  settled _ hfor hid := effect_settled heffect hfor hid

/-! ## Along a run -/

variable {size maxAge start : Int} {schedule : List (Action (tracking lower))}
  {c c' : Config (tracking lower)}

/-- Every `Begin` so far gave its record a birth of its own. -/
def Begun (c : Config (tracking lower)) : Prop :=
  ∀ i info host port now id, System.Performed c i ⟨.begin info host port, (now, id)⟩ →
    (id, now) ∈ c.state.tracker.births

theorem births_subset (hw : w.tracker.Accounted) (heffect : Effect w event w') :
    w.tracker.births ⊆ w'.tracker.births := by
  rcases effect_births hw heffect with hbirths | ⟨info, host, port, now, _, hbegin⟩
  · exact hbirths.symm.subset
  · rw [hbegin]
    exact List.subset_cons_self _ _

theorem step_begun {action : Action (tracking lower)} (hw : c.state.tracker.Accounted)
    (hc : Begun c) (hstep : (tracking lower).step c action = some c') : Begun c' := by
  intro i info host port now id hperformed
  rcases performed_effect hstep hperformed with hold | ⟨rfl, heffect⟩
  · exact step_preserves (P := fun w => (id, now) ∈ w.tracker.births) hstep (fun _ _ hw => hw)
      (fun _ _ heffect hmem => births_subset hw heffect hmem) (hc i info host port now id hold)
  · generalize c'.state = w' at heffect
    cases heffect with
    | begin hclock => exact List.mem_cons_self
    | quiet hquiet _ => exact hquiet.elim

section Births

variable {t : ConnTracker} (ht : t.Accounted) {id : Nat} {began : Int}

include ht

theorem ConnTracker.Accounted.birth_issued (hbirth : (id, began) ∈ t.births) :
    1 ≤ id ∧ id ≤ t.nextID := by
  have hmem : id ∈ t.births.map Prod.fst := List.mem_map_of_mem hbirth
  rw [ConnTracker.map_births, List.mem_append] at hmem
  exact ht.issued.mp hmem

theorem ConnTracker.Accounted.birth_unique {began' : Int} (hbirth : (id, began) ∈ t.births)
    (hbirth' : (id, began') ∈ t.births) : began = began' := by
  have hnodup : (t.births.map Prod.fst).Nodup := t.map_births ▸ ht.nodup
  exact congrArg Prod.snd (List.inj_on_of_nodup_map hnodup hbirth hbirth' rfl)

end Births

/-! ## Who finishes a connection -/

/-- The actions of `Close` that decide who moves the record. -/
def Op.IsClosing : Op → Prop
  | .swapClosed _ | .finish _ _ _ _ => True
  | _ => False

/-- A connection is finished by a `Close` that won the swap, with the id that
the connection has. -/
def CloseStep (call : Call) (history : List (Event sig)) : Op → Prop
  | .swapClosed tc => call = .close tc ∧ history = []
  | .finish id _ _ _ => ∃ tc err counters, call = .close tc ∧ counters.id = id ∧
      history = [⟨.swapClosed tc, true⟩, ⟨.connClose tc, err⟩, ⟨.counters tc, counters⟩]
  | _ => True

theorem closeStep_of_not_isClosing {call : Call} {history : List (Event sig)} {op : Op}
    (hop : ¬ op.IsClosing) : CloseStep call history op := by
  cases op <;> first | trivial | exact absurd trivial hop

theorem toViews_confined (now : Int) (recs : List ConnRecord) :
    (toViews now recs).Confined fun op : Op => ¬ op.IsClosing := by
  have hbytes : ∀ rec, (viewBytes rec).Confined fun op : Op => ¬ op.IsClosing := by
    intro rec
    unfold viewBytes
    split
    next =>
      split
      next => exact .perform id fun _ => trivial
      next => trivial
    next => trivial
  induction recs with
  | nil => trivial
  | cons rec rest ih =>
      have hview : (toView rec now).Confined fun op : Op => ¬ op.IsClosing :=
        (hbytes rec).bind fun _ => trivial
      exact hview.bind fun _ => ih.bind fun _ => trivial

theorem countTransfer_confined (tc : Nat) {add : Nat → Op} (hadd : ∀ n, ¬ (add n).IsClosing)
    (n : Nat) (err : Option ConnErr) :
    (countTransfer tc add n err).Confined fun op : Op => ¬ op.IsClosing := by
  have hif : ∀ (condition : Bool) {op : Op}, ¬ op.IsClosing →
      (actIf condition op).Confined fun op : Op => ¬ op.IsClosing := by
    intro condition op hop
    cases condition with
    | false => trivial
    | true => exact .perform hop fun _ => trivial
  exact (hif _ (hadd n)).bind fun _ => (hif _ id).bind fun _ => trivial

/-- What a `Close` has done when it returns. -/
def CloseEnd (history : List (Event sig)) : Prop :=
  ∀ tc, ⟨.swapClosed tc, true⟩ ∈ history →
    ∃ counters up down firstErr reply, ⟨.counters tc, counters⟩ ∈ history ∧
      ⟨.finish counters.id up down firstErr, reply⟩ ∈ history

theorem trackedClose_closes (tc : Nat) :
    (trackedClose tc).Always (CloseStep (.close tc)) (fun history _ => CloseEnd history) [] := by
  refine .perform ⟨rfl, rfl⟩ fun first => .perform trivial fun err => ?_
  cases first with
  | false =>
      intro tc' hmem
      simp at hmem
  | true =>
      refine .perform trivial fun counters => .perform ⟨tc, err, counters, rfl, rfl, rfl⟩ ?_
      intro reply tc' hmem
      obtain rfl : tc' = tc := by simpa using hmem
      exact ⟨counters, _, _, _, reply, by simp, by simp⟩

/-- The other calls do not touch what `Close` does. -/
theorem program_confined {call : Call} (hcall : ∀ tc, call ≠ .close tc) :
    (call.program lower).Confined fun op : Op => ¬ op.IsClosing := by
  cases call with
  | begin info host port => exact .perform id fun _ => trivial
  | done tid conn =>
      simp only [Call.program, trackerDone]
      split
      next => trivial
      next =>
        refine .perform id fun tc => ?_
        cases tc <;> trivial
  | fail tid err => exact .perform id fun _ => trivial
  | activeByProto => exact .perform id fun _ => trivial
  | list tab q proto page pageSize =>
      simp only [Call.program, list]
      split
      next => trivial
      next =>
        split
        next => trivial
        next =>
          split
          next => trivial
          next =>
            refine .perform id fun sweep => ?_
            split
            next => trivial
            next => exact (toViews_confined _ _).bind fun _ => trivial
  | read tc => exact .perform id fun reply => countTransfer_confined tc (fun _ => id) _ _
  | write tc => exact .perform id fun reply => countTransfer_confined tc (fun _ => id) _ _
  | close tc => exact absurd rfl (hcall tc)

theorem program_closes (call : Call) :
    (call.program lower).Always (CloseStep call) (fun history _ => CloseEnd history) [] := by
  by_cases hcall : ∃ tc, call = .close tc
  · obtain ⟨tc, rfl⟩ := hcall
    exact trackedClose_closes tc
  · have hother : ∀ tc, call ≠ .close tc := fun tc heq => hcall ⟨tc, heq⟩
    have hconfined : (call.program lower).Confined fun op : Op => ¬ op.IsClosing :=
      program_confined hother
    have halways : (call.program lower).Always (CloseStep call) (fun _ _ => True) [] :=
      hconfined.always fun _ _ => closeStep_of_not_isClosing
    refine halways.path.post_imp ?_
    rintro history value ⟨trace, rfl, hpath⟩ tc hmem
    exact absurd trivial (hconfined.of_mem hpath hmem)

/-- A tracked connection never changes its id, and once its `Close` has begun
that stays so. -/
theorem effect_conn (heffect : Effect w event w') {tc : Nat} {conn : TrackedConn}
    (hconn : w.conns[tc]? = some conn) :
    ∃ conn', w'.conns[tc]? = some conn' ∧ conn'.id = conn.id ∧
      (conn.closed = true → conn'.closed = true) := by
  cases heffect with
  | mark hid =>
      have hlt := (List.getElem?_eq_some_iff.mp hconn).1
      exact ⟨conn, by rw [List.getElem?_append_left hlt]; exact hconn, rfl, id⟩
  | @swap tc' c hswap =>
      simp only [List.getElem?_modify, hconn, Option.map_eq_map, Option.map_some]
      refine ⟨_, rfl, ?_⟩
      split <;> simp
  | quiet hquiet hconns =>
      have hclaim := congrArg (·[tc]?) hconns
      simp only [List.getElem?_map, hconn, Option.map_some, Option.map_eq_some_iff] at hclaim
      obtain ⟨conn', hconn', hclaim⟩ := hclaim
      simp only [TrackedConn.claim, Prod.mk.injEq] at hclaim
      exact ⟨conn', hconn', hclaim.1, fun hclosed => hclaim.2.trans hclosed⟩
  | begin | late | fail | finish | sweep | list | counters => exact ⟨conn, hconn, rfl, id⟩

/-- A swap wins exactly if the connection is still open. -/
theorem effect_swap {tc : Nat} {first : Bool} (heffect : Effect w ⟨.swapClosed tc, first⟩ w') :
    ∃ conn, w.conns[tc]? = some conn ∧ conn.closed = !first := by
  cases heffect with
  | swap hconn => exact ⟨_, hconn, (Bool.not_not _).symm⟩
  | quiet hquiet _ => exact hquiet.elim

/-- Where a tracked connection comes from: it was there, or its record was just
marked. -/
theorem effect_conn_inv (heffect : Effect w event w') {tc : Nat} {conn' : TrackedConn}
    (hconn' : w'.conns[tc]? = some conn') :
    conn'.id ∈ w.tracker.activeIds ∧ conn'.closed = false ∨
      ∃ conn, w.conns[tc]? = some conn ∧ conn'.id = conn.id ∧
        (conn'.closed = conn.closed ∨ event = ⟨.swapClosed tc, !conn.closed⟩) := by
  cases heffect with
  | @mark id hid =>
      by_cases hlt : tc < w.conns.length
      · rw [List.getElem?_append_left hlt] at hconn'
        exact .inr ⟨conn', hconn', rfl, .inl rfl⟩
      · rw [List.getElem?_append_right (Nat.le_of_not_lt hlt), List.getElem?_singleton] at hconn'
        split at hconn'
        next =>
          cases hconn'
          exact .inl ⟨hid, rfl⟩
        next => cases hconn'
  | @swap tc' c hswap =>
      simp only [List.getElem?_modify, Option.map_eq_map, Option.map_eq_some_iff] at hconn'
      obtain ⟨conn, hconn, rfl⟩ := hconn'
      refine .inr ⟨conn, hconn, ?_⟩
      split
      next heq =>
        subst heq
        obtain rfl : c = conn := Option.some.inj (hswap.symm.trans hconn)
        exact ⟨rfl, .inr rfl⟩
      next => exact ⟨rfl, .inl rfl⟩
  | quiet hquiet hconns =>
      have hclaim := congrArg (·[tc]?) hconns
      simp only [List.getElem?_map, hconn', Option.map_some] at hclaim
      obtain ⟨conn, hconn, hclaim⟩ := Option.map_eq_some_iff.mp hclaim.symm
      simp only [TrackedConn.claim, Prod.mk.injEq] at hclaim
      exact .inr ⟨conn, hconn, hclaim.1.symm, .inl hclaim.2.symm⟩
  | begin | late | fail | finish | sweep | list | counters =>
      exact .inr ⟨conn', hconn', rfl, .inl rfl⟩

theorem effect_nextID (heffect : Effect w event w') :
    w.tracker.nextID ≤ w'.tracker.nextID := by
  cases heffect with
  | begin hclock => exact Nat.le_succ _
  | fail hclosed hnow => exact ConnTracker.nextID_retire.ge
  | finish hclosed hnow => exact ConnTracker.nextID_retire.ge
  | sweep hsweep => exact (ConnTracker.settings_dropStalled _ _).2.ge
  | @list tab sweep hsweep =>
      exact (ConnTracker.settings_dropStalled (t := w.tracker.pruneRing sweep.now) _ _).2.ge
  | mark | late | swap | counters | quiet => exact le_rfl

/-- What the tracked connections and their `Close` calls keep to. -/
structure Closings (c : Config (tracking lower)) : Prop where
  /-- The id of a tracked connection has been handed out. -/
  issued : ∀ (tc : Nat) (conn : TrackedConn), c.state.conns[tc]? = some conn →
    conn.id ≤ c.state.tracker.nextID
  counted : ∀ i tc counters, System.Performed c i ⟨.counters tc, counters⟩ →
    ∃ conn : TrackedConn, c.state.conns[tc]? = some conn ∧ conn.id = counters.id
  swapped : ∀ i tc first, System.Performed c i ⟨.swapClosed tc, first⟩ →
    ∃ conn : TrackedConn, c.state.conns[tc]? = some conn ∧ conn.closed = true
  /-- The first `Close` of a connection, and no other, wins the swap. -/
  won : ∀ (tc : Nat) (conn : TrackedConn), c.state.conns[tc]? = some conn → conn.closed = true →
    ∃ i, System.Performed c i ⟨.swapClosed tc, true⟩
  unique : ∀ i j tc, System.Performed c i ⟨.swapClosed tc, true⟩ →
    System.Performed c j ⟨.swapClosed tc, true⟩ → i = j
  finished : ∀ i id up down firstErr reply,
    System.Performed c i ⟨.finish id up down firstErr, reply⟩ → id ∉ c.state.tracker.activeIds

/-- A `finish` is about an id that has been handed out. -/
theorem Closings.finish_issued (hclosings : Closings c) (hfaithful : System.Faithful c) {i : Nat}
    {id : Nat} {up down : Int} {firstErr : Option Text} {reply : Int × Int}
    (hfinish : System.Performed c i ⟨.finish id up down firstErr, reply⟩) :
    ∃ tc conn, c.state.conns[tc]? = some conn ∧ conn.id = id ∧
      id ≤ c.state.tracker.nextID ∧ System.Performed c i ⟨.swapClosed tc, true⟩ := by
  obtain ⟨thread, hthread, hmem⟩ := hfinish
  obtain ⟨before, after, htrace, tc, err, counters, _, rfl, rfl⟩ := System.guarded_of_mem
    program_closes hfaithful (List.mem_of_getElem? hthread) hmem
  obtain ⟨conn, hconn, hid⟩ := hclosings.counted i tc counters
    ⟨thread, hthread, by simp [htrace]⟩
  exact ⟨tc, conn, hconn, hid, hid ▸ hclosings.issued tc conn hconn,
    ⟨thread, hthread, by simp [htrace]⟩⟩

section StepClosings

variable {action : Action (tracking lower)}

/-- What is known of a connection stays known. -/
theorem step_conn (hstep : (tracking lower).step c action = some c') {tc : Nat}
    {conn : TrackedConn} (hconn : c.state.conns[tc]? = some conn) :
    ∃ conn', c'.state.conns[tc]? = some conn' ∧ conn'.id = conn.id ∧
      (conn.closed = true → conn'.closed = true) :=
  step_preserves (P := fun w => ∃ conn', w.conns[tc]? = some conn' ∧ conn'.id = conn.id ∧
    (conn.closed = true → conn'.closed = true)) hstep (fun _ _ hknown => hknown)
    (fun _ _ heffect _ => effect_conn heffect hconn) ⟨conn, hconn, rfl, fun hclosed => hclosed⟩

theorem step_nextID (hstep : (tracking lower).step c action = some c') :
    c.state.tracker.nextID ≤ c'.state.tracker.nextID :=
  step_preserves (P := fun w => c.state.tracker.nextID ≤ w.tracker.nextID) hstep
    (fun _ _ hle => hle) (fun _ _ heffect _ => effect_nextID heffect) le_rfl

/-- Where a tracked connection comes from, over a step. -/
theorem step_conn_inv (hstep : (tracking lower).step c action = some c') {tc : Nat}
    {conn' : TrackedConn} (hconn' : c'.state.conns[tc]? = some conn') :
    conn'.id ∈ c.state.tracker.activeIds ∧ conn'.closed = false ∨
      ∃ conn, c.state.conns[tc]? = some conn ∧ conn'.id = conn.id ∧
        (conn'.closed = conn.closed ∨ ∃ i, action = .run i ⟨.swapClosed tc, !conn.closed⟩) := by
  rcases step_effect hstep with ⟨_, _, hstate⟩ | ⟨_, _, hstate⟩ | ⟨i, event, rfl, heffect⟩
  · rw [hstate] at hconn'
    exact .inr ⟨conn', hconn', rfl, .inl rfl⟩
  · rw [hstate] at hconn'
    exact .inr ⟨conn', hconn', rfl, .inl rfl⟩
  · refine (effect_conn_inv heffect hconn').imp_right ?_
    rintro ⟨conn, hconn, hid, hclosed⟩
    exact ⟨conn, hconn, hid, hclosed.imp_right fun heq => ⟨i, by rw [heq]⟩⟩

theorem step_issued (hw : c.state.tracker.Accounted) (hc : Closings c)
    (hstep : (tracking lower).step c action = some c') {tc : Nat} {conn' : TrackedConn}
    (hconn' : c'.state.conns[tc]? = some conn') : conn'.id ≤ c'.state.tracker.nextID := by
  refine le_trans ?_ (step_nextID hstep)
  rcases step_conn_inv hstep hconn' with ⟨hactive, _⟩ | ⟨conn, hconn, hid, _⟩
  · exact (hw.issued.mp (.inl hactive)).2
  · rw [hid]
    exact hc.issued tc conn hconn

theorem step_counted (hc : Closings c) (hstep : (tracking lower).step c action = some c')
    {i tc : Nat} {counters : Counters}
    (hperformed : System.Performed c' i ⟨.counters tc, counters⟩) :
    ∃ conn : TrackedConn, c'.state.conns[tc]? = some conn ∧ conn.id = counters.id := by
  rcases performed_effect hstep hperformed with hold | ⟨_, heffect⟩
  · obtain ⟨conn, hconn, hid⟩ := hc.counted i tc counters hold
    obtain ⟨conn', hconn', hid', _⟩ := step_conn hstep hconn
    exact ⟨conn', hconn', hid'.trans hid⟩
  · generalize c'.state = w' at heffect
    cases heffect with
    | counters hconn => exact ⟨_, hconn, rfl⟩
    | quiet hquiet _ => exact hquiet.elim

theorem step_swapped (hc : Closings c) (hstep : (tracking lower).step c action = some c')
    {i tc : Nat} {first : Bool} (hperformed : System.Performed c' i ⟨.swapClosed tc, first⟩) :
    ∃ conn : TrackedConn, c'.state.conns[tc]? = some conn ∧ conn.closed = true := by
  rcases performed_effect hstep hperformed with hold | ⟨_, heffect⟩
  · obtain ⟨conn, hconn, hclosed⟩ := hc.swapped i tc first hold
    obtain ⟨conn', hconn', _, hclosed'⟩ := step_conn hstep hconn
    exact ⟨conn', hconn', hclosed' hclosed⟩
  · generalize c'.state = w' at heffect
    cases heffect with
    | swap hconn => exact ⟨_, by rw [List.getElem?_modify_eq, hconn]; rfl, rfl⟩
    | quiet hquiet _ => exact hquiet.elim

theorem step_won (hc : Closings c) (hstep : (tracking lower).step c action = some c') {tc : Nat}
    {conn' : TrackedConn} (hconn' : c'.state.conns[tc]? = some conn')
    (hclosed' : conn'.closed = true) : ∃ i, System.Performed c' i ⟨.swapClosed tc, true⟩ := by
  rcases step_conn_inv hstep hconn' with ⟨_, hopen⟩ | ⟨conn, hconn, _, hcases⟩
  · rw [hopen] at hclosed'
    cases hclosed'
  · -- Either it was closed before, or this step is the swap.
    cases hclosed : conn.closed with
    | true =>
        obtain ⟨i, hi⟩ := hc.won tc conn hconn hclosed
        exact ⟨i, hi.of_step hstep⟩
    | false =>
        rcases hcases with heq | ⟨i, rfl⟩
        · rw [hclosed'] at heq
          exact absurd (heq.trans hclosed) (by simp)
        · rw [hclosed] at hstep
          exact ⟨i, System.performed_run hstep⟩

theorem step_unique (hc : Closings c) (hstep : (tracking lower).step c action = some c')
    {i j tc : Nat} (hi : System.Performed c' i ⟨.swapClosed tc, true⟩)
    (hj : System.Performed c' j ⟨.swapClosed tc, true⟩) : i = j := by
  -- A swap that wins finds the connection open, so nobody has swapped it yet.
  have hfirst : ∀ k, Effect c.state ⟨.swapClosed tc, true⟩ c'.state →
      ¬ System.Performed c k ⟨.swapClosed tc, true⟩ := by
    intro k heffect hk
    obtain ⟨conn, hconn, hclosed⟩ := hc.swapped k tc true hk
    obtain ⟨conn', hconn', hopen⟩ := effect_swap heffect
    obtain rfl : conn = conn' := Option.some.inj (hconn.symm.trans hconn')
    rw [hclosed] at hopen
    cases hopen
  rcases performed_effect hstep hi with hiold | ⟨hiaction, heffect⟩
  · rcases performed_effect hstep hj with hjold | ⟨_, heffect⟩
    · exact hc.unique i j tc hiold hjold
    · exact absurd hiold (hfirst i heffect)
  · rcases performed_effect hstep hj with hjold | ⟨hjaction, _⟩
    · exact absurd hjold (hfirst j heffect)
    · rw [hiaction] at hjaction
      cases hjaction
      rfl

theorem step_finished (hw : c.state.tracker.Accounted) (hfaithful : System.Faithful c)
    (hc : Closings c) (hstep : (tracking lower).step c action = some c') {i id : Nat}
    {up down : Int} {firstErr : Option Text} {reply : Int × Int}
    (hperformed : System.Performed c' i ⟨.finish id up down firstErr, reply⟩) :
    id ∉ c'.state.tracker.activeIds := by
  rcases performed_effect hstep hperformed with hold | ⟨_, heffect⟩
  · obtain ⟨_, _, _, _, hissued, _⟩ := hc.finish_issued hfaithful hold
    have hgone := hc.finished i id up down firstErr reply hold
    refine step_preserves (P := fun w => id ∉ w.tracker.activeIds) hstep (fun _ _ h => h) ?_ hgone
    intro event w' heffect _ hactive
    rcases effect_activeIds hw heffect hactive with hstill | hnew
    · exact hgone hstill
    · omega
  · generalize c'.state = w' at heffect
    cases heffect with
    | finish hclosed hnow =>
        intro hactive
        obtain ⟨rec, hrec, hid⟩ := ConnTracker.mem_activeIds.mp hactive
        rw [ConnTracker.finish, ConnTracker.active_retire] at hrec
        exact absurd hid (by simpa using (List.mem_filter.mp hrec).2)
    | quiet hquiet _ => exact hquiet.elim

theorem step_closings (hw : c.state.tracker.Accounted) (hfaithful : System.Faithful c)
    (hc : Closings c) (hstep : (tracking lower).step c action = some c') : Closings c' where
  issued _ _ hconn := step_issued hw hc hstep hconn
  counted _ _ _ hperformed := step_counted hc hstep hperformed
  swapped _ _ _ hperformed := step_swapped hc hstep hperformed
  won _ _ hconn hclosed := step_won hc hstep hconn hclosed
  unique _ _ _ hi hj := step_unique hc hstep hi hj
  finished _ _ _ _ _ _ hperformed := step_finished hw hfaithful hc hstep hperformed

end StepClosings

/-- What holds of every configuration that a run reaches. -/
structure Reached (c : Config (tracking lower)) : Prop where
  faithful : System.Faithful c
  accounted : c.state.tracker.Accounted
  begun : Begun c
  closings : Closings c

theorem run_reached
    (hrun : (tracking lower).run ⟨.new size maxAge start, []⟩ schedule = some c) : Reached c := by
  refine System.run_invariant Reached ?_ ?_ hrun
  · intro c action c' hc hstep
    exact
      { faithful := System.step_faithful hc.faithful hstep
        accounted := step_preserves (P := fun w => w.tracker.Accounted) hstep (fun _ _ hw => hw)
          (fun _ _ heffect hw => effect_accounted hw heffect) hc.accounted
        begun := step_begun hc.accounted hc.begun hstep
        closings := step_closings hc.accounted hc.faithful hc.closings hstep }
  · have hnothing : ∀ i event,
        ¬ System.Performed (M := tracking lower) ⟨.new size maxAge start, []⟩ i event := by
      rintro i event ⟨thread, hthread, _⟩
      simp at hthread
    refine ⟨by simp [System.Faithful], ConnTracker.newConnTracker_accounted size maxAge,
      fun i info host port now id h => (hnothing _ _ h).elim, ?_⟩
    exact ⟨fun tc conn h => by simp [World.new] at h, fun _ _ _ h => (hnothing _ _ h).elim,
      fun _ _ _ h => (hnothing _ _ h).elim, fun tc conn h => by simp [World.new] at h,
      fun _ _ _ h => (hnothing _ _ h).elim, fun _ _ _ _ _ _ h => (hnothing _ _ h).elim⟩

/-- The first `Close` of a tracked connection moves its record, and has done so
when it returns; a repeated one only closes the wrapped connection. -/
structure FirstCloses (c : Config (tracking lower)) : Prop where
  first : ∀ i tc won, System.Performed c i ⟨.swapClosed tc, won⟩ →
    ∃ j, System.Performed c j ⟨.swapClosed tc, true⟩
  unique : ∀ i j tc, System.Performed c i ⟨.swapClosed tc, true⟩ →
    System.Performed c j ⟨.swapClosed tc, true⟩ → i = j
  finishes : ∀ i id up down firstErr reply,
    System.Performed c i ⟨.finish id up down firstErr, reply⟩ →
      ∃ (tc : Nat) (conn : TrackedConn), c.state.conns[tc]? = some conn ∧ conn.id = id ∧
        System.Performed c i ⟨.swapClosed tc, true⟩
  returned : ∀ (i : Nat) (thread : Thread (tracking lower)) (outcome : Outcome) (tc : Nat)
    (conn : TrackedConn), c.threads[i]? = some thread → thread.rest = .ret outcome →
      ⟨.swapClosed tc, true⟩ ∈ thread.trace → c.state.conns[tc]? = some conn →
        conn.id ∉ c.state.tracker.activeIds

theorem Reached.firstCloses (hc : Reached c) : FirstCloses c := by
  obtain ⟨hfaithful, _, _, hclosings⟩ := hc
  refine ⟨?_, hclosings.unique, ?_, ?_⟩
  · intro i tc won hswap
    obtain ⟨conn, hconn, hclosed⟩ := hclosings.swapped i tc won hswap
    exact hclosings.won tc conn hconn hclosed
  · intro i id up down firstErr reply hfinish
    obtain ⟨tc, conn, hconn, hid, _, hswap⟩ := hclosings.finish_issued hfaithful hfinish
    exact ⟨tc, conn, hconn, hid, hswap⟩
  · intro i thread outcome tc conn hthread hrest hswap hconn
    have hpath := hfaithful thread (List.mem_of_getElem? hthread)
    rw [hrest] at hpath
    obtain ⟨counters, up, down, firstErr, reply, hcounters, hfinish⟩ :=
      (program_closes thread.call).of_returns hpath tc hswap
    obtain ⟨conn', hconn', hid⟩ := hclosings.counted i tc counters ⟨thread, hthread, hcounters⟩
    obtain rfl : conn = conn' := Option.some.inj (hconn.symm.trans hconn')
    rw [hid]
    exact hclosings.finished i counters.id up down firstErr reply ⟨thread, hthread, hfinish⟩

/-! ## Dials that end in time -/

theorem effect_clock (heffect : Effect w event w') : w.clock ≤ w'.clock := by
  cases heffect with
  | begin hclock => exact hclock
  | fail hclosed hnow => exact hclosed.trans hnow
  | finish hclosed hnow => exact hclosed.trans hnow
  | sweep hsweep => exact hsweep.clock_le.trans hsweep.now_le_ends
  | list hsweep => exact hsweep.clock_le.trans hsweep.now_le_ends
  | mark | late | swap | counters | quiet => exact le_rfl

theorem run_clock (hrun : (tracking lower).run c schedule = some c') :
    c.state.clock ≤ c'.state.clock :=
  run_world_invariant (fun w => c.state.clock ≤ w.clock) (fun _ _ hle => by simp; omega)
    (fun _ _ _ hle heffect => hle.trans (effect_clock heffect)) le_rfl hrun

/-- After `Begin` gave out the id, `Done` with a connection or `Fail` was called
for it before more than `limit` had passed. -/
def SettledWithin (limit : Int) (start : World) (schedule : List (Action (tracking lower)))
    (id : Nat) : Prop :=
  ∃ first i event rest c, schedule = first ++ .run i event :: rest ∧
    (tracking lower).run ⟨start, []⟩ first = some c ∧
    (event.op = .done id ∨ ∃ err, event.op = .fail id err) ∧
    ∃ j info host port began, .run j ⟨.begin info host port, (began, id)⟩ ∈ first ∧
      c.state.clock - began ≤ limit

/-- The record of an id that was settled is not dialing any more. -/
def Established (id : Nat) (w : World) : Prop :=
  id ≤ w.tracker.nextID ∧ ∀ rec ∈ w.tracker.active, rec.id = id → rec.status = .active

theorem effect_established {id : Nat} (hw : w.tracker.Accounted) (hest : Established id w)
    (heffect : Effect w event w') : Established id w' := by
  refine ⟨hest.1.trans (effect_nextID heffect), fun rec hrec hid => ?_⟩
  cases heffect with
  | begin hclock =>
      rcases List.mem_cons.mp hrec with rfl | hold
      · exact absurd hest.1 (by simp at hid; omega)
      · exact hest.2 rec hold hid
  | mark hmark =>
      obtain ⟨old, hold, _, _, ⟨_, rfl⟩ | ⟨_, hstatus⟩⟩ := ConnTracker.mem_done hrec
      · exact hest.2 rec hold hid
      · exact hstatus
  | fail hclosed hnow =>
      rw [ConnTracker.fail, ConnTracker.active_retire] at hrec
      exact hest.2 rec (List.mem_of_mem_filter hrec) hid
  | finish hclosed hnow =>
      rw [ConnTracker.finish, ConnTracker.active_retire] at hrec
      exact hest.2 rec (List.mem_of_mem_filter hrec) hid
  | sweep hsweep =>
      rw [ConnTracker.active_dropStalled hw] at hrec
      exact hest.2 rec (List.mem_of_mem_filter hrec) hid
  | list hsweep =>
      rw [ConnTracker.active_dropStalled (hw.pruneRing _)] at hrec
      exact hest.2 rec (List.mem_of_mem_filter hrec) hid
  | late | swap | counters | quiet => exact hest.2 rec hrec hid

/-- `Done` and `Fail` leave no dialing record of their id. -/
theorem effect_settles {id : Nat} (hid : id ≤ w.tracker.nextID) (heffect : Effect w event w')
    (hop : event.op = .done id ∨ ∃ err, event.op = .fail id err) : Established id w' := by
  refine ⟨hid.trans (effect_nextID heffect), fun rec hrec hrecid => ?_⟩
  cases heffect with
  | mark hmark =>
      obtain rfl : _ = id := by simpa using hop
      obtain ⟨old, hold, _, _, ⟨hne, _⟩ | ⟨_, hstatus⟩⟩ := ConnTracker.mem_done hrec
      · exact absurd hrecid hne
      · exact hstatus
  | late hlate =>
      obtain rfl : _ = id := by simpa using hop
      exact absurd (ConnTracker.mem_activeIds.mpr ⟨rec, hrec, hrecid⟩) hlate
  | fail hclosed hnow =>
      obtain rfl : _ = id := by simpa using hop
      rw [ConnTracker.fail, ConnTracker.active_retire] at hrec
      exact absurd hrecid (by simpa using (List.mem_filter.mp hrec).2)
  | begin | finish | sweep | list | swap | counters => simp at hop
  | quiet hquiet _ =>
      rcases hop with hop | ⟨err, hop⟩
      · rw [hop] at hquiet
        exact hquiet.elim
      · rw [hop] at hquiet
        exact hquiet.elim

/-- A sweep that drops a record is past its age limit. -/
theorem effect_drops {rec : ConnRecord} (heffect : Effect w event w') (hdrops : Drops w rec event) :
    rec.status = .dialing ∧ w.tracker.maxAge < w'.clock - rec.startedAt := by
  cases heffect with
  | sweep hsweep =>
      obtain ⟨hstatus, hage⟩ := hdrops
      exact ⟨hstatus, hage.trans_le (by simpa using hsweep.now_le_ends)⟩
  | list hsweep =>
      obtain ⟨hstatus, hage⟩ := hdrops
      exact ⟨hstatus, hage.trans_le (by simpa using hsweep.now_le_ends)⟩
  | begin | mark | late | fail | finish | swap | counters => exact hdrops.elim
  | quiet hquiet _ => exact absurd (.inr (.inr hdrops)) (hquiet.not_retires (w := w))

theorem effect_maxAge (heffect : Effect w event w') : w'.tracker.maxAge = w.tracker.maxAge := by
  cases heffect with
  | fail hclosed hnow => exact ConnTracker.maxAge_retire
  | finish hclosed hnow => exact ConnTracker.maxAge_retire
  | sweep hsweep => exact (ConnTracker.settings_dropStalled _ _).1
  | list hsweep => exact (ConnTracker.settings_dropStalled _ _).1
  | begin | mark | late | swap | counters | quiet => rfl

theorem run_maxAge (hrun : (tracking lower).run ⟨.new size maxAge start, []⟩ schedule = some c) :
    c.state.tracker.maxAge = maxAge :=
  run_world_invariant (fun w => w.tracker.maxAge = maxAge) (fun _ _ hw => hw)
    (fun _ _ _ hw heffect => (effect_maxAge heffect).trans hw) rfl hrun

theorem run_births (hw : c.state.tracker.Accounted)
    (hrun : (tracking lower).run c schedule = some c') :
    c.state.tracker.births ⊆ c'.state.tracker.births :=
  (run_world_invariant (fun w => w.tracker.Accounted ∧ c.state.tracker.births ⊆ w.tracker.births)
    (fun _ _ hw => hw)
    (fun _ _ _ hw heffect => ⟨effect_accounted hw.1 heffect,
      List.Subset.trans hw.2 (births_subset hw.1 heffect)⟩) ⟨hw, List.Subset.refl _⟩ hrun).2

theorem run_established {id : Nat} (hw : c.state.tracker.Accounted)
    (hest : Established id c.state) (hrun : (tracking lower).run c schedule = some c') :
    Established id c'.state :=
  (run_world_invariant (fun w => w.tracker.Accounted ∧ Established id w) (fun _ _ hw => hw)
    (fun _ _ _ hw heffect => ⟨effect_accounted hw.1 heffect,
      effect_established hw.1 hw.2 heffect⟩) ⟨hw, hest⟩ hrun).2

/-- A record whose dial ended in time is not taken by a sweep: before that end
it is too young, and afterwards it is not dialing. -/
theorem not_drops_of_settledWithin {before after : List (Action (tracking lower))} {i : Nat}
    (hbefore : (tracking lower).run ⟨.new size maxAge start, []⟩ before = some c)
    (hstep : (tracking lower).step c (.run i event) = some c') {rec : ConnRecord}
    (hrec : rec ∈ c.state.tracker.active)
    (hsettled : SettledWithin maxAge (.new size maxAge start) (before ++ .run i event :: after)
      rec.id) : ¬ Drops c.state rec event := by
  intro hdrops
  have hc := run_reached hbefore
  obtain ⟨hdialing, hage⟩ := effect_drops (run_effect hstep) hdrops
  rw [run_maxAge hbefore] at hage
  obtain ⟨first, j, end', rest, d, hsplit, hfirst, hop, k, info, host, port, began, hbegin,
      hlimit⟩ :=
    hsettled
  have hd := run_reached hfirst
  have hbirth : (rec.id, began) ∈ d.state.tracker.births :=
    hd.begun k info host port began rec.id ((System.performed_iff_mem hfirst).mpr hbegin)
  rcases Program.append_eq_append_cons hsplit with ⟨mid, rfl, hmid⟩ | ⟨mid, rfl, hmid⟩
  · cases mid with
    | nil =>
        -- The dial cannot end by the sweep itself.
        simp only [List.nil_append, List.cons.injEq, Action.run.injEq] at hmid
        obtain ⟨⟨_, rfl⟩, _⟩ := hmid
        obtain ⟨op, reply⟩ := event
        rcases hop with rfl | ⟨err, rfl⟩ <;> exact hdrops.elim
    | cons action mid =>
        -- It ends after the sweep, so too late.
        simp only [List.cons_append, List.cons.injEq] at hmid
        obtain ⟨rfl, _⟩ := hmid
        rw [System.run_append, hbefore, Option.bind_some, System.run, hstep, Option.bind_some]
          at hfirst
        have hstart : (rec.id, rec.startedAt) ∈ d.state.tracker.births := by
          have hc' := effect_accounted hc.accounted (run_effect hstep)
          apply run_births hc' hfirst
          apply births_subset hc.accounted (run_effect hstep)
          exact List.mem_map.mpr ⟨rec, List.mem_append_left _ hrec, rfl⟩
        have hbegan := hd.accounted.birth_unique hstart hbirth
        have hclock := run_clock hfirst
        omega
  · -- It ended before the sweep, so the record is not dialing.
    rw [System.run_append, hfirst, Option.bind_some, System.run, Option.bind_eq_some_iff]
      at hbefore
    obtain ⟨d', hend, hmid⟩ := hbefore
    have hissued := (hd.accounted.birth_issued hbirth).2
    have hest := effect_settles hissued (run_effect hend) hop
    have hd' := effect_accounted hd.accounted (run_effect hend)
    have hactive := (run_established hd' hest hmid).2 rec hrec rfl
    rw [hdialing] at hactive
    cases hactive

/-- What a step of a run means for the dials that the tracker has seen. -/
structure TracksOnce (maxAge : Int) (start : World) (before : List (Action (tracking lower)))
    (c : Config (tracking lower)) (action : Action (tracking lower))
    (c' : Config (tracking lower)) : Prop where
  /-- Nothing happens to the records but by the events of calls. -/
  idle : (∀ i event, action ≠ .run i event) → c'.state.tracker = c.state.tracker
  lifecycle : ∀ i event, action = .run i event → Lifecycle c.state event c'.state
  /-- `Begin` gives out an id that there has not been, for a dialing record. -/
  fresh : ∀ i info host port now id, action = .run i ⟨.begin info host port, (now, id)⟩ →
    id ∉ c.state.tracker.activeIds ∧ id ∉ c.state.tracker.finishedIds ∧
    (∀ j info' host' port' now',
      .run j ⟨.begin info' host' port', (now', id)⟩ ∉ before) ∧
    ∃ rec ∈ c'.state.tracker.active, rec.id = id ∧ rec.status = .dialing ∧ rec.startedAt = now
  closes : FirstCloses c'
  /-- A dial that ends within `maxAge` is never taken for stalled. -/
  inTime : ∀ i event after, action = .run i event → ∀ rec ∈ c.state.tracker.active,
    SettledWithin maxAge start (before ++ action :: after) rec.id → ¬ Drops c.state rec event
  /-- Every dial timeout that `loadConfig` accepts is such a time. -/
  dialTimeout : maxAge = connHistoryMaxAge → ∀ parseDuration env timeout,
    loadDialTimeout parseDuration env = .ok timeout →
      ∀ i event after, action = .run i event → ∀ rec ∈ c.state.tracker.active,
        SettledWithin timeout start (before ++ action :: after) rec.id → ¬ Drops c.state rec event

theorem SettledWithin.mono {limit limit' : Int} {start : World} {id : Nat}
    (hsettled : SettledWithin limit start schedule id) (hle : limit ≤ limit') :
    SettledWithin limit' start schedule id := by
  obtain ⟨first, i, event, rest, c, hsplit, hfirst, hop, j, info, host, port, began, hbegin,
    hlimit⟩ := hsettled
  exact ⟨first, i, event, rest, c, hsplit, hfirst, hop, j, info, host, port, began, hbegin,
    hlimit.trans hle⟩

/-- A dial that succeeds, and two goroutines that close its connection. -/
def closedTwice : List (Action (tracking id)) :=
  let info : DialMeta := { proto := str "socks5", src := str "10.0.0.2:4000", host := [] }
  [.spawn (.begin info (str "a") 443), .run 0 ⟨.begin info (str "a") 443, (0, 1)⟩,
    .spawn (.done 1 .base), .run 1 ⟨.done 1, some 0⟩, .spawn (.close 0), .spawn (.close 0),
    .run 2 ⟨.swapClosed 0, true⟩, .run 3 ⟨.swapClosed 0, false⟩, .run 3 ⟨.connClose 0, none⟩,
    .run 2 ⟨.connClose 0, none⟩, .run 2 ⟨.counters 0, ⟨1, 0, 0, none⟩⟩]

end SshGate.Tracker
