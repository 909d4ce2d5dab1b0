import SshGate.Proxy.Directions

/-! # Runs of a tunnel

Each goroutine of a tunnel keeps its part, by the rules of the loops it runs, and
so does the handler, whatever it reads the head with. The results on whole runs
follow: what either side gets, what is logged, and how much is read before there
is a tunnel.
-/

namespace SshGate.Connect

open Go Interaction Program

/-! ## The relay goroutines -/

section Threads

variable {α : Type} {w w' : World} {d : Direction} {history : List (Event sig)}

/-- What a thread finds after the others acted. -/
abbrev Found (i : Nat) (w w' : World) : Prop := Rely i w w' ∧ Sound w' ∧ True

abbrev Keeping (i : Nat) (post : World → α → Prop) (history : List (Event sig)) (w : World)
    (p : Prog α) : Prop :=
  AlwaysIn World.perform (Found i) (fun _ => Allowed i) (fun _ => post) history w p

/-- A goroutine that has copied, and has not said so yet. -/
structure Ended (d : Direction) (w : World) : Prop where
  stage : (w.flow d).stage = .running
  opened : d = .up → w.head.isSome
  through : (w.flow d).Through d w.head
  counted : (w.flow d).counted = (w.flow d).moved d
  failed : (w.flow d).failed = true → w.firstErr.isSome

theorem Ended.of_rely (h : Ended d w) (hrely : Rely d.thread w w') : Ended d w' := by
  have hflow := hrely.flow d (.inl (.inr ⟨rfl, h.stage⟩))
  have hhead : (w.flow d).Through d w'.head := by
    cases d with
    | up =>
        rw [hrely.head (h.opened rfl)]
        exact h.through
    | down => exact h.through
  refine ⟨hflow ▸ h.stage, fun hd => ?_, hflow ▸ hhead, hflow ▸ h.counted, fun hfailed => ?_⟩
  · rw [hrely.head (h.opened hd)]
    exact h.opened hd
  · exact hrely.firstErr (h.failed (hflow ▸ hfailed))

theorem finish_always {ended : CopyEnd} (hended : ended ≠ .unfinished → Ended d w) :
    Keeping d.thread (fun _ _ => True) history w (finish d ended) := by
  have hboth : ended ≠ .unfinished → Keeping d.thread (fun _ _ => True) history w (do
      let _ ← act (.closeWrite d)
      act (.wgDone d)) := by
    intro hne
    refine AlwaysIn.perform ?_
    rintro w₁ ⟨hrely₁, -⟩
    have h₁ := (hended hne).of_rely hrely₁
    refine ⟨⟨rfl, h₁.stage, h₁.through⟩, fun _ w₂ hperform => ?_⟩
    cases hperform
    rintro w₃ ⟨hrely₃, -⟩
    have hflow : w₃.flow d = { w₁.flow d with fin := true } := by
      refine (hrely₃.flow d (.inl (.inr ⟨rfl, ?_⟩))).trans (World.flow_setFlow_self ..)
      rw [World.flow_setFlow_self]
      exact h₁.stage
    have hfirst : w₁.firstErr.isSome → w₃.firstErr.isSome := by
      intro hsome
      refine hrely₃.firstErr ?_
      cases d <;> exact hsome
    refine ⟨⟨rfl, ?_, ?_, ?_, fun hfailed => hfirst (h₁.failed ?_)⟩, fun _ _ _ => trivial⟩
    · rw [hflow]
      exact h₁.stage
    · rw [hflow]
    · rw [hflow]
      have hcounted := h₁.counted
      cases d <;> exact hcounted
    · rw [hflow] at hfailed
      exact hfailed
  cases ended with
  | unfinished => trivial
  | sourceOver err => exact hboth (by rintro ⟨⟩)
  | writeFailed => exact hboth (by rintro ⟨⟩)

/-- The state of the goroutine that copies to the upstream. -/
structure Pumps (src : Bufio.Reader) (w : World) : Prop where
  stage : w.up.stage = .running
  opened : w.head.isSome
  flow : w.up.Pumping w.head src

theorem Pumps.of_rely {src : Bufio.Reader} (h : Pumps src w) (hrely : Rely 1 w w') :
    Pumps src w' := by
  have hup : w'.up = w.up := hrely.flow .up (.inl (.inr ⟨rfl, h.stage⟩))
  have hhead := hrely.head h.opened
  exact ⟨hup ▸ h.stage, hhead ▸ h.opened, hup ▸ hhead ▸ h.flow⟩

theorem Pumps.working {src : Bufio.Reader} (h : Pumps src w) : Working 1 .up w :=
  .inr ⟨rfl, h.stage⟩

/-- The client has sent everything, or more than a limited reader reads. -/
def ClientSpent (w : World) : Prop := w.up.spent = true ∨ maxInt64 ≤ w.up.taken.length

theorem readClient_pumps :
    Bufio.Reads World.perform (Found 1) (fun _ => Allowed 1) readClient Pumps ClientSpent where
  read history w src room _ hleft h := by
    rintro w₁ ⟨hrely, -⟩
    have h₁ := h.of_rely hrely
    refine ⟨⟨h₁.working, h₁.flow.fin, by rintro ⟨⟩⟩, fun got w₂ hperform => ?_⟩
    obtain ⟨⟨hn, hgot⟩, rfl⟩ := by simpa [World.perform] using hperform
    refine ⟨hn, fun hempty => ⟨hgot hempty, .inl ?_⟩, h₁.stage, h₁.opened, ?_⟩
    · have hsome : got.err.isSome = true := Option.isSome_iff_ne_none.mpr (hgot hempty)
      show (w₁.up.spent || got.err.isSome) = true
      rw [hsome, Bool.or_true]
    · have hflow := h₁.flow
      exact {
        fin := hflow.fin
        broken := hflow.broken
        failed := by
          show (w₁.up.failed || false) = false
          rw [hflow.failed, Bool.or_false]
        counted := hflow.counted
        head_le := by
          show w₁.head.getD 0 ≤ (w₁.up.taken ++ got.bytes).length
          rw [List.length_append]
          exact hflow.head_le.trans (Nat.le_add_right _ _)
        due := by
          show w₁.up.put ++ (src.unread ++ got.bytes) =
            (w₁.up.taken ++ got.bytes).drop (w₁.head.getD 0)
          rw [List.drop_append_of_le_length hflow.head_le, ← List.append_assoc, hflow.due]
          rfl
        left := by
          have hleft' := hflow.left
          show maxInt64 ≤ src.left - got.bytes.length + (w₁.up.taken ++ got.bytes).length
          rw [List.length_append]
          omega }
  limit w src hleft h := by
    refine ⟨⟨h.stage, h.opened, { h.flow with }⟩, .inr ?_⟩
    have hle := h.flow.left
    omega

/-- What counting an error does to the first one. -/
theorem isSome_or_of_relayErr {err : Option IoErr} (first : Option IoErr)
    (h : relayErr err = true) : (first.or (if relayErr err then err else none)).isSome := by
  rw [if_pos h, Option.isSome_or]
  cases err with
  | none => cases h
  | some err => simp

theorem lcWrite_pumps (history : List (Event sig)) (w : World) (src : Bufio.Reader)
    (h : Pumps src w) :
    Keeping 1 (fun w put => (put.err ≠ none → Ended .up w) ∧
      (put.err = none → put.n = src.unread.length ∧ Pumps { src with unread := [] } w))
      history w (lcWrite src.unread) := by
  refine AlwaysIn.perform ?_
  rintro w₁ ⟨hrely₁, -⟩
  have h₁ := h.of_rely hrely₁
  have hflow := h₁.flow
  have hprefix : w₁.up.put ++ src.unread <+: w₁.up.due .up w₁.head := ⟨[], by simp [hflow.due]⟩
  refine ⟨⟨h₁.working, hflow.fin, by rintro ⟨⟩, fun _ => .inr hprefix⟩, fun put w₂ hperform => ?_⟩
  obtain ⟨⟨hn, hall, -⟩, rfl⟩ := by simpa [World.perform] using hperform
  refine AlwaysIn.perform ?_
  rintro w₃ ⟨hrely₃, -⟩
  have hup : w₃.up = w₁.up.give src.unread put (relayErr put.err) :=
    hrely₃.flow .up (.inl (.inr ⟨rfl, h₁.stage⟩))
  have hhead : w₃.head = w₁.head := hrely₃.head h₁.opened
  have hstage : w₃.up.stage = .running := by
    rw [hup]
    exact h₁.stage
  have hfin : w₃.up.fin = false := by
    rw [hup]
    exact hflow.fin
  have hfailed : w₃.up.failed = relayErr put.err := by simp [hup, Flow.give, hflow.failed]
  have hcounted : w₃.up.counted + put.n = w₃.up.put.length := by
    simp [hup, Flow.give, hflow.counted, Nat.min_eq_left hn]
  refine ⟨⟨rfl, hstage, hfin, fun herr => hfailed.trans herr⟩, fun _ w₄ hperform => ?_⟩
  cases hperform
  refine ⟨fun herr => ⟨hstage, fun _ => hhead ▸ h₁.opened, .inl ?_, hcounted, fun hf => ?_⟩,
    fun hnone => ⟨hall hnone, hstage, hhead ▸ h₁.opened, ?_⟩⟩
  · have hsome : put.err.isSome = true := Option.isSome_iff_ne_none.mpr herr
    show w₃.up.broken = true
    simp [hup, Flow.give, hsome]
  · exact isSome_or_of_relayErr _ (hfailed.symm.trans hf)
  · have hwhole : src.unread.take put.n = src.unread := by rw [hall hnone, List.take_length]
    exact {
      fin := hfin
      broken := by
        show w₃.up.broken = false
        simp [hup, Flow.give, hnone, hflow.broken]
      failed := by
        show w₃.up.failed = false
        rw [hfailed, hnone]
        rfl
      counted := hcounted
      head_le := by
        show w₃.head.getD 0 ≤ w₃.up.taken.length
        rw [hhead, hup]
        exact hflow.head_le
      due := by
        show w₃.up.put ++ [] = w₃.up.taken.drop (w₃.head.getD 0)
        rw [hhead, hup, List.append_nil]
        show w₁.up.put ++ src.unread.take put.n = _
        rw [hwhole, hflow.due]
        rfl
      left := by
        show maxInt64 ≤ src.left + w₃.up.taken.length
        rw [hup]
        exact hflow.left }

/-- The goroutine that copies to the upstream keeps its part. -/
theorem relayUp_always (rounds : Nat) :
    Keeping 1 (fun _ _ => True) history w (relayUp rounds) := by
  refine AlwaysIn.perform ?_
  rintro w₁ ⟨-, hsound, -⟩
  refine ⟨rfl, fun src w₂ hperform => ?_⟩
  obtain ⟨⟨hhanded, hsrc⟩, rfl⟩ := by simpa [World.perform] using hperform
  have hopen : w₁.up.stage ≠ .waiting := by rw [hhanded]; rintro ⟨⟩
  have hpumps : Pumps src { w₁ with up := { w₁.up with stage := .running } } := by
    have hpumping := hsound.pumping hhanded src hsrc
    exact ⟨rfl, hsound.head hopen, { hpumping with due := hpumping.due }⟩
  refine (Bufio.writeTo_always readClient_pumps
    (fun history w src _ => lcWrite_pumps history w src) rounds hpumps).bind ?_
  rintro history₃ w₃ ended ⟨hspent, hfailed⟩
  refine finish_always (d := .up) fun hne => ?_
  cases ended with
  | unfinished => exact absurd rfl hne
  | writeFailed => exact hfailed rfl
  | sourceOver err =>
      obtain ⟨src₃, h₃, hempty, hover⟩ := hspent err rfl
      have hdue := h₃.flow.due
      rw [hempty, List.append_nil] at hdue
      refine ⟨h₃.stage, fun _ => h₃.opened, .inr ⟨hdue, hover.imp_right fun hle => ⟨rfl, hle⟩⟩,
        h₃.flow.counted, fun hf => ?_⟩
      exact absurd (h₃.flow.failed.symm.trans hf) Bool.false_ne_true

/-- The state of the goroutine that copies to the client. -/
structure Drains (got : Chunk) (w : World) : Prop where
  stage : w.down.stage = .running
  flow : w.down.Draining w.firstErr got

theorem Drains.of_rely {got : Chunk} (h : Drains got w) (hrely : Rely 2 w w') :
    Drains got w' := by
  have hdown : w'.down = w.down := hrely.flow .down (.inl (.inr ⟨rfl, h.stage⟩))
  exact ⟨hdown ▸ h.stage, hdown ▸ h.flow.mono hrely.firstErr⟩

theorem Drains.working {got : Chunk} (h : Drains got w) : Working 2 .down w :=
  .inr ⟨rfl, h.stage⟩

theorem lcRead_drains (room : Nat) (history : List (Event sig)) (w : World)
    (h : Drains ⟨[], none⟩ w) :
    Keeping 2 (fun w got => Drains got w) history w (lcRead room) := by
  refine AlwaysIn.perform ?_
  rintro w₁ ⟨hrely₁, -⟩
  have h₁ := h.of_rely hrely₁
  have hflow := h₁.flow
  refine ⟨⟨h₁.working, hflow.fin, by rintro ⟨⟩⟩, fun got w₂ hperform => ?_⟩
  obtain ⟨-, rfl⟩ := by simpa [World.perform] using hperform
  refine AlwaysIn.perform ?_
  rintro w₃ ⟨hrely₃, -⟩
  have hdown : w₃.down = w₁.down.take got (relayErr got.err) :=
    hrely₃.flow .down (.inl (.inr ⟨rfl, h₁.stage⟩))
  have hstage : w₃.down.stage = .running := by
    rw [hdown]
    exact h₁.stage
  have hfin : w₃.down.fin = false := by
    rw [hdown]
    exact hflow.fin
  refine ⟨⟨rfl, hstage, hfin, fun herr => ?_⟩, fun _ w₄ hperform => ?_⟩
  · show w₃.down.failed = true
    simp [hdown, Flow.take, herr]
  · cases hperform
    refine ⟨hstage, hfin, fun hbroken => ?_, ?_, fun hf => ?_, fun herr => ?_⟩
    · have hwas : w₃.down.broken = false := hbroken
      have hput := hflow.due (by simpa [hdown, Flow.take] using hwas)
      show w₃.down.put ++ got.bytes = established ++ w₃.down.taken
      rw [List.append_nil] at hput
      simp [hdown, Flow.take, hput]
    · show w₃.down.counted + got.bytes.length = w₃.down.taken.length
      simp [hdown, Flow.take, hflow.counted]
    · have hfailed : w₃.down.failed = true := hf
      have hcases : w₁.down.failed = true ∨ relayErr got.err = true := by
        simpa [hdown, Flow.take] using hfailed
      rcases hcases with hbefore | hnow
      · have hsome := hrely₃.firstErr (hflow.failed hbefore)
        show (w₃.firstErr.or _).isSome = true
        rw [Option.isSome_or, hsome, Bool.true_or]
      · exact isSome_or_of_relayErr _ hnow
    · have hsome : got.err.isSome = true := Option.isSome_iff_ne_none.mpr herr
      show w₃.down.spent = true
      simp [hdown, Flow.take, hsome]

theorem writeClient_drains (history : List (Event sig)) (w : World) (got : Chunk)
    (h : Drains got w) :
    Keeping 2 (fun w put => (put.err ≠ none ∨ put.n ≠ got.bytes.length → Ended .down w) ∧
      (put.err = none → put.n = got.bytes.length → Drains ⟨[], got.err⟩ w))
      history w (writeClient got.bytes) := by
  rintro w₁ ⟨hrely₁, -⟩
  have h₁ := h.of_rely hrely₁
  have hflow := h₁.flow
  have hdue : w₁.down.broken = true ∨
      w₁.down.put ++ got.bytes <+: w₁.down.due .down w₁.head := by
    cases hbroken : w₁.down.broken with
    | true => exact .inl rfl
    | false => exact .inr ⟨[], by simp [hflow.due hbroken, Flow.due]⟩
  refine ⟨⟨h₁.working, hflow.fin, by rintro ⟨⟩, fun _ => hdue⟩, fun put w₂ hperform => ?_⟩
  obtain ⟨⟨-, hall, hnothing⟩, rfl⟩ := by simpa [World.perform] using hperform
  refine ⟨fun hfailed => ?_, fun hnone hn => ?_⟩
  · have hsome : put.err.isSome = true := by
      rw [Option.isSome_iff_ne_none]
      exact hfailed.elim id fun hn hnone => hn (hall hnone)
    refine ⟨h₁.stage, by rintro ⟨⟩, .inl ?_, hflow.counted, fun hf => hflow.failed ?_⟩
    · show (w₁.down.broken || put.err.isSome) = true
      rw [hsome, Bool.or_true]
    · simpa [Flow.give, World.flow, World.setFlow] using hf
  · refine ⟨h₁.stage, hflow.fin, fun hbroken => ?_, hflow.counted, fun hf => ?_, hflow.err⟩
    · have hwas : w₁.down.broken = false := by
        simpa [Flow.give, World.flow, World.setFlow, hnone] using hbroken
      show w₁.down.put ++ got.bytes.take put.n ++ [] = established ++ w₁.down.taken
      rw [hn, List.take_length, List.append_nil, hflow.due hwas]
    · refine hflow.failed ?_
      simpa [Flow.give, World.flow, World.setFlow] using hf

/-- The goroutine that copies to the client keeps its part. -/
theorem relayDown_always (rounds : Nat) :
    Keeping 2 (fun _ _ => True) history w (relayDown rounds) := by
  refine AlwaysIn.perform ?_
  rintro w₁ ⟨-, hsound, -⟩
  refine ⟨rfl, fun _ w₂ hperform => ?_⟩
  obtain ⟨hhanded, rfl⟩ := by simpa [World.perform] using hperform
  have hdrains : Drains ⟨[], none⟩ { w₁ with down := { w₁.down with stage := .running } } :=
    ⟨rfl, { hsound.draining hhanded with }⟩
  refine (copy_always (fun got w => Drains got w) (Ended .down) (lcRead_drains copyBuffer)
    (fun history w got _ => writeClient_drains history w got) rounds _ hdrains).bind ?_
  rintro history₃ w₃ ended ⟨hspent, hfailed⟩
  refine finish_always (d := .down) fun hne => ?_
  cases ended with
  | unfinished => exact absurd rfl hne
  | writeFailed => exact hfailed rfl
  | sourceOver err =>
      obtain ⟨_, h₃⟩ := hspent err rfl
      refine ⟨h₃.stage, by rintro ⟨⟩, ?_, h₃.flow.counted, h₃.flow.failed⟩
      cases hbroken : w₃.down.broken with
      | true => exact .inl hbroken
      | false =>
          have hdue := h₃.flow.due hbroken
          rw [List.append_nil] at hdue
          exact .inr ⟨hdue, .inl (h₃.flow.err (by rintro ⟨⟩))⟩

end Threads

/-! ## The handler -/

section Handler

variable {w w' : World} {history : List (Event sig)}

/-- The handler before it answers: only the client was read. -/
structure Handling (asked : Bool) (w : World) : Prop where
  up : w.up = { taken := w.up.taken, spent := w.up.spent }
  down : w.down = {}
  forwarded : w.forwarded = false
  added : w.added = 0
  closed : w.closed = false
  asked : w.asked = asked
  access : w.access = []

namespace Handling

variable {asked : Bool}

theorem up_waiting (h : Handling asked w) : w.up.stage = .waiting := by rw [h.up]

theorem down_waiting (h : Handling asked w) : w.down.stage = .waiting := by rw [h.down]

theorem of_rely (h : Handling asked w) (hrely : Rely 0 w w') :
    Handling asked w' ∧ w'.up = w.up ∧ w'.deadline = w.deadline := by
  have hup : w'.up = w.up := hrely.flow .up (.inl (.inl ⟨rfl, h.up_waiting⟩))
  have hdown : w'.down = w.down := hrely.flow .down (.inl (.inl ⟨rfl, h.down_waiting⟩))
  obtain ⟨-, hdeadline, hasked, hadded, hclosed, haccess⟩ := hrely.handler rfl
  exact ⟨⟨hup ▸ h.up, hdown ▸ h.down, (hrely.forwarded rfl).trans h.forwarded,
    hadded.trans h.added, hclosed.trans h.closed, hasked.trans h.asked, haccess.trans h.access⟩,
    hup, hdeadline⟩

end Handling

/-- The handler reads the head: what the reader holds is the end of what was
read, and the limit tells how much that was. -/
structure ReadsHead (src : Bufio.Reader) (w : World) : Prop where
  handling : Handling false w
  deadline : w.deadline = true
  unread : src.unread <:+ w.up.taken
  left : w.up.taken.length + src.left = maxHeaderBytes

theorem ReadsHead.of_rely {src : Bufio.Reader} (h : ReadsHead src w) (hrely : Rely 0 w w') :
    ReadsHead src w' := by
  obtain ⟨hhandling, hup, hdeadline⟩ := h.handling.of_rely hrely
  exact ⟨hhandling, hdeadline.trans h.deadline, hup ▸ h.unread, hup ▸ h.left⟩

theorem readClient_readsHead :
    Bufio.Reads World.perform (Found 0) (fun _ => Allowed 0) readClient ReadsHead
      (fun _ => True) where
  read history w src room _ hroom h := by
    rintro w₁ ⟨hrely, -⟩
    have h₁ := h.of_rely hrely
    have hup := h₁.handling.up
    have hleft := h₁.left
    have hfin : w₁.up.fin = false := by rw [hup]
    refine ⟨⟨.inl ⟨rfl, h₁.handling.up_waiting⟩, hfin,
      fun _ => ⟨rfl, h₁.handling.forwarded, h₁.deadline, by omega⟩⟩, fun got w₂ hperform => ?_⟩
    obtain ⟨⟨hn, hgot⟩, rfl⟩ := by simpa [World.perform] using hperform
    refine ⟨hn, fun hempty => ⟨hgot hempty, trivial⟩, { h₁.handling with up := ?_ }, h₁.deadline,
      ?_, ?_⟩
    · show w₁.up.take got false = { taken := _, spent := _ }
      rw [hup]
      rfl
    · obtain ⟨front, hfront⟩ := h₁.unread
      refine ⟨front, ?_⟩
      show front ++ (src.unread ++ got.bytes) = w₁.up.taken ++ got.bytes
      rw [← List.append_assoc, hfront]
    · show (w₁.up.taken ++ got.bytes).length + (src.left - got.bytes.length) = maxHeaderBytes
      rw [List.length_append]
      omega
  limit w src _ h := ⟨{ h with }, trivial⟩

theorem readsHead_uses : Bufio.Uses ReadsHead where
  take _ _ _ hrest h := { h with unread := hrest.trans h.unread }
  clear _ _ h := { h with }

/-- The handler tells the client that there is no tunnel. -/
structure Refusing (w : World) : Prop where
  stage : w.down.stage = .waiting
  fin : w.down.fin = false
  forwarded : w.forwarded = false
  logged : Logged w

theorem Refusing.of_rely (h : Refusing w) (hrely : Rely 0 w w') : Refusing w' := by
  have hdown : w'.down = w.down := hrely.flow .down (.inl (.inl ⟨rfl, h.stage⟩))
  obtain ⟨-, -, hasked, -, -, haccess⟩ := hrely.handler rfl
  refine ⟨hdown ▸ h.stage, hdown ▸ h.fin, (hrely.forwarded rfl).trans h.forwarded, ?_⟩
  rw [Logged, haccess, hasked]
  exact h.logged

theorem Handling.refusing (h : Handling false w) : Refusing w := by
  refine ⟨h.down_waiting, by rw [h.down], h.forwarded, ?_⟩
  rw [Logged, h.access, h.asked]
  rfl

theorem writeErr_always (h : Refusing w) {response : Text}
    (hhonest : ∀ w', Rely 0 w w' → Honest w' response) :
    Keeping 0 (fun w _ => Logged w) history w (writeErr response) := by
  rintro w₁ ⟨hrely, -⟩
  have h₁ := h.of_rely hrely
  refine ⟨⟨.inl ⟨rfl, h₁.stage⟩, h₁.fin, fun _ => ⟨rfl, h₁.forwarded, hhonest w₁ hrely⟩,
    fun h => absurd rfl h⟩, fun put w₂ hperform => ?_⟩
  obtain ⟨-, rfl⟩ := by simpa [World.perform] using hperform
  exact h₁.logged

theorem honest_of_ne {response : Text} (hlarge : response ≠ headTooLarge)
    (hbad : response ≠ badHead) (w : World) : Honest w response :=
  ⟨fun h => absurd h hlarge, fun h => absurd h hbad⟩

/-- A head was read, and its rest is in the reader. -/
structure Ready (asked : Bool) (src : Bufio.Reader) (w : World) : Prop where
  handling : Handling asked w
  deadline : w.deadline = false
  unread : src.unread <:+ w.up.taken
  left : src.left = maxInt64

theorem Ready.of_rely {asked : Bool} {src : Bufio.Reader} (h : Ready asked src w)
    (hrely : Rely 0 w w') : Ready asked src w' := by
  obtain ⟨hhandling, hup, hdeadline⟩ := h.handling.of_rely hrely
  exact ⟨hhandling, hdeadline.trans h.deadline, hup ▸ h.unread, h.left⟩

theorem openUpstream_always {src : Bufio.Reader} (h : Ready false src w) (host : Text)
    (port : Int) :
    Keeping 0 (fun w opened => (∀ timeout, opened = .error timeout → Refusing w) ∧
      (∀ r, opened = .ok r → Ready true src w)) history w (openUpstream host port) := by
  refine AlwaysIn.perform ?_
  rintro w₁ ⟨hrely₁, -⟩
  refine ⟨rfl, fun id w₁' hperform => ?_⟩
  obtain ⟨-, rfl⟩ := by simpa [World.perform] using hperform
  have h₁ := h.of_rely hrely₁
  refine AlwaysIn.perform ?_
  rintro w₂ ⟨hrely₂, -⟩
  refine ⟨rfl, fun start w₂' hperform => ?_⟩
  obtain ⟨-, rfl⟩ := by simpa [World.perform] using hperform
  have hid : Ready false src { w₁ with ids := id } :=
    { h₁ with handling := { h₁.handling with } }
  have h₂ := hid.of_rely hrely₂
  refine AlwaysIn.perform ?_
  rintro w₃ ⟨hrely₃, -⟩
  refine ⟨rfl, fun err w₃' hperform => ?_⟩
  cases hperform
  have h₃ := h₂.of_rely hrely₃
  have hasked : Ready true src { w₃ with asked := true } :=
    { h₃ with handling := { h₃.handling with asked := rfl } }
  refine AlwaysIn.perform ?_
  rintro w₄ ⟨hrely₄, -⟩
  refine ⟨rfl, fun opened w₄' hperform => ?_⟩
  obtain ⟨-, rfl⟩ := by simpa [World.perform] using hperform
  have h₄ := hasked.of_rely hrely₄
  cases err with
  | some timeout =>
      refine AlwaysIn.perform ?_
      rintro w₅ ⟨hrely₅, -⟩
      have h₅ := (h₄.of_rely hrely₅).handling
      refine ⟨⟨rfl, h₅.access, trivial⟩, fun _ w₅' hperform => ?_⟩
      cases hperform
      refine ⟨fun _ _ => ⟨h₅.down_waiting, ?_, h₅.forwarded, ?_⟩, by rintro _ ⟨⟩⟩
      · show w₅.down.fin = false
        rw [h₅.down]
      · show (w₅.access ++ _).length = w₅.asked.toNat
        rw [h₅.access, h₅.asked]
        rfl
  | none =>
      refine AlwaysIn.perform ?_
      rintro w₅ ⟨hrely₅, -⟩
      refine ⟨rfl, fun t0 w₅' hperform => ?_⟩
      obtain ⟨-, rfl⟩ := by simpa [World.perform] using hperform
      exact ⟨by rintro _ ⟨⟩, fun _ _ => h₄.of_rely hrely₅⟩

/-- The directions are on their way, or through. -/
structure Relaying (w : World) : Prop where
  added : w.added = 2
  closed : w.closed = false
  asked : w.asked = true
  access : w.access = []

theorem Relaying.of_rely (h : Relaying w) (hrely : Rely 0 w w') : Relaying w' := by
  obtain ⟨-, -, hasked, hadded, hclosed, haccess⟩ := hrely.handler rfl
  exact ⟨hadded.trans h.added, hclosed.trans h.closed, hasked.trans h.asked,
    haccess.trans h.access⟩

/-- `wg.Wait()` returns when both directions are through. -/
theorem Sound.done_of_wg (hw : Sound w) (hadded : w.added = 2) (hwg : w.wg = 0)
    (d : Direction) : (w.flow d).stage = .done := by
  have hsum := hw.wg
  have hpending : (w.flow d).pending = 0 := by
    cases d <;> simp only [World.flow] <;> omega
  by_contra hstage
  rw [Flow.pending, if_neg hstage] at hpending
  cases hpending

theorem Rely.done (hrely : Rely 0 w w') (hdone : ∀ d, (w.flow d).stage = .done)
    (d : Direction) : (w'.flow d).stage = .done := by
  rw [hrely.flow d (.inr (hdone d))]
  exact hdone d

/-- The counters that `Close` reads are those of the whole relay. -/
theorem Sound.exact (hw : Sound w) (hdone : ∀ d, (w.flow d).stage = .done) (info : ConnInfo)
    (ms : Nat) :
    (AccessLine.closed info w.firstErr.isSome ms w.up.counted w.down.counted).Exact w := by
  have hup := (hw.flow .up).done (hdone .up)
  have hdown := (hw.flow .down).done (hdone .down)
  refine ⟨hdone, hup.2.1, hdown.2.1, hw.errors, ?_⟩
  rintro ⟨d, hd⟩
  exact ((hw.flow d).done (hdone d)).2.2 hd

theorem AccessLine.Exact.of_rely {line : AccessLine} (h : line.Exact w)
    (hdone : ∀ d, (w.flow d).stage = .done) (hrely : Rely 0 w w') : line.Exact w' := by
  have hflow : ∀ d, w'.flow d = w.flow d := fun d => hrely.flow d (.inr (hdone d))
  have hup : w'.up = w.up := hflow .up
  have hdown : w'.down = w.down := hflow .down
  cases line with
  | dialError info => trivial
  | closed info relayError ms bytesUp bytesDown =>
      simpa only [AccessLine.Exact, hflow, hup, hdown] using h

theorem logConnClose_always (h : Relaying w) (hdone : ∀ d, (w.flow d).stage = .done)
    (info : ConnInfo) (t0 : Nat) :
    Keeping 0 (fun w _ => Logged w) history w (logConnClose info t0) := by
  refine AlwaysIn.perform ?_
  rintro w₁ ⟨hrely₁, -⟩
  refine ⟨rfl, fun first w₁' hperform => ?_⟩
  obtain ⟨hfirst, rfl⟩ := by simpa [World.perform] using hperform
  have h₁ := h.of_rely hrely₁
  have hdone₁ := hrely₁.done hdone
  rw [h₁.closed, Bool.not_false] at hfirst
  subst hfirst
  refine AlwaysIn.perform ?_
  rintro w₂ ⟨hrely₂, -⟩
  refine ⟨rfl, fun _ w₂' hperform => ?_⟩
  cases hperform
  have hdone₂ := hrely₂.done (w := { w₁ with closed := true })
    (by rintro ⟨⟩; exacts [hdone₁ .up, hdone₁ .down])
  obtain ⟨-, -, hasked₂, -, -, haccess₂⟩ := hrely₂.handler rfl
  refine AlwaysIn.perform ?_
  rintro w₃ ⟨hrely₃, hsound₃, -⟩
  refine ⟨rfl, fun counts w₃' hperform => ?_⟩
  obtain ⟨rfl, rfl⟩ := by simpa [World.perform] using hperform
  have hdone₃ := hrely₃.done (w := { w₂ with upstreamClosed := true })
    (by rintro ⟨⟩; exacts [hdone₂ .up, hdone₂ .down])
  obtain ⟨-, -, hasked₃, -, -, haccess₃⟩ := hrely₃.handler rfl
  refine AlwaysIn.perform ?_
  rintro w₄ ⟨hrely₄, -⟩
  refine ⟨rfl, fun t w₄' hperform => ?_⟩
  obtain ⟨-, rfl⟩ := by simpa [World.perform] using hperform
  obtain ⟨-, -, hasked₄, -, -, haccess₄⟩ := hrely₄.handler rfl
  rintro w₅ ⟨hrely₅, -⟩
  obtain ⟨-, -, hasked₅, -, -, haccess₅⟩ := hrely₅.handler rfl
  have haccess : w₅.access = [] :=
    ((haccess₅.trans haccess₄).trans (haccess₃.trans haccess₂)).trans h₁.access
  have hasked : w₅.asked = true :=
    ((hasked₅.trans hasked₄).trans (hasked₃.trans hasked₂)).trans h₁.asked
  have hexact₃ := hsound₃.exact hdone₃ info ((t - t0) / millisecond)
  have hexact := (hexact₃.of_rely hdone₃ hrely₄).of_rely (hrely₄.done hdone₃) hrely₅
  refine ⟨⟨rfl, haccess, hexact⟩, fun _ w₆ hperform => ?_⟩
  cases hperform
  show (w₅.access ++ _).length = w₅.asked.toNat
  rw [haccess, hasked]
  rfl

/-- The handler has answered; the client took the response, or a part of it and
nothing from then on. -/
structure Greeted (added : Nat) (src : Bufio.Reader) (put : Written) (w : World) : Prop where
  up : w.up = { taken := w.up.taken, spent := w.up.spent }
  down : w.down = { put := established.take put.n, broken := put.err.isSome }
  all : put.err = none → put.n = established.length
  deadline : w.deadline = false
  unread : src.unread <:+ w.up.taken
  left : src.left = maxInt64
  added : w.added = added
  closed : w.closed = false
  asked : w.asked = true
  access : w.access = []

namespace Greeted

variable {added : Nat} {src : Bufio.Reader} {put : Written}

theorem up_waiting (h : Greeted added src put w) : w.up.stage = .waiting := by rw [h.up]

theorem down_waiting (h : Greeted added src put w) : w.down.stage = .waiting := by rw [h.down]

theorem of_rely (h : Greeted added src put w) (hrely : Rely 0 w w') :
    Greeted added src put w' := by
  have hup : w'.up = w.up := hrely.flow .up (.inl (.inl ⟨rfl, h.up_waiting⟩))
  have hdown : w'.down = w.down := hrely.flow .down (.inl (.inl ⟨rfl, h.down_waiting⟩))
  obtain ⟨-, hdeadline, hasked, hadded, hclosed, haccess⟩ := hrely.handler rfl
  exact ⟨hup ▸ h.up, hdown.trans h.down, h.all, hdeadline.trans h.deadline, hup ▸ h.unread, h.left,
    hadded.trans h.added, hclosed.trans h.closed, hasked.trans h.asked, haccess.trans h.access⟩

/-- What the first goroutine gets: nothing was passed on, and the reader holds what
follows the head. -/
theorem pumping (h : Greeted added src put w) :
    w.up.Pumping (some (w.up.taken.length - src.unread.length)) src := by
  have hsuffix := List.suffix_iff_eq_drop.mp h.unread
  have hup := h.up
  refine ⟨by rw [hup], by rw [hup], by rw [hup], by rw [hup]; rfl, Nat.sub_le _ _, ?_, ?_⟩
  · show w.up.put ++ src.unread = w.up.taken.drop (w.up.taken.length - src.unread.length)
    rw [← hsuffix, hup]
    rfl
  · rw [h.left]
    exact Nat.le_add_right _ _

end Greeted

/-- What the second one gets. -/
theorem draining_of_greeting {put : Written}
    (hdown : w.down = { put := established.take put.n, broken := put.err.isSome })
    (hall : put.err = none → put.n = established.length) :
    w.down.Draining w.firstErr ⟨[], none⟩ := by
  rw [hdown]
  refine ⟨rfl, fun hbroken => ?_, rfl, by rintro ⟨⟩, fun h => absurd rfl h⟩
  have hnone : put.err = none := by simpa using hbroken
  show established.take put.n ++ [] = established ++ []
  rw [hall hnone, List.take_length]

theorem tunnel_always {src : Bufio.Reader} (h : Ready true src w) (info : ConnInfo) (t0 : Nat) :
    Keeping 0 (fun w _ => Logged w) history w (tunnel src info t0) := by
  refine AlwaysIn.perform ?_
  rintro w₁ ⟨hrely₁, -⟩
  have h₁ := h.of_rely hrely₁
  have hdown₁ := h₁.handling.down
  have hhonest : Honest w₁ established := honest_of_ne (by decide +kernel) (by decide +kernel) w₁
  refine ⟨⟨.inl ⟨rfl, h₁.handling.down_waiting⟩, by rw [World.flow, hdown₁],
    fun _ => ⟨rfl, h₁.handling.forwarded, hhonest⟩, fun h => absurd rfl h⟩,
    fun put w₁' hperform => ?_⟩
  obtain ⟨⟨-, hall, -⟩, rfl⟩ := by simpa [World.perform] using hperform
  have hgreeted : Greeted 0 src put { w₁ with down := w₁.down.give established put false } := by
    refine ⟨h₁.handling.up, ?_, hall, h₁.deadline, h₁.unread, h₁.left, h₁.handling.added,
      h₁.handling.closed, h₁.handling.asked, h₁.handling.access⟩
    show w₁.down.give established put false = _
    rw [hdown₁]
    rfl
  refine AlwaysIn.perform ?_
  rintro w₂ ⟨hrely₂, -⟩
  refine ⟨rfl, fun _ w₂' hperform => ?_⟩
  cases hperform
  have h₂ := hgreeted.of_rely hrely₂
  have hadded : Greeted 2 src put { w₂ with added := w₂.added + 2, wg := w₂.wg + 2 } :=
    { h₂ with added := congrArg (· + 2) h₂.added }
  refine AlwaysIn.perform ?_
  rintro w₃ ⟨hrely₃, -⟩
  have h₃ := hadded.of_rely hrely₃
  refine ⟨⟨rfl, h₃.up_waiting, h₃.deadline, h₃.pumping⟩, fun _ w₃' hperform => ?_⟩
  cases hperform
  refine AlwaysIn.perform ?_
  rintro w₄ ⟨hrely₄, -⟩
  have hdown₄ : w₄.down = { put := established.take put.n, broken := put.err.isSome } :=
    (hrely₄.flow .down (.inl (.inl ⟨rfl, h₃.down_waiting⟩))).trans h₃.down
  obtain ⟨hhead₄, -, hasked₄, hadded₄, hclosed₄, haccess₄⟩ := hrely₄.handler rfl
  have hrelaying : Relaying w₄ := ⟨hadded₄.trans h₃.added, hclosed₄.trans h₃.closed,
    hasked₄.trans h₃.asked, haccess₄.trans h₃.access⟩
  refine ⟨⟨rfl, by rw [hdown₄], by rw [hhead₄]; rfl, ?_, draining_of_greeting hdown₄ h₃.all⟩,
    fun _ w₄' hperform => ?_⟩
  · rw [hdown₄, List.append_nil]
    exact List.take_prefix _ _
  cases hperform
  refine AlwaysIn.perform ?_
  rintro w₅ ⟨hrely₅, hsound₅, -⟩
  refine ⟨rfl, fun _ w₅' hperform => ?_⟩
  obtain ⟨hwg, rfl⟩ := by simpa [World.perform] using hperform
  have hhanded : Relaying { w₄ with down := { w₄.down with stage := .handed } } :=
    { hrelaying with }
  have h₅ := hhanded.of_rely hrely₅
  exact logConnClose_always h₅ (hsound₅.done_of_wg h₅.added hwg) info t0

theorem handleConnect_always {src : Bufio.Reader} (h : Ready false src w) (urlHost : Text) :
    Keeping 0 (fun w _ => Logged w) history w (handleConnect src urlHost) := by
  have hrefusing := h.handling.refusing
  unfold handleConnect
  split
  next =>
    exact writeErr_always hrefusing fun w' _ =>
      honest_of_ne (by decide +kernel) (by decide +kernel) w'
  next host port _ =>
    have hport : Keeping 0 (fun w _ => Logged w) history w
        (writeErr (Http.writeHTTPErr .badRequest (str "Bad CONNECT target port"))) :=
      writeErr_always hrefusing fun w' _ =>
        honest_of_ne (by decide +kernel) (by decide +kernel) w'
    split
    next => exact hport
    next port _ =>
      split
      next => exact hport
      next =>
        refine (openUpstream_always h host port).bind ?_
        rintro history₁ w₁ opened ⟨herror, hok⟩
        cases opened with
        | error timeout =>
            refine writeErr_always (herror timeout rfl) fun w' _ => ?_
            cases timeout <;> exact honest_of_ne (by decide +kernel) (by decide +kernel) w'
        | ok r => exact tunnel_always (hok r rfl) r.1 r.2

theorem answer_always {src : Bufio.Reader} (h : ReadsHead src w) (req : Option Request) :
    Keeping 0 (fun w _ => Logged w) history w (answer req src) := by
  cases req with
  | none =>
      refine writeErr_always h.handling.refusing fun w' hrely => ?_
      have hleft := (h.of_rely hrely).left
      split
      next hzero =>
        have hne : headTooLarge ≠ badHead := by decide +kernel
        exact ⟨fun _ => by omega, fun hbad => absurd hbad hne⟩
      next hmore =>
        have hne : badHead ≠ headTooLarge := by decide +kernel
        exact ⟨fun hlarge => absurd hlarge hne, fun _ => by omega⟩
  | some req =>
      refine AlwaysIn.perform ?_
      rintro w₁ ⟨hrely₁, -⟩
      have h₁ := h.of_rely hrely₁
      refine ⟨⟨rfl, h₁.handling.up_waiting⟩, fun _ w₁' hperform => ?_⟩
      cases hperform
      have hhandling : Handling false { w₁ with deadline := false } := { h₁.handling with }
      split
      next =>
        have hready : Ready false { src with left := maxInt64 } { w₁ with deadline := false } :=
          ⟨hhandling, rfl, h₁.unread, rfl⟩
        exact handleConnect_always hready req.urlHost
      next =>
        split
        next =>
          rintro w₂ ⟨hrely₂, -⟩
          refine ⟨rfl, fun _ w₂' hperform => ?_⟩
          cases hperform
          exact (hhandling.refusing.of_rely hrely₂).logged
        next =>
          exact writeErr_always hhandling.refusing fun w' _ =>
            honest_of_ne (by decide +kernel) (by decide +kernel) w'

/-- The handler keeps its part, whatever `ReadRequest` does with the reader. -/
theorem handleConn_always (readRequest : ReadRequest) {clock : Nat} :
    Keeping 0 (fun w _ => Logged w) history { clock } (handleConn readRequest) := by
  refine AlwaysIn.perform ?_
  rintro w₁ ⟨hrely₁, -⟩
  have hstart : Handling false { clock } := ⟨rfl, rfl, rfl, rfl, rfl, rfl, rfl⟩
  obtain ⟨h₁, hup, -⟩ := hstart.of_rely hrely₁
  refine ⟨⟨rfl, h₁.up_waiting⟩, fun _ w₁' hperform => ?_⟩
  cases hperform
  have hreads : ReadsHead (Bufio.newReader maxHeaderBytes) { w₁ with deadline := true } := by
    refine ⟨{ h₁ with }, rfl, List.nil_suffix, ?_⟩
    show w₁.up.taken.length + maxHeaderBytes = maxHeaderBytes
    rw [hup]
    exact Nat.zero_add _
  refine (Bufio.run_always readClient_readsHead readsHead_uses readRequest
    ⟨hreads, Nat.zero_le _⟩).bind fun history₂ w₂ r hr => ?_
  refine (answer_always hr.1 r.1).bind fun history₃ w₃ _ h₃ => ?_
  rintro w₄ ⟨hrely₄, -⟩
  refine ⟨rfl, fun _ w₅ hperform => ?_⟩
  cases hperform
  obtain ⟨-, -, hasked, -, -, haccess⟩ := hrely₄.handler rfl
  show w₄.access.length = w₄.asked.toNat
  rw [haccess, hasked]
  exact h₃

end Handler

/-! ## Whole runs -/

section Runs

variable {readRequest : ReadRequest} {clock rounds rounds' : Nat}
  {schedule : List (Action (tunnelling readRequest))} {c : Config (tunnelling readRequest)}

theorem accepted_assured :
    (discipline readRequest).Assured (accepted readRequest clock rounds rounds') := by
  refine ⟨accepted_sound clock, fun i thread hthread => ?_⟩
  rcases i with _ | _ | _ | i
  · cases hthread
    refine ⟨_, Rely.refl 0 _, ?_⟩
    exact (handleConn_always readRequest).imp fun _ _ _ hlogged _ => hlogged
  · cases hthread
    refine ⟨_, Rely.refl 1 _, ?_⟩
    exact (relayUp_always rounds).imp fun _ _ _ _ hi => absurd hi (by decide)
  · cases hthread
    refine ⟨_, Rely.refl 2 _, ?_⟩
    exact (relayDown_always rounds').imp fun _ _ _ _ hi => absurd hi (by decide)
  · cases hthread

theorem run_assured (hspawn : ∀ call, .spawn call ∉ schedule)
    (hrun : (tunnelling readRequest).run (accepted readRequest clock rounds rounds') schedule =
      some c) : (discipline readRequest).Assured c :=
  RelyGuarantee.run_assured accepted_assured (System.Throughout.of_forall (fun _ => trivial) _ _)
    (fun _ call hmem => absurd hmem (hspawn call)) hrun

/-- In every interleaving, either direction of a tunnel passes on exactly what its
source sent, in order and from the right place on, as far as it has come. When it
closes the other side for writing, everything was passed on and the source has
ended, or a write has failed. -/
theorem tunnel_relays_in_order (hspawn : ∀ call, .spawn call ∉ schedule)
    (hrun : (tunnelling readRequest).run (accepted readRequest clock rounds rounds') schedule =
      some c) (d : Direction) (hopen : (c.state.flow d).stage ≠ .waiting) :
    (c.state.flow d).put <+: (c.state.flow d).due d c.state.head ∧
      ((c.state.flow d).fin = true → (c.state.flow d).Through d c.state.head) := by
  have hsound : Sound c.state := (run_assured hspawn hrun).inv
  exact ⟨(hsound.flow d).order hopen, (hsound.flow d).fin⟩

/-- A reader of requests without header fields. -/
def readPlain : ReadRequest := do
  let (line, _, err) ← Program.perform (S := Bufio.sig) .readLine
  let (blank, _, err') ← Program.perform (S := Bufio.sig) .readLine
  if err = none ∧ err' = none ∧ blank = [] then
    match line.split 32 with
    | [method, host, _] => return some ⟨method, host, false⟩
    | _ => return none
  else return none

/-- A client that sends two bytes right behind its request, and gets two back. -/
def pipelined : List (Action (tunnelling readPlain)) :=
  [.run 0 ⟨.setReadDeadline true, ()⟩,
    .run 0 ⟨.read .up 4096, Chunk.mk (str "CONNECT a:1 HTTP/1.1\r\n\r\nhi") none⟩,
    .run 0 ⟨.setReadDeadline false, ()⟩, .run 0 ⟨.nextConnID, (1 : Nat)⟩,
    .run 0 ⟨.now, (0 : Nat)⟩, .run 0 ⟨.openUpstream (str "a") 1, (none : Option Bool)⟩,
    .run 0 ⟨.now, (0 : Nat)⟩, .run 0 ⟨.now, (0 : Nat)⟩,
    .run 0 ⟨.write .down established, Written.mk 39 none⟩, .run 0 ⟨.wgAdd 2, ()⟩,
    .run 0 ⟨.goUp ⟨str "hi", none, maxInt64⟩, ()⟩, .run 0 ⟨.goDown, ()⟩,
    .run 2 ⟨.startDown, ()⟩, .run 2 ⟨.read .down copyBuffer, Chunk.mk (str "ok") none⟩,
    .run 1 ⟨.startUp, Bufio.Reader.mk (str "hi") none maxInt64⟩,
    .run 1 ⟨.write .up (str "hi"), Written.mk 2 none⟩, .run 2 ⟨.count .down 2 none, ()⟩,
    .run 1 ⟨.count .up 2 none, ()⟩, .run 2 ⟨.write .down (str "ok"), Written.mk 2 none⟩,
    .run 1 ⟨.read .up 4096, Chunk.mk [] (some .eof)⟩, .run 1 ⟨.closeWrite .up, ()⟩,
    .run 1 ⟨.wgDone .up, ()⟩, .run 2 ⟨.read .down copyBuffer, Chunk.mk [] (some .eof)⟩,
    .run 2 ⟨.count .down 0 (some .eof), ()⟩, .run 2 ⟨.closeWrite .down, ()⟩,
    .run 2 ⟨.wgDone .down, ()⟩, .run 0 ⟨.wgWait, ()⟩, .run 0 ⟨.casClosed, true⟩,
    .run 0 ⟨.closeUpstream, ()⟩, .run 0 ⟨.loadCounts, Counts.mk 2 2 none⟩,
    .run 0 ⟨.now, (0 : Nat)⟩,
    .run 0 ⟨.logAccess (.closed ⟨1, str "a", 1, 0⟩ false 0 2 2), ()⟩, .run 0 ⟨.closeClient, ()⟩]

theorem pipelined_runs :
    ((tunnelling readPlain).run (accepted readPlain 0 2 2) pipelined).isSome := by
  decide +kernel

theorem pipelined_relayed :
    ∃ c, (tunnelling readPlain).run (accepted readPlain 0 2 2) pipelined = some c ∧
      c.state.up.put = str "hi" := by
  refine ⟨_, (Option.some_get pipelined_runs).symm, ?_⟩
  have hrelayed := tunnel_relays_in_order (by simp [pipelined])
    (Option.some_get pipelined_runs).symm .up (by decide +kernel)
  rcases hrelayed.2 (by decide +kernel) with hbroken | ⟨hput, -⟩
  · exact absurd hbroken (by decide +kernel)
  · exact hput.trans (by decide +kernel)

/-- Both directions have ended before the `logConn` is closed, and its one line
counts exactly the bytes that went through it and tells whether it failed. A
handler that has returned has written that line, or the one of a failed dial, if
it came as far as `openUpstream`. -/
theorem tunnel_logged_exactly (hspawn : ∀ call, .spawn call ∉ schedule)
    (hrun : (tunnelling readRequest).run (accepted readRequest clock rounds rounds') schedule =
      some c) :
    c.state.access.length ≤ 1 ∧ (∀ line ∈ c.state.access, line.Exact c.state) ∧
      ∀ thread, c.threads[0]? = some thread → thread.rest = .ret () →
        c.state.access.length = c.state.asked.toNat := by
  have hassured := run_assured hspawn hrun
  have hsound : Sound c.state := hassured.inv
  refine ⟨hsound.once, hsound.lines, fun thread hthread hrest => ?_⟩
  obtain ⟨w, hrely, halways⟩ := hassured.threads 0 thread hthread
  rw [hrest] at halways
  have hlogged : Logged w := halways rfl
  obtain ⟨-, -, hasked, -, -, haccess⟩ := Rely.handler hrely rfl
  rw [haccess, hasked]
  exact hlogged

theorem pipelined_handled :
    ((Option.get _ pipelined_runs).threads[0]?).isSome := by
  decide +kernel

theorem pipelined_logged :
    ∃ c, (tunnelling readPlain).run (accepted readPlain 0 2 2) pipelined = some c ∧
      c.state.access.length = 1 := by
  refine ⟨_, (Option.some_get pipelined_runs).symm, ?_⟩
  have hlogged := tunnel_logged_exactly (by simp [pipelined]) (Option.some_get pipelined_runs).symm
  refine (hlogged.2.2 _ (Option.some_get pipelined_handled).symm ?_).trans (by decide +kernel)
  rfl

/-- Until there is a tunnel or the request goes to `handleHTTP`, the client is read
under a deadline and for no more than `maxHeaderBytes` bytes, and it is told that
its head was too large exactly if all of them were read. A tunnel is read without a
deadline, and after `handleHTTP` nothing is read or written. -/
theorem head_limited {before after : List (Action (tunnelling readRequest))} {i : Nat}
    {event : Event sig} (hspawn : ∀ call, .spawn call ∉ before)
    (hrun : (tunnelling readRequest).run (accepted readRequest clock rounds rounds')
      (before ++ .run i event :: after) = some c) :
    ∃ reached, (tunnelling readRequest).run (accepted readRequest clock rounds rounds') before =
        some reached ∧
      (∀ room, event.op = .read .up room →
        (reached.state.head = none → reached.state.forwarded = false ∧
          reached.state.deadline = true ∧
          reached.state.up.taken.length + room ≤ maxHeaderBytes) ∧
        (reached.state.head ≠ none → reached.state.deadline = false)) ∧
      (∀ response, event.op = .write .down response → reached.state.head = none →
        reached.state.forwarded = false ∧ Honest reached.state response) := by
  obtain ⟨reached, hreached, hsound, hallowed⟩ := RelyGuarantee.run_guard
    (R := discipline readRequest) accepted_assured
    (System.Throughout.of_forall (fun _ => trivial) _ _)
    (fun _ call hmem => absurd hmem (hspawn call)) hrun
  have hsound : Sound reached.state := hsound
  refine ⟨reached, hreached, fun room hop => ?_, fun response hop hnone => ?_⟩
  · have hread : Allowed i reached.state (.read .up room) := hop ▸ hallowed
    obtain ⟨hworking, -, hhandler⟩ := hread
    constructor
    · intro hnone
      rcases hworking with ⟨hi, -⟩ | ⟨-, hrunning⟩
      · exact (hhandler hi).2
      · have hsome := hsound.head fun h => absurd (h.symm.trans hrunning) (by rintro ⟨⟩)
        rw [hnone] at hsome
        cases hsome
    · exact fun hsome => hsound.deadline fun hwaiting => hsome (hsound.unopened hwaiting)
  · have hwrite : Allowed i reached.state (.write .down response) := hop ▸ hallowed
    obtain ⟨hworking, -, hhandler, -⟩ := hwrite
    rcases hworking with ⟨hi, -⟩ | ⟨-, hrunning⟩
    · exact (hhandler hi).2
    · have hsome := hsound.opened fun h => absurd (h.symm.trans hrunning) (by rintro ⟨⟩)
      rw [hnone] at hsome
      cases hsome

/-- A client that ends in the middle of the request line. -/
def truncated : List (Action (tunnelling readPlain)) :=
  [.run 0 ⟨.setReadDeadline true, ()⟩,
    .run 0 ⟨.read .up 4096, Chunk.mk (str "CONNECT") (some .eof)⟩,
    .run 0 ⟨.read .up 4096, Chunk.mk [] (some .eof)⟩]

theorem truncated_refused :
    ∃ reached, (tunnelling readPlain).run (accepted readPlain 0 2 2) truncated = some reached ∧
      Honest reached.state badHead := by
  have hruns : ((tunnelling readPlain).run (accepted readPlain 0 2 2)
      (truncated ++ [.run 0 ⟨.write .down badHead, Written.mk badHead.length none⟩])).isSome := by
    decide +kernel
  obtain ⟨reached, hreached, -, hhonest⟩ :=
    head_limited (by simp [truncated]) (Option.some_get hruns).symm
  refine ⟨reached, hreached, (hhonest badHead rfl ?_).2⟩
  have hstate : ((tunnelling readPlain).run (accepted readPlain 0 2 2) truncated).map
      (fun c => c.state.head) = some none := by
    decide +kernel
  rw [hreached] at hstate
  exact Option.some.inj hstate

end Runs

end SshGate.Connect
