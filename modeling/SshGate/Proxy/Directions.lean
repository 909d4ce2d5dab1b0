import SshGate.Proxy.Connect

/-! # What the threads of a tunnel keep

The handler has both directions to itself until it hands them to the relay
goroutines; from then on each goroutine has its own one. What a direction keeps
is said here for every action, together with what the other threads can rely on.
-/

namespace SshGate.Connect

open Go Interaction Program

/-! ## What holds of a direction -/

/-- The goroutine that copies in a direction; the handler is the thread 0. -/
def Direction.thread : Direction → Nat
  | .up => 1
  | .down => 2

namespace Flow

variable (f : Flow) (d : Direction) (head : Option Nat)

/-- What the destination has to get: what the client sent behind the head, or the
response to CONNECT and what the upstream sent. -/
def due : Text :=
  match d with
  | .up => f.taken.drop (head.getD 0)
  | .down => established ++ f.taken

/-- The bytes that the `logConn` has to count. -/
def moved : Nat :=
  match d with
  | .up => f.put.length
  | .down => f.taken.length

/-- The source has ended and everything was passed on, or a write failed. A
limited reader ends by itself after `math.MaxInt64` bytes. -/
def Through : Prop :=
  f.broken = true ∨ f.put = f.due d head ∧
    (f.spent = true ∨ d = .up ∧ maxInt64 ≤ f.taken.length)

structure Sound (firstErr : Option IoErr) : Prop where
  order : f.stage ≠ .waiting → f.put <+: f.due d head
  fin : f.fin = true → f.Through d head
  done : f.stage = .done →
    f.fin = true ∧ f.counted = f.moved d ∧ (f.failed = true → firstErr.isSome)

/-- The goroutine that copies to the upstream holds what was read and not passed
on in its reader. -/
structure Pumping (src : Bufio.Reader) : Prop where
  fin : f.fin = false
  broken : f.broken = false
  failed : f.failed = false
  counted : f.counted = f.put.length
  head_le : head.getD 0 ≤ f.taken.length
  due : f.put ++ src.unread = f.due .up head
  left : maxInt64 ≤ src.left + f.taken.length

/-- The other one holds at most one chunk. -/
structure Draining (firstErr : Option IoErr) (got : Chunk) : Prop where
  fin : f.fin = false
  due : f.broken = false → f.put ++ got.bytes = established ++ f.taken
  counted : f.counted = f.taken.length
  failed : f.failed = true → firstErr.isSome
  err : got.err ≠ none → f.spent = true

variable {f d head} {firstErr firstErr' : Option IoErr}

theorem Sound.mono (h : f.Sound d head firstErr)
    (herr : firstErr.isSome → firstErr'.isSome) : f.Sound d head firstErr' :=
  ⟨h.order, h.fin, fun hdone =>
    let ⟨hfin, hcounted, hfailed⟩ := h.done hdone
    ⟨hfin, hcounted, fun hf => herr (hfailed hf)⟩⟩

theorem Draining.mono {got : Chunk} (h : f.Draining firstErr got)
    (herr : firstErr.isSome → firstErr'.isSome) : f.Draining firstErr' got :=
  { h with failed := fun hf => herr (h.failed hf) }

/-- A read keeps what was promised of a direction that is not through. -/
theorem Sound.take (h : f.Sound d head firstErr) (hdone : f.stage ≠ .done) (hfin : f.fin = false)
    (got : Chunk) (fails : Bool) : (f.take got fails).Sound d head firstErr := by
  refine ⟨fun hstage => (h.order hstage).trans ?_, fun h' => ?_, fun h' => absurd h' hdone⟩
  · cases d with
    | up =>
        simp only [due, Flow.take, List.drop_append]
        exact List.prefix_append _ _
    | down =>
        simp only [due, Flow.take, ← List.append_assoc]
        exact List.prefix_append _ _
  · exact absurd (hfin.symm.trans h') Bool.false_ne_true

/-- So does a write of what is due. -/
theorem Sound.give (h : f.Sound d head firstErr) (hdone : f.stage ≠ .done) (hfin : f.fin = false)
    {bytes : Text} {put : Written} (htakes : f.Takes bytes put)
    (hdue : f.stage ≠ .waiting → f.broken = true ∨ f.put ++ bytes <+: f.due d head)
    (fails : Bool) : (f.give bytes put fails).Sound d head firstErr := by
  have hsame : (f.give bytes put fails).due d head = f.due d head := by cases d <;> rfl
  refine ⟨fun hstage => ?_, fun h' => ?_, fun h' => absurd h' hdone⟩
  · rw [hsame]
    rcases hdue hstage with hbroken | hdue
    · simpa [Flow.give, (htakes.2.2 hbroken).1] using h.order hstage
    · exact ((List.prefix_append_right_inj f.put).mpr (List.take_prefix put.n bytes)).trans hdue
  · exact absurd (hfin.symm.trans h') Bool.false_ne_true

end Flow

namespace World

@[simp] theorem flow_setFlow_self (w : World) (d : Direction) (f : Flow) :
    (w.setFlow d f).flow d = f := by cases d <;> rfl

theorem flow_setFlow_of_ne (w : World) {d d' : Direction} (hd : d' ≠ d) (f : Flow) :
    (w.setFlow d f).flow d' = w.flow d' := by
  cases d <;> cases d' <;> first | rfl | exact absurd rfl hd

end World

/-- What a line of `logConn.Close` says is what was relayed, by both directions
to their ends. -/
def AccessLine.Exact (w : World) : AccessLine → Prop
  | .dialError _ => True
  | .closed _ relayError _ bytesUp bytesDown =>
      (∀ d, (w.flow d).stage = .done) ∧ bytesUp = w.up.put.length ∧
        bytesDown = w.down.taken.length ∧
        (relayError = true ↔ ∃ d, (w.flow d).failed = true)

/-- A direction that counts for the `WaitGroup`. -/
def Flow.pending (f : Flow) : Nat := if f.stage = .done then 0 else 1

structure Sound (w : World) : Prop where
  flow : ∀ d, (w.flow d).Sound d w.head w.firstErr
  pumping : w.up.stage = .handed → ∀ src, w.src = some src → w.up.Pumping w.head src
  draining : w.down.stage = .handed → w.down.Draining w.firstErr ⟨[], none⟩
  unopened : w.up.stage = .waiting → w.head = none
  head : w.up.stage ≠ .waiting → w.head.isSome
  opened : w.down.stage ≠ .waiting → w.head.isSome
  deadline : w.up.stage ≠ .waiting → w.deadline = false
  limit : w.up.stage = .waiting → w.up.taken.length ≤ maxHeaderBytes
  errors : w.firstErr.isSome → ∃ d, (w.flow d).failed = true
  lines : ∀ line ∈ w.access, line.Exact w
  once : w.access.length ≤ 1
  wg : w.added + w.up.pending + w.down.pending = w.wg + 2

theorem accepted_sound (clock : Nat) : Sound { clock } where
  flow d := by
    cases d <;> exact ⟨fun h => absurd rfl h, by rintro ⟨⟩, by rintro ⟨⟩⟩
  pumping := by rintro ⟨⟩
  draining := by rintro ⟨⟩
  unopened _ := rfl
  head h := absurd rfl h
  opened h := absurd rfl h
  deadline h := absurd rfl h
  limit _ := Nat.zero_le _
  errors := by rintro ⟨⟩
  lines := by rintro _ ⟨⟩
  once := Nat.zero_le _
  wg := rfl

/-! ## What the threads may do -/

/-- The thread that has a direction to itself. -/
def Working (i : Nat) (d : Direction) (w : World) : Prop :=
  i = 0 ∧ (w.flow d).stage = .waiting ∨ i = d.thread ∧ (w.flow d).stage = .running

/-- The client is told the reason for which its head was not read. -/
def Honest (w : World) (response : Text) : Prop :=
  (response = headTooLarge → w.up.taken.length = maxHeaderBytes) ∧
    (response = badHead → w.up.taken.length < maxHeaderBytes)

def Allowed (i : Nat) (w : World) : Op → Prop
  | .read d room =>
      Working i d w ∧ (w.flow d).fin = false ∧
        (i = 0 → d = .up ∧ w.forwarded = false ∧ w.deadline = true ∧
          w.up.taken.length + room ≤ maxHeaderBytes)
  | .write d bytes =>
      Working i d w ∧ (w.flow d).fin = false ∧
        (i = 0 → d = .down ∧ w.forwarded = false ∧ Honest w bytes) ∧
        (i ≠ 0 → (w.flow d).broken = true ∨ (w.flow d).put ++ bytes <+: (w.flow d).due d w.head)
  | .closeWrite d =>
      i = d.thread ∧ (w.flow d).stage = .running ∧ (w.flow d).Through d w.head
  | .count d _ err =>
      i = d.thread ∧ (w.flow d).stage = .running ∧ (w.flow d).fin = false ∧
        (relayErr err = true → (w.flow d).failed = true)
  | .wgDone d =>
      i = d.thread ∧ (w.flow d).stage = .running ∧ (w.flow d).fin = true ∧
        (w.flow d).counted = (w.flow d).moved d ∧
        ((w.flow d).failed = true → w.firstErr.isSome)
  | .goUp src =>
      i = 0 ∧ w.up.stage = .waiting ∧ w.deadline = false ∧
        w.up.Pumping (some (w.up.taken.length - src.unread.length)) src
  | .goDown =>
      i = 0 ∧ w.down.stage = .waiting ∧ w.head.isSome ∧
        w.down.put <+: established ++ w.down.taken ∧ w.down.Draining w.firstErr ⟨[], none⟩
  | .startUp => i = 1
  | .startDown => i = 2
  | .setReadDeadline _ => i = 0 ∧ w.up.stage = .waiting
  | .logAccess line => i = 0 ∧ w.access = [] ∧ line.Exact w
  | _ => i = 0

/-- What a thread can rely on: a direction that is its own, or through, does not
change, and neither does what only the handler changes. -/
structure Rely (i : Nat) (w w' : World) : Prop where
  flow : ∀ d, Working i d w ∨ (w.flow d).stage = .done → w'.flow d = w.flow d
  firstErr : w.firstErr.isSome → w'.firstErr.isSome
  head : w.head.isSome → w'.head = w.head
  forwarded : i = 0 → w'.forwarded = w.forwarded
  handler : i = 0 → w'.head = w.head ∧ w'.deadline = w.deadline ∧ w'.asked = w.asked ∧
    w'.added = w.added ∧ w'.closed = w.closed ∧ w'.access = w.access

theorem Rely.refl (i : Nat) (w : World) : Rely i w w :=
  ⟨fun _ _ => rfl, id, fun _ => rfl, fun _ => rfl, fun _ => ⟨rfl, rfl, rfl, rfl, rfl, rfl⟩⟩

theorem Rely.trans {i : Nat} {w w' w'' : World} (h : Rely i w w') (h' : Rely i w' w'') :
    Rely i w w'' where
  flow d hd := by
    have hsame := h.flow d hd
    refine (h'.flow d ?_).trans hsame
    rwa [Working, hsame]
  firstErr hsome := h'.firstErr (h.firstErr hsome)
  head hsome := by
    have hsame := h.head hsome
    exact (h'.head (hsame ▸ hsome)).trans hsame
  forwarded hi := (h'.forwarded hi).trans (h.forwarded hi)
  handler hi := by
    obtain ⟨h₁, h₂, h₃, h₄, h₅, h₆⟩ := h.handler hi
    obtain ⟨h₁', h₂', h₃', h₄', h₅', h₆'⟩ := h'.handler hi
    exact ⟨h₁'.trans h₁, h₂'.trans h₂, h₃'.trans h₃, h₄'.trans h₄, h₅'.trans h₅, h₆'.trans h₆⟩

/-! ## Every action keeps its part -/

section Preservation

variable {w w' : World} {d : Direction} {f : Flow} {i j : Nat}

theorem AccessLine.Exact.of_not_done {line : AccessLine} (h : line.Exact w)
    (hstage : (w.flow d).stage ≠ .done) (w' : World) : line.Exact w' := by
  cases line with
  | dialError info => trivial
  | closed info relayError ms bytesUp bytesDown => exact absurd (h.1 d) hstage

theorem failed_of_same (hsame : ∀ d, (w'.flow d).failed = (w.flow d).failed)
    (h : ∃ d, (w.flow d).failed = true) : ∃ d, (w'.flow d).failed = true := by
  obtain ⟨d, hd⟩ := h
  exact ⟨d, (hsame d).trans hd⟩

theorem Working.not_done (h : Working i d w) : (w.flow d).stage ≠ .done := by
  rcases h with ⟨-, h⟩ | ⟨-, h⟩ <;> rw [h] <;> rintro ⟨⟩

theorem Working.not_handed (h : Working i d w) : (w.flow d).stage ≠ .handed := by
  rcases h with ⟨-, h⟩ | ⟨-, h⟩ <;> rw [h] <;> rintro ⟨⟩

/-- Nobody else has the direction. -/
theorem Working.unique (h : Working i d w) (h' : Working j d w) : j = i := by
  rcases h with ⟨rfl, h⟩ | ⟨rfl, h⟩ <;> rcases h' with ⟨rfl, h'⟩ | ⟨rfl, h'⟩ <;>
    first | rfl | exact absurd (h.symm.trans h') (by rintro ⟨⟩)

/-- A change of a direction by the thread that has it. -/
theorem Sound.setFlow (hw : Sound w) (hworking : Working i d w)
    (hstage : f.stage = (w.flow d).stage) (hf : f.Sound d w.head w.firstErr)
    (hlimit : d = .up → f.stage = .waiting → f.taken.length ≤ maxHeaderBytes)
    (hfailed : (w.flow d).failed = true → f.failed = true) : Sound (w.setFlow d f) := by
  have hlines : ∀ line ∈ w.access, line.Exact (w.setFlow d f) := fun line hline =>
    (hw.lines line hline).of_not_done hworking.not_done _
  have hhanded : f.stage ≠ .handed := hstage ▸ hworking.not_handed
  have herrors : w.firstErr.isSome → ∃ d', ((w.setFlow d f).flow d').failed = true := by
    intro hsome
    obtain ⟨d', hd'⟩ := hw.errors hsome
    refine ⟨d', ?_⟩
    by_cases hdd : d' = d
    · subst hdd
      rw [World.flow_setFlow_self]
      exact hfailed hd'
    · rw [World.flow_setFlow_of_ne w hdd]
      exact hd'
  have hflow : ∀ d', ((w.setFlow d f).flow d').Sound d' w.head w.firstErr := by
    intro d'
    by_cases hdd : d' = d
    · subst hdd
      rw [World.flow_setFlow_self]
      exact hf
    · rw [World.flow_setFlow_of_ne w hdd]
      exact hw.flow d'
  have hpending : f.pending = (w.flow d).pending := by rw [Flow.pending, Flow.pending, hstage]
  cases d with
  | up =>
      have hup : f.stage = w.up.stage := hstage
      exact { hw with
        flow := hflow
        pumping := fun h => absurd h hhanded
        unopened := fun h => hw.unopened (hup ▸ h)
        head := fun h => hw.head (hup ▸ h)
        deadline := fun h => hw.deadline (hup ▸ h)
        limit := fun h => hlimit rfl h
        errors := herrors
        lines := hlines
        wg := by
          have hsame : f.pending = w.up.pending := hpending
          show w.added + f.pending + w.down.pending = w.wg + 2
          rw [hsame, hw.wg] }
  | down =>
      have hdown : f.stage = w.down.stage := hstage
      exact { hw with
        flow := hflow
        draining := fun h => absurd h hhanded
        opened := fun h => hw.opened (hdown ▸ h)
        errors := herrors
        lines := hlines
        wg := by
          have hsame : f.pending = w.down.pending := hpending
          show w.added + w.up.pending + f.pending = w.wg + 2
          rw [hsame, hw.wg] }

/-- The others do not notice it. -/
theorem Rely.of_setFlow (hworking : Working i d w) (hij : j ≠ i) (f : Flow) :
    Rely j w (w.setFlow d f) := by
  have hflow : ∀ d', Working j d' w ∨ (w.flow d').stage = .done →
      (w.setFlow d f).flow d' = w.flow d' := by
    intro d' hd'
    by_cases hdd : d' = d
    · subst hdd
      rcases hd' with hd' | hd'
      · exact absurd (hworking.unique hd') hij
      · exact absurd hd' hworking.not_done
    · exact World.flow_setFlow_of_ne w hdd f
  cases d <;>
    exact ⟨hflow, id, fun _ => rfl, fun _ => rfl, fun _ => ⟨rfl, rfl, rfl, rfl, rfl, rfl⟩⟩

/-- What only the handler changes. -/
theorem Rely.of_handler (hj : j ≠ 0) (hup : w'.up = w.up) (hdown : w'.down = w.down)
    (hfirst : w'.firstErr = w.firstErr) (hhead : w'.head = w.head) : Rely j w w' where
  flow d _ := by cases d <;> assumption
  firstErr := by rw [hfirst]; exact id
  head _ := hhead
  forwarded h := absurd h hj
  handler h := absurd h hj

theorem Sound.disturb (hw : Sound w) {disturbance : World.Disturbance}
    (hdisturb : w.disturb disturbance = some w') : Sound w' ∧ ∀ i, Rely i w w' := by
  cases disturbance <;> cases hdisturb <;>
    exact ⟨{ hw with }, fun i => ⟨fun d _ => by cases d <;> rfl, id, fun _ => rfl,
      fun _ => rfl, fun _ => ⟨rfl, rfl, rfl, rfl, rfl, rfl⟩⟩⟩

/-- A read. -/
theorem Sound.read (hw : Sound w) {room : Nat} {got : Chunk} (hallowed : Allowed i w (.read d room))
    (hperform : World.perform (.read d room) w got = some w') :
    Sound w' ∧ ∀ j, j ≠ i → Rely j w w' := by
  obtain ⟨⟨hroom, -⟩, rfl⟩ := by simpa [World.perform] using hperform
  obtain ⟨hworking, hfin, hhandler⟩ := hallowed
  refine ⟨hw.setFlow hworking rfl ((hw.flow d).take hworking.not_done hfin _ _) ?_ ?_,
    fun j hj => .of_setFlow hworking hj _⟩
  · rintro rfl hwaiting
    have hi : i = 0 := by
      rcases hworking with ⟨hi, -⟩ | ⟨-, hrunning⟩
      · exact hi
      · exact absurd (hwaiting.symm.trans hrunning) (by rintro ⟨⟩)
    have hle := (hhandler hi).2.2.2
    show (w.up.taken ++ got.bytes).length ≤ maxHeaderBytes
    rw [List.length_append]
    omega
  · intro hfailed
    simp [Flow.take, hfailed]

theorem Sound.write (hw : Sound w) {bytes : Text} {put : Written}
    (hallowed : Allowed i w (.write d bytes))
    (hperform : World.perform (.write d bytes) w put = some w') :
    Sound w' ∧ ∀ j, j ≠ i → Rely j w w' := by
  obtain ⟨htakes, rfl⟩ := by simpa [World.perform] using hperform
  obtain ⟨hworking, hfin, -, hdue⟩ := hallowed
  refine ⟨hw.setFlow hworking rfl ((hw.flow d).give hworking.not_done hfin htakes ?_ _) ?_ ?_,
    fun j hj => .of_setFlow hworking hj _⟩
  · intro hstage
    refine hdue ?_
    rintro rfl
    rcases hworking with ⟨-, hwaiting⟩ | ⟨hthread, -⟩
    · exact hstage hwaiting
    · cases d <;> cases hthread
  · rintro rfl hwaiting
    exact hw.limit hwaiting
  · intro hfailed
    simp [Flow.give, hfailed]

theorem Sound.closeWrite (hw : Sound w) (hallowed : Allowed i w (.closeWrite d))
    (hperform : World.perform (.closeWrite d) w () = some w') :
    Sound w' ∧ ∀ j, j ≠ i → Rely j w w' := by
  cases hperform
  obtain ⟨hthread, hrunning, hthrough⟩ := hallowed
  have hworking : Working i d w := .inr ⟨hthread, hrunning⟩
  have hf := hw.flow d
  refine ⟨hw.setFlow hworking rfl ⟨?_, fun _ => ?_, fun h => ?_⟩ ?_ id,
    fun j hj => .of_setFlow hworking hj _⟩
  · cases d <;> exact hf.order
  · cases d <;> exact hthrough
  · exact absurd h hworking.not_done
  · rintro rfl hwaiting
    exact hw.limit hwaiting

theorem Sound.count (hw : Sound w) {n : Nat} {err : Option IoErr}
    (hallowed : Allowed i w (.count d n err))
    (hperform : World.perform (.count d n err) w () = some w') :
    Sound w' ∧ ∀ j, j ≠ i → Rely j w w' := by
  cases hperform
  obtain ⟨hthread, hrunning, hfin, hfailed⟩ := hallowed
  have hworking : Working i d w := .inr ⟨hthread, hrunning⟩
  have hf := hw.flow d
  -- first the counter, then the error
  have hcounted : Sound (w.setFlow d { w.flow d with counted := (w.flow d).counted + n }) := by
    refine hw.setFlow hworking rfl ⟨?_, ?_, fun h => absurd h hworking.not_done⟩ ?_ id
    · cases d <;> exact hf.order
    · exact fun h => absurd (hfin.symm.trans h) Bool.false_ne_true
    · rintro rfl hwaiting
      exact hw.limit hwaiting
  have hmono : w.firstErr.isSome →
      (w.firstErr.or (if relayErr err then err else none)).isSome := by
    intro hsome
    rw [Option.isSome_or, hsome, Bool.true_or]
  have hrely : ∀ j, j ≠ i →
      Rely j w (w.setFlow d { w.flow d with counted := (w.flow d).counted + n }) :=
    fun j hj => .of_setFlow hworking hj _
  have herrors : (w.firstErr.or (if relayErr err then err else none)).isSome →
      ∃ d, (w.flow d).failed = true := by
    intro hsome
    rw [Option.isSome_or, Bool.or_eq_true] at hsome
    rcases hsome with hsome | hsome
    · exact hw.errors hsome
    · split at hsome
      next hrelay => exact ⟨d, hfailed hrelay⟩
      next => cases hsome
  cases d with
  | up =>
      refine ⟨{ hcounted with
        flow := fun d => (hcounted.flow d).mono hmono
        draining := fun h => (hcounted.draining h).mono hmono
        errors := fun h => ?_ }, fun j hj => { hrely j hj with firstErr := hmono }⟩
      exact failed_of_same (by rintro ⟨⟩ <;> rfl) (herrors h)
  | down =>
      refine ⟨{ hcounted with
        flow := fun d => (hcounted.flow d).mono hmono
        draining := fun h => (hcounted.draining h).mono hmono
        errors := fun h => ?_ }, fun j hj => { hrely j hj with firstErr := hmono }⟩
      exact failed_of_same (by rintro ⟨⟩ <;> rfl) (herrors h)

theorem Sound.wgDone (hw : Sound w) (hallowed : Allowed i w (.wgDone d))
    (hperform : World.perform (.wgDone d) w () = some w') :
    Sound w' ∧ ∀ j, j ≠ i → Rely j w w' := by
  obtain ⟨hpos, rfl⟩ := by simpa [World.perform] using hperform
  obtain ⟨hthread, hrunning, hfin, hcounted, hfailed⟩ := hallowed
  have hworking : Working i d w := .inr ⟨hthread, hrunning⟩
  have hf := hw.flow d
  have hdone : Flow.Sound { w.flow d with stage := .done } d w.head w.firstErr := by
    refine ⟨fun _ => ?_, ?_, fun _ => ⟨hfin, ?_, hfailed⟩⟩
    · have horder := hf.order (by rw [hrunning]; rintro ⟨⟩)
      cases d <;> exact horder
    · cases d <;> exact hf.fin
    · cases d <;> exact hcounted
  have hrely : ∀ j, j ≠ i → Rely j w (w.setFlow d { w.flow d with stage := .done }) :=
    fun j hj => .of_setFlow hworking hj _
  have hlines : ∀ line ∈ w.access, ∀ w', line.Exact w' := fun line hline =>
    (hw.lines line hline).of_not_done hworking.not_done
  have hwg := hw.wg
  have hstage := hworking.not_done
  cases d with
  | up =>
      have hopen : w.up.stage ≠ .waiting := by
        intro hwaiting
        exact absurd (hwaiting.symm.trans hrunning) (by rintro ⟨⟩)
      refine ⟨{ hw with
        flow := fun d => ?_
        pumping := by rintro ⟨⟩
        unopened := by rintro ⟨⟩
        head := fun _ => hw.head hopen
        deadline := fun _ => hw.deadline hopen
        limit := by rintro ⟨⟩
        errors := fun h => ?_
        lines := fun line hline => hlines line hline _
        wg := ?_ }, fun j hj => { hrely j hj with }⟩
      · cases d with
        | up => exact hdone
        | down => exact hw.flow .down
      · exact failed_of_same (by rintro ⟨⟩ <;> rfl) (hw.errors h)
      · have hone : w.up.pending = 1 := if_neg hstage
        show w.added + 0 + w.down.pending = w.wg - 1 + 2
        omega
  | down =>
      have hopen : w.down.stage ≠ .waiting := by
        intro hwaiting
        exact absurd (hwaiting.symm.trans hrunning) (by rintro ⟨⟩)
      refine ⟨{ hw with
        flow := fun d => ?_
        draining := by rintro ⟨⟩
        opened := fun _ => hw.opened hopen
        errors := fun h => ?_
        lines := fun line hline => hlines line hline _
        wg := ?_ }, fun j hj => { hrely j hj with }⟩
      · cases d with
        | up => exact hw.flow .up
        | down => exact hdone
      · exact failed_of_same (by rintro ⟨⟩ <;> rfl) (hw.errors h)
      · have hone : w.down.pending = 1 := if_neg hstage
        show w.added + w.up.pending + 0 = w.wg - 1 + 2
        omega

theorem Sound.goUp (hw : Sound w) {src : Bufio.Reader} (hallowed : Allowed i w (.goUp src))
    (hperform : World.perform (.goUp src) w () = some w') :
    Sound w' ∧ ∀ j, j ≠ i → Rely j w w' := by
  cases hperform
  obtain ⟨rfl, hwaiting, hdeadline, hpumping⟩ := hallowed
  have hnone := hw.unopened hwaiting
  have hdue := hpumping.due
  refine ⟨{ hw with
    flow := fun d => ?_
    pumping := ?_
    unopened := by rintro ⟨⟩
    head := fun _ => rfl
    opened := fun _ => rfl
    deadline := fun _ => hdeadline
    limit := by rintro ⟨⟩
    errors := fun h => ?_
    lines := fun line hline => ?_
    wg := ?_ }, fun j hj =>
      ⟨fun d hd => ?_, id, fun h => ?_, fun h => absurd h hj, fun h => absurd h hj⟩⟩
  · cases d with
    | up =>
        refine ⟨fun _ => ⟨src.unread, hdue⟩, fun h => ?_, by rintro ⟨⟩⟩
        exact absurd (hpumping.fin.symm.trans h) Bool.false_ne_true
    | down =>
        have hdown := hw.flow .down
        exact ⟨hdown.order, hdown.fin, hdown.done⟩
  · rintro - src' ⟨⟩
    exact { hpumping with due := hdue }
  · exact failed_of_same (by rintro ⟨⟩ <;> rfl) (hw.errors h)
  · refine (hw.lines line hline).of_not_done (d := .up) ?_ _
    exact fun h => absurd (hwaiting.symm.trans h) (by rintro ⟨⟩)
  · have hone : w.up.pending = 1 := if_neg fun h => absurd (hwaiting.symm.trans h) (by rintro ⟨⟩)
    have hwg := hw.wg
    show w.added + 1 + w.down.pending = w.wg + 2
    omega
  · cases d with
    | up =>
        rcases hd with (⟨hj0, -⟩ | ⟨-, hrunning⟩) | hdone
        · exact absurd hj0 hj
        · exact absurd (hwaiting.symm.trans hrunning) (by rintro ⟨⟩)
        · exact absurd (hwaiting.symm.trans hdone) (by rintro ⟨⟩)
    | down => rfl
  · rw [hnone] at h
    cases h

theorem Sound.goDown (hw : Sound w) (hallowed : Allowed i w .goDown)
    (hperform : World.perform .goDown w () = some w') :
    Sound w' ∧ ∀ j, j ≠ i → Rely j w w' := by
  cases hperform
  obtain ⟨rfl, hwaiting, hhead, horder, hdraining⟩ := hallowed
  refine ⟨{ hw with
    flow := fun d => ?_
    draining := fun _ => { hdraining with }
    opened := fun _ => hhead
    errors := fun h => ?_
    lines := fun line hline => ?_
    wg := ?_ }, fun j hj =>
      ⟨fun d hd => ?_, id, fun _ => rfl, fun h => absurd h hj, fun h => absurd h hj⟩⟩
  · cases d with
    | up => exact hw.flow .up
    | down =>
        refine ⟨fun _ => horder, fun h => ?_, by rintro ⟨⟩⟩
        exact absurd (hdraining.fin.symm.trans h) Bool.false_ne_true
  · exact failed_of_same (by rintro ⟨⟩ <;> rfl) (hw.errors h)
  · refine (hw.lines line hline).of_not_done (d := .down) ?_ _
    exact fun h => absurd (hwaiting.symm.trans h) (by rintro ⟨⟩)
  · have hone : w.down.pending = 1 := if_neg fun h => absurd (hwaiting.symm.trans h) (by rintro ⟨⟩)
    have hwg := hw.wg
    show w.added + w.up.pending + 1 = w.wg + 2
    omega
  · cases d with
    | up => rfl
    | down =>
        rcases hd with (⟨hj0, -⟩ | ⟨-, hrunning⟩) | hdone
        · exact absurd hj0 hj
        · exact absurd (hwaiting.symm.trans hrunning) (by rintro ⟨⟩)
        · exact absurd (hwaiting.symm.trans hdone) (by rintro ⟨⟩)

theorem Sound.startUp (hw : Sound w) {src : Bufio.Reader}
    (hperform : World.perform .startUp w src = some w') :
    Sound w' ∧ ∀ j, j ≠ 1 → Rely j w w' := by
  obtain ⟨⟨hhanded, -⟩, rfl⟩ := by simpa [World.perform] using hperform
  have hopen : w.up.stage ≠ .waiting := by rw [hhanded]; rintro ⟨⟩
  have hstage : (w.flow .up).stage ≠ .done := by rw [World.flow, hhanded]; rintro ⟨⟩
  refine ⟨{ hw with
    flow := fun d => ?_
    pumping := by rintro ⟨⟩
    unopened := by rintro ⟨⟩
    head := fun _ => hw.head hopen
    deadline := fun _ => hw.deadline hopen
    limit := by rintro ⟨⟩
    errors := fun h => failed_of_same (by rintro ⟨⟩ <;> rfl) (hw.errors h)
    lines := fun line hline => (hw.lines line hline).of_not_done hstage _
    wg := ?_ }, fun j hj =>
      ⟨fun d hd => ?_, id, fun _ => rfl, fun _ => rfl, fun _ => ⟨rfl, rfl, rfl, rfl, rfl, rfl⟩⟩⟩
  · cases d with
    | up =>
        have hup := hw.flow .up
        exact ⟨fun _ => hup.order hopen, hup.fin, by rintro ⟨⟩⟩
    | down => exact hw.flow .down
  · have hone : w.up.pending = 1 := if_neg hstage
    have hwg := hw.wg
    show w.added + 1 + w.down.pending = w.wg + 2
    omega
  · cases d with
    | up =>
        rcases hd with (⟨-, hwaiting⟩ | ⟨-, hrunning⟩) | hdone
        · exact absurd hwaiting hopen
        · exact absurd (hhanded.symm.trans hrunning) (by rintro ⟨⟩)
        · exact absurd hdone hstage
    | down => rfl

theorem Sound.startDown (hw : Sound w) (hperform : World.perform .startDown w () = some w') :
    Sound w' ∧ ∀ j, j ≠ 2 → Rely j w w' := by
  obtain ⟨hhanded, rfl⟩ := by simpa [World.perform] using hperform
  have hopen : w.down.stage ≠ .waiting := by rw [hhanded]; rintro ⟨⟩
  have hstage : (w.flow .down).stage ≠ .done := by rw [World.flow, hhanded]; rintro ⟨⟩
  refine ⟨{ hw with
    flow := fun d => ?_
    draining := by rintro ⟨⟩
    opened := fun _ => hw.opened hopen
    errors := fun h => failed_of_same (by rintro ⟨⟩ <;> rfl) (hw.errors h)
    lines := fun line hline => (hw.lines line hline).of_not_done hstage _
    wg := ?_ }, fun j hj =>
      ⟨fun d hd => ?_, id, fun _ => rfl, fun _ => rfl, fun _ => ⟨rfl, rfl, rfl, rfl, rfl, rfl⟩⟩⟩
  · cases d with
    | up => exact hw.flow .up
    | down =>
        have hdown := hw.flow .down
        exact ⟨fun _ => hdown.order hopen, hdown.fin, by rintro ⟨⟩⟩
  · have hone : w.down.pending = 1 := if_neg hstage
    have hwg := hw.wg
    show w.added + w.up.pending + 1 = w.wg + 2
    omega
  · cases d with
    | up => rfl
    | down =>
        rcases hd with (⟨-, hwaiting⟩ | ⟨-, hrunning⟩) | hdone
        · exact absurd hwaiting hopen
        · exact absurd (hhanded.symm.trans hrunning) (by rintro ⟨⟩)
        · exact absurd hdone hstage

theorem Sound.perform {op : Op} {reply : op.Reply} (hw : Sound w) (hallowed : Allowed i w op)
    (hperform : World.perform op w reply = some w') : Sound w' ∧ ∀ j, j ≠ i → Rely j w w' := by
  cases op with
  | read d room => exact hw.read hallowed hperform
  | write d bytes => exact hw.write hallowed hperform
  | closeWrite d => exact hw.closeWrite hallowed hperform
  | count d n err => exact hw.count hallowed hperform
  | wgDone d => exact hw.wgDone hallowed hperform
  | goUp src => exact hw.goUp hallowed hperform
  | goDown => exact hw.goDown hallowed hperform
  | startUp =>
      cases hallowed
      exact hw.startUp hperform
  | startDown =>
      cases hallowed
      exact hw.startDown hperform
  | setReadDeadline armed =>
      cases hperform
      obtain ⟨rfl, hwaiting⟩ := hallowed
      exact ⟨{ hw with deadline := fun h => absurd hwaiting h },
        fun j hj => .of_handler hj rfl rfl rfl rfl⟩
  | logAccess line =>
      cases hperform
      obtain ⟨rfl, hnone, hexact⟩ := hallowed
      refine ⟨{ hw with lines := fun line' hline' => ?_, once := by simp [hnone] },
        fun j hj => .of_handler hj rfl rfl rfl rfl⟩
      rw [hnone, List.nil_append, List.mem_singleton] at hline'
      subst hline'
      cases line' <;> exact hexact
  | wgAdd n =>
      cases hperform
      cases hallowed
      have hwg := hw.wg
      refine ⟨{ hw with wg := ?_ }, fun j hj => .of_handler hj rfl rfl rfl rfl⟩
      show w.added + n + w.up.pending + w.down.pending = w.wg + n + 2
      omega
  | nextConnID | now | wgWait | casClosed | loadCounts =>
      obtain ⟨-, rfl⟩ := by simpa [World.perform] using hperform
      cases hallowed
      exact ⟨{ hw with }, fun j hj => .of_handler hj rfl rfl rfl rfl⟩
  | openUpstream host port | closeUpstream | handleHTTP src | closeClient =>
      cases hperform
      cases hallowed
      exact ⟨{ hw with }, fun j hj => .of_handler hj rfl rfl rfl rfl⟩

/-- When the handler returns, a request that reached `openUpstream` has its line. -/
def Logged (w : World) : Prop := w.access.length = w.asked.toNat

/-- The rules of the three threads. -/
@[reducible] def discipline (readRequest : ReadRequest) :
    RelyGuarantee (tunnelling readRequest) (fun _ => True) where
  inv := Sound
  rely := Rely
  guard i _ := Allowed i
  post i _ w _ := i = 0 → Logged w
  refl := Rely.refl
  trans := Rely.trans
  disturb _ _ hw hdisturb := hw.disturb hdisturb
  perform _ _ hw hallowed hperform := hw.perform hallowed hperform

end Preservation

end SshGate.Connect
