import SshGate.Go.Bufio
import SshGate.Go.Ticker
import SshGate.Interaction.RelyGuarantee
import SshGate.Proxy.Forward
import SshGate.Routing

/-! # The idle guard

`handleHTTP` relays one request next to a watchdog: every transfer that moved
bytes stores the time, and a goroutine with a ticker closes both connections
once the stored time is old enough. The goroutine reads the stored time and the
clock in two steps, while the handler stores the time after the transfer.
-/

namespace SshGate.Idle

open Go Interaction Program

/-! ## Actions -/

/-- The body of the request is read through the reader of its head. -/
inductive Source where
  | body
  | upstream
  deriving Repr, DecidableEq

inductive Sink where
  | upstream
  | client
  deriving Repr, DecidableEq

/-- What the `select` of the watchdog receives: a closed `done`, or a tick with
its time. -/
inductive Wake where
  | done
  | tick (due : Nat)
  deriving Repr, DecidableEq

inductive Op where
  | now
  | storeLast (t : Nat)
  | loadLast
  /-- `time.Since(time.Unix(0, last))` -/
  | since (last : Nat)
  | goWatch
  | newTicker (period : Nat)
  | select
  | stopTicker
  | closeDone
  | read (src : Source) (room : Nat)
  | write (dst : Sink) (bytes : Text)
  | closeClient
  | closeUpstream
  deriving Repr, DecidableEq

@[reducible] def Op.Reply : Op → Type
  | .now | .loadLast => Nat
  | .since _ => Int
  | .select => Wake
  | .read _ _ => Chunk
  | .write _ _ => Written
  | .storeLast _ | .goWatch | .newTicker _ | .stopTicker | .closeDone | .closeClient
  | .closeUpstream => Unit

@[reducible] def sig : Signature := ⟨Op, Op.Reply⟩

abbrev Prog (α : Type) := Program sig α

abbrev act (op : Op) : Prog op.Reply := Program.perform (S := sig) op

/-! ## The watchdog -/

/-- `timeout / 10`, at most a second. -/
def checkPeriod (timeout : Nat) : Nat := min (timeout / 10) second

/-- The first `rounds` rounds of the goroutine's loop. -/
def watchLoop (timeout : Nat) : (rounds : Nat) → Prog Unit
  | 0 => return ()
  | rounds + 1 => do
      let wake ← act .select
      match wake with
      | .done => act .stopTicker
      | .tick _ => do
          let last ← act .loadLast
          let idle ← act (.since last)
          if idle ≥ timeout then do
            let _ ← act .closeClient
            let _ ← act .closeUpstream
            act .stopTicker
          else watchLoop timeout rounds

def watch (timeout rounds : Nat) : Prog Unit := do
  let _ ← act (.newTicker (checkPeriod timeout))
  watchLoop timeout rounds

/-! ## The handler -/

def touch : Prog Unit := do
  let t ← act .now
  act (.storeLast t)

def newIdleGuard : Prog Unit := do
  let _ ← touch
  act .goWatch

/-- `Read` of `guardedConn` and `guardedReader`. -/
def guardedRead (src : Source) (room : Nat) : Prog Chunk := do
  let got ← act (.read src room)
  if got.bytes ≠ [] then do
    let _ ← touch
    return got
  else return got

/-- `Write` of `guardedConn`. -/
def guardedWrite (dst : Sink) (bytes : Text) : Prog Written := do
  let put ← act (.write dst bytes)
  if put.n > 0 then do
    let _ ← touch
    return put
  else return put

/-- How a part of the transfer ends: not within its rounds, well, or with an
error. -/
inductive Ended where
  | unfinished
  | well
  | failed
  deriving Repr, DecidableEq

/-- What the error of `io.Copy` means to the handler. -/
def copied : CopyEnd → Ended
  | .unfinished => .unfinished
  | .sourceOver none => .well
  | .sourceOver (some _) | .writeFailed => .failed

/-- `io.ReadAll(io.LimitReader(body, left))`, with the bytes read before. A read
gets no more room than the limit leaves. -/
def readAll : (rounds left : Nat) → (data : Text) → Prog (Ended × Text)
  | 0, _, data => return (.unfinished, data)
  | rounds + 1, left, data =>
      if left = 0 then return (.well, data)
      else do
        let got ← guardedRead .body left
        match got.err with
        | some .eof => return (.well, data ++ got.bytes)
        | some _ => return (.failed, data ++ got.bytes)
        | none => readAll rounds (left - got.bytes.length) (data ++ got.bytes)

/-- What the handler takes from a request: the head it sends, which tells the
length of a body that is framed anew, whether there is a body, and whether that
one is. -/
structure Task where
  head : (body : Option Text) → Text
  hasBody : Bool
  reframed : Bool

def Task.of (lower : Nat → Nat) (req : Http.Request) : Task where
  head := Http.requestHead lower req
  hasBody := req.contentLength ≠ 0
  reframed := req.transferEncoding ≠ [] ∨ req.contentLength < 0

def writeErr (status : Http.Status) (msg : Text) : Prog Unit := do
  let _ ← guardedWrite .client (Http.writeHTTPErr status msg)
  return ()

/-- `io.Copy(client, upstream)` -/
def respond (rounds : Nat) : Prog Ended := do
  let ended ← copy (guardedRead .upstream) (guardedWrite .client) rounds
  return copied ended

/-- The head and the body that was read before; then the response. -/
def sendReframed (task : Task) (body : Text) (rounds : Nat) : Prog Ended := do
  let _ ← guardedWrite .upstream (task.head (some body))
  let put ← guardedWrite .upstream body
  if put.err ≠ none then do
    let _ ← writeErr .badGateway (str "Body transfer failed")
    return .failed
  else respond rounds

/-- The head and the body as it comes; then the response. -/
def sendStreamed (task : Task) (rounds : Nat) : Prog Ended := do
  let _ ← guardedWrite .upstream (task.head none)
  if task.hasBody then do
    let ended ← copy (guardedRead .body) (guardedWrite .upstream) rounds
    match copied ended with
    | .unfinished => return .unfinished
    | .failed => do
        let _ ← writeErr .badGateway (str "Body transfer failed")
        return .failed
    | .well => respond rounds
  else respond rounds

/-- What `handleHTTP` does between `newIdleGuard` and its deferred calls. -/
def transfer (task : Task) (rounds : Nat) : Prog Ended :=
  if task.hasBody && task.reframed then do
    let (ended, body) ← readAll rounds (Http.maxReframedBody + 1) []
    match ended with
    | .unfinished => return .unfinished
    | .failed => do
        let _ ← writeErr .requestEntityTooLarge (str "Body read failed")
        return .failed
    | .well =>
        if body.length > Http.maxReframedBody then do
          let _ ← writeErr .requestEntityTooLarge (str "Body too large")
          return .failed
        else sendReframed task body rounds
  else sendStreamed task rounds

/-- `handleHTTP` once the upstream connection is open, with the deferred calls
of it and of `handleConn`. -/
def handleHTTP (task : Task) (rounds : Nat) : Prog Unit := do
  let _ ← newIdleGuard
  let ended ← transfer task rounds
  match ended with
  | .unfinished => return ()
  | _ => do
      let _ ← act .closeDone
      let _ ← act .closeUpstream
      act .closeClient

/-! ## The two goroutines on one request -/

structure World where
  clock : Nat
  /-- When bytes moved last, or when the guard was made. -/
  moved : Nat := clock
  last : Nat := 0
  /-- The longest time from moved bytes to the reading that was stored for them. -/
  delay : Nat := 0
  timer : Ticker.Phase := .absent
  launched : Bool := false
  stopped : Bool := false
  clientClosed : Bool := false
  upstreamClosed : Bool := false
  deriving Repr, DecidableEq

namespace World

/-- A transfer of `n` bytes. -/
def move (w : World) (n : Nat) : World := if n > 0 then { w with moved := w.clock } else w

/-- The effect of an action. What a transfer returns is not fixed by what was
closed before: buffered bytes can still be read. -/
def perform : (op : Op) → World → op.Reply → Option World
  | .now, w, t => if t = w.clock then some w else none
  | .storeLast t, w, () => some { w with last := t, delay := max w.delay (t - w.moved) }
  | .loadLast, w, last => if last = w.last then some w else none
  | .since last, w, elapsed => if elapsed = (w.clock : Int) - last then some w else none
  | .goWatch, w, () => some { w with launched := true }
  | .newTicker period, w, () =>
      if w.launched = true ∧ w.timer = .absent then
        some { w with timer := .running (.new w.clock period) }
      else none
  | .select, w, .done => if w.stopped = true then some w else none
  | .select, w, .tick due =>
      match w.timer with
      | .running ticker =>
          (ticker.receive due).map fun ticker => { w with timer := .running ticker }
      | .absent | .stopped => none
  | .stopTicker, w, () => some { w with timer := .stopped }
  | .closeDone, w, () => some { w with stopped := true }
  | .read _ room, w, got =>
      if got.bytes.length ≤ room then some (w.move got.bytes.length) else none
  | .write _ bytes, w, put =>
      if put.n ≤ bytes.length ∧ (put.err = none → put.n = bytes.length) then some (w.move put.n)
      else none
  | .closeClient, w, () => some { w with clientClosed := true }
  | .closeUpstream, w, () => some { w with upstreamClosed := true }

/-- Time passes, or the ticker fires. -/
inductive Disturbance where
  | tick (elapsed : Nat)
  | fire
  deriving Repr, DecidableEq

def disturb (w : World) : Disturbance → Option World
  | .tick elapsed => some { w with clock := w.clock + elapsed }
  | .fire =>
      match w.timer with
      | .running ticker =>
          (ticker.fire w.clock).map fun ticker => { w with timer := .running ticker }
      | .absent | .stopped => none

end World

inductive Call where
  | handle (task : Task) (rounds : Nat)
  | watch (rounds : Nat)

@[reducible] def guarding (timeout : Nat) : System where
  sig := sig
  Call := Call
  Result := Unit
  program
    | .handle task rounds => handleHTTP task rounds
    | .watch rounds => watch timeout rounds
  State := World
  Disturbance := World.Disturbance
  perform := World.perform
  disturb := World.disturb

/-- The handler and the goroutine of its guard, before their first steps. -/
def opened (timeout : Nat) (clock : Nat) (task : Task) (rounds rounds' : Nat) :
    Config (guarding timeout) where
  state := { clock }
  threads := [(guarding timeout).start (.handle task rounds),
    (guarding timeout).start (.watch rounds')]

/-! ## The transfers of the handler -/

/-- The program does nothing but guarded transfers. -/
inductive Guarded {α : Type} : Prog α → Prop
  | ret (value : α) : Guarded (.ret value)
  | read (src : Source) (room : Nat) {f : Chunk → Prog α} (hf : ∀ got, Guarded (f got)) :
      Guarded (guardedRead src room >>= f)
  | write (dst : Sink) (bytes : Text) {f : Written → Prog α} (hf : ∀ put, Guarded (f put)) :
      Guarded (guardedWrite dst bytes >>= f)

section Structure

variable {α β : Type}

theorem Guarded.bind {p : Prog α} {f : α → Prog β} (hp : Guarded p)
    (hf : ∀ value, Guarded (f value)) : Guarded (p >>= f) := by
  induction hp with
  | ret value => exact hf value
  | read src room _ ih =>
      rw [bind_assoc]
      exact .read src room ih
  | write dst bytes _ ih =>
      rw [bind_assoc]
      exact .write dst bytes ih

theorem copy_guarded (src : Source) (dst : Sink) (rounds : Nat) :
    Guarded (copy (guardedRead src) (guardedWrite dst) rounds) :=
  copy_induction Guarded .ret (fun _ hf => .read src _ hf) (fun bytes _ hf => .write dst bytes hf)
    rounds

theorem readAll_guarded (rounds left : Nat) (data : Text) : Guarded (readAll rounds left data) := by
  induction rounds generalizing left data with
  | zero => exact .ret _
  | succ rounds ih =>
      unfold readAll
      split
      next => exact .ret _
      next =>
        refine .read _ _ fun got => ?_
        split
        next => exact .ret _
        next => exact .ret _
        next => exact ih _ _

theorem writeErr_guarded (status : Http.Status) (msg : Text) : Guarded (writeErr status msg) :=
  .write _ _ fun _ => .ret _

theorem respond_guarded (rounds : Nat) : Guarded (respond rounds) :=
  (copy_guarded _ _ rounds).bind fun _ => .ret _

theorem sendReframed_guarded (task : Task) (body : Text) (rounds : Nat) :
    Guarded (sendReframed task body rounds) := by
  refine .write _ _ fun _ => .write _ _ fun put => ?_
  split
  next => exact (writeErr_guarded _ _).bind fun _ => .ret _
  next => exact respond_guarded rounds

theorem sendStreamed_guarded (task : Task) (rounds : Nat) :
    Guarded (sendStreamed task rounds) := by
  refine .write _ _ fun _ => ?_
  split
  next =>
    refine (copy_guarded _ _ rounds).bind fun ended => ?_
    cases copied ended with
    | unfinished => exact .ret _
    | failed => exact (writeErr_guarded _ _).bind fun _ => .ret _
    | well => exact respond_guarded rounds
  next => exact respond_guarded rounds

theorem transfer_guarded (task : Task) (rounds : Nat) : Guarded (transfer task rounds) := by
  unfold transfer
  split
  next =>
    refine (readAll_guarded rounds _ []).bind fun (ended, body) => ?_
    cases ended with
    | unfinished => exact .ret _
    | failed => exact (writeErr_guarded _ _).bind fun _ => .ret _
    | well =>
        dsimp only
        split
        next => exact (writeErr_guarded _ _).bind fun _ => .ret _
        next => exact sendReframed_guarded task body rounds
  next => exact sendStreamed_guarded task rounds

end Structure

/-! ## What the goroutines rely on -/

namespace World

/-- The time of the next tick that the watchdog has to take up. -/
def owed (w : World) : Option Nat :=
  match w.timer with
  | .running ticker => some ticker.owed
  | .absent | .stopped => none

/-- The request is neither over nor cut off on both sides. -/
def Active (w : World) : Prop :=
  w.stopped = false ∧ ¬ (w.clientClosed = true ∧ w.upstreamClosed = true)

/-- Neither the clock nor the stored time goes back. -/
structure Grows (w w' : World) : Prop where
  clock : w.clock ≤ w'.clock
  last : w.last ≤ w'.last

/-- What the watchdog relies on. -/
structure Watched (w w' : World) : Prop extends Grows w w' where
  owed : w'.owed = w.owed
  absent : w'.timer = .absent ↔ w.timer = .absent
  active : w'.Active → w.Active

/-- What holds of the stored time and the ticker at any moment. -/
structure Sound (period : Nat) (w : World) : Prop where
  last_le : w.last ≤ w.clock
  last_le_moved : w.last ≤ w.moved + w.delay
  ticker : ∀ ticker, w.timer = .running ticker → ticker.Sound w.clock ∧ ticker.period = period

end World

/-- The actions of the handler; of the two goroutines only it stores a time. -/
def Op.byHandler : Op → Bool
  | .now | .storeLast _ | .goWatch | .closeDone | .read _ _ | .write _ _ | .closeClient
  | .closeUpstream => true
  | .loadLast | .since _ | .newTicker _ | .select | .stopTicker => false

def Op.byWatch (timeout : Nat) : Op → Bool
  | .loadLast | .since _ | .select | .stopTicker | .closeClient | .closeUpstream => true
  | .newTicker period => period = checkPeriod timeout
  | .now | .storeLast _ | .goWatch | .closeDone | .read _ _ | .write _ _ => false

namespace World

variable {timeout : Nat} {w w' : World}

theorem Watched.refl (w : World) : w.Watched w := ⟨⟨le_rfl, le_rfl⟩, rfl, Iff.rfl, id⟩

theorem sound_of_disturb {d : Disturbance} (hw : w.Sound (checkPeriod timeout))
    (hdisturb : w.disturb d = some w') :
    w'.Sound (checkPeriod timeout) ∧ w.Watched w' ∧ w'.last = w.last := by
  cases d with
  | tick elapsed =>
      simp only [disturb, Option.some.injEq] at hdisturb
      subst hdisturb
      refine ⟨⟨hw.last_le.trans (Nat.le_add_right ..), hw.last_le_moved,
        fun ticker hticker => ?_⟩, ?_, rfl⟩
      · obtain ⟨hsound, hperiod⟩ := hw.ticker ticker hticker
        exact ⟨hsound.mono (Nat.le_add_right ..), hperiod⟩
      · exact ⟨⟨Nat.le_add_right .., le_rfl⟩, rfl, Iff.rfl, id⟩
  | fire =>
      simp only [disturb] at hdisturb
      split at hdisturb
      next ticker hticker =>
        obtain ⟨ticker', hfire, rfl⟩ := Option.map_eq_some_iff.mp hdisturb
        obtain ⟨hsound, hperiod⟩ := hw.ticker ticker hticker
        obtain ⟨hsound', howed, hperiod'⟩ := hsound.fire hfire
        refine ⟨{ hw with ticker := ?_ }, ⟨⟨le_rfl, le_rfl⟩, ?_, ?_, id⟩, rfl⟩
        · rintro _ ⟨⟩
          exact ⟨hsound', hperiod'.trans hperiod⟩
        · simp [owed, hticker, howed]
        · simp [hticker]
      next => cases hdisturb
      next => cases hdisturb

theorem Sound.move (hw : w.Sound (checkPeriod timeout)) (n : Nat) :
    (w.move n).Sound (checkPeriod timeout) ∧ w.Watched (w.move n) := by
  unfold World.move
  split
  next =>
    refine ⟨{ hw with last_le_moved := ?_ }, { Watched.refl w with }⟩
    exact hw.last_le.trans (Nat.le_add_right ..)
  next => exact ⟨hw, Watched.refl w⟩

theorem sound_of_byHandler {op : Op} {reply : op.Reply} (hop : op.byHandler = true)
    (hstore : ∀ t, op = .storeLast t → w.last ≤ t ∧ t ≤ w.clock)
    (hw : w.Sound (checkPeriod timeout)) (hperform : perform op w reply = some w') :
    w'.Sound (checkPeriod timeout) ∧ w.Watched w' := by
  cases op with
  | now =>
      obtain ⟨-, rfl⟩ := by simpa [perform] using hperform
      exact ⟨hw, Watched.refl w⟩
  | storeLast t =>
      obtain ⟨hlast, hclock⟩ := hstore t rfl
      simp only [perform, Option.some.injEq] at hperform
      subst hperform
      refine ⟨{ hw with last_le := hclock, last_le_moved := ?_ },
        { Watched.refl w with last := hlast }⟩
      change t ≤ w.moved + max w.delay (t - w.moved)
      omega
  | read src room =>
      obtain ⟨-, rfl⟩ := by simpa [perform] using hperform
      exact hw.move _
  | write dst bytes =>
      obtain ⟨-, rfl⟩ := by simpa only [perform, Option.ite_none_right_eq_some,
        Option.some.injEq] using hperform
      exact hw.move _
  | goWatch =>
      cases hperform
      exact ⟨{ hw with }, { Watched.refl w with }⟩
  | closeDone =>
      cases hperform
      refine ⟨{ hw with }, { Watched.refl w with active := ?_ }⟩
      rintro ⟨⟨⟩, -⟩
  | closeClient =>
      cases hperform
      refine ⟨{ hw with }, { Watched.refl w with active := ?_ }⟩
      exact fun ⟨hstopped, hboth⟩ => ⟨hstopped, fun h => hboth ⟨rfl, h.2⟩⟩
  | closeUpstream =>
      cases hperform
      refine ⟨{ hw with }, { Watched.refl w with active := ?_ }⟩
      exact fun ⟨hstopped, hboth⟩ => ⟨hstopped, fun h => hboth ⟨h.1, rfl⟩⟩
  | _ => cases hop

theorem sound_of_byWatch {op : Op} {reply : op.Reply} (hop : op.byWatch timeout = true)
    (hw : w.Sound (checkPeriod timeout)) (hperform : perform op w reply = some w') :
    w'.Sound (checkPeriod timeout) ∧ w'.clock = w.clock ∧ w'.last = w.last := by
  cases op with
  | loadLast | since last =>
      obtain ⟨-, rfl⟩ := by simpa [perform] using hperform
      exact ⟨hw, rfl, rfl⟩
  | newTicker period =>
      obtain ⟨⟨-, habsent⟩, rfl⟩ := by simpa [perform] using hperform
      obtain rfl : period = checkPeriod timeout := by simpa [Op.byWatch] using hop
      refine ⟨{ hw with ticker := ?_ }, rfl, rfl⟩
      rintro _ ⟨⟩
      exact ⟨Ticker.sound_new .., rfl⟩
  | select =>
      cases reply with
      | done =>
          obtain ⟨-, rfl⟩ := by simpa [perform] using hperform
          exact ⟨hw, rfl, rfl⟩
      | tick due =>
          simp only [perform] at hperform
          split at hperform
          next ticker hticker =>
            obtain ⟨ticker', hreceive, rfl⟩ := Option.map_eq_some_iff.mp hperform
            obtain ⟨hsound, hperiod⟩ := hw.ticker ticker hticker
            obtain ⟨hsound', -, hperiod'⟩ := hsound.receive hreceive
            refine ⟨{ hw with ticker := ?_ }, rfl, rfl⟩
            rintro _ ⟨⟩
            exact ⟨hsound', hperiod'.trans hperiod⟩
          next => cases hperform
          next => cases hperform
  | stopTicker =>
      cases hperform
      refine ⟨{ hw with ticker := ?_ }, rfl, rfl⟩
      rintro _ ⟨⟩
  | closeClient | closeUpstream =>
      cases hperform
      exact ⟨{ hw with }, rfl, rfl⟩
  | _ => cases hop

end World

section Discipline

variable (timeout : Nat)

/-- The part of each goroutine; `timely` is what the watchdog promises beyond its
choice of actions. -/
def discipline (side : World → Prop) (timely : List (Event sig) → World → Prop) :
    RelyGuarantee (guarding timeout) side where
  inv := World.Sound (checkPeriod timeout)
  rely
    | 0 => fun w w' => w.clock ≤ w'.clock ∧ w'.last = w.last
    | 1 => World.Watched
    | _ => World.Grows
  guard
    | 0 => fun _ w op => op.byHandler = true ∧
        ∀ t, op = .storeLast t → w.last ≤ t ∧ t ≤ w.clock
    | 1 => fun history w op => op.byWatch timeout = true ∧ timely history w
    | _ => fun _ _ _ => False
  post := fun _ _ _ _ => True
  refl := by
    intro i w
    rcases i with _ | _ | i
    · exact ⟨le_rfl, rfl⟩
    · exact World.Watched.refl w
    · exact ⟨le_rfl, le_rfl⟩
  trans := by
    intro i a b c hab hbc
    rcases i with _ | _ | i
    · exact ⟨hab.1.trans hbc.1, hbc.2.trans hab.2⟩
    · exact ⟨⟨hab.clock.trans hbc.clock, hab.last.trans hbc.last⟩, hbc.owed.trans hab.owed,
        hbc.absent.trans hab.absent, fun h => hab.active (hbc.active h)⟩
    · exact ⟨hab.clock.trans hbc.clock, hab.last.trans hbc.last⟩
  disturb := by
    intro w d w' _ _ hw hdisturb
    obtain ⟨hsound, hwatched, hlast⟩ := World.sound_of_disturb hw hdisturb
    refine ⟨hsound, fun i => ?_⟩
    rcases i with _ | _ | i
    · exact ⟨hwatched.clock, hlast⟩
    · exact hwatched
    · exact hwatched.toGrows
  perform := by
    intro j history op w reply w' _ _ hw hguard hperform
    rcases j with _ | _ | j
    · obtain ⟨hsound, hwatched⟩ := World.sound_of_byHandler hguard.1 hguard.2 hw hperform
      refine ⟨hsound, fun i hi => ?_⟩
      rcases i with _ | _ | i
      · exact absurd rfl hi
      · exact hwatched
      · exact hwatched.toGrows
    · obtain ⟨hsound, hclock, hlast⟩ := World.sound_of_byWatch hguard.1 hw hperform
      refine ⟨hsound, fun i hi => ?_⟩
      rcases i with _ | _ | i
      · exact ⟨hclock.ge, hlast⟩
      · exact absurd rfl hi
      · exact ⟨hclock.ge, hlast.ge⟩
    · exact hguard.elim

end Discipline

/-! ## The handler keeps to its part -/

section Handler

variable (timeout : Nat) (side : World → Prop) (timely : List (Event sig) → World → Prop)

/-- The program keeps to the part of the handler, wherever it starts. -/
def Kept {α : Type} (p : Prog α) : Prop :=
  ∀ history w, AlwaysIn World.perform ((discipline timeout side timely).others 0)
    ((discipline timeout side timely).guard 0) (fun _ _ _ => True) history w p

variable {timeout side timely} {α β : Type}

theorem Kept.ret (value : α) : Kept timeout side timely (.ret value) := fun _ _ => trivial

theorem Kept.bind {p : Prog α} {f : α → Prog β} (hp : Kept timeout side timely p)
    (hf : ∀ value, Kept timeout side timely (f value)) : Kept timeout side timely (p >>= f) :=
  fun history w => (hp history w).bind fun history' w' value _ => hf value history' w'

theorem Kept.act {op : Op} (hop : op.byHandler = true) (hstore : ∀ t, op ≠ .storeLast t) :
    Kept timeout side timely (act op) :=
  fun _ _ _ _ => ⟨⟨hop, fun t heq => absurd heq (hstore t)⟩, fun _ _ _ => trivial⟩

/-- What is stored is the time of this moment or an earlier one, and not before
what was stored last. -/
theorem touch_kept : Kept timeout side timely touch := by
  intro history w
  refine AlwaysIn.perform fun w₁ hothers₁ => ⟨⟨rfl, by rintro _ ⟨⟩⟩, fun t w₂ hnow => ?_⟩
  obtain ⟨rfl, rfl⟩ := by simpa [World.perform] using hnow
  intro w₂ hothers₂
  refine ⟨⟨rfl, ?_⟩, fun _ _ _ => trivial⟩
  rintro _ ⟨⟩
  have hsound : w₁.Sound (checkPeriod timeout) := hothers₁.2.1
  obtain ⟨hclock, hlast⟩ : w₁.clock ≤ w₂.clock ∧ w₂.last = w₁.last := hothers₂.1
  exact ⟨hlast ▸ hsound.last_le, hclock⟩

theorem guardedRead_kept (src : Source) (room : Nat) :
    Kept timeout side timely (guardedRead src room) := by
  refine Kept.bind (Kept.act rfl (by rintro _ ⟨⟩)) fun got => ?_
  split
  next => exact touch_kept.bind fun _ => Kept.ret got
  next => exact Kept.ret got

theorem guardedWrite_kept (dst : Sink) (bytes : Text) :
    Kept timeout side timely (guardedWrite dst bytes) := by
  refine Kept.bind (Kept.act rfl (by rintro _ ⟨⟩)) fun put => ?_
  split
  next => exact touch_kept.bind fun _ => Kept.ret put
  next => exact Kept.ret put

theorem Guarded.kept {p : Prog α} (hp : Guarded p) : Kept timeout side timely p := by
  induction hp with
  | ret value => exact Kept.ret value
  | read src room _ ih => exact (guardedRead_kept src room).bind ih
  | write dst bytes _ ih => exact (guardedWrite_kept dst bytes).bind ih

theorem handleHTTP_kept (task : Task) (rounds : Nat) :
    Kept timeout side timely (handleHTTP task rounds) := by
  refine Kept.bind (touch_kept.bind fun _ => Kept.act rfl (by rintro _ ⟨⟩)) fun _ => ?_
  refine Kept.bind (transfer_guarded task rounds).kept fun ended => ?_
  have hclose : Kept timeout side timely (do
      let _ ← act .closeDone
      let _ ← act .closeUpstream
      act .closeClient) :=
    (Kept.act rfl (by rintro _ ⟨⟩)).bind fun _ =>
      (Kept.act rfl (by rintro _ ⟨⟩)).bind fun _ => Kept.act rfl (by rintro _ ⟨⟩)
  cases ended with
  | unfinished => exact Kept.ret _
  | well => exact hclose
  | failed => exact hclose

end Handler

theorem opened_sound {timeout : Nat} (clock : Nat) :
    ({ clock } : World).Sound (checkPeriod timeout) where
  last_le := Nat.zero_le _
  last_le_moved := Nat.zero_le _
  ticker := by rintro _ ⟨⟩

end SshGate.Idle
