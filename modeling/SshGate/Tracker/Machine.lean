import Mathlib.Data.List.Sort
import SshGate.Interaction.System
import SshGate.Tracker.ConnTracker

/-! # Concurrent use of the tracker

Any number of goroutines call the tracker and the connections that it wraps.
Each section under the tracker's lock, each section under a connection's lock,
each compare-and-swap and each call of the wrapped connection is one action.
-/

namespace SshGate.Tracker

open Go Interaction

/-- A `net.Conn` as the tracker sees it: none, the dialed one, or that one
wrapped as the tracked connection `tc`. -/
inductive Conn where
  | nil
  | base
  | tracked (tc : Nat)
  deriving Repr, DecidableEq

/-- An error of a connection, as far as `errors.Is` tells them apart. -/
inductive ConnErr where
  | eof
  | closed
  | other (err : Text)
  deriving Repr, DecidableEq

def ConnErr.error : ConnErr → Text
  | .eof => str "EOF"
  | .closed => str "use of closed network connection"
  | .other err => err

def isBenignCloseErr : Option ConnErr → Bool
  | none | some .eof | some .closed => true
  | some (.other _) => false

inductive Tab where
  | active
  | history
  deriving Repr, DecidableEq

/-- What a section that sweeps the active map takes from outside: its clock
reading, the order of the sweep with the readings inside it, and the records
it reads off at the end. -/
structure Sweep where
  now : Int
  visits : List (Nat × Int)
  recs : List ConnRecord
  deriving Repr, DecidableEq, Inhabited

inductive Op where
  | begin (info : DialMeta) (host : Text) (port : Int)
  | done (id : Nat)
  | fail (id : Nat) (err : Text)
  | activeByProto
  /-- The locked section of `List`. -/
  | list (tab : Tab)
  /-- `c.Conn.Read` and `c.Conn.Write`. -/
  | connRead (tc : Nat)
  | connWrite (tc : Nat)
  | addDown (tc n : Nat)
  | addUp (tc n : Nat)
  | keepErr (tc : Nat) (err : Option ConnErr)
  /-- `c.closed.CompareAndSwap(false, true)`. -/
  | swapClosed (tc : Nat)
  | connClose (tc : Nat)
  /-- The counters and the first error under the connection's lock; its id does
  not change. -/
  | counters (tc : Nat)
  | finish (id : Nat) (bytesUp bytesDown : Int) (firstErr : Option Text)
  | bytes (tc : Nat)
  deriving Repr, DecidableEq

/-- What `counters` reads. -/
structure Counters where
  id : Nat
  up : Int
  down : Int
  firstErr : Option ConnErr
  deriving Repr, DecidableEq, Inhabited

/-- `begin` replies with its reading of the clock and the new id, `done` with
the tracked connection if the record is still there, `fail` and `finish` with
the readings for `closedAt` and for `pushRing`. -/
abbrev Op.Reply : Op → Type
  | .begin _ _ _ => Int × Nat
  | .done _ => Option Nat
  | .fail _ _ | .finish _ _ _ _ => Int × Int
  | .activeByProto | .list _ => Sweep
  | .connRead _ | .connWrite _ => Nat × Option ConnErr
  | .addDown _ _ | .addUp _ _ | .keepErr _ _ => Unit
  | .swapClosed _ => Bool
  | .connClose _ => Option ConnErr
  | .counters _ => Counters
  | .bytes _ => Int × Int

@[reducible] def sig : Signature := ⟨Op, Op.Reply⟩

abbrev Prog := Program sig

abbrev act (op : Op) : Prog op.Reply := Program.perform (S := sig) op

/-- A record as the status page shows it. -/
structure ConnView where
  id : Nat
  proto : Text
  src : Text
  host : Text
  dstIP : Text
  port : Int
  status : ConnState
  startedAt : Int
  durationMs : Int
  bytesUp : Int
  bytesDown : Int
  reason : Text
  deriving Repr, DecidableEq

/-- The errors of `List`. -/
inductive ListError where
  /-- `invalid tab %q (active|history)` -/
  | invalidTab (tab : Text)
  /-- `page must be >= 1` -/
  | invalidPage
  /-- `page_size must be in 1..200` -/
  | invalidPageSize
  deriving Repr, DecidableEq

/-- What a call returns. -/
inductive Outcome where
  | id (id : Nat)
  | conn (conn : Conn)
  | none
  | counts (counts : List (Text × Nat))
  | io (n : Nat) (err : Option ConnErr)
  | closed (err : Option ConnErr)
  | page (views : List ConnView) (total : Nat)
  | rejected (err : ListError)
  /-- A run-time panic. -/
  | panicked
  deriving Repr, DecidableEq

/-! ## The calls -/

def trackerBegin (info : DialMeta) (host : Text) (port : Int) : Prog Outcome := do
  let reply ← act (.begin info host port)
  return .id reply.2

def trackerDone (id : Nat) (conn : Conn) : Prog Outcome :=
  if conn = .nil then return .conn conn
  else do
    let tc ← act (.done id)
    match tc with
    | none => return .conn conn
    | some tc => return .conn (.tracked tc)

def trackerFail (id : Nat) (err : Text) : Prog Outcome := do
  let _ ← act (.fail id err)
  return .none

/-- `m[r.proto]++` for every record. -/
def countByProto (recs : List ConnRecord) : List (Text × Nat) :=
  (recs.map ConnRecord.proto).dedup.map fun proto =>
    (proto, recs.countP fun rec => rec.proto = proto)

def activeByProto : Prog Outcome := do
  let sweep ← act .activeByProto
  return .counts (countByProto sweep.recs)

/-- An action under a condition. -/
def actIf (condition : Bool) (op : Op) : Prog Unit :=
  if condition then do
    let _ ← act op
    return ()
  else return ()

/-- What `Read` and `Write` do with the result of the wrapped connection. -/
def countTransfer (tc : Nat) (add : Nat → Op) (n : Nat) (err : Option ConnErr) : Prog Outcome := do
  actIf (0 < n) (add n)
  actIf (!isBenignCloseErr err) (.keepErr tc err)
  return .io n err

def trackedRead (tc : Nat) : Prog Outcome := do
  let reply ← act (.connRead tc)
  countTransfer tc (.addDown tc) reply.1 reply.2

def trackedWrite (tc : Nat) : Prog Outcome := do
  let reply ← act (.connWrite tc)
  countTransfer tc (.addUp tc) reply.1 reply.2

def trackedClose (tc : Nat) : Prog Outcome := do
  let first ← act (.swapClosed tc)
  let err ← act (.connClose tc)
  if first then
    let c ← act (.counters tc)
    let _ ← act (.finish c.id c.up c.down (c.firstErr.map ConnErr.error))
    return .closed err
  else return .closed err

/-! ## `List` -/

def matchesQuery (lower : Nat → Nat) (q : Text) (rec : ConnRecord) : Bool :=
  let fq := q.toLower lower
  (rec.host.toLower lower).contains fq || (rec.dstIP.toLower lower).contains fq ||
    (rec.src.toLower lower).contains fq

/-- The two filters; an empty one is off. -/
def filterRecords (lower : Nat → Nat) (q proto : Text) (recs : List ConnRecord) :
    List ConnRecord :=
  let recs := if q ≠ [] then recs.filter (matchesQuery lower q) else recs
  if proto ≠ [] then recs.filter fun rec => rec.proto = proto else recs

/-- The order of `sort.Slice`: later start first, then higher id. -/
def newerThan (a b : ConnRecord) : Bool :=
  if a.startedAt ≠ b.startedAt then decide (a.startedAt > b.startedAt) else decide (a.id > b.id)

/-- Some sorting algorithm: no two records of a list have the same id, so the
order leaves only one result. -/
def sortRecords (recs : List ConnRecord) : List ConnRecord :=
  recs.insertionSort fun a b => newerThan b a = false

/-- The value of an integer in a 64-bit `int`. -/
def int64 (n : Int) : Int := n.bmod (2 ^ 64)

/-- `list[start:stop]`, where it does not panic. -/
def slice {α : Type} (list : List α) (start stop : Int) : Option (List α) :=
  if 0 ≤ start ∧ start ≤ stop ∧ stop ≤ list.length then
    some ((list.take stop.toNat).drop start.toNat)
  else none

/-- The page of a sorted list, where taking it does not panic. -/
def pageOf (recs : List ConnRecord) (page pageSize : Int) : Option (List ConnRecord) :=
  let total : Int := recs.length
  let start := int64 (int64 (page - 1) * pageSize)
  if start ≥ total then some []
  else
    let stop := int64 (start + pageSize)
    let stop := if stop > total then total else stop
    slice recs start stop

/-- The byte counters that a view shows: a running connection has its own. -/
def viewBytes (rec : ConnRecord) : Prog (Int × Int) :=
  match rec.live with
  | some tc =>
      if rec.status = .active ∨ rec.status = .dialing then act (.bytes tc)
      else return (rec.bytesUp, rec.bytesDown)
  | none => return (rec.bytesUp, rec.bytesDown)

def viewOf (rec : ConnRecord) (now : Int) (bytes : Int × Int) : ConnView where
  id := rec.id
  proto := rec.proto
  src := rec.src
  host := rec.host
  dstIP := rec.dstIP
  port := rec.port
  status := rec.status
  startedAt := rec.startedAt / 1000000000
  durationMs :=
    let ended := if rec.status = .closed ∨ rec.status = .error then rec.closedAt else now
    (ended - rec.startedAt).tdiv 1000000
  bytesUp := bytes.1
  bytesDown := bytes.2
  reason := rec.reason

def toView (rec : ConnRecord) (now : Int) : Prog ConnView := do
  let bytes ← viewBytes rec
  return viewOf rec now bytes

def toViews (now : Int) : List ConnRecord → Prog (List ConnView)
  | [] => return []
  | rec :: rest => do
      let view ← toView rec now
      let views ← toViews now rest
      return view :: views

def parseTab (tab : Text) : Option Tab :=
  if tab = str "active" then some .active
  else if tab = str "history" then some .history
  else none

def list (lower : Nat → Nat) (tab q proto : Text) (page pageSize : Int) : Prog Outcome :=
  match parseTab tab with
  | none => return .rejected (.invalidTab tab)
  | some tab =>
      if page < 1 then return .rejected .invalidPage
      else if pageSize < 1 ∨ pageSize > 200 then return .rejected .invalidPageSize
      else do
        let sweep ← act (.list tab)
        let recs := sortRecords (filterRecords lower q proto sweep.recs)
        match pageOf recs page pageSize with
        | none => return .panicked
        | some recs' => do
            let views ← toViews sweep.now recs'
            return .page views recs.length

/-! ## The shared state -/

structure TrackedConn where
  id : Nat
  up : Int := 0
  down : Int := 0
  firstErr : Option ConnErr := none
  closed : Bool := false
  deriving Repr, DecidableEq

structure World where
  tracker : ConnTracker
  conns : List TrackedConn := []
  clock : Int

/-- The last reading of the clock in a sweep. -/
def Sweep.ends (sweep : Sweep) : Int := (sweep.visits.map Prod.snd).getLastD sweep.now

namespace World

/-- The clock does not go backwards during the sweep, and the loop visits every
active record once. -/
def CanSweep (w : World) (sweep : Sweep) : Prop :=
  (w.clock :: sweep.now :: sweep.visits.map Prod.snd).Pairwise (· ≤ ·) ∧
    (sweep.visits.map Prod.fst).Perm w.tracker.activeIds

instance (w : World) (sweep : Sweep) : Decidable (w.CanSweep sweep) :=
  inferInstanceAs (Decidable (_ ∧ _))

variable {w : World} {sweep : Sweep}

theorem CanSweep.clock_le (hsweep : w.CanSweep sweep) : w.clock ≤ sweep.now :=
  (List.pairwise_cons.mp hsweep.1).1 _ List.mem_cons_self

theorem CanSweep.now_le_ends (hsweep : w.CanSweep sweep) : sweep.now ≤ sweep.ends := by
  have hreadings := (List.pairwise_cons.mp (List.pairwise_cons.mp hsweep.1).2).1
  rw [Sweep.ends, List.getLastD_eq_getLast?]
  cases hlast : (sweep.visits.map Prod.snd).getLast? with
  | none => exact le_rfl
  | some last => exact hreadings last (List.mem_of_getLast? hlast)

/-- Change a tracked connection. -/
def updateConn (w : World) (tc : Nat) (change : TrackedConn → TrackedConn) : Option World :=
  if tc < w.conns.length then some { w with conns := w.conns.modify tc change } else none

/-- The effect of an action with its reply, where the reply is possible. -/
def perform : (op : Op) → World → op.Reply → Option World
  | .begin info host port, w, (now, id) =>
      if w.clock ≤ now ∧ id = w.tracker.nextID + 1 then
        some { w with tracker := w.tracker.begin info host port now, clock := now }
      else none
  | .done id, w, tc =>
      if tc = (w.tracker.lookup id).map fun _ => w.conns.length then
        some <| match tc with
          | none => w
          | some tc => { w with tracker := w.tracker.done id tc, conns := w.conns ++ [{ id }] }
      else none
  | .fail id err, w, (closedAt, now) =>
      if w.clock ≤ closedAt ∧ closedAt ≤ now then
        some { w with tracker := w.tracker.fail id err closedAt now, clock := now }
      else none
  | .finish id bytesUp bytesDown firstErr, w, (closedAt, now) =>
      if w.clock ≤ closedAt ∧ closedAt ≤ now then
        some { w with
          tracker := w.tracker.finish id bytesUp bytesDown firstErr closedAt now, clock := now }
      else none
  | .activeByProto, w, sweep =>
      let swept := w.tracker.dropStalled sweep.now sweep.visits
      if w.CanSweep sweep ∧ sweep.recs.Perm swept.active then
        some { w with tracker := swept, clock := sweep.ends }
      else none
  | .list tab, w, sweep =>
      let swept := (w.tracker.pruneRing sweep.now).dropStalled sweep.now sweep.visits
      let read : Bool := match tab with
        | .active => decide (sweep.recs.Perm swept.active)
        | .history => decide (sweep.recs = swept.ring.contents)
      if w.CanSweep sweep ∧ read then some { w with tracker := swept, clock := sweep.ends }
      else none
  | .connRead tc, w, _ | .connWrite tc, w, _ | .connClose tc, w, _ =>
      if tc < w.conns.length then some w else none
  | .addDown tc n, w, () => w.updateConn tc fun c => { c with down := c.down + n }
  | .addUp tc n, w, () => w.updateConn tc fun c => { c with up := c.up + n }
  | .keepErr tc err, w, () =>
      w.updateConn tc fun c => { c with firstErr := c.firstErr.or err }
  | .swapClosed tc, w, swapped =>
      if (w.conns[tc]?).map TrackedConn.closed = some (!swapped) then
        w.updateConn tc fun c => { c with closed := true }
      else none
  | .counters tc, w, reply =>
      if (w.conns[tc]?).map (fun c => (⟨c.id, c.up, c.down, c.firstErr⟩ : Counters)) = some reply
      then some w
      else none
  | .bytes tc, w, reply =>
      if (w.conns[tc]?).map (fun c => (c.up, c.down)) = some reply then some w else none

end World

/-! ## What an action does -/

/-- An action that changes neither the tracker nor who has closed what. -/
def Op.IsQuiet : Op → Prop
  | .connRead _ | .connWrite _ | .addDown _ _ | .addUp _ _ | .keepErr _ _ | .connClose _
  | .bytes _ => True
  | .begin _ _ _ | .done _ | .fail _ _ | .activeByProto | .list _ | .swapClosed _
  | .counters _ | .finish _ _ _ _ => False

/-- The id of a tracked connection and whether its `Close` has begun. -/
def TrackedConn.claim (c : TrackedConn) : Nat × Bool := (c.id, c.closed)

/-- The effects that an action can have on the world. -/
inductive Effect (w : World) : Event sig → World → Prop
  | begin {info : DialMeta} {host : Text} {port now : Int} (hclock : w.clock ≤ now) :
      Effect w ⟨.begin info host port, (now, w.tracker.nextID + 1)⟩
        { w with tracker := w.tracker.begin info host port now, clock := now }
  | mark {id : Nat} (hid : id ∈ w.tracker.activeIds) :
      Effect w ⟨.done id, some w.conns.length⟩
        { w with tracker := w.tracker.done id w.conns.length, conns := w.conns ++ [{ id }] }
  | late {id : Nat} (hid : id ∉ w.tracker.activeIds) : Effect w ⟨.done id, none⟩ w
  | fail {id : Nat} {err : Text} {closedAt now : Int} (hclosed : w.clock ≤ closedAt)
      (hnow : closedAt ≤ now) :
      Effect w ⟨.fail id err, (closedAt, now)⟩
        { w with tracker := w.tracker.fail id err closedAt now, clock := now }
  | finish {id : Nat} {up down : Int} {firstErr : Option Text} {closedAt now : Int}
      (hclosed : w.clock ≤ closedAt) (hnow : closedAt ≤ now) :
      Effect w ⟨.finish id up down firstErr, (closedAt, now)⟩
        { w with tracker := w.tracker.finish id up down firstErr closedAt now, clock := now }
  | sweep {sweep : Sweep} (hsweep : w.CanSweep sweep) :
      Effect w ⟨.activeByProto, sweep⟩
        { w with
          tracker := w.tracker.dropStalled sweep.now sweep.visits, clock := sweep.ends }
  | list {tab : Tab} {sweep : Sweep} (hsweep : w.CanSweep sweep) :
      Effect w ⟨.list tab, sweep⟩
        { w with
          tracker := (w.tracker.pruneRing sweep.now).dropStalled sweep.now sweep.visits
          clock := sweep.ends }
  | swap {tc : Nat} {c : TrackedConn} (hconn : w.conns[tc]? = some c) :
      Effect w ⟨.swapClosed tc, !c.closed⟩
        { w with conns := w.conns.modify tc fun c => { c with closed := true } }
  | counters {tc : Nat} {c : TrackedConn} (hconn : w.conns[tc]? = some c) :
      Effect w ⟨.counters tc, ⟨c.id, c.up, c.down, c.firstErr⟩⟩ w
  | quiet {event : Event sig} {conns : List TrackedConn} (hquiet : event.op.IsQuiet)
      (hconns : conns.map TrackedConn.claim = w.conns.map TrackedConn.claim) :
      Effect w event { w with conns }

theorem World.updateConn_eq_some {w w' : World} {tc : Nat} {change : TrackedConn → TrackedConn}
    (hupdate : w.updateConn tc change = some w') :
    w' = { w with conns := w.conns.modify tc change } := by
  unfold updateConn at hupdate
  split at hupdate
  next => exact (Option.some.inj hupdate).symm
  next => cases hupdate

/-- A change of a connection that keeps its id and whether it is closed. -/
theorem map_claim_modify {conns : List TrackedConn} {change : TrackedConn → TrackedConn}
    (hchange : ∀ c, (change c).claim = c.claim) (tc : Nat) :
    (conns.modify tc change).map TrackedConn.claim = conns.map TrackedConn.claim := by
  apply List.ext_getElem?
  intro i
  rw [List.getElem?_map, List.getElem?_modify, List.getElem?_map]
  cases conns[i]? with
  | none => rfl
  | some c =>
      simp only [Option.map_eq_map, Option.map_some]
      split
      next => exact congrArg some (hchange c)
      next => rfl

theorem World.perform_effect {w w' : World} {event : Event sig}
    (hperform : World.perform event.op w event.reply = some w') : Effect w event w' := by
  obtain ⟨op, reply⟩ := event
  cases op with
  | begin info host port =>
      obtain ⟨now, id⟩ := reply
      simp only [perform, Option.ite_none_right_eq_some, Option.some.injEq] at hperform
      obtain ⟨⟨hclock, rfl⟩, rfl⟩ := hperform
      exact .begin hclock
  | done id =>
      simp only [perform, Option.ite_none_right_eq_some, Option.some.injEq] at hperform
      obtain ⟨rfl, rfl⟩ := hperform
      cases hlookup : w.tracker.lookup id with
      | none => exact .late (ConnTracker.lookup_eq_none.mp hlookup)
      | some rec =>
          refine .mark ?_
          by_contra hid
          rw [ConnTracker.lookup_eq_none.mpr hid] at hlookup
          cases hlookup
  | fail id err =>
      obtain ⟨closedAt, now⟩ := reply
      simp only [perform, Option.ite_none_right_eq_some, Option.some.injEq] at hperform
      obtain ⟨⟨hclosed, hnow⟩, rfl⟩ := hperform
      exact .fail hclosed hnow
  | finish id up down firstErr =>
      obtain ⟨closedAt, now⟩ := reply
      simp only [perform, Option.ite_none_right_eq_some, Option.some.injEq] at hperform
      obtain ⟨⟨hclosed, hnow⟩, rfl⟩ := hperform
      exact .finish hclosed hnow
  | activeByProto =>
      simp only [perform, Option.ite_none_right_eq_some, Option.some.injEq] at hperform
      obtain ⟨⟨hsweep, _⟩, rfl⟩ := hperform
      exact .sweep hsweep
  | list tab =>
      simp only [perform, Option.ite_none_right_eq_some, Option.some.injEq] at hperform
      obtain ⟨⟨hsweep, _⟩, rfl⟩ := hperform
      exact .list hsweep
  | swapClosed tc =>
      simp only [perform, Option.ite_none_right_eq_some, Option.map_eq_some_iff] at hperform
      obtain ⟨⟨c, hconn, hclosed⟩, hupdate⟩ := hperform
      obtain rfl : reply = !c.closed := by rw [hclosed, Bool.not_not]
      rw [updateConn_eq_some hupdate]
      exact .swap hconn
  | connRead tc | connWrite tc | connClose tc =>
      simp only [perform, Option.ite_none_right_eq_some, Option.some.injEq] at hperform
      obtain ⟨_, rfl⟩ := hperform
      exact .quiet trivial rfl
  | addDown tc n | addUp tc n | keepErr tc err =>
      simp only [perform] at hperform
      rw [updateConn_eq_some hperform]
      refine .quiet trivial (map_claim_modify ?_ tc)
      exact fun _ => rfl
  | counters tc =>
      simp only [perform, Option.ite_none_right_eq_some, Option.some.injEq,
        Option.map_eq_some_iff] at hperform
      obtain ⟨⟨c, hconn, rfl⟩, rfl⟩ := hperform
      exact .counters hconn
  | bytes tc =>
      simp only [perform, Option.ite_none_right_eq_some, Option.some.injEq] at hperform
      obtain ⟨_, rfl⟩ := hperform
      exact .quiet trivial rfl

inductive Call where
  | begin (info : DialMeta) (host : Text) (port : Int)
  | done (id : Nat) (conn : Conn)
  | fail (id : Nat) (err : Text)
  | activeByProto
  | list (tab q proto : Text) (page pageSize : Int)
  | read (tc : Nat)
  | write (tc : Nat)
  | close (tc : Nat)
  deriving Repr, DecidableEq

def Call.program (lower : Nat → Nat) : Call → Prog Outcome
  | .begin info host port => trackerBegin info host port
  | .done id conn => trackerDone id conn
  | .fail id err => trackerFail id err
  | .activeByProto => Tracker.activeByProto
  | .list tab q proto page pageSize => Tracker.list lower tab q proto page pageSize
  | .read tc => trackedRead tc
  | .write tc => trackedWrite tc
  | .close tc => trackedClose tc

/-- Any number of calls of the tracker and of its connections; outside them,
time passes. `lower` is the case table of `strings.ToLower`. -/
@[reducible] def tracking (lower : Nat → Nat) : System where
  sig := sig
  Call := Call
  Result := Outcome
  program := Call.program lower
  State := World
  Disturbance := Nat
  perform := World.perform
  disturb w elapsed := some { w with clock := w.clock + elapsed }

/-- A new tracker. -/
def World.new (capacity maxAge now : Int) : World :=
  { tracker := newConnTracker capacity maxAge, clock := now }

variable {lower : Nat → Nat}

theorem run_effect {c c' : Config (tracking lower)} {i : Nat} {event : Event sig}
    (hstep : (tracking lower).step c (.run i event) = some c') :
    Effect c.state event c'.state := by
  obtain ⟨_, _, state, _, _, hperform, rfl⟩ := System.step_run_eq_some.mp hstep
  exact World.perform_effect hperform

/-- A step of the system changes the world by at most one effect. -/
theorem step_effect {c c' : Config (tracking lower)} {action : Action (tracking lower)}
    (hstep : (tracking lower).step c action = some c') :
    (∃ call, action = .spawn call ∧ c'.state = c.state) ∨
      (∃ elapsed : Nat, action = .disturb elapsed ∧
        c'.state = { c.state with clock := c.state.clock + elapsed }) ∨
      ∃ i event, action = .run i event ∧ Effect c.state event c'.state := by
  cases action with
  | spawn call =>
      simp only [System.step, Option.some.injEq] at hstep
      exact .inl ⟨call, rfl, by rw [← hstep]⟩
  | disturb elapsed =>
      simp only [System.step, Option.map_some, Option.some.injEq] at hstep
      exact .inr (.inl ⟨elapsed, rfl, by rw [← hstep]⟩)
  | run i event => exact .inr (.inr ⟨i, event, rfl, run_effect hstep⟩)

/-- What the passing of time and every effect keep, a step keeps. -/
theorem step_preserves {P : World → Prop} {c c' : Config (tracking lower)}
    {action : Action (tracking lower)} (hstep : (tracking lower).step c action = some c')
    (htick : ∀ w (elapsed : Nat), P w → P { w with clock := w.clock + elapsed })
    (heffect : ∀ event w', Effect c.state event w' → P c.state → P w') (hc : P c.state) :
    P c'.state := by
  rcases step_effect hstep with ⟨_, _, hstate⟩ | ⟨elapsed, _, hstate⟩ | ⟨i, event, _, heff⟩
  · rwa [hstate]
  · rw [hstate]
    exact htick c.state elapsed hc
  · exact heffect event c'.state heff hc

/-- An event that a step adds had its effect in that step. -/
theorem performed_effect {c c' : Config (tracking lower)} {action : Action (tracking lower)}
    (hstep : (tracking lower).step c action = some c') {i : Nat} {event : Event sig}
    (hevent : System.Performed c' i event) :
    System.Performed c i event ∨ action = .run i event ∧ Effect c.state event c'.state := by
  rcases System.performed_of_step hstep hevent with hold | rfl
  · exact .inl hold
  · exact .inr ⟨rfl, run_effect hstep⟩

/-- The invariant rule for what is about the world only. -/
theorem run_world_invariant (inv : World → Prop)
    (htick : ∀ w (elapsed : Nat), inv w → inv { w with clock := w.clock + elapsed })
    (heffect : ∀ w event w', inv w → Effect w event w' → inv w')
    {c c' : Config (tracking lower)} {schedule : List (Action (tracking lower))}
    (hinv : inv c.state) (hrun : (tracking lower).run c schedule = some c') : inv c'.state := by
  refine System.run_invariant (fun c : Config (tracking lower) => inv c.state) ?_ hinv hrun
  intro c action c' hc hstep
  exact step_preserves hstep htick (fun event w' heff hw => heffect _ event w' hw heff) hc

end SshGate.Tracker
