import SshGate.Go.HostPort
import SshGate.Interaction.Embedding
import SshGate.Interaction.Histories
import SshGate.Tracker.Machine

/-! # Tracked tunnel dials

`trackDial` and `dial` of `dialer.go`, next to everything else that uses the
tracker: the status page and the connections that it wraps. A dial waits for the
reply to its channel request, at most until its own timeout.
-/

namespace Go.Text

/-- The loop of `strconv.ParseUint` in base ten. A number that does not fit ends
it, whatever comes after. -/
def scanUint : Text → (n : Nat) → Option Nat
  | [], n => some n
  | b :: rest, n =>
      if 48 ≤ b && b ≤ 57 then
        let n := n * 10 + (b.toNat - 48)
        if 2 ^ 64 ≤ n then some (2 ^ 64 - 1) else scanUint rest n
      else none

/-- The number that `ParseUint` returns; it is 0 after a syntax error. -/
def uintValue (s : Text) : Int := if s = [] then 0 else (scanUint s 0).getD 0

/-- The number that `strconv.Atoi` returns, with or without an error: one that
does not fit into an `int` becomes the nearest that does. -/
def atoiValue : Text → Int
  | 45 :: rest => max (-2 ^ 63) (-uintValue rest)
  | 43 :: rest => min (2 ^ 63 - 1) (uintValue rest)
  | s => min (2 ^ 63 - 1) (uintValue s)

end Go.Text

namespace SshGate.TrackDial

open Go Interaction Tracker

/-- What a dial's context carries: the mark of internal dials and the metadata
of the proxies. -/
structure DialCtx where
  noTrack : Bool := false
  info : Option DialMeta := none
  deriving Repr, DecidableEq

def ctxWithNoTrack (ctx : DialCtx) : DialCtx := { ctx with noTrack := true }

/-- The settings of the dialer that a dial uses: whether it has a tracker, and
the bound on a dial. -/
structure DialerCfg where
  tracker : Bool := true
  dialTimeout : Int
  deriving Repr, DecidableEq

def parseDialAddr (addr : Text) : Text × Int :=
  match splitHostPort addr with
  | none => (addr, 0)
  | some (host, portStr) => (host, portStr.atoiValue)

/-- What a dial is tracked as. -/
structure DialPlan where
  info : DialMeta
  host : Text
  port : Int
  deriving Repr, DecidableEq

/-- The host comes from the metadata, the address from what is dialed. -/
def dialPlan (ctx : DialCtx) (addr : Text) : DialPlan :=
  let (dialHost, port) := parseDialAddr addr
  match ctx.info with
  | none => ⟨⟨⟨[], [], []⟩, []⟩, dialHost, port⟩
  | some info =>
      let host := if info.host ≠ [] then info.host else dialHost
      match Addr.parse dialHost with
      | none => ⟨info, host, port⟩
      | some ip => ⟨{ info with dstIP := ip.string }, host, port⟩

inductive Op where
  | track (op : Tracker.Op)
  /-- The locked reading of `d.client`: whether there is one. -/
  | client
  /-- The reading of the clock in `context.WithTimeout`. -/
  | withTimeout
  /-- `c.DialContext` with the deadline of its context. -/
  | openChannel (network addr : Text) (deadline : Option Int)
  deriving Repr, DecidableEq

/-- `openChannel` replies with the time at which it returns and with its error. -/
abbrev Op.Reply : Op → Type
  | .track op => op.Reply
  | .client => Bool
  | .withTimeout => Int
  | .openChannel _ _ _ => Int × Option Text

@[reducible] def sig : Signature := ⟨Op, Op.Reply⟩

abbrev Prog := Program sig

abbrev act (op : Op) : Prog op.Reply := Program.perform (S := sig) op

/-- The event of the tracker, if it is one. -/
def trackerEvent : Event sig → Option (Event Tracker.sig)
  | ⟨.track op, reply⟩ => some ⟨op, reply⟩
  | ⟨.client, _⟩ | ⟨.withTimeout, _⟩ | ⟨.openChannel _ _ _, _⟩ => none

def trackerEmbedding : Embedding Tracker.sig sig where
  op := .track
  reply _ r := r
  project := trackerEvent
  project_op _ _ := rfl

/-- What a call returns: a dial its error or its connection. -/
abbrev Result := Except Err Outcome

/-- The context of a dial: its deadline, if it has one. -/
def timeoutOf (d : DialerCfg) : Prog (Option Int) :=
  if 0 < d.dialTimeout then do
    let now ← act .withTimeout
    return some (now + d.dialTimeout)
  else return none

def dial (d : DialerCfg) (network addr : Text) : Prog (Except Err Conn) := do
  let connected ← act .client
  if connected then do
    let deadline ← timeoutOf d
    let reply ← act (.openChannel network addr deadline)
    match reply.2 with
    | some err => return .error (.network (str "SSH dial") addr (.text err))
    | none => return .ok .base
  else return .error (.text (str "SSH client not connected"))

/-- `Fail` or `Done`, by the result of the dial. -/
def settle (id : Nat) : Except Err Conn → Prog Result
  | .error err => do
      let _ ← (trackerFail id err.error).embed trackerEmbedding
      return .error err
  | .ok conn => do
      let outcome ← (trackerDone id conn).embed trackerEmbedding
      return .ok outcome

def trackDial (d : DialerCfg) (ctx : DialCtx) (network addr : Text) : Prog Result :=
  if ctx.noTrack || !d.tracker then do
    let result ← dial d network addr
    return result.map .conn
  else do
    let plan := dialPlan ctx addr
    let begun ← act (.track (.begin plan.info plan.host plan.port))
    let result ← dial d network addr
    settle begun.2 result

/-! ## The system -/

/-- The uses of the tracker besides dials. -/
def IsUse : Tracker.Call → Prop
  | .begin _ _ _ | .done _ _ | .fail _ _ => False
  | .activeByProto | .list _ _ _ _ _ | .read _ | .write _ | .close _ => True

inductive Call where
  | dial (ctx : DialCtx) (network addr : Text)
  | use (call : Tracker.Call) (huse : IsUse call)

def Call.program (d : DialerCfg) (lower : Nat → Nat) : Call → Prog Result
  | .dial ctx network addr => trackDial d ctx network addr
  | .use call _ => do
      let outcome ← (call.program lower).embed trackerEmbedding
      return .ok outcome

structure World where
  tracked : Tracker.World
  /-- The dialer has a client. -/
  connected : Bool := false

namespace World

def clock (w : World) : Int := w.tracked.clock

/-- The effect of an action with its reply, where the reply is possible. -/
def perform : (op : Op) → World → op.Reply → Option World
  | .track op, w, reply =>
      (Tracker.World.perform op w.tracked reply).map fun tracked => { w with tracked }
  | .client, w, connected => if connected = w.connected then some w else none
  | .withTimeout, w, now => if now = w.clock then some w else none
  | .openChannel _ _ _, w, (now, _) => if now = w.clock then some w else none

end World

/-- Time passes; the monitor takes the client away or publishes one. -/
inductive Disturbance where
  | tick (elapsed : Nat)
  | tunnel (connected : Bool)
  deriving Repr, DecidableEq

def World.disturb (w : World) : Disturbance → Option World
  | .tick elapsed => some { w with tracked := { w.tracked with clock := w.clock + elapsed } }
  | .tunnel connected => some { w with connected }

/-- Any number of dials and of other uses of the tracker. -/
@[reducible] def dialing (d : DialerCfg) (lower : Nat → Nat) : System where
  sig := sig
  Call := Call
  Result := Result
  program := Call.program d lower
  State := World
  Disturbance := Disturbance
  perform := World.perform
  disturb := World.disturb

/-- A new tracker. -/
def World.new (capacity maxAge now : Int) : World :=
  { tracked := Tracker.World.new capacity maxAge now }

/-! ## Timing -/

/-- The time by which a dial with this history moves on: at once after `Begin`
and after a reply, and by its deadline while it waits for one. -/
def due (timeout : Int) (history : List (Event sig)) : Option Int :=
  history.foldl (fun due event =>
    match event with
    | ⟨.track (.begin _ _ _), (now, _)⟩ => some now
    | ⟨.client, _⟩ => due
    | ⟨.withTimeout, now⟩ => some (now + timeout)
    | ⟨.openChannel _ _ _, (now, _)⟩ => some now
    | _ => none) none

/-- The runtime lets a dial move on within `slack`. -/
def Prompt (timeout slack : Int) (history : List (Event sig)) (w : World) : Prop :=
  ∀ time ∈ due timeout history, w.clock ≤ time + slack

instance (timeout slack : Int) (history : List (Event sig)) (w : World) :
    Decidable (Prompt timeout slack history w) :=
  inferInstanceAs (Decidable (∀ time ∈ due timeout history, _))

/-- All dials move on in time. -/
abbrev AllPrompt (timeout slack : Int) {d : DialerCfg} {lower : Nat → Nat} :
    Config (dialing d lower) → Prop :=
  Histories.Side (Prompt timeout slack)

instance (timeout slack : Int) {d : DialerCfg} {lower : Nat → Nat} :
    DecidablePred (@AllPrompt timeout slack d lower) := fun c =>
  inferInstanceAs (Decidable (∀ thread ∈ c.threads, Prompt timeout slack thread.trace c.state))

end SshGate.TrackDial
