import SshGate.Proxy.Server

/-! # What the calls of a proxy server do

Whatever the other goroutines do, a call hands on only what it accepted, counts
a connection once and before it can be closed, and subtracts it once, after its
relay is over.
-/

namespace SshGate.Proxy

open Go Interaction

/-- The connection that an event is about, for the events that count. -/
def acceptedBy : Event sig → Option Nat
  | ⟨.accept, .ok conn⟩ => some conn.id
  | _ => none

def handedBy : Event sig → Option Nat
  | ⟨.goHandler conn, _⟩ => some conn.id
  | _ => none

def startedBy : Event sig → Option Nat
  | ⟨.startHandler, conn⟩ => some conn.id
  | _ => none

def addedBy : Event sig → Option Nat
  | ⟨.add conn, _⟩ => some conn
  | _ => none

def wrappedBy : Event sig → Option Nat
  | ⟨.newLogConn conn, _⟩ => some conn
  | _ => none

def begunBy : Event sig → Option Nat
  | ⟨.relayBegin conn, _⟩ => some conn
  | _ => none

def closedBy : Event sig → Option Nat
  | ⟨.casClosed conn, true⟩ => some conn
  | _ => none

def doneBy : Event sig → Option Nat
  | ⟨.done conn, _⟩ => some conn
  | _ => none

theorem acceptedBy_eq_some {event : Event sig} {conn : Nat} (hkey : acceptedBy event = some conn) :
    ∃ accepted : Conn, event = ⟨.accept, .ok accepted⟩ := by
  unfold acceptedBy at hkey
  split at hkey
  · exact ⟨_, rfl⟩
  · cases hkey

theorem addedBy_eq_some {event : Event sig} {conn : Nat} (hkey : addedBy event = some conn) :
    event = ⟨.add conn, ()⟩ := by
  unfold addedBy at hkey
  split at hkey <;> cases hkey
  rfl

theorem doneBy_eq_some {event : Event sig} {conn : Nat} (hkey : doneBy event = some conn) :
    event = ⟨.done conn, ()⟩ := by
  unfold doneBy at hkey
  split at hkey <;> cases hkey
  rfl

theorem begunBy_eq_some {event : Event sig} {conn : Nat} (hkey : begunBy event = some conn) :
    event = ⟨.relayBegin conn, ()⟩ := by
  unfold begunBy at hkey
  split at hkey <;> cases hkey
  rfl

/-- Who counts a connection: the SOCKS5 handler, or the HTTP accept loop. -/
def Server.counts : Server → Event sig → Option Nat
  | .socks5 => startedBy
  | .http => acceptedBy

/-- What ends with the subtraction: the first `Close`, or the HTTP handler. -/
def Server.retires : Server → Event sig → Option Nat
  | .socks5 => closedBy
  | .http => startedBy

/-- What holds when a call performs an action. -/
structure CallStep (server : Server) (history : List (Event sig)) (op : Op) : Prop where
  handed : Program.Covered acceptedBy handedBy history op
  added : Program.Covered server.counts addedBy history op
  done : Program.Covered server.retires doneBy history op
  /-- The HTTP proxy counts a connection before its goroutine starts. -/
  counted : server = .http → Program.Preceded addedBy handedBy history op
  /-- The SOCKS5 server counts a relay before anybody can close it. -/
  wrapped : server = .socks5 → Program.Preceded addedBy wrappedBy history op
  relayed : Program.Preceded startedBy begunBy history op
  relayCounted : server = .socks5 → Program.Preceded addedBy begunBy history op
  unfinished : ∀ conn, op = .relayBegin conn → conn ∉ history.filterMap doneBy
  /-- What is subtracted relays no more. -/
  closed : ∀ conn, op = .done conn → (server = .socks5 ∨ ⟨.relayBegin conn, ()⟩ ∈ history) →
    ∃ result, ⟨.closeUpstream conn, result⟩ ∈ history
  accepting : op = .accept → history.getLast? = some ⟨.loadClosed, false⟩
  exits : op = .onceExit → ∃ closed, ⟨.swapClosed, closed⟩ ∈ history
  drains : ∀ drained, op = .goDrain drained →
    (∃ closed, ⟨.swapClosed, closed⟩ ∈ history) ∨ ⟨.onceEnter, false⟩ ∈ history
  waits : op = .wait → ∃ drained, ⟨.startDrain, drained⟩ ∈ history
  overs : ∀ drained, op = .closeDone drained → ⟨.wait, ()⟩ ∈ history

/-- What holds when a call returns. -/
structure CallEnd (server : Server) (history : List (Event sig)) (outcome : Outcome) : Prop where
  drained : outcome = .drained →
    ∃ drained, ⟨.select drained, true⟩ ∈ history ∨ ⟨.poll drained, true⟩ ∈ history
  retired : ∀ conn ∈ history.filterMap server.retires, conn ∈ history.filterMap doneBy

/-- Actions that need nothing to have happened before. -/
def Op.isFree : Op → Bool
  | .goHandler _ | .add _ | .done _ | .newLogConn _ | .relayBegin _ | .accept | .onceExit
  | .goDrain _ | .wait | .closeDone _ => false
  | _ => true

variable {server : Server} {history : List (Event sig)}

theorem callStep_of_isFree {op : Op} (hop : op.isFree = true) (history : List (Event sig)) :
    CallStep server history op := by
  cases op with
  | goHandler | add | done | newLogConn | relayBegin | accept | onceExit | goDrain | wait
  | closeDone => cases hop
  | _ => constructor <;> nofun

theorem callStep_add {conn : Nat} (hcount : (history.filterMap addedBy).count conn <
    (history.filterMap server.counts).count conn) : CallStep server history (.add conn) := by
  constructor
  case added =>
    rintro reply conn' hkey
    cases hkey
    exact hcount
  all_goals nofun

theorem callStep_done {conn : Nat} (hcount : (history.filterMap doneBy).count conn <
    (history.filterMap server.retires).count conn)
    (hclosed : (server = .socks5 ∨ ⟨.relayBegin conn, ()⟩ ∈ history) →
      ∃ result, ⟨.closeUpstream conn, result⟩ ∈ history) :
    CallStep server history (.done conn) := by
  constructor
  case done =>
    rintro reply conn' hkey
    cases hkey
    exact hcount
  case closed =>
    intro conn' hconn
    cases hconn
    exact hclosed
  all_goals nofun

theorem callStep_goHandler {conn : Conn} (hcount : (history.filterMap handedBy).count conn.id <
    (history.filterMap acceptedBy).count conn.id)
    (hcounted : server = .http → conn.id ∈ history.filterMap addedBy) :
    CallStep server history (.goHandler conn) := by
  constructor
  case handed =>
    rintro reply conn' hkey
    cases hkey
    exact hcount
  case counted =>
    rintro hserver reply conn' hkey
    cases hkey
    exact hcounted hserver
  all_goals nofun

theorem callStep_relayBegin {conn : Nat} (hstarted : conn ∈ history.filterMap startedBy)
    (hdone : conn ∉ history.filterMap doneBy)
    (hadded : server = .socks5 → conn ∈ history.filterMap addedBy) :
    CallStep server history (.relayBegin conn) := by
  constructor
  case relayed =>
    rintro reply conn' hkey
    cases hkey
    exact hstarted
  case relayCounted =>
    rintro hserver reply conn' hkey
    cases hkey
    exact hadded hserver
  case unfinished =>
    intro conn' hconn
    cases hconn
    exact hdone
  all_goals nofun

/-- A free action, and then the rest. -/
theorem always_free {α : Type} {post : List (Event sig) → α → Prop} {op : Op}
    (hop : op.isFree = true) {f : op.Reply → Prog α}
    (hf : ∀ reply, (f reply).Always (CallStep server) post (history ++ [⟨op, reply⟩])) :
    (act op >>= f).Always (CallStep server) post history :=
  Program.Always.perform (callStep_of_isFree hop history) hf

/-! ### The accept loop -/

/-- In the history of an accept loop nothing is handed on or counted that was
not accepted. -/
structure Accepting (server : Server) (history : List (Event sig)) : Prop where
  handed : ∀ conn, (history.filterMap handedBy).count conn ≤
    (history.filterMap acceptedBy).count conn
  added : ∀ conn, (history.filterMap addedBy).count conn ≤
    (history.filterMap acceptedBy).count conn
  retired : history.filterMap server.retires = []

theorem Accepting.snoc (haccepting : Accepting server history) {event : Event sig}
    (hhanded : handedBy event = none) (hadded : addedBy event = none)
    (hretired : server.retires event = none) : Accepting server (history ++ [event]) := by
  constructor
  · intro conn
    have hle := haccepting.handed conn
    simp only [List.filterMap_append, List.filterMap_cons, hhanded, List.filterMap_nil,
      List.append_nil, List.count_append]
    omega
  · intro conn
    have hle := haccepting.added conn
    simp only [List.filterMap_append, List.filterMap_cons, hadded, List.filterMap_nil,
      List.append_nil, List.count_append]
    omega
  · simp [haccepting.retired, hretired]

theorem Accepting.callEnd (haccepting : Accepting server history) :
    CallEnd server history .stopped :=
  ⟨nofun, by simp [haccepting.retired]⟩

theorem goHandle_always (haccepting : Accepting server history) (conn : Conn) :
    (goHandle server conn).Always (CallStep server) (fun history' _ => Accepting server history')
      (history ++ [⟨.accept, .ok conn⟩]) := by
  have hhanded := haccepting.handed
  have hadded := haccepting.added
  have hretired := haccepting.retired
  cases server with
  | socks5 =>
      refine ⟨callStep_goHandler ?_ nofun, fun _ => ⟨fun conn' => ?_, fun conn' => ?_, ?_⟩⟩
      · have hle := hhanded conn.id
        simp [List.filterMap_cons, acceptedBy, handedBy]
        omega
      · have hle := hhanded conn'
        simp [List.filterMap_cons, acceptedBy, handedBy, List.count_cons]
        omega
      · have hle := hadded conn'
        simp [List.filterMap_cons, acceptedBy, addedBy, List.count_cons]
        omega
      · simp_all [Server.retires, closedBy]
  | http =>
      refine ⟨callStep_add ?_, fun _ => ⟨callStep_goHandler ?_ fun _ => ?_,
        fun _ => ⟨fun conn' => ?_, fun conn' => ?_, ?_⟩⟩⟩
      · have hle := hadded conn.id
        simp [List.filterMap_cons, Server.counts, acceptedBy, addedBy]
        omega
      · have hle := hhanded conn.id
        simp [List.filterMap_cons, acceptedBy, handedBy]
        omega
      · simp [addedBy]
      · have hle := hhanded conn'
        simp [List.filterMap_cons, acceptedBy, handedBy, List.count_cons]
        omega
      · have hle := hadded conn'
        simp [List.filterMap_cons, acceptedBy, addedBy, List.count_cons]
        omega
      · simp_all [Server.retires, startedBy]

theorem acceptLoop_always (rounds delay : Nat) (haccepting : Accepting server history) :
    (acceptLoop server rounds delay).Always (CallStep server) (CallEnd server) history := by
  induction rounds generalizing delay history with
  | zero => exact haccepting.callEnd
  | succ rounds ih =>
      apply always_free rfl
      intro closed
      have hloaded : Accepting server (history ++ [⟨.loadClosed, closed⟩]) :=
        haccepting.snoc rfl rfl (by cases server <;> rfl)
      cases closed with
      | true => exact hloaded.callEnd
      | false =>
          have hfailed : ∀ err, Accepting server
              (history ++ [⟨.loadClosed, false⟩] ++ [⟨.accept, .error err⟩]) :=
            fun err => hloaded.snoc rfl rfl (by cases server <;> rfl)
          refine Program.Always.perform ?_ fun accepted => ?_
          · constructor
            case accepting => simp
            all_goals nofun
          · match accepted with
            | .ok conn =>
                apply Program.Always.bind (goHandle_always hloaded conn)
                intro history _ haccepting
                exact ih minDelay haccepting
            | .error .closed => exact (hfailed .closed).callEnd
            | .error (.other err) =>
                apply always_free rfl
                intro _
                exact ih _ ((hfailed (.other err)).snoc rfl rfl (by cases server <;> rfl))

/-! ### Handlers -/

/-- What a call of `logConn.Close` does; `first` is whether it is the first. -/
def closeEvents (server : Server) (conn : Nat) (first : Bool) (result : Except Text Unit) :
    List (Event sig) :=
  [⟨.casClosed conn, first⟩, ⟨.closeUpstream conn, result⟩] ++
    if first && server = .socks5 then [⟨.done conn, ()⟩] else []

theorem logConnClose_always {conn : Nat} (hcount : server = .socks5 →
    (history.filterMap doneBy).count conn ≤ (history.filterMap closedBy).count conn) :
    (logConnClose server conn).Always (CallStep server)
      (fun history' _ => ∃ first result, history' = history ++ closeEvents server conn first result)
      history := by
  apply always_free rfl
  intro first
  apply always_free rfl
  intro result
  cases hdone : first && server = .socks5 with
  | false => exact ⟨first, result, by simp [closeEvents, hdone]⟩
  | true =>
      obtain ⟨rfl, hserver⟩ : first = true ∧ server = .socks5 := by simpa using hdone
      subst hserver
      have hle := hcount rfl
      refine ⟨callStep_done ?_ ?_, fun _ => ⟨true, result, ?_⟩⟩
      · simp [List.filterMap_cons, Server.retires, doneBy, closedBy]
        omega
      · exact fun _ => ⟨result, by simp⟩
      · simp [closeEvents]

/-- The handler of a SOCKS5 connection before its relay is closed; `dialed` is
whether the callback has counted it. -/
structure Serving (conn : Conn) (dialed : Bool) (history : List (Event sig)) : Prop where
  started : history.filterMap startedBy = [conn.id]
  added : history.filterMap addedBy = if dialed then [conn.id] else []
  closed : history.filterMap closedBy = []
  done : history.filterMap doneBy = []

theorem Serving.snoc {conn : Conn} {dialed : Bool} (hserving : Serving conn dialed history)
    {event : Event sig} (hstarted : startedBy event = none) (hadded : addedBy event = none)
    (hclosed : closedBy event = none) (hdone : doneBy event = none) :
    Serving conn dialed (history ++ [event]) := by
  constructor
  · simp [hserving.started, hstarted]
  · simp [hserving.added, hadded]
  · simp [hserving.closed, hclosed]
  · simp [hserving.done, hdone]

theorem clearFound_always {conn : Conn} (hserving : Serving conn false history)
    (found : Option Nat) : (clearFound found).Always (CallStep .socks5)
      (fun history' _ => Serving conn false history') history := by
  cases found with
  | none => exact hserving
  | some other => exact ⟨callStep_of_isFree rfl _, fun _ => hserving.snoc rfl rfl rfl rfl⟩

theorem Serving.add {conn : Conn} (hserving : Serving conn false history) :
    Serving conn true (history ++ [⟨.add conn.id, ()⟩]) := by
  constructor
  · simp [hserving.started, startedBy]
  · simp [hserving.added, addedBy]
  · simp [hserving.closed, closedBy]
  · simp [hserving.done, doneBy]

theorem dialCallback_always {conn : Conn} (hserving : Serving conn false history)
    (request : DialRequest) : (dialCallback conn request).Always (CallStep .socks5)
      (fun history' dialed => Serving conn dialed history') history := by
  have hcleared : ∀ found, (clearFound found).Always (CallStep .socks5)
      (fun history' _ => Serving conn false history')
      (history ++ [⟨.loadHandshake conn.remoteAddr, found⟩]) :=
    fun found => clearFound_always (hserving.snoc rfl rfl rfl rfl) found
  cases request with
  | badAddress => exact hserving
  | unresolved =>
      apply always_free rfl
      intro found
      apply (hcleared found).bind
      intro history _ hserving
      exact hserving
  | dial =>
      apply always_free rfl
      intro found
      apply (hcleared found).bind
      intro history _ hserving
      apply always_free rfl
      intro opened
      have hopened : Serving conn false (history ++ [⟨.openUpstream conn.id, opened⟩]) :=
        hserving.snoc rfl rfl rfl rfl
      cases opened with
      | false => exact hopened
      | true =>
          refine ⟨callStep_add ?_, fun _ => ⟨?_, fun _ => hopened.add.snoc rfl rfl rfl rfl⟩⟩
          · rw [hopened.added]
            simp [Server.counts, hopened.started]
          · constructor
            case wrapped =>
              rintro _ _ _ ⟨⟩
              simp [addedBy]
            all_goals nofun

theorem relay_always {conn : Conn} (hserving : Serving conn true history) (replied : Bool) :
    (relay conn.id replied).Always (CallStep .socks5)
      (fun history' _ => Serving conn true history') history := by
  cases replied with
  | false => exact hserving
  | true =>
      refine ⟨callStep_relayBegin ?_ ?_ fun _ => ?_, fun _ => ⟨callStep_of_isFree rfl _, fun _ =>
        (hserving.snoc rfl rfl rfl rfl).snoc rfl rfl rfl rfl⟩⟩
      · rw [hserving.started]
        exact List.mem_singleton_self _
      · rw [hserving.done]
        exact List.not_mem_nil
      · rw [hserving.added]
        exact List.mem_singleton_self _

/-- Every first `Close` in the history has been subtracted. -/
def Retired (history : List (Event sig)) : Prop :=
  ∀ conn ∈ history.filterMap closedBy, conn ∈ history.filterMap doneBy

theorem Retired.snoc (hretired : Retired history) {event : Event sig}
    (hclosed : closedBy event = none) : Retired (history ++ [event]) := by
  intro conn hconn
  simp only [List.filterMap_append, List.filterMap_cons, hclosed, List.filterMap_nil,
    List.append_nil] at hconn
  simp [hretired conn hconn]

theorem Serving.retired {conn : Conn} {dialed : Bool} (hserving : Serving conn dialed history) :
    Retired history := by
  rw [Retired, hserving.closed]
  nofun

theorem retired_closeEvents (hclosed : history.filterMap closedBy = []) (conn : Nat)
    (first : Bool) (result : Except Text Unit) :
    Retired (history ++ closeEvents .socks5 conn first result) := by
  cases first <;> simp [Retired, closeEvents, hclosed, closedBy, doneBy]

theorem libraryServeConn_always {conn : Conn} (hserving : Serving conn false history) :
    (libraryServeConn conn).Always (CallStep .socks5) (fun history' _ => Retired history')
      history := by
  have hend : ∀ {history : List (Event sig)}, Retired history →
      (act (.closeClient conn.id)).Always (CallStep .socks5) (fun history' _ => Retired history')
        history :=
    fun hretired => ⟨callStep_of_isFree rfl _, fun _ => hretired.snoc rfl⟩
  apply always_free rfl
  intro request
  have hread : Serving conn false (history ++ [⟨.readHandshake conn.id, request⟩]) :=
    hserving.snoc rfl rfl rfl rfl
  cases request with
  | none => exact hend hread.retired
  | some request =>
      apply (dialCallback_always hread request).bind
      intro history dialed hserving
      cases dialed with
      | false => exact hend hserving.retired
      | true =>
          apply always_free rfl
          intro replied
          apply (relay_always (hserving.snoc rfl rfl rfl rfl) replied).bind
          intro history _ hserving
          apply (logConnClose_always fun _ => by simp [hserving.closed, hserving.done]).bind
          rintro _ _ ⟨first, result, rfl⟩
          exact hend (retired_closeEvents hserving.closed conn.id first result)

theorem serveConn_always (conn : Conn) :
    (serveConn conn).Always (CallStep .socks5) (CallEnd .socks5) [⟨.startHandler, conn⟩] := by
  have hserving : Serving conn false [⟨.startHandler, conn⟩] := ⟨rfl, rfl, rfl, rfl⟩
  apply always_free rfl
  intro _
  apply always_free rfl
  intro _
  apply (libraryServeConn_always
    ((hserving.snoc rfl rfl rfl rfl).snoc rfl rfl rfl rfl)).bind
  intro history _ hretired
  apply always_free rfl
  intro _
  exact ⟨nofun, hretired.snoc rfl⟩

/-- The handler of an HTTP connection before it is subtracted. -/
structure Answering (conn : Nat) (history : List (Event sig)) : Prop where
  started : history.filterMap startedBy = [conn]
  done : history.filterMap doneBy = []

theorem Answering.snoc {conn : Nat} (hanswering : Answering conn history) {event : Event sig}
    (hstarted : startedBy event = none) (hdone : doneBy event = none) :
    Answering conn (history ++ [event]) := by
  constructor
  · simp [hanswering.started, hstarted]
  · simp [hanswering.done, hdone]

/-- The handler relays no more. -/
structure Answered (conn : Nat) (history : List (Event sig)) : Prop extends
    Answering conn history where
  closed : ⟨.relayBegin conn, ()⟩ ∈ history → ∃ result, ⟨.closeUpstream conn, result⟩ ∈ history

theorem Answered.snoc {conn : Nat} (hanswered : Answered conn history) {event : Event sig}
    (hstarted : startedBy event = none) (hdone : doneBy event = none)
    (hrelay : event ≠ ⟨.relayBegin conn, ()⟩) : Answered conn (history ++ [event]) := by
  refine ⟨hanswered.toAnswering.snoc hstarted hdone, fun hmem => ?_⟩
  obtain ⟨result, hresult⟩ := hanswered.closed (by simpa [hrelay.symm] using hmem)
  exact ⟨result, by simp [hresult]⟩

theorem answered_closeEvents {conn : Nat} (hanswering : Answering conn history) (first : Bool)
    (result : Except Text Unit) :
    Answered conn (history ++ closeEvents .http conn first result) := by
  have hevents : closeEvents .http conn first result =
      [⟨.casClosed conn, first⟩] ++ [⟨.closeUpstream conn, result⟩] := by
    simp [closeEvents]
  rw [hevents, ← List.append_assoc]
  exact ⟨(hanswering.snoc rfl rfl).snoc rfl rfl, fun _ => ⟨result, by simp⟩⟩

theorem forward_always {conn : Nat} (hanswered : Answered conn history) :
    (forward conn).Always (CallStep .http) (fun history' _ => Answered conn history') history := by
  apply always_free rfl
  intro opened
  have hopened : Answered conn (history ++ [⟨.openUpstream conn, opened⟩]) :=
    hanswered.snoc rfl rfl nofun
  cases opened with
  | false => exact hopened
  | true =>
      have hwrapped : Answering conn
          (history ++ [⟨.openUpstream conn, true⟩] ++ [⟨.newLogConn conn, ()⟩]) :=
        hopened.toAnswering.snoc rfl rfl
      refine ⟨?_, fun _ => ⟨callStep_relayBegin ?_ ?_ nofun, fun _ =>
        ⟨callStep_of_isFree rfl _, fun _ => ?_⟩⟩⟩
      · constructor <;> nofun
      · rw [hwrapped.started]
        exact List.mem_singleton_self _
      · rw [hwrapped.done]
        exact List.not_mem_nil
      · refine Program.Always.post_imp (logConnClose_always ?_) ?_
        · exact nofun
        rintro _ _ ⟨first, result, rfl⟩
        exact answered_closeEvents ((hwrapped.snoc rfl rfl).snoc rfl rfl) first result

theorem answer_always {conn : Nat} (hanswered : Answered conn history) (request : HttpRequest) :
    (answer conn request).Always (CallStep .http) (fun history' _ => Answered conn history')
      history := by
  have hcleared : Answered conn (history ++ [⟨.clearDeadline conn, ()⟩]) :=
    hanswered.snoc rfl rfl nofun
  cases request with
  | malformed => exact hanswered
  | refused => exact ⟨callStep_of_isFree rfl _, fun _ => hcleared⟩
  | forwarded =>
      apply always_free rfl
      intro _
      exact forward_always hcleared

theorem handleConn_always (conn : Conn) :
    (handleConn conn).Always (CallStep .http) (CallEnd .http) [⟨.startHandler, conn⟩] := by
  apply always_free rfl
  intro _
  apply always_free rfl
  intro request
  have hread : Answered conn.id ([⟨.startHandler, conn⟩] ++ [⟨.setDeadline conn.id, ()⟩] ++
      [⟨.readRequest conn.id, request⟩]) := ⟨⟨rfl, rfl⟩, by simp⟩
  apply (answer_always hread request).bind
  intro history _ hanswered
  apply always_free rfl
  intro _
  have hclosed : Answered conn.id (history ++ [⟨.closeClient conn.id, ()⟩]) :=
    hanswered.snoc rfl rfl nofun
  refine ⟨callStep_done ?_ ?_, fun _ => ⟨nofun, ?_⟩⟩
  · rw [hclosed.done]
    simp [Server.retires, hclosed.started]
  · rintro (hserver | hrelay)
    · cases hserver
    · exact hclosed.closed hrelay
  · intro conn' hconn'
    simp only [Server.retires, List.filterMap_append, hclosed.started] at hconn'
    simp_all [startedBy, doneBy]

theorem handler_always (server : Server) :
    (handler server).Always (CallStep server) (CallEnd server) [] := by
  apply always_free rfl
  intro conn
  cases server with
  | socks5 => exact serveConn_always conn
  | http => exact handleConn_always conn

/-! ### Shutdown -/

theorem retires_snoc (hretired : history.filterMap server.retires = []) {event : Event sig}
    (hevent : server.retires event = none) :
    (history ++ [event]).filterMap server.retires = [] := by
  simp [hretired, hevent]

theorem closeResilient_always (hretired : history.filterMap server.retires = []) :
    closeResilient.Always (CallStep server) (fun history' _ =>
      history'.filterMap server.retires = [] ∧ ∃ closed, ⟨.swapClosed, closed⟩ ∈ history')
      history := by
  apply always_free rfl
  intro closed
  have hswapped := retires_snoc hretired
    (show server.retires ⟨.swapClosed, closed⟩ = none by cases server <;> rfl)
  cases closed with
  | true => exact ⟨hswapped, true, by simp⟩
  | false =>
      apply always_free rfl
      intro result
      have hended := retires_snoc hswapped
        (show server.retires ⟨.closeListener, result⟩ = none by cases server <;> rfl)
      cases result with
      | ok _ => exact ⟨hended, false, by simp⟩
      | error _ => exact ⟨hended, false, by simp⟩

theorem closeOnce_always (first : Bool) :
    (closeOnce first).Always (CallStep server) (fun history _ =>
      history.filterMap server.retires = [] ∧
        ((∃ closed, ⟨.swapClosed, closed⟩ ∈ history) ∨ ⟨.onceEnter, false⟩ ∈ history))
      [⟨.onceEnter, first⟩] := by
  have hentered : [⟨.onceEnter, first⟩].filterMap server.retires = [] := by
    cases server <;> rfl
  cases first with
  | false => exact ⟨hentered, .inr (by simp)⟩
  | true =>
      apply (closeResilient_always hentered).bind
      rintro history err ⟨hretired, closed, hclosed⟩
      refine ⟨?_, fun _ => ⟨?_, .inl ⟨closed, by simp [hclosed]⟩⟩⟩
      · constructor
        case exits => exact fun _ => ⟨closed, hclosed⟩
        all_goals nofun
      · exact retires_snoc hretired (by cases server <;> rfl)

theorem awaitDrain_always (hretired : history.filterMap server.retires = [])
    (hclosed : (∃ closed, ⟨.swapClosed, closed⟩ ∈ history) ∨ ⟨.onceEnter, false⟩ ∈ history) :
    awaitDrain.Always (CallStep server) (CallEnd server) history := by
  apply always_free rfl
  intro drained
  refine Program.Always.perform ?_ fun _ => ?_
  · constructor
    case drains =>
      intro _ _
      rcases hclosed with ⟨closed, hclosed⟩ | hentered
      · exact .inl ⟨closed, by simp [hclosed]⟩
      · exact .inr (by simp [hentered])
    all_goals nofun
  · have hgone := retires_snoc (retires_snoc hretired
      (show server.retires ⟨.makeDone, drained⟩ = none by cases server <;> rfl))
      (show server.retires ⟨.goDrain drained, ()⟩ = none by cases server <;> rfl)
    apply always_free rfl
    intro ended
    have hselected := retires_snoc hgone
      (show server.retires ⟨.select drained, ended⟩ = none by cases server <;> rfl)
    cases ended with
    | true => exact ⟨fun _ => ⟨drained, .inl (by simp)⟩, by rw [hselected]; nofun⟩
    | false =>
        apply always_free rfl
        intro late
        have hpolled := retires_snoc hselected
          (show server.retires ⟨.poll drained, late⟩ = none by cases server <;> rfl)
        refine ⟨fun houtcome => ⟨drained, .inr ?_⟩, by rw [hpolled]; nofun⟩
        cases late with
        | true => simp
        | false => cases houtcome

theorem shutdown_always : shutdown.Always (CallStep server) (CallEnd server) [] := by
  apply always_free rfl
  intro first
  apply (closeOnce_always first).bind
  rintro history err ⟨hretired, hclosed⟩
  cases err with
  | some err => exact ⟨nofun, by simp [hretired]⟩
  | none => exact awaitDrain_always hretired hclosed

theorem drain_always : drain.Always (CallStep server) (CallEnd server) [] := by
  apply always_free rfl
  intro drained
  refine ⟨?_, fun _ => ⟨?_, fun _ => ⟨nofun, ?_⟩⟩⟩
  · constructor
    case waits => simp
    all_goals nofun
  · constructor
    case overs => simp
    all_goals nofun
  · cases server <;> simp [Server.retires, closedBy, startedBy]

theorem closeAgain_always (conn : Nat) :
    (closeAgain server conn).Always (CallStep server) (CallEnd server) [] := by
  apply (logConnClose_always fun _ => by simp).bind
  rintro _ _ ⟨first, result, rfl⟩
  refine ⟨nofun, ?_⟩
  cases server with
  | socks5 => exact retired_closeEvents rfl conn first result
  | http => simp [closeEvents, Server.retires, startedBy]

theorem program_always (call : Call) :
    (call.program server).Always (CallStep server) (CallEnd server) [] := by
  cases call with
  | acceptLoop rounds =>
      exact acceptLoop_always rounds minDelay ⟨by simp, by simp, by cases server <;> rfl⟩
  | handler => exact handler_always server
  | shutdown => exact shutdown_always
  | drain => exact drain_always
  | closeAgain conn => exact closeAgain_always conn

end SshGate.Proxy
