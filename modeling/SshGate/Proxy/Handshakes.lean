import SshGate.Proxy.Connections

/-! # The handshake deadline of a SOCKS5 connection

The dial callback finds the connection of a request by the text of its remote
address. It finds its own connection if nobody else has stored or deleted that
address since the connection was stored, and only then: two connections with
one remote address take each other's entry away.
-/

namespace SshGate.Proxy

open Go Interaction

/-! ## What a handler does -/

/-- What a handler does before it serves the connection. -/
def opening (conn : Conn) : List (Event sig) :=
  [⟨.startHandler, conn⟩, ⟨.setDeadline conn.id, ()⟩, ⟨.storeHandshake conn.remoteAddr conn.id, ()⟩]

/-- The callback has read the entry of the connection's address. -/
def loaded (conn : Conn) (request : Option DialRequest) (found : Option Nat) : List (Event sig) :=
  opening conn ++ [⟨.readHandshake conn.id, request⟩, ⟨.loadHandshake conn.remoteAddr, found⟩]

def cleared : Option Nat → List (Event sig)
  | some conn => [⟨.clearDeadline conn, ()⟩]
  | none => []

/-- The history of a SOCKS5 call at the actions of a handshake. -/
def Handshaking (history : List (Event sig)) : Op → Prop
  | .startHandler => history = []
  | .setDeadline x => ∃ conn : Conn, x = conn.id ∧ history = [⟨.startHandler, conn⟩]
  | .storeHandshake src x => ∃ conn : Conn, x = conn.id ∧ src = conn.remoteAddr ∧
      history = [⟨.startHandler, conn⟩, ⟨.setDeadline conn.id, ()⟩]
  | .loadHandshake src => ∃ (conn : Conn) (request : Option DialRequest), src = conn.remoteAddr ∧
      history = opening conn ++ [⟨.readHandshake conn.id, request⟩]
  | .clearDeadline x => ∃ conn request, history = loaded conn request (some x)
  | .openUpstream x => ∃ conn request found, x = conn.id ∧
      history = loaded conn request found ++ cleared found
  | _ => True

/-- Actions outside the handshake. -/
def Op.isLater : Op → Bool
  | .startHandler | .setDeadline _ | .storeHandshake _ _ | .loadHandshake _ | .clearDeadline _
  | .openUpstream _ => false
  | _ => true

variable {history : List (Event sig)}

theorem handshaking_of_isLater {op : Op} (hop : op.isLater = true) (history : List (Event sig)) :
    Handshaking history op := by
  cases op with
  | startHandler | setDeadline | storeHandshake | loadHandshake | clearDeadline | openUpstream =>
      cases hop
  | _ => trivial

abbrev Later {α : Type} (p : Prog α) : Prop :=
  Program.Confined (fun op : Op => op.isLater = true) p

theorem Later.always {α : Type} {p : Prog α} (hp : Later p) :
    p.Always Handshaking (fun _ _ => True) history :=
  Program.Confined.always hp fun history _ hop => handshaking_of_isLater hop history

theorem later_relay (conn : Nat) (replied : Bool) : Later (relay conn replied) := by
  cases replied with
  | true => exact ⟨rfl, fun _ => ⟨rfl, fun _ => trivial⟩⟩
  | false => trivial

theorem later_logConnClose (server : Server) (conn : Nat) : Later (logConnClose server conn) := by
  refine ⟨rfl, fun first => ⟨rfl, fun _ => ?_⟩⟩
  show Later (if first && server = .socks5 then act (.done conn) else pure ())
  split
  · exact ⟨rfl, fun _ => trivial⟩
  · trivial

theorem later_acceptLoop (rounds delay : Nat) : Later (acceptLoop .socks5 rounds delay) := by
  induction rounds generalizing delay with
  | zero => trivial
  | succ rounds ih =>
      refine ⟨rfl, fun closed => ?_⟩
      cases closed with
      | true => trivial
      | false =>
          refine ⟨rfl, fun accepted => ?_⟩
          match accepted with
          | .ok conn => exact ⟨rfl, fun _ => ih minDelay⟩
          | .error .closed => trivial
          | .error (.other err) => exact ⟨rfl, fun _ => ih _⟩

theorem later_shutdown : Later shutdown := by
  have hclose : Later closeResilient := by
    refine ⟨rfl, fun closed => ?_⟩
    cases closed with
    | true => trivial
    | false => exact ⟨rfl, fun result => by cases result <;> trivial⟩
  have hawait : Later awaitDrain := by
    refine ⟨rfl, fun drained => ⟨rfl, fun _ => ⟨rfl, fun ended => ?_⟩⟩⟩
    cases ended with
    | true => trivial
    | false => exact ⟨rfl, fun _ => trivial⟩
  have honce : ∀ first, Later (closeOnce first) := by
    intro first
    cases first with
    | true => exact hclose.bind fun _ => ⟨rfl, fun _ => trivial⟩
    | false => trivial
  refine ⟨rfl, fun first => (honce first).bind fun err => ?_⟩
  cases err with
  | none => exact hawait
  | some err => trivial

theorem dialCallback_handshaking (conn : Conn) (read : Option DialRequest)
    (request : DialRequest) : (dialCallback conn request).Always Handshaking (fun _ _ => True)
      (opening conn ++ [⟨.readHandshake conn.id, read⟩]) := by
  have hcleared : ∀ found : Option Nat, (clearFound found).Always Handshaking
      (fun history _ => history = loaded conn read found ++ cleared found)
      (opening conn ++ [⟨.readHandshake conn.id, read⟩] ++
        [⟨.loadHandshake conn.remoteAddr, found⟩]) := by
    intro found
    cases found with
    | none => simp [clearFound, cleared, loaded]
    | some x => exact ⟨⟨conn, read, by simp [loaded]⟩, fun _ => by simp [cleared, loaded]⟩
  cases request with
  | badAddress => trivial
  | unresolved =>
      refine ⟨⟨conn, read, rfl, rfl⟩, fun found => ?_⟩
      exact (hcleared found).bind fun _ _ _ => trivial
  | dial =>
      refine ⟨⟨conn, read, rfl, rfl⟩, fun found => ?_⟩
      apply (hcleared found).bind
      rintro _ _ rfl
      refine ⟨⟨conn, read, found, rfl, rfl⟩, fun opened => ?_⟩
      cases opened with
      | true => exact ⟨trivial, fun _ => ⟨trivial, fun _ => trivial⟩⟩
      | false => trivial

theorem libraryServeConn_handshaking (conn : Conn) :
    (libraryServeConn conn).Always Handshaking (fun _ _ => True) (opening conn) := by
  refine ⟨trivial, fun request => ?_⟩
  cases request with
  | none => exact ⟨trivial, fun _ => trivial⟩
  | some request =>
      apply (dialCallback_handshaking conn (some request) request).bind
      intro history dialed _
      cases dialed with
      | false => exact ⟨trivial, fun _ => trivial⟩
      | true =>
          refine ⟨trivial, fun replied => Later.always ?_⟩
          exact (later_relay conn.id replied).bind fun _ =>
            (later_logConnClose .socks5 conn.id).bind fun _ => ⟨rfl, fun _ => trivial⟩

theorem handler_handshaking : (handler .socks5).Always Handshaking (fun _ _ => True) [] := by
  refine ⟨rfl, fun conn => ⟨⟨conn, rfl, rfl⟩, fun _ => ⟨⟨conn, rfl, rfl, rfl⟩, fun _ => ?_⟩⟩⟩
  exact (libraryServeConn_handshaking conn).bind fun _ _ _ => ⟨trivial, fun _ => trivial⟩

theorem program_handshaking (call : Call) :
    (call.program .socks5).Always Handshaking (fun _ _ => True) [] := by
  cases call with
  | acceptLoop rounds => exact (later_acceptLoop rounds minDelay).always
  | handler => exact handler_handshaking
  | shutdown => exact later_shutdown.always
  | drain => exact ⟨trivial, fun _ => ⟨trivial, fun _ => ⟨trivial, fun _ => trivial⟩⟩⟩
  | closeAgain conn => exact (later_logConnClose .socks5 conn).always.bind fun _ _ _ => trivial

/-! ## Where the events of a handler are -/

section Run

variable {c : Config (proxying .socks5)} {schedule before after : List (Action (proxying .socks5))}
  {i j : Nat}

theorem handshaking_at {event : Event sig}
    (hrun : (proxying .socks5).run ⟨{}, []⟩ (before ++ .run i event :: after) = some c) :
    Handshaking (System.eventsOf i before) event.op := by
  obtain ⟨_, hguard⟩ := System.guarded_eventsOf program_handshaking hrun
  exact hguard

/-- A connection has one handler. -/
theorem handler_unique (hrun : (proxying .socks5).run ⟨{}, []⟩ schedule = some c)
    {conn conn' : Conn} (hi : .run i ⟨.startHandler, conn⟩ ∈ schedule)
    (hj : .run j ⟨.startHandler, conn'⟩ ∈ schedule) (hid : conn.id = conn'.id) : i = j := by
  obtain ⟨thread, hthread, hevent⟩ := (System.performed_iff_mem hrun).mpr hi
  obtain ⟨thread', hthread', hevent'⟩ := (System.performed_iff_mem hrun).mpr hj
  refine System.tally_thread_unique (run_accounted hrun).started hthread hthread'
    (List.mem_filterMap.mpr ⟨_, hevent, rfl⟩) (List.mem_filterMap.mpr ⟨_, hevent', ?_⟩)
  exact congrArg some hid.symm

/-- A handler starts with its connection. -/
theorem eventsOf_handler (hrun : (proxying .socks5).run ⟨{}, []⟩ schedule = some c)
    {conn : Conn} (hstart : .run i ⟨.startHandler, conn⟩ ∈ schedule) :
    ∃ rest, System.eventsOf i schedule = ⟨.startHandler, conn⟩ :: rest := by
  obtain ⟨before, after, rfl⟩ := List.append_of_mem hstart
  have hempty : System.eventsOf i before = [] := handshaking_at hrun
  exact ⟨System.eventsOf i after, by rw [System.eventsOf_mid, hempty, List.nil_append]⟩

/-- The event stores or deletes the entry of the address. -/
def Touches (src : Text) : Event sig → Prop
  | ⟨.storeHandshake other _, _⟩ | ⟨.deleteHandshake other, _⟩ => other = src
  | _ => False

def Undisturbed (src : Text) (between : List (Action (proxying .socks5))) : Prop :=
  ∀ j event, .run j event ∈ between → ¬ Touches src event

theorem not_touches_of_isIdle {op : Op} (hop : op.isIdle = true) (reply : op.Reply) (src : Text) :
    ¬ Touches src ⟨op, reply⟩ := by
  cases op <;> first | exact id | cases hop

theorem Effect.handshakes {w w' : World} {event : Event sig} (heffect : Effect w event w')
    {src : Text} (htouch : ¬ Touches src event) : w'.handshakes src = w.handshakes src := by
  cases heffect with
  | storeHandshake other => exact Function.update_of_ne (fun h => htouch h.symm) ..
  | deleteHandshake other => exact Function.update_of_ne (fun h => htouch h.symm) ..
  | _ => rfl

theorem Effect.touched {w w' : World} {event : Event sig} (heffect : Effect w event w')
    {src : Text} (htouch : Touches src event) {x : Nat}
    (hevent : event ≠ ⟨.storeHandshake src x, ()⟩) : w'.handshakes src ≠ some x := by
  cases heffect with
  | storeHandshake other y =>
      cases htouch
      simp only [Function.update_self, ne_eq, Option.some.injEq]
      rintro rfl
      exact hevent rfl
  | deleteHandshake other =>
      cases htouch
      simp
  | idle hop reply => exact absurd htouch (not_touches_of_isIdle hop reply src)
  | _ => exact htouch.elim

theorem Effect.stored {w w' : World} {src : Text} {x : Nat}
    (heffect : Effect w ⟨.storeHandshake src x, ()⟩ w') : w'.handshakes src = some x := by
  cases heffect with
  | storeHandshake => exact Function.update_self ..
  | idle hop => cases hop

theorem Effect.found {w w' : World} {src : Text} {found : Option Nat}
    (heffect : Effect w ⟨.loadHandshake src, found⟩ w') : found = w.handshakes src := by
  cases heffect with
  | loadHandshake => rfl
  | idle hop => cases hop

/-- A connection is stored once. -/
theorem store_once {rest : List (Action (proxying .socks5))} {src src' : Text} {x : Nat}
    (hrun : (proxying .socks5).run ⟨{}, []⟩
      (before ++ .run i ⟨.storeHandshake src x, ()⟩ :: rest) = some c) :
    .run j ⟨.storeHandshake src' x, ()⟩ ∉ rest := by
  intro hmem
  obtain ⟨between, after, rfl⟩ := List.append_of_mem hmem
  have hrun' : (proxying .socks5).run ⟨{}, []⟩
      ((before ++ .run i ⟨.storeHandshake src x, ()⟩ :: between) ++
        .run j ⟨.storeHandshake src' x, ()⟩ :: after) = some c := by
    rwa [List.append_assoc, List.cons_append]
  obtain ⟨conn, hid, _, hevents⟩ := handshaking_at hrun
  obtain ⟨conn', hid', _, hevents'⟩ := handshaking_at hrun'
  have hi := System.mem_eventsOf.mp (hevents ▸ List.mem_cons_self)
  have hj := System.mem_eventsOf.mp (hevents' ▸ List.mem_cons_self)
  cases handler_unique hrun' (List.mem_append_left _ (List.mem_append_left _ hi))
    (List.mem_append_left _ hj) (hid.symm.trans hid')
  rw [System.eventsOf_mid, hevents] at hevents'
  cases hevents'

/-- The callback finds its connection if nobody has touched the entry since. -/
theorem found_iff {between : List (Action (proxying .socks5))} {src : Text} {x : Nat}
    {found : Option Nat} (hrun : (proxying .socks5).run ⟨{}, []⟩
      (before ++ .run i ⟨.storeHandshake src x, ()⟩ ::
        (between ++ .run i ⟨.loadHandshake src, found⟩ :: after)) = some c) :
    found = some x ↔ Undisturbed src between := by
  have honce : ∀ j, .run j ⟨.storeHandshake src x, ()⟩ ∉ between :=
    fun j hmem => store_once hrun (List.mem_append_left _ hmem)
  obtain ⟨c₀, c₁, _, hstore, hrest⟩ := System.run_split.mp hrun
  obtain ⟨c₂, c₃, hbetween, hload, _⟩ := System.run_split.mp hrest
  obtain ⟨_, _, _, _, hstored⟩ := step_effect hstore
  obtain ⟨_, _, _, _, hfound⟩ := step_effect hload
  rw [hfound.found]
  constructor
  · intro hown j event hmem htouch
    obtain ⟨first, second, rfl⟩ := List.append_of_mem hmem
    obtain ⟨_, c₄, _, hstep, hsecond⟩ := System.run_split.mp hbetween
    obtain ⟨_, _, _, _, heffect⟩ := step_effect hstep
    have hlost := heffect.touched htouch (x := x) fun hevent => honce j (hevent ▸ hmem)
    refine run_world_invariant (· ≠ ⟨.storeHandshake src x, ()⟩)
      (fun w => w.handshakes src ≠ some x) ?_ ?_ hlost hsecond hown
    · intro w event w' hallowed heffect hw
      by_cases htouch : Touches src event
      · exact heffect.touched htouch hallowed
      · rw [heffect.handshakes htouch]
        exact hw
    · rintro j event hmem rfl
      exact honce j (by simp [hmem])
  · intro hundisturbed
    refine run_world_invariant (¬ Touches src ·) (fun w => w.handshakes src = some x) ?_
      hundisturbed hstored.stored hbetween
    intro w event w' htouch heffect hw
    rw [heffect.handshakes htouch]
    exact hw

/-! ## Deadlines -/

theorem Effect.armed {w w' : World} {event : Event sig} (heffect : Effect w event w') {x : Nat}
    (hset : event ≠ ⟨.setDeadline x, ()⟩) (harmed : w.armed x = false) : w'.armed x = false := by
  cases heffect with
  | setDeadline other =>
      refine (Function.update_of_ne ?_ ..).trans harmed
      rintro rfl
      exact hset rfl
  | clearDeadline other => grind
  | _ => exact harmed

theorem Effect.unarmed {w w' : World} {event : Event sig} (heffect : Effect w event w') {x : Nat}
    (hclear : event ≠ ⟨.clearDeadline x, ()⟩) (harmed : w.armed x = true) : w'.armed x = true := by
  cases heffect with
  | setDeadline other => grind
  | clearDeadline other =>
      refine (Function.update_of_ne ?_ ..).trans harmed
      rintro rfl
      exact hclear rfl
  | _ => exact harmed

theorem Effect.set {w w' : World} {x : Nat} (heffect : Effect w ⟨.setDeadline x, ()⟩ w') :
    w'.armed x = true := by
  cases heffect with
  | setDeadline => exact Function.update_self ..
  | idle hop => cases hop

theorem Effect.cleared {w w' : World} {x : Nat} (heffect : Effect w ⟨.clearDeadline x, ()⟩ w') :
    w'.armed x = false := by
  cases heffect with
  | clearDeadline => exact Function.update_self ..
  | idle hop => cases hop

/-- A deadline that its own callback has cleared is not set again. -/
theorem unarmed_of_cleared (hrun : (proxying .socks5).run ⟨{}, []⟩ schedule = some c)
    {conn : Conn} (hstart : .run i ⟨.startHandler, conn⟩ ∈ schedule)
    (hclear : .run i ⟨.clearDeadline conn.id, ()⟩ ∈ schedule) : c.state.armed conn.id = false := by
  obtain ⟨before, after, rfl⟩ := List.append_of_mem hclear
  obtain ⟨_, _, _, hstep, hafter⟩ := System.run_split.mp hrun
  obtain ⟨_, _, _, _, heffect⟩ := step_effect hstep
  refine run_world_invariant (· ≠ ⟨.setDeadline conn.id, ()⟩) (fun w => w.armed conn.id = false)
    (fun _ _ _ hset heffect => heffect.armed hset) ?_ heffect.cleared hafter
  rintro j event hmem rfl
  obtain ⟨between, rest, rfl⟩ := List.append_of_mem hmem
  have hrun' : (proxying .socks5).run ⟨{}, []⟩
      ((before ++ .run i ⟨.clearDeadline conn.id, ()⟩ :: between) ++
        .run j ⟨.setDeadline conn.id, ()⟩ :: rest) = some c := by
    rwa [List.append_assoc, List.cons_append]
  obtain ⟨conn', hid, hevents⟩ := handshaking_at hrun'
  have hj := System.mem_eventsOf.mp (hevents ▸ List.mem_cons_self)
  cases handler_unique hrun hstart (by simpa using List.mem_append_left _ hj) hid
  obtain ⟨_, request, hloaded⟩ := handshaking_at hrun
  rw [System.eventsOf_mid, hloaded] at hevents
  cases hevents

/-- A deadline stays until somebody clears it. -/
theorem armed_of_set (hrun : (proxying .socks5).run ⟨{}, []⟩ schedule = some c) {x : Nat}
    (hset : .run i ⟨.setDeadline x, ()⟩ ∈ schedule)
    (hclear : ∀ j, .run j ⟨.clearDeadline x, ()⟩ ∉ schedule) : c.state.armed x = true := by
  obtain ⟨before, after, rfl⟩ := List.append_of_mem hset
  obtain ⟨_, _, _, hstep, hafter⟩ := System.run_split.mp hrun
  obtain ⟨_, _, _, _, heffect⟩ := step_effect hstep
  refine run_world_invariant (· ≠ ⟨.clearDeadline x, ()⟩) (fun w => w.armed x = true)
    (fun _ _ _ hclear heffect => heffect.unarmed hclear) ?_ heffect.set hafter
  rintro j event hmem rfl
  exact hclear j (by simp [hmem])

/-- Every callback that dials does so with its own deadline cleared, and none
clears the deadline of another connection. -/
structure DeadlinesLifted (schedule : List (Action (proxying .socks5))) : Prop where
  lifted : ∀ before after i x opened c,
    schedule = before ++ .run i ⟨.openUpstream x, opened⟩ :: after →
    (proxying .socks5).run ⟨{}, []⟩ before = some c → c.state.armed x = false
  own : ∀ i conn x, .run i ⟨.startHandler, conn⟩ ∈ schedule →
    .run i ⟨.clearDeadline x, ()⟩ ∈ schedule → x = conn.id

/-- While a connection whose callback clears a deadline or dials is between
`Store` and `Load`, nobody else stores or deletes its remote address. -/
def CallbacksUndisturbed (schedule : List (Action (proxying .socks5))) : Prop :=
  ∀ before between after i src x found,
    schedule = before ++ .run i ⟨.storeHandshake src x, ()⟩ ::
      (between ++ .run i ⟨.loadHandshake src, found⟩ :: after) →
    (∃ y, .run i ⟨.clearDeadline y, ()⟩ ∈ schedule) ∨
      (∃ opened, .run i ⟨.openUpstream x, opened⟩ ∈ schedule) →
    Undisturbed src between

/-- Where a callback has read the entry of its address. -/
theorem split_of_loaded {conn : Conn} {request : Option DialRequest} {found : Option Nat}
    {rest : List (Event sig)}
    (hevents : System.eventsOf i schedule = loaded conn request found ++ rest) :
    ∃ before between after, schedule = before ++
      .run i ⟨.storeHandshake conn.remoteAddr conn.id, ()⟩ ::
        (between ++ .run i ⟨.loadHandshake conn.remoteAddr, found⟩ :: after) := by
  have hstored : System.eventsOf i schedule = [⟨.startHandler, conn⟩, ⟨.setDeadline conn.id, ()⟩] ++
      ⟨.storeHandshake conn.remoteAddr conn.id, ()⟩ :: ([⟨.readHandshake conn.id, request⟩] ++
        ⟨.loadHandshake conn.remoteAddr, found⟩ :: rest) := by
    rw [hevents]
    rfl
  obtain ⟨before, later, rfl, _, hlater⟩ := System.eventsOf_split hstored
  obtain ⟨between, after, rfl, _, _⟩ := System.eventsOf_split hlater
  exact ⟨before, between, after, rfl⟩

/-- A callback clears what it found. -/
theorem loaded_of_clear (hrun : (proxying .socks5).run ⟨{}, []⟩ schedule = some c) {x : Nat}
    (hclear : .run i ⟨.clearDeadline x, ()⟩ ∈ schedule) :
    ∃ conn request rest, System.eventsOf i schedule = loaded conn request (some x) ++ rest := by
  obtain ⟨before, after, rfl⟩ := List.append_of_mem hclear
  obtain ⟨conn, request, hevents⟩ := handshaking_at hrun
  exact ⟨conn, request, _, by rw [System.eventsOf_mid, hevents]⟩

/-- A callback that dials has cleared what it found. -/
theorem loaded_of_dial {x : Nat} {opened : Bool} (hrun : (proxying .socks5).run ⟨{}, []⟩
      (before ++ .run i ⟨.openUpstream x, opened⟩ :: after) = some c) :
    ∃ conn request found rest, x = conn.id ∧
      System.eventsOf i before = loaded conn request found ++ cleared found ∧
      System.eventsOf i (before ++ .run i ⟨.openUpstream x, opened⟩ :: after) =
        loaded conn request found ++ rest := by
  obtain ⟨conn, request, found, hid, hevents⟩ := handshaking_at hrun
  exact ⟨conn, request, found, _, hid, hevents,
    by rw [System.eventsOf_mid, hevents, List.append_assoc]⟩

theorem loaded_of_load {between : List (Action (proxying .socks5))} {src : Text} {x : Nat}
    {found : Option Nat} (hrun : (proxying .socks5).run ⟨{}, []⟩
      (before ++ .run i ⟨.storeHandshake src x, ()⟩ ::
        (between ++ .run i ⟨.loadHandshake src, found⟩ :: after)) = some c) :
    ∃ conn request rest, x = conn.id ∧
      System.eventsOf i (before ++ .run i ⟨.storeHandshake src x, ()⟩ ::
        (between ++ .run i ⟨.loadHandshake src, found⟩ :: after)) =
        loaded conn request found ++ rest := by
  obtain ⟨conn, rfl, rfl, hstored⟩ := handshaking_at hrun
  rw [← List.cons_append, ← List.append_assoc] at hrun ⊢
  obtain ⟨conn', request, _, hevents⟩ := handshaking_at hrun
  rw [System.eventsOf_mid, hevents]
  rw [System.eventsOf_mid, hstored] at hevents
  obtain ⟨⟨⟩, _⟩ := List.cons_eq_cons.mp hevents
  exact ⟨conn, request, _, rfl, rfl⟩

theorem mem_of_loaded {conn : Conn} {request : Option DialRequest} {found : Option Nat}
    {rest : List (Event sig)}
    (hevents : System.eventsOf i schedule = loaded conn request found ++ rest) {event : Event sig}
    (hevent : event ∈ loaded conn request found ++ rest) : .run i event ∈ schedule :=
  System.mem_eventsOf.mp (hevents ▸ hevent)

/-- A callback that nobody disturbs finds its own connection. -/
theorem CallbacksUndisturbed.found_own (hcallbacks : CallbacksUndisturbed schedule)
    (hrun : (proxying .socks5).run ⟨{}, []⟩ schedule = some c) {conn : Conn}
    {request : Option DialRequest} {found : Option Nat} {rest : List (Event sig)}
    (hevents : System.eventsOf i schedule = loaded conn request found ++ rest)
    (hacts : (∃ y, .run i ⟨.clearDeadline y, ()⟩ ∈ schedule) ∨
      (∃ opened, .run i ⟨.openUpstream conn.id, opened⟩ ∈ schedule)) : found = some conn.id := by
  obtain ⟨before, between, after, rfl⟩ := split_of_loaded hevents
  exact (found_iff hrun).mpr (hcallbacks before between after i _ _ found rfl hacts)

theorem CallbacksUndisturbed.deadlinesLifted (hcallbacks : CallbacksUndisturbed schedule)
    (hrun : (proxying .socks5).run ⟨{}, []⟩ schedule = some c) : DeadlinesLifted schedule := by
  constructor
  · rintro before after i x opened c₀ rfl hbefore
    obtain ⟨conn, request, found, rest, rfl, hevents, hall⟩ := loaded_of_dial hrun
    cases hcallbacks.found_own hrun hall (.inr ⟨opened, by simp⟩)
    apply unarmed_of_cleared hbefore
    · exact mem_of_loaded hevents (by simp [loaded, opening])
    · exact mem_of_loaded hevents (by simp [cleared])
  · intro i conn x hstart hclear
    obtain ⟨conn', request, rest, hevents⟩ := loaded_of_clear hrun hclear
    obtain ⟨rest', hhead⟩ := eventsOf_handler hrun hstart
    cases hhead.symm.trans hevents
    cases hcallbacks.found_own hrun hevents (.inl ⟨x, hclear⟩)
    rfl

/-- What a callback that keeps to its own deadline found. -/
theorem DeadlinesLifted.found_own (hlifted : DeadlinesLifted schedule)
    (hrun : (proxying .socks5).run ⟨{}, []⟩ schedule = some c) {conn : Conn}
    {request : Option DialRequest} {found : Option Nat} {rest : List (Event sig)}
    (hevents : System.eventsOf i schedule = loaded conn request found ++ rest) :
    ((∃ y, .run i ⟨.clearDeadline y, ()⟩ ∈ schedule) → found = some conn.id) ∧
      ((∃ opened, .run i ⟨.openUpstream conn.id, opened⟩ ∈ schedule) → found = some conn.id) := by
  have hstart : .run i ⟨.startHandler, conn⟩ ∈ schedule :=
    mem_of_loaded hevents (by simp [loaded, opening])
  have hclears : (∃ y, .run i ⟨.clearDeadline y, ()⟩ ∈ schedule) → found = some conn.id := by
    rintro ⟨y, hclear⟩
    obtain ⟨conn', request', rest', hevents'⟩ := loaded_of_clear hrun hclear
    cases hevents.symm.trans hevents'
    rw [hlifted.own i conn y hstart hclear]
  refine ⟨hclears, ?_⟩
  rintro ⟨opened, hopen⟩
  obtain ⟨before, after, rfl⟩ := List.append_of_mem hopen
  obtain ⟨conn', request', found', rest', _, hevents', hall⟩ := loaded_of_dial hrun
  cases hevents.symm.trans hall
  cases found with
  | some y => exact hclears ⟨y, List.mem_append_left _ (mem_of_loaded hevents' (by simp [cleared]))⟩
  | none =>
      -- Nobody else clears the deadline either, so it is still set at the dial.
      exfalso
      obtain ⟨c₀, _, hbefore, _, _⟩ := System.run_split.mp hrun
      have harmed : c₀.state.armed conn.id = true := by
        apply armed_of_set hbefore
        · exact mem_of_loaded hevents' (by simp [loaded, opening])
        · intro j hclear
          have hclear' := List.mem_append_left
            (.run i ⟨.openUpstream conn.id, opened⟩ :: after) hclear
          obtain ⟨conn', request', rest', hother⟩ := loaded_of_clear hrun hclear'
          have hstart' := mem_of_loaded hother
            (show ⟨.startHandler, conn'⟩ ∈ _ by simp [loaded, opening])
          have hid := hlifted.own j conn' conn.id hstart' hclear'
          cases handler_unique hrun hstart hstart' hid
          cases hevents.symm.trans hother
      cases harmed.symm.trans (hlifted.lifted before after i conn.id opened c₀ rfl hbefore)

/-- In every run, deadlines are lifted for the right connections if and only
if nobody stores or deletes the remote address of a connection whose callback
acts, between its `Store` and its `Load`. -/
theorem deadlines_lifted_iff (hrun : (proxying .socks5).run ⟨{}, []⟩ schedule = some c) :
    DeadlinesLifted schedule ↔ CallbacksUndisturbed schedule := by
  refine ⟨fun hlifted => ?_, fun hcallbacks => hcallbacks.deadlinesLifted hrun⟩
  rintro before between after i src x found rfl hacts
  rw [← found_iff hrun]
  obtain ⟨conn, request, rest, rfl, hevents⟩ := loaded_of_load hrun
  have hfound := hlifted.found_own hrun hevents
  rcases hacts with hclear | hopen
  · exact hfound.1 hclear
  · exact hfound.2 hopen

end Run

/-! ### Connections with one remote address -/

def firstConn : Conn := ⟨0, "192.0.2.1:1000".toUTF8.toList⟩

def secondConn : Conn := ⟨1, "192.0.2.1:1000".toUTF8.toList⟩

/-- The accept loop hands on both connections. -/
def acceptBoth : List (Action (proxying .socks5)) :=
  [.spawn (.acceptLoop 2), .run 0 ⟨.loadClosed, false⟩, .run 0 ⟨.accept, .ok firstConn⟩,
    .run 0 ⟨.goHandler firstConn, ()⟩, .run 0 ⟨.loadClosed, false⟩,
    .run 0 ⟨.accept, .ok secondConn⟩, .run 0 ⟨.goHandler secondConn, ()⟩, .spawn .handler,
    .spawn .handler]

def openAt (i : Nat) (conn : Conn) : List (Action (proxying .socks5)) :=
  (opening conn).map (fun event => .run i event) ++ [.run i ⟨.readHandshake conn.id, some .dial⟩]

/-- Both are in their handshakes; the first callback finds the second one. -/
def crossed : List (Action (proxying .socks5)) :=
  acceptBoth ++ openAt 1 firstConn ++ openAt 2 secondConn ++
    [.run 1 ⟨.loadHandshake firstConn.remoteAddr, some 1⟩, .run 1 ⟨.clearDeadline 1, ()⟩,
      .run 1 ⟨.openUpstream 0, true⟩]

/-- The first one has been relayed, and returns while the second one is in its
handshake; the second callback finds nothing. -/
def outlived : List (Action (proxying .socks5)) :=
  acceptBoth ++ openAt 1 firstConn ++
    [.run 1 ⟨.loadHandshake firstConn.remoteAddr, some 0⟩, .run 1 ⟨.clearDeadline 0, ()⟩,
      .run 1 ⟨.openUpstream 0, true⟩, .run 1 ⟨.add 0, ()⟩, .run 1 ⟨.newLogConn 0, ()⟩,
      .run 1 ⟨.sendReply 0, true⟩, .run 1 ⟨.relayBegin 0, ()⟩] ++
    openAt 2 secondConn ++
    [.run 1 ⟨.relayEnd 0, ()⟩, .run 1 ⟨.casClosed 0, true⟩, .run 1 ⟨.closeUpstream 0, .ok ()⟩,
      .run 1 ⟨.done 0, ()⟩, .run 1 ⟨.closeClient 0, ()⟩,
      .run 1 ⟨.deleteHandshake firstConn.remoteAddr, ()⟩,
      .run 2 ⟨.loadHandshake secondConn.remoteAddr, none⟩]

/-- The first callback has found its connection before the second one is
stored. -/
def inTurn : List (Action (proxying .socks5)) :=
  acceptBoth ++ openAt 1 firstConn ++
    [.run 1 ⟨.loadHandshake firstConn.remoteAddr, some 0⟩, .run 1 ⟨.clearDeadline 0, ()⟩,
      .run 1 ⟨.openUpstream 0, true⟩] ++
    openAt 2 secondConn ++
    [.run 2 ⟨.loadHandshake secondConn.remoteAddr, some 1⟩, .run 2 ⟨.clearDeadline 1, ()⟩,
      .run 2 ⟨.openUpstream 1, true⟩]

theorem inTurn_undisturbed {c : Config (proxying .socks5)}
    (hrun : (proxying .socks5).run ⟨{}, []⟩ inTurn = some c) : CallbacksUndisturbed inTurn := by
  rintro before between after i src x found hsplit -
  have hstore : .run i ⟨.storeHandshake src x, ()⟩ ∈ inTurn := by simp [hsplit]
  have hload : .run i ⟨.loadHandshake src, found⟩ ∈ inTurn := by simp [hsplit]
  have hx : i = 1 ∧ x = 0 ∨ i = 2 ∧ x = 1 := by
    simp [inTurn, acceptBoth, openAt, opening, firstConn, secondConn] at hstore
    tauto
  have hfound : i = 1 ∧ found = some 0 ∨ i = 2 ∧ found = some 1 := by
    simp [inTurn, acceptBoth, openAt, opening] at hload
    tauto
  rw [hsplit] at hrun
  refine (found_iff hrun).mp ?_
  grind

/-- A callback clears the deadline of the other connection, and a callback
dials with its own deadline set. -/
theorem sharedAddress_deadlines :
    ((∃ c, (proxying .socks5).run ⟨{}, []⟩ crossed = some c) ∧ ¬ DeadlinesLifted crossed) ∧
      (∃ c, (proxying .socks5).run ⟨{}, []⟩
        (outlived ++ [.run 2 ⟨.openUpstream 1, true⟩]) = some c) ∧
      ¬ DeadlinesLifted (outlived ++ [.run 2 ⟨.openUpstream 1, true⟩]) := by
  refine ⟨⟨Option.isSome_iff_exists.mp (by decide +kernel), fun hlifted => ?_⟩,
    Option.isSome_iff_exists.mp (by decide +kernel), fun hlifted => ?_⟩
  · have hown := hlifted.own 1 firstConn 1
      (by simp [crossed, openAt, opening]) (by simp [crossed])
    exact absurd hown (by decide)
  · have harmed : ((proxying .socks5).run ⟨{}, []⟩ outlived).any
        (fun c => c.state.armed 1) = true := by decide +kernel
    obtain ⟨c, hrun, harmed⟩ := (Option.any_eq_true ..).mp harmed
    cases harmed.symm.trans (hlifted.lifted outlived [] 2 1 true c rfl hrun)

theorem crossed_iff :
    (∃ c, (proxying .socks5).run ⟨{}, []⟩ crossed = some c) ∧
      (DeadlinesLifted crossed ↔ CallbacksUndisturbed crossed) ∧
      (∃ c, (proxying .socks5).run ⟨{}, []⟩ inTurn = some c) ∧ DeadlinesLifted inTurn := by
  obtain ⟨c, hrun⟩ : ∃ c, (proxying .socks5).run ⟨{}, []⟩ crossed = some c :=
    Option.isSome_iff_exists.mp (by decide +kernel)
  obtain ⟨d, hrunTurn⟩ : ∃ d, (proxying .socks5).run ⟨{}, []⟩ inTurn = some d :=
    Option.isSome_iff_exists.mp (by decide +kernel)
  exact ⟨⟨c, hrun⟩, deadlines_lifted_iff hrun, ⟨d, hrunTurn⟩,
    (deadlines_lifted_iff hrunTurn).mpr (inTurn_undisturbed hrunTurn)⟩

end SshGate.Proxy
