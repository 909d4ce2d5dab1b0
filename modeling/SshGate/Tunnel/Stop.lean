import SshGate.Interaction.System
import SshGate.Tunnel.Machine

/-! # Stopping the dialer

`stop` sets `done`, reads `d.client` and closes it. The monitor looks at `done`
before it publishes a client, but the check and the publication are two steps:
a `stop` that runs between them closes nothing, and the client that is
published afterwards stays open.
-/

namespace SshGate.Tunnel

open Go Interaction Program

/-! ## The monitor next to `stop` -/

inductive Call where
  | monitor (rounds : Nat)
  | stop
  deriving Repr, DecidableEq

def Call.program (cfg : SshDialerCfg) : Call → Prog Unit
  | .monitor rounds => Tunnel.monitor cfg rounds cfg.fingerprint 0 0
  | .stop => Tunnel.stop

/-- Calls of the dialer; outside them, connections of clients end. -/
@[reducible] def dialing (cfg : SshDialerCfg) : System where
  sig := sig
  Call := Call
  Result := Unit
  program := Call.program cfg
  State := Machine
  Disturbance := Nat
  perform := Machine.perform
  disturb m client := m.disturb (.lost client)

/-- The monitor and one `stop`, before their first steps. -/
def started (cfg : SshDialerCfg) (store : Store) (rounds : Nat) : Config (dialing cfg) where
  state := ⟨store, {}⟩
  threads := [(dialing cfg).start (.monitor rounds), (dialing cfg).start .stop]

/-- What an action does to the fields of the dialer. -/
structure DialerEffect (d : Dialer) (event : Event sig) (d' : Dialer) : Prop where
  ended : ∀ client, d.ended client = true → d'.ended client = true
  done : d.done = true → d'.done = true
  client : d'.client = d.client ∨ d'.client = none ∨
    ∃ client reply, event = ⟨.publish client, reply⟩ ∧ d'.client = some client
  loaded : ∀ reply, event = ⟨.loadDone, reply⟩ → reply = d.done
  stored : event = ⟨.storeDone, ()⟩ → d'.done = true
  read : ∀ reply, event = ⟨.getClient, reply⟩ → reply = d.client ∧ d' = d
  closed : ∀ client, event = ⟨.closeClient client, ()⟩ → d'.ended client = true

theorem dialerEffect_of_perform {op : Op} {d d' : Dialer} {reply : op.Reply}
    (hperform : d.perform op reply = some d') : DialerEffect d ⟨op, reply⟩ d' := by
  cases op with
  | getClient =>
      simp only [Dialer.perform, Option.ite_none_right_eq_some, Option.some.injEq] at hperform
      obtain ⟨rfl, rfl⟩ := hperform
      constructor <;> simp
  | loadDone =>
      simp only [Dialer.perform, Option.ite_none_right_eq_some, Option.some.injEq] at hperform
      obtain ⟨rfl, rfl⟩ := hperform
      constructor <;> simp
  | publish client =>
      simp only [Dialer.perform, Option.ite_none_right_eq_some, Option.some.injEq] at hperform
      obtain ⟨rfl, rfl⟩ := hperform
      constructor <;> simp
  | closeClient client =>
      simp only [Dialer.perform, Option.some.injEq] at hperform
      subst hperform
      constructor <;> simp [Function.update_apply]
      exact fun other hother => .inr hother
  | wait | intn =>
      simp only [Dialer.perform, Option.ite_none_right_eq_some, Option.some.injEq] at hperform
      obtain ⟨_, rfl⟩ := hperform
      constructor <;> simp
  | _ =>
      simp only [Dialer.perform, Option.some.injEq] at hperform
      subst hperform
      constructor <;> simp

/-! ## One connect -/

/-- The actions of a connect; all others are the monitor's own or `stop`'s. -/
def Op.inConnect : Op → Bool
  | .getClient | .wait _ | .clearClient | .publish _ | .loadDone | .storeDone | .setStatus _
  | .sleep _ | .intn _ => false
  | _ => true

/-- The actions on a temporary file. -/
def Op.onFile : Op → Bool
  | .createTemp | .write _ _ | .chmod _ _ | .sync _ | .close _ | .rename _ _ | .remove _ => true
  | _ => false

theorem Op.inConnect_of_onFile {op : Op} (hop : op.onFile = true) : op.inConnect = true := by
  cases op <;> first | rfl | cases hop

theorem orClose_onFile {tmp : Nat} {first next : Prog (Except Text Unit)}
    (hfirst : Confined (fun op : Op => op.onFile = true) first)
    (hnext : Confined (fun op : Op => op.onFile = true) next) :
    Confined (fun op : Op => op.onFile = true) (orClose tmp first next) := by
  refine Confined.bind hfirst fun result => ?_
  cases result with
  | error err => exact Confined.perform rfl fun _ => trivial
  | ok value => exact hnext

theorem writeFileAtomic_onFile (file : DataFile) (data : Text) (perm : Nat) :
    Confined (fun op : Op => op.onFile = true) (writeFileAtomic file data perm) := by
  refine Confined.perform rfl fun created => ?_
  cases created with
  | error err => trivial
  | ok tmp =>
      refine Confined.bind ?_ fun result => Confined.perform rfl fun _ => trivial
      apply orClose_onFile
      · refine Confined.perform rfl fun written => ?_
        cases written <;> trivial
      apply orClose_onFile
      · exact ⟨rfl, fun _ => trivial⟩
      apply orClose_onFile
      · exact ⟨rfl, fun _ => trivial⟩
      refine Confined.perform rfl fun closed => ?_
      cases closed with
      | error err => trivial
      | ok value => exact ⟨rfl, fun _ => trivial⟩

theorem newClientConn_inConnect (cfg : SshDialerCfg) :
    Confined (fun op : Op => op.inConnect = true) (newClientConn cfg) := by
  refine Confined.perform rfl fun exchanged => ?_
  cases exchanged with
  | error err => trivial
  | ok remoteKey =>
      simp only
      split
      next => trivial
      next =>
        refine Confined.perform rfl fun result => ?_
        cases result <;> trivial

theorem pinHostKey_inConnect (cfg : SshDialerCfg) (client : Nat) (key : Option HostKey) :
    Confined (fun op : Op => op.inConnect = true) (pinHostKey cfg client key) := by
  cases key with
  | none => trivial
  | some key =>
      simp only [pinHostKey]
      split
      next =>
        have hwrite := (writeFileAtomic_onFile .sshKnownHosts
          (sshFingerprint cfg.sha256 key) 0o600).imp fun _ => Op.inConnect_of_onFile
        refine Confined.bind hwrite fun saved => ?_
        cases saved with
        | error err => exact Confined.perform rfl fun _ => trivial
        | ok value => trivial
      next => trivial

theorem handshake_inConnect (cfg : SshDialerCfg) (addr : Text) :
    Confined (fun op : Op => op.inConnect = true) (handshake cfg addr) := by
  refine Confined.perform rfl fun set => ?_
  cases set with
  | error err => exact Confined.perform rfl fun _ => trivial
  | ok value =>
      refine Confined.bind (newClientConn_inConnect cfg) fun result => ?_
      cases result with
      | error err => exact Confined.perform rfl fun _ => trivial
      | ok remoteKey =>
          refine Confined.perform rfl fun cleared => ?_
          cases cleared with
          | error err => exact Confined.perform rfl fun _ => trivial
          | ok value =>
              exact Confined.perform rfl fun client => pinHostKey_inConnect cfg client remoteKey

theorem connectSSH_inConnect (cfg : SshDialerCfg) :
    Confined (fun op : Op => op.inConnect = true) (connectSSH cfg) := by
  refine Confined.perform rfl fun keyData => ?_
  cases keyData with
  | error err => trivial
  | ok keyData =>
      refine Confined.perform rfl fun signer => ?_
      cases signer with
      | error err => trivial
      | ok value =>
          refine Confined.perform rfl fun dialed => ?_
          cases dialed with
          | error err => trivial
          | ok value => exact handshake_inConnect cfg _

/-! ## The monitor -/

/-- A client is published right after a check that found `done` unset. -/
def PublishStep (history : List (Event sig)) (op : Op) : Prop :=
  ∀ client, op = .publish client → history.getLast? = some ⟨.loadDone, false⟩

theorem Confined.publishStep {α : Type} {p : Prog α}
    (hp : Confined (fun op : Op => ∀ client, op ≠ .publish client) p)
    (history : List (Event sig)) : p.Always PublishStep (fun _ _ => True) history :=
  hp.always fun _ _ hop client heq => absurd heq (hop client)

theorem awaitLoss_publishStep (client : Option Nat) (history : List (Event sig)) :
    (awaitLoss client).Always PublishStep (fun _ _ => True) history := by
  apply Confined.publishStep
  cases client with
  | none => trivial
  | some client =>
      refine Confined.perform nofun fun _ => Confined.perform nofun fun done => ?_
      cases done with
      | true => trivial
      | false => exact Confined.perform nofun fun _ => Confined.perform nofun fun _ => trivial

theorem closeOld_publishStep (old : Option Nat) (history : List (Event sig)) :
    (closeOld old).Always PublishStep (fun _ _ => True) history := by
  apply Confined.publishStep
  cases old with
  | none => trivial
  | some client => exact ⟨nofun, fun _ => trivial⟩

theorem connectSSH_publishStep (cfg : SshDialerCfg) (history : List (Event sig)) :
    (connectSSH cfg).Always PublishStep (fun _ _ => True) history := by
  refine Confined.publishStep ((connectSSH_inConnect cfg).imp ?_) history
  rintro op hop client rfl
  cases hop

theorem monitor_publishStep (cfg : SshDialerCfg) (rounds : Nat) (pinned : Text)
    (attempt delay : Nat) (history : List (Event sig)) :
    (monitor cfg rounds pinned attempt delay).Always PublishStep (fun _ _ => True) history := by
  induction rounds generalizing pinned attempt delay history with
  | zero => trivial
  | succ rounds ih =>
      refine Always.perform nofun fun client => ?_
      refine Always.bind (awaitLoss_publishStep client _) fun history stopped _ => ?_
      cases stopped with
      | true => trivial
      | false =>
          refine Always.perform nofun fun _ => Always.perform nofun fun done => ?_
          cases done with
          | true => trivial
          | false =>
              refine Always.bind (connectSSH_publishStep _ _) fun history connected _ => ?_
              cases connected with
              | error err =>
                  refine Always.perform nofun fun jitter => Always.perform nofun fun _ => ?_
                  exact ih _ _ _ _
              | ok found =>
                  refine Always.perform nofun fun done => ?_
                  cases done with
                  | true => exact Always.perform nofun fun _ => trivial
                  | false =>
                      refine Always.perform (fun _ _ => List.getLast?_concat ..) fun old => ?_
                      refine Always.bind (closeOld_publishStep old _) fun history _ _ => ?_
                      exact Always.perform nofun fun _ => ih _ _ _ _

/-- What the monitor alone changes: `d.client`, and how often it was set. -/
structure Slot where
  client : Option Nat
  published : Nat

def Machine.slot (m : Machine) : Slot := ⟨m.dialer.client, m.store.published.length⟩

def Slot.perform : (op : Op) → Slot → op.Reply → Option Slot
  | .getClient, v, client => if client = v.client then some v else none
  | .clearClient, v, () => some { v with client := none }
  | .publish client, v, _ => some ⟨some client, v.published + 1⟩
  | _, v, _ => some v

/-- How many clients an action publishes. -/
def Op.publications : Op → Nat
  | .publish _ => 1
  | _ => 0

theorem Store.perform_published {op : Op} {s s' : Store} {reply : op.Reply}
    (hperform : s.perform op reply = some s') :
    s'.published.length = s.published.length + op.publications := by
  cases op with
  | publish client =>
      cases hperform
      exact List.length_append
  | readFile | createTemp | authenticate =>
      cases reply <;>
        simp only [Store.perform, Option.ite_none_right_eq_some, Option.some.injEq] at hperform <;>
        grind [Op.publications]
  | write =>
      cases reply <;> cases hperform <;> rfl
  | rename =>
      cases reply with
      | error err => cases hperform; rfl
      | ok value =>
          obtain ⟨data, _, rfl⟩ := Option.map_eq_some_iff.mp hperform
          rfl
  | newClient =>
      simp only [Store.perform, Option.ite_none_right_eq_some, Option.some.injEq] at hperform
      rw [← hperform.2]
      rfl
  | _ =>
      cases hperform
      rfl

theorem Machine.perform_eq_some {op : Op} {m m' : Machine} {reply : op.Reply} :
    m.perform op reply = some m' ↔
      m.store.perform op reply = some m'.store ∧ m.dialer.perform op reply = some m'.dialer := by
  simp only [Machine.perform, Option.bind_eq_some_iff, Option.map_eq_some_iff]
  constructor
  · rintro ⟨store, hstore, dialer, hdialer, rfl⟩
    exact ⟨hstore, hdialer⟩
  · rintro ⟨hstore, hdialer⟩
    exact ⟨m'.store, hstore, m'.dialer, hdialer, rfl⟩

theorem Machine.slot_of_perform {op : Op} {m m' : Machine} {reply : op.Reply}
    (hperform : m.perform op reply = some m') : Slot.perform op m.slot reply = some m'.slot := by
  obtain ⟨hstore, hdialer⟩ := Machine.perform_eq_some.mp hperform
  have hpublished := Store.perform_published hstore
  cases op <;>
    simp only [Dialer.perform, Option.ite_none_right_eq_some, Option.some.injEq] at hdialer <;>
    grind [Slot.perform, Machine.slot, Op.publications]

/-- A client is only published where there is none. -/
def Replaced (v v' : Slot) : Prop := v'.published = v.published ∨ v.client = none

/-- An action that leaves the slot alone, and then the rest. -/
theorem Keeps.idle {α : Type} {post : Slot → α → Prop} {op : Op} {f : op.Reply → Prog α}
    {v : Slot} (hop : ∀ reply, Slot.perform op v reply = some v)
    (hf : ∀ reply, (f reply).Keeps Slot.perform Replaced post v) :
    (act op >>= f).Keeps Slot.perform Replaced post v := by
  refine Keeps.perform fun reply v' hperform => ?_
  obtain rfl : v = v' := Option.some.inj ((hop reply).symm.trans hperform)
  exact ⟨.inl rfl, hf reply⟩

theorem connectSSH_keepsSlot (cfg : SshDialerCfg) (v : Slot) :
    (connectSSH cfg).Keeps Slot.perform Replaced (fun v' _ => v = v') v := by
  refine Confined.keeps Eq.refl (fun _ _ _ => Eq.trans) ?_ (connectSSH_inConnect cfg) v
  intro op v reply v' hop hperform
  have hsame : v = v' := by
    cases op <;> simp_all [Op.inConnect, Slot.perform]
  exact ⟨hsame, .inl (by rw [hsame])⟩

/-- After the loss of the client there is none. -/
theorem awaitLoss_keepsSlot (v : Slot) :
    (awaitLoss v.client).Keeps Slot.perform Replaced
      (fun v' stopped => stopped = false → v'.client = none) v := by
  cases hclient : v.client with
  | none => exact fun _ => hclient
  | some client =>
      refine Keeps.idle (fun _ => rfl) fun _ => Keeps.idle (fun _ => rfl) fun done => ?_
      cases done with
      | true => exact nofun
      | false =>
          refine Keeps.perform fun _ v' hclear => ?_
          cases hclear
          exact ⟨.inl rfl, Keeps.idle (fun _ => rfl) fun _ _ => rfl⟩

theorem closeOld_keepsSlot (old : Option Nat) (v : Slot) :
    (closeOld old).Keeps Slot.perform Replaced (fun _ _ => True) v := by
  cases old with
  | none => trivial
  | some client => exact Keeps.idle (f := pure) (fun _ => rfl) fun _ => trivial

theorem monitor_keepsSlot (cfg : SshDialerCfg) (rounds : Nat) (pinned : Text)
    (attempt delay : Nat) (v : Slot) :
    (monitor cfg rounds pinned attempt delay).Keeps Slot.perform Replaced (fun _ _ => True) v := by
  induction rounds generalizing pinned attempt delay v with
  | zero => trivial
  | succ rounds ih =>
      refine Keeps.perform fun client v₁ hget => ?_
      simp only [Slot.perform, Option.ite_none_right_eq_some, Option.some.injEq] at hget
      obtain ⟨rfl, rfl⟩ := hget
      refine ⟨.inl rfl, Keeps.bind (awaitLoss_keepsSlot v) fun v stopped hnone => ?_⟩
      cases stopped with
      | true => trivial
      | false =>
          refine Keeps.idle (fun _ => rfl) fun _ => Keeps.idle (fun _ => rfl) fun done => ?_
          cases done with
          | true => trivial
          | false =>
              refine Keeps.bind (connectSSH_keepsSlot _ v) fun v' connected hsame => ?_
              subst hsame
              cases connected with
              | error err =>
                  refine Keeps.idle (fun _ => rfl) fun jitter => ?_
                  refine Keeps.idle (fun _ => rfl) fun _ => ?_
                  exact ih _ _ _ _
              | ok found =>
                  refine Keeps.idle (fun _ => rfl) fun done => ?_
                  cases done with
                  | true => exact Keeps.idle (fun _ => rfl) fun _ => trivial
                  | false =>
                      refine Keeps.perform fun old v₂ _ => ⟨.inr (hnone rfl), ?_⟩
                      refine Keeps.bind (closeOld_keepsSlot old v₂) fun v₃ _ _ => ?_
                      exact Keeps.idle (fun _ => rfl) fun _ => ih _ _ _ _

/-! ## Runs of the monitor and one `stop` -/

/-- `stop` has returned. -/
def Stopped {cfg : SshDialerCfg} (c : Config (dialing cfg)) : Prop :=
  ∃ thread, c.threads[1]? = some thread ∧ thread.rest = .ret ()

/-- `stop` has returned and the dialer holds a client whose connection is
neither closed nor lost. -/
def Orphan {cfg : SshDialerCfg} (c : Config (dialing cfg)) : Prop :=
  Stopped c ∧ ∃ client, c.state.dialer.client = some client ∧
    c.state.dialer.ended client = false

instance {cfg : SshDialerCfg} (c : Config (dialing cfg)) : Decidable (Stopped c) :=
  match hthread : c.threads[1]? with
  | none => isFalse (by simp [Stopped, hthread])
  | some thread =>
      match hrest : thread.rest with
      | .ret () => isTrue ⟨thread, hthread, hrest⟩
      | .act op next => isFalse (by simp [Stopped, hthread, hrest])

instance {cfg : SshDialerCfg} (c : Config (dialing cfg)) : Decidable (Orphan c) :=
  match hclient : c.state.dialer.client with
  | none => isFalse (by simp [Orphan, hclient])
  | some client =>
      decidable_of_iff (Stopped c ∧ c.state.dialer.ended client = false) (by simp [Orphan, hclient])

/-- The monitor has checked `done` and is about to publish an open client. -/
def Publishing {cfg : SshDialerCfg} (c : Config (dialing cfg)) : Prop :=
  ∃ thread client next, c.threads[0]? = some thread ∧
    thread.rest = .act (.publish client) next ∧ c.state.dialer.ended client = false

/-- The traces of the monitor and of `stop`, and what they have left to do. -/
structure Progress where
  monitored : List (Event sig)
  monitor : Prog Unit
  stopped : List (Event sig)
  stop : Prog Unit

variable {cfg : SshDialerCfg} {rounds : Nat}

def Progress.config (p : Progress) (cfg : SshDialerCfg) (rounds : Nat) (m : Machine) :
    Config (dialing cfg) :=
  ⟨m, [⟨.monitor rounds, p.monitored, p.monitor⟩, ⟨.stop, p.stopped, p.stop⟩]⟩

/-- A step lets a connection end, or the monitor or `stop` perform its next
action. -/
theorem Progress.step_cases {p : Progress} {m : Machine} {action : Action (dialing cfg)}
    {c : Config (dialing cfg)} (hspawn : ∀ call, action ≠ .spawn call)
    (hstep : (dialing cfg).step (p.config cfg rounds m) action = some c) :
    (∃ client m', m.disturb (.lost client) = some m' ∧ c = p.config cfg rounds m') ∨
    (∃ event next m', action = .run 0 event ∧ p.monitor = .act event.op next ∧
      m.perform event.op event.reply = some m' ∧
      c = ({ p with monitored := p.monitored ++ [event]
                    monitor := next event.reply } : Progress).config cfg rounds m') ∨
    ∃ event next m', action = .run 1 event ∧ p.stop = .act event.op next ∧
      m.perform event.op event.reply = some m' ∧
      c = ({ p with stopped := p.stopped ++ [event]
                    stop := next event.reply } : Progress).config cfg rounds m' := by
  cases action with
  | spawn call => exact absurd rfl (hspawn call)
  | disturb client =>
      simp only [System.step, Option.map_eq_some_iff] at hstep
      obtain ⟨m', hdisturb, rfl⟩ := hstep
      exact .inl ⟨client, m', hdisturb, rfl⟩
  | run i event =>
      obtain ⟨thread, next, m', hthread, hrest, hperform, rfl⟩ := System.step_run_eq_some.mp hstep
      rcases i with _ | _ | i
      · cases hthread
        exact .inr (.inl ⟨event, next, m', rfl, hrest, hperform, rfl⟩)
      · cases hthread
        exact .inr (.inr ⟨event, next, m', rfl, hrest, hperform, rfl⟩)
      · cases hthread

/-- The first steps of `stop`, and what is left after them. -/
theorem stop_paths {trace : List (Event sig)} {rest : Prog Unit} (hpath : stop.Reaches trace rest) :
    trace = [] ∧ rest = stop ∨
      trace = [⟨.storeDone, ()⟩] ∧ rest = (act .getClient >>= closeOld) ∨
      (∃ client, trace = [⟨.storeDone, ()⟩, ⟨.getClient, client⟩] ∧ rest = closeOld client) ∨
      ∃ client, trace = [⟨.storeDone, ()⟩, ⟨.getClient, some client⟩, ⟨.closeClient client, ()⟩] ∧
        rest = .ret () := by
  cases hpath with
  | refl => exact .inl ⟨rfl, rfl⟩
  | act hpath =>
      cases hpath with
      | refl => exact .inr (.inl ⟨rfl, rfl⟩)
      | @act _ _ client _ _ hpath =>
          refine .inr (.inr ?_)
          cases client with
          | none =>
              cases hpath
              exact .inl ⟨none, rfl, rfl⟩
          | some client =>
              cases hpath with
              | refl => exact .inl ⟨some client, rfl, rfl⟩
              | act hpath =>
                  cases hpath
                  exact .inr ⟨client, rfl, rfl⟩

/-- What holds in every run. -/
structure Paired (cfg : SshDialerCfg) (rounds : Nat) (m : Machine) (p : Progress) : Prop where
  monitor : (Tunnel.monitor cfg rounds cfg.fingerprint 0 0).Reaches p.monitored p.monitor
  stop : Tunnel.stop.Reaches p.stopped p.stop
  keeps : p.monitor.Keeps Slot.perform Replaced (fun _ _ => True) m.slot
  done : p.stopped ≠ [] → m.dialer.done = true

theorem stop_slot {trace : List (Event sig)} {event : Event sig} {next : event.op.Reply → Prog Unit}
    (hpath : Tunnel.stop.Reaches trace (.act event.op next)) {v v' : Slot}
    (hperform : Slot.perform event.op v event.reply = some v') : v' = v := by
  have hstop : Confined (fun op : Op => op.publications = 0 ∧ op ≠ .clearClient) Tunnel.stop := by
    refine Confined.perform ⟨rfl, nofun⟩ fun _ => Confined.perform ⟨rfl, nofun⟩ fun client => ?_
    cases client with
    | none => trivial
    | some client => exact ⟨⟨rfl, nofun⟩, fun _ => trivial⟩
  obtain ⟨hpublications, hclear⟩ := hstop.of_mem (hpath.snoc event.reply) List.mem_concat_self
  obtain ⟨op, reply⟩ := event
  cases op <;> simp_all [Slot.perform, Op.publications]

theorem Paired.lost {m m' : Machine} {p : Progress} (hp : Paired cfg rounds m p) {client : Nat}
    (hlost : m.disturb (.lost client) = some m') : Paired cfg rounds m' p := by
  cases hlost
  exact ⟨hp.monitor, hp.stop, hp.keeps, hp.done⟩

section Steps

variable {m m' : Machine} {p : Progress} {event : Event sig} {next : event.op.Reply → Prog Unit}

theorem Paired.monitor_step (hp : Paired cfg rounds m p) (hrest : p.monitor = .act event.op next)
    (hperform : m.perform event.op event.reply = some m') :
    Paired cfg rounds m'
      { p with monitored := p.monitored ++ [event], monitor := next event.reply } := by
  have heffect := dialerEffect_of_perform (Machine.perform_eq_some.mp hperform).2
  have hkeeps := hp.keeps
  have hpath := hp.monitor
  rw [hrest] at hkeeps hpath
  refine ⟨hpath.snoc event.reply, hp.stop, ?_, fun hstop => heffect.done (hp.done hstop)⟩
  exact (hkeeps event.reply _ (Machine.slot_of_perform hperform)).2

theorem Paired.stop_step (hp : Paired cfg rounds m p) (hrest : p.stop = .act event.op next)
    (hperform : m.perform event.op event.reply = some m') :
    Paired cfg rounds m'
      { p with stopped := p.stopped ++ [event], stop := next event.reply } := by
  have heffect := dialerEffect_of_perform (Machine.perform_eq_some.mp hperform).2
  have hpath := hp.stop
  rw [hrest] at hpath
  have hslot := stop_slot hpath (Machine.slot_of_perform hperform)
  refine ⟨hp.monitor, hpath.snoc event.reply, hslot ▸ hp.keeps, fun _ => ?_⟩
  rcases stop_paths hp.stop with ⟨_, hfirst⟩ | ⟨hstopped, _⟩ | ⟨_, hstopped, _⟩ | ⟨_, hstopped, _⟩
  · -- The first action of `stop` is to set `done`.
    rw [hrest] at hfirst
    obtain ⟨op, reply⟩ := event
    cases hfirst
    exact heffect.stored rfl
  all_goals exact heffect.done (hp.done (by simp [hstopped]))

/-- What holds once `stop` has read `d.client`: nothing open is published any
more, and an open client is one that `stop` is about to close. -/
structure Settled (m : Machine) (p : Progress) : Prop where
  done : m.dialer.done = true
  publishes : ∀ client next, p.monitor = .act (.publish client) next →
    m.dialer.ended client = true
  closes : ∀ client, m.dialer.client = some client →
    m.dialer.ended client = true ∨ ∃ next, p.stop = .act (.closeClient client) next

theorem Settled.lost (hp : Settled m p) {client : Nat}
    (hlost : m.disturb (.lost client) = some m') : Settled m' p := by
  cases hlost
  have hended : ∀ other, m.dialer.ended other = true →
      Function.update m.dialer.ended client true other = true := by
    intro other hother
    rw [Function.update_apply]
    split
    · rfl
    · exact hother
  exact ⟨hp.done, fun other next hrest => hended other (hp.publishes other next hrest),
    fun other hother => (hp.closes other hother).imp_left (hended other)⟩

theorem Settled.monitor_step (hp : Paired cfg rounds m p) (hsettled : Settled m p)
    (hrest : p.monitor = .act event.op next)
    (hperform : m.perform event.op event.reply = some m') :
    Settled m' { p with monitored := p.monitored ++ [event], monitor := next event.reply } := by
  have heffect := dialerEffect_of_perform (Machine.perform_eq_some.mp hperform).2
  have hpath := hp.monitor
  rw [hrest] at hpath
  refine ⟨heffect.done hsettled.done, fun client next' hnext => ?_, fun client hclient => ?_⟩
  · -- A publication comes right after a check, which now finds `done` set.
    have hlaw := monitor_publishStep cfg rounds cfg.fingerprint 0 0 []
    have hreached := hlaw.at_reached (hpath.snoc event.reply)
    simp only at hnext
    rw [hnext] at hreached
    have hlast := hreached.1 client rfl
    rw [List.nil_append, List.getLast?_concat, Option.some.injEq] at hlast
    have hloaded := heffect.loaded false hlast
    rw [hsettled.done] at hloaded
    cases hloaded
  · rcases heffect.client with hsame | hnone | ⟨published, reply, hevent, hpublished⟩
    · rw [hsame] at hclient
      exact (hsettled.closes client hclient).imp_left (heffect.ended client)
    · rw [hnone] at hclient
      cases hclient
    · rw [hpublished] at hclient
      cases hclient
      obtain ⟨op, _⟩ := event
      cases hevent
      exact .inl (heffect.ended client (hsettled.publishes client next hrest))

theorem Settled.stop_step (hp : Paired cfg rounds m p) (hsettled : Settled m p)
    (hrest : p.stop = .act event.op next)
    (hperform : m.perform event.op event.reply = some m') :
    Settled m' { p with stopped := p.stopped ++ [event], stop := next event.reply } := by
  have heffect := dialerEffect_of_perform (Machine.perform_eq_some.mp hperform).2
  have hpath := hp.stop
  rw [hrest] at hpath
  have hslot := stop_slot hpath (Machine.slot_of_perform hperform)
  have hsame : m'.dialer.client = m.dialer.client := congrArg Slot.client hslot
  refine ⟨heffect.done hsettled.done, ?_, fun client hclient => ?_⟩
  · intro client next' hnext
    exact heffect.ended client (hsettled.publishes client next' hnext)
  · rw [hsame] at hclient
    left
    rcases hsettled.closes client hclient with hended | ⟨next', hcloses⟩
    · exact heffect.ended client hended
    · rw [hrest] at hcloses
      obtain ⟨op, reply⟩ := event
      cases hcloses
      exact heffect.closed client rfl

end Steps

theorem run_progress {store : Store} {schedule : List (Action (dialing cfg))}
    {c : Config (dialing cfg)} (hspawn : ∀ call, .spawn call ∉ schedule)
    (hrun : (dialing cfg).run (started cfg store rounds) schedule = some c) :
    ∃ m p, c = Progress.config p cfg rounds m ∧ Paired cfg rounds m p := by
  refine System.run_invariant_of_forall (fun action => ∀ call, action ≠ .spawn call)
    (fun c => ∃ m p, c = Progress.config p cfg rounds m ∧ Paired cfg rounds m p) ?_ ?_ ?_ hrun
  · rintro _ action c' hspawn ⟨m, p, rfl, hp⟩ hstep
    rcases Progress.step_cases hspawn hstep with ⟨client, m', hlost, rfl⟩ |
      ⟨event, next, m', _, hrest, hperform, rfl⟩ | ⟨event, next, m', _, hrest, hperform, rfl⟩
    · exact ⟨m', p, rfl, hp.lost hlost⟩
    · exact ⟨m', _, rfl, hp.monitor_step hrest hperform⟩
    · exact ⟨m', _, rfl, hp.stop_step hrest hperform⟩
  · rintro action haction call rfl
    exact hspawn call haction
  · refine ⟨_, ⟨[], _, [], _⟩, rfl, ⟨.refl _, .refl _, ?_, fun h => absurd rfl h⟩⟩
    exact monitor_keepsSlot cfg rounds cfg.fingerprint 0 0 _

theorem run_settled {m : Machine} {p : Progress} (hp : Paired cfg rounds m p)
    (hsettled : Settled m p) {schedule : List (Action (dialing cfg))} {c : Config (dialing cfg)}
    (hspawn : ∀ call, .spawn call ∉ schedule)
    (hrun : (dialing cfg).run (p.config cfg rounds m) schedule = some c) :
    ∃ m' p', c = Progress.config p' cfg rounds m' ∧ Paired cfg rounds m' p' ∧ Settled m' p' := by
  refine System.run_invariant_of_forall (fun action => ∀ call, action ≠ .spawn call)
    (fun c => ∃ m p, c = Progress.config p cfg rounds m ∧ Paired cfg rounds m p ∧ Settled m p)
    ?_ ?_ ⟨m, p, rfl, hp, hsettled⟩ hrun
  · rintro _ action c' hspawn ⟨m, p, rfl, hp, hsettled⟩ hstep
    rcases Progress.step_cases hspawn hstep with ⟨client, m', hlost, rfl⟩ |
      ⟨event, next, m', _, hrest, hperform, rfl⟩ | ⟨event, next, m', _, hrest, hperform, rfl⟩
    · exact ⟨m', p, rfl, hp.lost hlost, hsettled.lost hlost⟩
    · exact ⟨m', _, rfl, hp.monitor_step hrest hperform, hsettled.monitor_step hp hrest hperform⟩
    · exact ⟨m', _, rfl, hp.stop_step hrest hperform, hsettled.stop_step hp hrest hperform⟩
  · rintro action haction call rfl
    exact hspawn call haction

theorem stop_of_getClient {trace : List (Event sig)} {next : Option Nat → Prog Unit}
    (hpath : Tunnel.stop.Reaches trace (.act .getClient next)) :
    trace = [⟨.storeDone, ()⟩] ∧ next = closeOld := by
  rcases stop_paths hpath with ⟨_, hrest⟩ | ⟨htrace, hrest⟩ | ⟨client, _, hrest⟩ | ⟨_, _, hrest⟩
  · cases hrest
  · cases hrest
    exact ⟨htrace, rfl⟩
  · cases client <;> cases hrest
  · cases hrest

/-- Where `stop` reads `d.client`, everything is settled unless the monitor is
in between its check and its publication. -/
theorem settled_of_read {m m' : Machine} {p : Progress} (hp : Paired cfg rounds m p)
    {client : Option Nat} {next : Option Nat → Prog Unit} (hrest : p.stop = .act .getClient next)
    (hperform : m.perform .getClient client = some m')
    (hwindow : ∀ client next, p.monitor = .act (.publish client) next →
      m.dialer.ended client = true) :
    Settled m' { p with stopped := p.stopped ++ [⟨.getClient, client⟩], stop := next client } := by
  have heffect := dialerEffect_of_perform (Machine.perform_eq_some.mp hperform).2
  obtain ⟨hread, hsame⟩ := heffect.read client rfl
  have hpath := hp.stop
  rw [hrest] at hpath
  obtain ⟨hstopped, rfl⟩ := stop_of_getClient hpath
  refine ⟨?_, fun other next hnext => ?_, fun other hother => .inr ?_⟩
  · rw [hsame]
    exact hp.done (by simp [hstopped])
  · rw [hsame]
    exact hwindow other next hnext
  · rw [hsame, ← hread] at hother
    subst hother
    exact ⟨_, rfl⟩

/-- The monitor publishes only where there is no client. -/
theorem Paired.client_eq_none {m : Machine} {p : Progress} (hp : Paired cfg rounds m p)
    {client : Nat} {next : Option Nat → Prog Unit}
    (hrest : p.monitor = .act (.publish client) next) : m.dialer.client = none := by
  have hkeeps := hp.keeps
  rw [hrest] at hkeeps
  rcases (hkeeps none _ rfl).1 with hsame | hnone
  · exact absurd hsame (Nat.succ_ne_self _)
  · exact hnone

/-- If `stop` reads `d.client` while the monitor is about to publish an open
client, that client can stay behind. -/
theorem orphan_of_publishing {m m' : Machine} {p : Progress} (hp : Paired cfg rounds m p)
    {client : Option Nat} {next : Option Nat → Prog Unit} (hrest : p.stop = .act .getClient next)
    (hperform : m.perform .getClient client = some m') {new : Nat}
    {next' : Option Nat → Prog Unit} (hpublish : p.monitor = .act (.publish new) next')
    (hopen : m.dialer.ended new = false) :
    ∃ c, (dialing cfg).run
        (({ p with stopped := p.stopped ++ [⟨.getClient, client⟩]
                   stop := next client } : Progress).config cfg rounds m')
        [.run 0 ⟨.publish new, none⟩] = some c ∧ Orphan c := by
  have heffect := dialerEffect_of_perform (Machine.perform_eq_some.mp hperform).2
  obtain ⟨hread, hsame⟩ := heffect.read client rfl
  have hnone := hp.client_eq_none hpublish
  have hpath := hp.stop
  rw [hrest] at hpath
  obtain ⟨_, rfl⟩ := stop_of_getClient hpath
  obtain rfl : client = none := hread.trans hnone
  have hclient : m'.dialer.client = none := by rw [hsame, hnone]
  let m'' : Machine :=
    ⟨{ m'.store with published := m'.store.published ++ [m'.store.keys new] },
      { m'.dialer with client := some new }⟩
  have hperform' : m'.perform (.publish new) none = some m'' :=
    Machine.perform_eq_some.mpr ⟨rfl, by simp [Dialer.perform, hclient, m'']⟩
  let q : Progress :=
    ⟨p.monitored ++ [⟨.publish new, none⟩], next' none, p.stopped ++ [⟨.getClient, none⟩], .ret ()⟩
  refine ⟨q.config cfg rounds m'', ?_, ⟨_, rfl, rfl⟩, new, rfl, ?_⟩
  · exact Option.bind_eq_some_iff.mpr ⟨q.config cfg rounds m'', System.step_run_eq_some.mpr
      ⟨_, next', m'', rfl, hpublish, hperform', rfl⟩, rfl⟩
  · show m'.dialer.ended new = false
    rw [hsame, hopen]

/-- After every `stop` that returned there is no orphan, now or later, exactly
if the monitor was not about to publish an open client when `stop` read
`d.client`. -/
theorem stop_orphan_iff {store : Store} {schedule : List (Action (dialing cfg))}
    {c : Config (dialing cfg)} (hspawn : ∀ call, .spawn call ∉ schedule)
    (hrun : (dialing cfg).run (started cfg store rounds) schedule = some c)
    (hstopped : Stopped c) :
    ∃ before client after read,
      schedule = before ++ .run 1 ⟨.getClient, client⟩ :: after ∧
      (dialing cfg).run (started cfg store rounds) before = some read ∧
      ((∀ later c', (∀ call, .spawn call ∉ later) →
          (dialing cfg).run (started cfg store rounds)
            (before ++ .run 1 ⟨.getClient, client⟩ :: later) = some c' → ¬ Orphan c') ↔
        ¬ Publishing read) := by
  obtain ⟨m, p, rfl, hp⟩ := run_progress hspawn hrun
  have hread : ∃ client, (⟨.getClient, client⟩ : Event sig) ∈ p.stopped := by
    obtain ⟨_, hthread, hrest⟩ := hstopped
    cases hthread
    simp only at hrest
    rcases stop_paths hp.stop with
      ⟨_, hstop⟩ | ⟨_, hstop⟩ | ⟨client, htrace, _⟩ | ⟨client, htrace, _⟩
    · rw [hrest] at hstop
      cases hstop
    · rw [hrest] at hstop
      cases hstop
    · exact ⟨client, by simp [htrace]⟩
    · exact ⟨some client, by simp [htrace]⟩
  obtain ⟨client, hread⟩ := hread
  have hmem : .run 1 ⟨.getClient, client⟩ ∈ schedule := by
    rw [← System.mem_eventsOf]
    have htrace : p.stopped = [] ++ System.eventsOf 1 schedule := System.run_traceOf hrun 1
    rwa [htrace] at hread
  obtain ⟨before, after, rfl⟩ := List.append_of_mem hmem
  have hspawn' : ∀ call, .spawn call ∉ before := fun call hcall =>
    hspawn call (List.mem_append_left _ hcall)
  rw [System.run_append, Option.bind_eq_some_iff] at hrun
  obtain ⟨read, hbefore, hrun⟩ := hrun
  refine ⟨before, client, after, read, rfl, hbefore, ?_⟩
  obtain ⟨m₁, p₁, rfl, hp₁⟩ := run_progress hspawn' hbefore
  simp only [System.run, Option.bind_eq_some_iff] at hrun
  obtain ⟨_, hstep, _⟩ := hrun
  obtain ⟨_, next, m₂, hthread, hrest, hperform, rfl⟩ := System.step_run_eq_some.mp hstep
  cases hthread
  constructor
  · rintro hnever ⟨_, new, next', hthread, hpublish, hopen⟩
    cases hthread
    obtain ⟨c', hlater, horphan⟩ := orphan_of_publishing hp₁ hrest hperform hpublish hopen
    refine hnever [.run 0 ⟨.publish new, none⟩] c' (by simp) ?_ horphan
    rw [System.run_append, hbefore, Option.bind_some, System.run, hstep, Option.bind_some]
    exact hlater
  · rintro hwindow later c' hspawn hlater ⟨hstopped', open', hclient, hopen⟩
    rw [System.run_append, hbefore, Option.bind_some, System.run, hstep, Option.bind_some] at hlater
    have hsettled := settled_of_read hp₁ hrest hperform fun new next' hpublish => by
      by_contra hopen
      exact hwindow ⟨_, new, next', rfl, hpublish, Bool.eq_false_of_not_eq_true hopen⟩
    obtain ⟨m', p', rfl, _, hsettled'⟩ :=
      run_settled (hp₁.stop_step hrest hperform) hsettled hspawn hlater
    obtain ⟨_, hthread, hrest'⟩ := hstopped'
    cases hthread
    rcases hsettled'.closes open' hclient with hended | ⟨next', hcloses⟩
    · cases hended.symm.trans hopen
    · cases hrest'.symm.trans hcloses

/-- A dialer that trusts every key: its fingerprint is the one of the empty
digest. -/
def trusting : SshDialerCfg where
  host := str "vps"
  port := 22
  fingerprint := str "SHA256:"
  sha256 := fun _ => []

/-- A data directory with a key. -/
def keyed : Store where
  files := fun file => if file = .sshKey then some (str "key") else none

/-- `stop` runs after the monitor's last check and before its publication. -/
def stoppedInWindow : List (Action (dialing trusting)) :=
  [.run 0 ⟨.getClient, none⟩, .run 0 ⟨.sleep 0, ()⟩, .run 0 ⟨.loadDone, false⟩,
    .run 0 ⟨.readFile .sshKey, .ok (str "key")⟩, .run 0 ⟨.parsePrivateKey (str "key"), .ok ()⟩,
    .run 0 ⟨.dial (str "vps:22"), .ok ()⟩, .run 0 ⟨.setDeadline, .ok ()⟩,
    .run 0 ⟨.keyExchange, .ok (some ⟨str "host key"⟩)⟩, .run 0 ⟨.authenticate true, .ok ()⟩,
    .run 0 ⟨.clearDeadline, .ok ()⟩, .run 0 ⟨.newClient (some ⟨str "host key"⟩), 0⟩,
    .run 0 ⟨.loadDone, false⟩, .run 1 ⟨.storeDone, ()⟩, .run 1 ⟨.getClient, none⟩,
    .run 0 ⟨.publish 0, none⟩]

theorem stoppedInWindow_orphan :
    ∃ c, (dialing trusting).run (started trusting keyed 1) stoppedInWindow = some c ∧ Orphan c := by
  have horphan : ((dialing trusting).run (started trusting keyed 1) stoppedInWindow).any
      (fun c => decide (Orphan c)) = true := by decide +kernel
  obtain ⟨c, hrun, horphan⟩ := (Option.any_eq_true ..).mp horphan
  exact ⟨c, hrun, of_decide_eq_true horphan⟩

theorem stoppedInWindow_iff :
    ∃ before client after read,
      stoppedInWindow = before ++ .run 1 ⟨.getClient, client⟩ :: after ∧
      (dialing trusting).run (started trusting keyed 1) before = some read ∧
      ((∀ later c', (∀ call, .spawn call ∉ later) →
          (dialing trusting).run (started trusting keyed 1)
            (before ++ .run 1 ⟨.getClient, client⟩ :: later) = some c' → ¬ Orphan c') ↔
        ¬ Publishing read) := by
  have hstopped : ((dialing trusting).run (started trusting keyed 1) stoppedInWindow).any
      (fun c => decide (Stopped c)) = true := by decide +kernel
  obtain ⟨c, hrun, hstopped⟩ := (Option.any_eq_true ..).mp hstopped
  exact stop_orphan_iff (by simp [stoppedInWindow]) hrun (of_decide_eq_true hstopped)

end SshGate.Tunnel
