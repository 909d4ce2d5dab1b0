import Mathlib.Logic.Function.Basic
import SshGate.Interaction.Process
import SshGate.Tunnel.Dialer

/-! # The state behind the dialer

The data directory, the clients and the dialer's fields. The process can be
cut off at any moment and started again: files stay, the dialer starts afresh.
-/

namespace SshGate.Tunnel

open Go Interaction

/-- What only the dialer changes. `keys` are the host keys that the clients'
peers proved to have; `published` are those of all clients that were ever
stored in `d.client`, in order. -/
structure Store where
  files : DataFile → Option Text := fun _ => none
  temps : Nat → Option Text := fun _ => none
  nextTemp : Nat := 0
  keys : Nat → Option HostKey := fun _ => none
  nextClient : Nat := 0
  published : List (Option HostKey) := []

namespace Store

def append (s : Store) (tmp : Nat) (data : Text) : Store :=
  { s with temps := Function.update s.temps tmp ((s.temps tmp).map (· ++ data)) }

/-- The effect of an action on the store. A read reports a missing file only
if it is missing, a rename is atomic, and the SSH library does not finish a
handshake before it has called the host key callback. -/
def perform : (op : Op) → Store → op.Reply → Option Store
  | .readFile file, s, .ok data => if s.files file = some data then some s else none
  | .readFile file, s, .error err =>
      if err.isNotExist = true → s.files file = none then some s else none
  | .createTemp, s, .ok tmp =>
      if tmp = s.nextTemp then
        some { s with temps := Function.update s.temps tmp (some []), nextTemp := tmp + 1 }
      else none
  | .createTemp, s, .error _ => some s
  | .write tmp data, s, .ok () => some (s.append tmp data)
  | .write tmp data, s, .error err => some (s.append tmp (data.take err.written))
  | .rename tmp file, s, .ok () =>
      (s.temps tmp).map fun data =>
        { s with files := Function.update s.files file (some data)
                 temps := Function.update s.temps tmp none }
  | .rename _ _, s, .error _ => some s
  | .remove tmp, s, () => some { s with temps := Function.update s.temps tmp none }
  | .authenticate called, s, .ok () => if called = true then some s else none
  | .authenticate _, s, .error _ => some s
  | .newClient key, s, client =>
      if client = s.nextClient then
        some { s with keys := Function.update s.keys client key, nextClient := client + 1 }
      else none
  | .publish client, s, _ => some { s with published := s.published ++ [s.keys client] }
  | .chmod _ _, s, _ | .sync _, s, _ | .close _, s, _ | .parsePrivateKey _, s, _
  | .generateKey, s, _ | .marshalPrivateKey _, s, _
  | .dial _, s, _ | .setDeadline, s, _ | .keyExchange, s, _ | .clearDeadline, s, _
  | .closeConn, s, _ | .closeClient _, s, _ | .getClient, s, _ | .wait _, s, _
  | .clearClient, s, _ | .loadDone, s, _ | .storeDone, s, _ | .setStatus _, s, _
  | .sleep _, s, _ | .intn _, s, _ => some s

end Store

/-- The fields of the dialer; `ended` tells the clients whose connection is
lost or closed. -/
structure Dialer where
  client : Option Nat := none
  done : Bool := false
  ended : Nat → Bool := fun _ => false
  status : Option TunnelStatus := none

def Dialer.perform : (op : Op) → Dialer → op.Reply → Option Dialer
  | .getClient, d, client => if client = d.client then some d else none
  | .wait client, d, () => if d.ended client = true then some d else none
  | .clearClient, d, () => some { d with client := none }
  | .publish client, d, old =>
      if old = d.client then some { d with client := some client } else none
  | .loadDone, d, done => if done = d.done then some d else none
  | .storeDone, d, () => some { d with done := true }
  | .closeClient client, d, () => some { d with ended := Function.update d.ended client true }
  | .setStatus status, d, () => some { d with status := some status }
  | .intn n, d, value => if value < n then some d else none
  | .readFile _, d, _ | .createTemp, d, _ | .write _ _, d, _ | .chmod _ _, d, _ | .sync _, d, _
  | .close _, d, _ | .rename _ _, d, _ | .remove _, d, _ | .parsePrivateKey _, d, _
  | .generateKey, d, _ | .marshalPrivateKey _, d, _
  | .dial _, d, _ | .setDeadline, d, _ | .keyExchange, d, _ | .authenticate _, d, _
  | .clearDeadline, d, _ | .closeConn, d, _ | .newClient _, d, _ | .sleep _, d, _ => some d

structure Machine where
  store : Store
  dialer : Dialer

def Machine.perform (op : Op) (m : Machine) (reply : op.Reply) : Option Machine :=
  (m.store.perform op reply).bind fun store =>
    (m.dialer.perform op reply).map fun dialer => ⟨store, dialer⟩

/-- What other goroutines and the network do: a client's connection ends, also
because the keepalive or `stop` closes it, and `stop` sets `done`. -/
inductive Disturbance where
  | lost (client : Nat)
  | stop
  deriving Repr, DecidableEq

def Machine.disturb (m : Machine) : Disturbance → Option Machine
  | .lost client =>
      some { m with dialer :=
        { m.dialer with ended := Function.update m.dialer.ended client true } }
  | .stop => some { m with dialer := { m.dialer with done := true } }

/-- The dialer of one data directory through any number of process starts. An
entry is the number of monitor rounds that are looked at; `startProxies` sets
no fingerprint. -/
@[reducible] def sshProcess (cfg : SshDialerCfg) : Process where
  sig := sig
  Entry := Nat
  Result := Unit
  main := newSSHDialer { cfg with fingerprint := [] }
  State := Machine
  Disturbance := Disturbance
  perform := Machine.perform
  disturb := Machine.disturb
  restart := fun m => ⟨m.store, {}⟩

/-- Nobody but the dialer changes the store. -/
theorem sshProcess_owns (cfg : SshDialerCfg) :
    Process.Owns (P := sshProcess cfg) Machine.store Store.perform where
  perform := by
    intro op m reply m' hperform
    simp only [Machine.perform, Option.bind_eq_some_iff, Option.map_eq_some_iff] at hperform
    obtain ⟨store, hstore, dialer, _, rfl⟩ := hperform
    exact hstore
  disturb := by
    intro m disturbance m' hdisturb
    cases disturbance <;> simp only [Machine.disturb, Option.some.injEq] at hdisturb <;>
      rw [← hdisturb]
  restart := fun _ => rfl

end SshGate.Tunnel
