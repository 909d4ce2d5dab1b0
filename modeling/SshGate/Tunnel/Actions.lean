import SshGate.Interaction.Program
import SshGate.Routing

/-! # Atomic actions of the SSH dialer

File operations, the steps of an SSH connect, and the locked sections of the
dialer are actions. What the file system, the network, the SSH library and the
other goroutines do is in the replies.
-/

namespace SshGate.Tunnel

open Go Interaction

/-- The files of the data directory that the key pair and the dialer use. -/
inductive DataFile where
  | sshKey
  | sshKeyPub
  | sshKnownHosts
  deriving Repr, DecidableEq

/-- An `ssh.PublicKey` by its wire form. -/
structure HostKey where
  marshal : Text
  deriving Repr, DecidableEq

/-- An `ed25519.PrivateKey`. -/
structure PrivateKey where
  bytes : Text
  deriving Repr, DecidableEq

/-- An error of `os.ReadFile`; `isNotExist` is what `os.IsNotExist` says of it. -/
structure ReadError where
  isNotExist : Bool
  err : Text
  deriving Repr, DecidableEq

/-- An error of `File.Write` after `written` bytes. -/
structure WriteError where
  written : Nat
  err : Text
  deriving Repr, DecidableEq

/-- An error of `ssh.NewClientConn`: one of the host key callback, or another
by its text. -/
inductive HandshakeError where
  | hostKeyMismatch (want got : Text)
  | other (err : Text)
  deriving Repr, DecidableEq

def HandshakeError.error : HandshakeError → Text
  | .hostKeyMismatch want got =>
      str "ssh: handshake failed: host key mismatch: expected " ++ want ++ str ", got " ++ got
  | .other err => err

/-- The errors of `connectSSH`. -/
inductive ConnectError where
  | readKey (err : Text)
  | parseKey (err : Text)
  | dial (addr err : Text)
  | deadline (addr err : Text)
  | handshake (addr : Text) (err : HandshakeError)
  | clearDeadline (addr err : Text)
  | saveFingerprint (err : Text)
  deriving Repr, DecidableEq

def ConnectError.error : ConnectError → Text
  | .readKey err => str "read SSH key: " ++ err
  | .parseKey err => str "parse SSH key: " ++ err
  | .dial addr err => str "SSH dial to " ++ addr ++ str ": " ++ err
  | .deadline addr err => str "SSH handshake deadline to " ++ addr ++ str ": " ++ err
  | .handshake addr err => str "SSH handshake to " ++ addr ++ str ": " ++ err.error
  | .clearDeadline addr err => str "clear SSH handshake deadline on " ++ addr ++ str ": " ++ err
  | .saveFingerprint err => str "save SSH host key fingerprint: " ++ err

inductive TunnelState where
  | connecting
  | connected
  | reconnecting
  | keyRejected
  | unreachable
  | hostKeyMismatch
  | sshError
  deriving Repr, DecidableEq

def handshakeState : HandshakeError → TunnelState
  | .hostKeyMismatch _ _ => .hostKeyMismatch
  | .other err =>
      if err.contains (str "ssh: unable to authenticate") then .keyRejected else .sshError

/-- The state a connect error carries, or the one of an untagged error. -/
def failState : ConnectError → TunnelState
  | .dial _ _ => .unreachable
  | .handshake _ err => handshakeState err
  | .readKey _ | .parseKey _ | .deadline _ _ | .clearDeadline _ _ | .saveFingerprint _ => .sshError

structure TunnelStatus where
  state : TunnelState
  err : Option ConnectError := none
  attempt : Nat := 0
  retry : Nat := 0
  deriving Repr, DecidableEq

inductive Op where
  | readFile (file : DataFile)
  /-- `os.CreateTemp` in the directory of the data files. -/
  | createTemp
  | write (tmp : Nat) (data : Text)
  | chmod (tmp : Nat) (perm : Nat)
  | sync (tmp : Nat)
  | close (tmp : Nat)
  | rename (tmp : Nat) (file : DataFile)
  | remove (tmp : Nat)
  | parsePrivateKey (data : Text)
  /-- `ed25519.GenerateKey`. -/
  | generateKey
  /-- `ssh.MarshalPrivateKey` with `pem.EncodeToMemory`. -/
  | marshalPrivateKey (key : PrivateKey)
  | dial (addr : Text)
  | setDeadline
  /-- The part of `ssh.NewClientConn` up to the host key callback: the key it
  is called with, or none if the library goes on without calling it. -/
  | keyExchange
  /-- The rest of `ssh.NewClientConn`; `called` is whether the callback ran. -/
  | authenticate (called : Bool)
  | clearDeadline
  | closeConn
  /-- `ssh.NewClient` on a connection whose peer proved to have this key. -/
  | newClient (key : Option HostKey)
  | closeClient (client : Nat)
  /-- The locked reading of `d.client`. -/
  | getClient
  | wait (client : Nat)
  | clearClient
  /-- The locked publication of a client; the reply is the one it replaces. -/
  | publish (client : Nat)
  | loadDone
  | storeDone
  | setStatus (status : TunnelStatus)
  | sleep (delay : Nat)
  /-- `rand.Intn`. -/
  | intn (n : Nat)
  deriving Repr, DecidableEq

@[reducible] def Op.Reply : Op → Type
  | .readFile _ => Except ReadError Text
  | .createTemp => Except Text Nat
  | .write _ _ => Except WriteError Unit
  | .chmod _ _ | .sync _ | .close _ | .rename _ _ => Except Text Unit
  | .remove _ => Unit
  | .parsePrivateKey _ | .dial _ | .setDeadline | .clearDeadline => Except Text Unit
  | .generateKey => Except Text PrivateKey
  | .marshalPrivateKey _ => Except Text Text
  | .keyExchange => Except Text (Option HostKey)
  | .authenticate _ => Except Text Unit
  | .closeConn => Unit
  | .newClient _ => Nat
  | .closeClient _ => Unit
  | .getClient => Option Nat
  | .wait _ => Unit
  | .clearClient => Unit
  | .publish _ => Option Nat
  | .loadDone => Bool
  | .storeDone => Unit
  | .setStatus _ => Unit
  | .sleep _ => Unit
  | .intn _ => Nat

@[reducible] def sig : Signature := ⟨Op, Op.Reply⟩

abbrev Prog (α : Type) := Program sig α

abbrev act (op : Op) : Prog op.Reply := Program.perform (S := sig) op

end SshGate.Tunnel
