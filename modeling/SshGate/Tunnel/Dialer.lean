import SshGate.Tunnel.Actions

/-! # The SSH dialer

The programs of `dialer.go` that keep the tunnel connected and pin the host
key, with `writeFileAtomic` of `utils.go`.
-/

namespace SshGate.Tunnel

open Go Interaction

/-- The settings that connecting uses. `sha256` is `sha256.Sum256`. -/
structure SshDialerCfg where
  host : Text
  port : Int
  fingerprint : Text := []
  sha256 : Text → List UInt8

def sshFingerprint (sha256 : Text → List UInt8) (key : HostKey) : Text :=
  str "SHA256:" ++ Text.base64 (sha256 key.marshal)

/-! ## Files -/

/-- One step on a temporary file; if it fails, the file is closed and its error
returned. -/
def orClose (tmp : Nat) (first next : Prog (Except Text Unit)) : Prog (Except Text Unit) := do
  let result ← first
  match result with
  | .error err => do
      let _ ← act (.close tmp)
      return .error err
  | .ok () => next

def writeData (tmp : Nat) (data : Text) : Prog (Except Text Unit) := do
  let result ← act (.write tmp data)
  match result with
  | .error err => return .error err.err
  | .ok () => return .ok ()

/-- `writeFileAtomic` once the temporary file exists. -/
def replaceFile (tmp : Nat) (file : DataFile) (data : Text) (perm : Nat) :
    Prog (Except Text Unit) :=
  orClose tmp (writeData tmp data) <| orClose tmp (act (.chmod tmp perm)) <|
    orClose tmp (act (.sync tmp)) do
      let closed ← act (.close tmp)
      match closed with
      | .error err => return .error err
      | .ok () => act (.rename tmp file)

def writeFileAtomic (file : DataFile) (data : Text) (perm : Nat) : Prog (Except Text Unit) := do
  let created ← act .createTemp
  match created with
  | .error err => return .error err
  | .ok tmp => do
      let result ← replaceFile tmp file data perm
      -- The deferred removal; it does nothing after a successful rename.
      let _ ← act (.remove tmp)
      return result

inductive KnownHostError where
  | read (err : Text)
  | empty
  deriving Repr, DecidableEq

/-- The pinned fingerprint; the empty text if there is no file yet. -/
def readKnownHostFingerprint : Prog (Except KnownHostError Text) := do
  let data ← act (.readFile .sshKnownHosts)
  match data with
  | .error err =>
      if err.isNotExist then return .ok []
      else return .error (.read (str "read ssh_known_hosts: " ++ err.err))
  | .ok data =>
      let fp := data.trimSpace
      if fp = [] then return .error .empty else return .ok fp

/-! ## Connecting -/

/-- The host key callback: with a pinned fingerprint only its key is accepted. -/
def hostKeyCallback (cfg : SshDialerCfg) (key : HostKey) : Option HandshakeError :=
  if cfg.fingerprint ≠ [] ∧ sshFingerprint cfg.sha256 key ≠ cfg.fingerprint then
    some (.hostKeyMismatch cfg.fingerprint (sshFingerprint cfg.sha256 key))
  else none

/-- `ssh.NewClientConn` with this callback; the result is `remoteKey`. -/
def newClientConn (cfg : SshDialerCfg) : Prog (Except HandshakeError (Option HostKey)) := do
  let exchanged ← act .keyExchange
  match exchanged with
  | .error err => return .error (.other err)
  | .ok remoteKey =>
      match remoteKey.bind (hostKeyCallback cfg) with
      | some err => return .error err
      | none => do
          let result ← act (.authenticate remoteKey.isSome)
          match result with
          | .error err => return .error (.other err)
          | .ok () => return .ok remoteKey

/-- The end of `connectSSH`: without a pinned fingerprint the key is trusted
only once it is saved. -/
def pinHostKey (cfg : SshDialerCfg) (client : Nat) :
    Option HostKey → Prog (Except ConnectError (Nat × Text))
  | none => return .ok (client, [])
  | some key =>
      let fp := sshFingerprint cfg.sha256 key
      if cfg.fingerprint = [] then do
        let saved ← writeFileAtomic .sshKnownHosts fp 0o600
        match saved with
        | .error err => do
            let _ ← act (.closeClient client)
            return .error (.saveFingerprint err)
        | .ok () => return .ok (client, fp)
      else return .ok (client, fp)

/-- The handshake on an open connection to `addr`, with its deadline. -/
def handshake (cfg : SshDialerCfg) (addr : Text) : Prog (Except ConnectError (Nat × Text)) := do
  let set ← act .setDeadline
  match set with
  | .error err => do
      let _ ← act .closeConn
      return .error (.deadline addr err)
  | .ok () => do
      let result ← newClientConn cfg
      match result with
      | .error err => do
          let _ ← act .closeConn
          return .error (.handshake addr err)
      | .ok remoteKey => do
          let cleared ← act .clearDeadline
          match cleared with
          | .error err => do
              let _ ← act .closeConn
              return .error (.clearDeadline addr err)
          | .ok () => do
              let client ← act (.newClient remoteKey)
              pinHostKey cfg client remoteKey

/-- One connect: the client and the fingerprint of its host key. -/
def connectSSH (cfg : SshDialerCfg) : Prog (Except ConnectError (Nat × Text)) := do
  let keyData ← act (.readFile .sshKey)
  match keyData with
  | .error err => return .error (.readKey err.err)
  | .ok keyData => do
      let signer ← act (.parsePrivateKey keyData)
      match signer with
      | .error err => return .error (.parseKey err)
      | .ok () => do
          let addr := Addr.joinHostPort cfg.host (Text.itoa cfg.port)
          let dialed ← act (.dial addr)
          match dialed with
          | .error err => return .error (.dial addr err)
          | .ok () => handshake cfg addr

/-! ## The monitor -/

/-- The backoff before a retry, without jitter. -/
def reconnectDelay (attempt : Nat) : Nat := min (second <<< min attempt 6) (60 * second)

/-- Wait for the loss of the current client, if there is one; the result is
whether the dialer was stopped. -/
def awaitLoss : Option Nat → Prog Bool
  | none => return false
  | some client => do
      let _ ← act (.wait client)
      let done ← act .loadDone
      if done then return true
      else do
        let _ ← act .clearClient
        let _ ← act (.setStatus { state := .reconnecting })
        return false

/-- Close a client that was read or replaced, if there is one. -/
def closeOld : Option Nat → Prog Unit
  | none => return ()
  | some client => act (.closeClient client)

/-- The first `rounds` rounds of the monitor loop; `pinned`, `attempt` and
`delay` are its variables. -/
def monitor (cfg : SshDialerCfg) : (rounds : Nat) → (pinned : Text) → (attempt delay : Nat) →
    Prog Unit
  | 0, _, _, _ => return ()
  | rounds + 1, pinned, attempt, delay => do
      let client ← act .getClient
      let stopped ← awaitLoss client
      if stopped then return ()
      else do
        let _ ← act (.sleep delay)
        let done ← act .loadDone
        if done then return ()
        else do
          let connected ← connectSSH { cfg with fingerprint := pinned }
          match connected with
          | .error err => do
              let jitter ← act (.intn 500)
              let delay := reconnectDelay (attempt + 1) + jitter * millisecond
              let _ ← act (.setStatus
                { state := failState err, err := some err, attempt := attempt + 1, retry := delay })
              monitor cfg rounds pinned (attempt + 1) delay
          | .ok (newClient, fp) => do
              let done ← act .loadDone
              if done then do
                let _ ← act (.closeClient newClient)
                return ()
              else do
                let old ← act (.publish newClient)
                let _ ← closeOld old
                let pinned := if pinned = [] then fp else pinned
                let _ ← act (.setStatus { state := .connected })
                monitor cfg rounds pinned 0 0

def stop : Prog Unit := do
  let _ ← act .storeDone
  let client ← act .getClient
  closeOld client

/-- The constructor and the monitor it starts. A constructor error ends the
process. -/
def newSSHDialer (cfg : SshDialerCfg) (rounds : Nat) : Prog Unit := do
  let fp ← readKnownHostFingerprint
  match fp with
  | .error _ => return ()
  | .ok fp => do
      let cfg := if fp ≠ [] then { cfg with fingerprint := fp } else cfg
      let _ ← act (.setStatus { state := .connecting })
      monitor cfg rounds cfg.fingerprint 0 0

end SshGate.Tunnel
