import SshGate.Tunnel.Stop

/-! # The status of the tunnel

The client, the status, the attempt number and the delay of the monitor change
in different places of its loop. Whenever the monitor blocks they agree: it
waits for the loss of a client that is connected, sleeps before a connect, or
connects.
-/

namespace SshGate.Tunnel

open Go Interaction Program

/-- The states a failed connect leads to. -/
def TunnelState.isFailure : TunnelState → Bool
  | .connecting | .connected | .reconnecting => false
  | .keyRejected | .unreachable | .hostKeyMismatch | .sshError => true

theorem failState_isFailure (err : ConnectError) : (failState err).isFailure = true := by
  cases err with
  | handshake addr err =>
      cases err with
      | hostKeyMismatch want got => rfl
      | other message =>
          simp only [failState, handshakeState]
          split
          next => rfl
          next => rfl
  | _ => rfl

/-! ## Delays -/

theorem reconnectDelay_mono {a b : Nat} (h : a ≤ b) : reconnectDelay a ≤ reconnectDelay b := by
  have hshift : second <<< min a 6 ≤ second <<< min b 6 := by
    rw [Nat.shiftLeft_eq, Nat.shiftLeft_eq]
    exact Nat.mul_le_mul_left _ (Nat.pow_le_pow_right (by decide) (by omega))
  unfold reconnectDelay
  omega

theorem reconnectDelay_bounds {attempt : Nat} (h : 0 < attempt) :
    2 * second ≤ reconnectDelay attempt ∧ reconnectDelay attempt ≤ 60 * second := by
  have hfirst : reconnectDelay 1 = 2 * second := rfl
  rw [← hfirst]
  exact ⟨reconnectDelay_mono h, Nat.min_le_right _ _⟩

/-! ## Failures in a row -/

/-- The trace ends with a connect, or none has begun, and this is the number of
failed connects in a row. -/
inductive Streak (cfg : SshDialerCfg) : Nat → List (Event sig) → Prop
  | start {trace : List (Event sig)} (hsleep : ∀ delay, ⟨.sleep delay, ()⟩ ∉ trace) :
      Streak cfg 0 trace
  | failed {n : Nat} {trace between connect : List (Event sig)} {pinned : Text}
      {err : ConnectError} (h : Streak cfg n trace)
      (hbetween : ∀ event ∈ between, event.op.inConnect = false)
      (hconnect : (connectSSH { cfg with fingerprint := pinned }).Returns connect (.error err)) :
      Streak cfg (n + 1) (trace ++ between ++ connect)
  | connected {n : Nat} {trace between connect : List (Event sig)} {pinned : Text}
      {found : Nat × Text} (h : Streak cfg n trace)
      (hbetween : ∀ event ∈ between, event.op.inConnect = false)
      (hconnect : (connectSSH { cfg with fingerprint := pinned }).Returns connect (.ok found)) :
      Streak cfg 0 (trace ++ between ++ connect)

/-- The number of failed connects since the last success or the start; another
connect may have begun. -/
def FailedInARow (cfg : SshDialerCfg) (n : Nat) (trace : List (Event sig)) : Prop :=
  ∃ past between part pinned op next, trace = past ++ between ++ part ∧ Streak cfg n past ∧
    (∀ event ∈ between, event.op.inConnect = false) ∧
    (connectSSH { cfg with fingerprint := pinned }).Reaches part (.act op next)

/-- The last time the monitor slept, it was for this long. -/
def LastSlept (trace : List (Event sig)) (delay : Nat) : Prop :=
  ∃ before after, trace = before ++ ⟨.sleep delay, ()⟩ :: after ∧
    ∀ other, ⟨.sleep other, ()⟩ ∉ after

/-! ## Where the monitor blocks -/

/-- The monitor waits for a loss, sleeps, or is in a connect. -/
def Blocks (trace : List (Event sig)) (op : Op) : Prop :=
  (∃ client, op = .wait client) ∨ (∃ delay, op = .sleep delay) ∨
    op.inConnect = true ∧ ∃ delay, ⟨.sleep delay, ()⟩ ∈ trace

/-- What the status says while the monitor blocks. -/
structure Reported (cfg : SshDialerCfg) (trace : List (Event sig)) (d : Dialer) (op : Op)
    (st : TunnelStatus) : Prop where
  status : d.status = some st
  connected : d.client.isSome = true ↔ st.state = .connected
  attempt : st.state.isFailure = true → 0 < st.attempt ∧ FailedInARow cfg st.attempt trace
  retry : st.state.isFailure = true →
    (∃ jitter < 500 * millisecond, st.retry = reconnectDelay st.attempt + jitter) ∧
    2 * second ≤ st.retry ∧ st.retry < 60 * second + 500 * millisecond
  -- Connecting, connected, or reconnecting after a loss.
  reset : st.state.isFailure = false → st.attempt = 0 ∧ st.retry = 0
  sleeping : ∀ delay, op = .sleep delay → delay = st.retry
  slept : op.inConnect = true → LastSlept trace st.retry

/-- The clients an action uses exist. -/
structure NoNilClient (trace : List (Event sig)) (d : Dialer) (op : Op) : Prop where
  wait : ∀ client, op = .wait client → d.client = some client
  close : ∀ client, op = .closeClient client → ∃ key, ⟨.newClient key, client⟩ ∈ trace

def MonitorGuard (cfg : SshDialerCfg) (trace : List (Event sig)) (d : Dialer) (op : Op) : Prop :=
  NoNilClient trace d op ∧ (Blocks trace op → ∃ st, Reported cfg trace d op st)

/-! ## The variables of the loop -/

/-- The variables of the monitor next to the fields of the dialer. -/
inductive Phase : (attempt delay : Nat) → Option Nat → Option TunnelStatus → Prop
  | connecting : Phase 0 0 none (some { state := .connecting })
  | reconnecting : Phase 0 0 none (some { state := .reconnecting })
  | failed {attempt jitter : Nat} (err : ConnectError) (hattempt : 0 < attempt)
      (hjitter : jitter < 500) :
      Phase attempt (reconnectDelay attempt + jitter * millisecond) none
        (some { state := failState err, err := some err, attempt,
                retry := reconnectDelay attempt + jitter * millisecond })
  | connected (client : Nat) : Phase 0 0 (some client) (some { state := .connected })

/-- The status that a phase stands for, in all that does not depend on the
place of the loop. -/
theorem Phase.status {attempt delay : Nat} {client : Option Nat} {status : Option TunnelStatus}
    (h : Phase attempt delay client status) :
    ∃ st, status = some st ∧ (client.isSome = true ↔ st.state = .connected) ∧
      st.attempt = attempt ∧ st.retry = delay ∧
      (st.state.isFailure = true → 0 < attempt ∧
        (∃ jitter < 500 * millisecond, delay = reconnectDelay attempt + jitter) ∧
        2 * second ≤ delay ∧ delay < 60 * second + 500 * millisecond) ∧
      (st.state.isFailure = false → attempt = 0 ∧ delay = 0) := by
  cases h with
  | connecting => exact ⟨_, rfl, by simp, rfl, rfl, by simp [TunnelState.isFailure], by simp⟩
  | reconnecting => exact ⟨_, rfl, by simp, rfl, rfl, by simp [TunnelState.isFailure], by simp⟩
  | connected client => exact ⟨_, rfl, by simp, rfl, rfl, by simp [TunnelState.isFailure], by simp⟩
  | @failed _ jitter err hattempt hjitter =>
      have hfailure := failState_isFailure err
      have hlow := reconnectDelay_bounds hattempt
      have hscaled : jitter * millisecond < 500 * millisecond :=
        Nat.mul_lt_mul_of_pos_right hjitter (by decide)
      refine ⟨_, rfl, ?_, rfl, rfl, fun _ => ⟨hattempt, ⟨_, hscaled, rfl⟩, ?_⟩, ?_⟩
      · refine iff_of_false (by simp) fun hconnected => ?_
        dsimp only at hconnected
        rw [hconnected] at hfailure
        cases hfailure
      · omega
      · intro hnot
        rw [hfailure] at hnot
        cases hnot

theorem Phase.reset {attempt delay client : Nat} {status : Option TunnelStatus}
    (h : Phase attempt delay (some client) status) : attempt = 0 ∧ delay = 0 := by
  cases h with
  | connected => exact ⟨rfl, rfl⟩

/-- The fields that nobody but the monitor changes as long as nothing stops. -/
def Same (d d' : Dialer) : Prop := d'.client = d.client ∧ d'.done = d.done ∧ d'.status = d.status

/-- What holds between the actions of the monitor itself: nothing has stopped,
the phase tells the fields, and the streak is the attempt number. -/
structure Turn (cfg : SshDialerCfg) (attempt delay : Nat) (trace : List (Event sig))
    (d : Dialer) : Prop where
  done : d.done = false
  phase : Phase attempt delay d.client d.status
  streak : ∃ past between, trace = past ++ between ∧ Streak cfg attempt past ∧
    ∀ event ∈ between, event.op.inConnect = false

section Turn

variable {cfg : SshDialerCfg} {attempt delay : Nat} {trace : List (Event sig)} {d d' : Dialer}

theorem Same.refl (d : Dialer) : Same d d := ⟨rfl, rfl, rfl⟩

theorem Same.trans {d'' : Dialer} (h : Same d d') (h' : Same d' d'') : Same d d'' :=
  ⟨h'.1.trans h.1, h'.2.1.trans h.2.1, h'.2.2.trans h.2.2⟩

theorem Turn.same (h : Turn cfg attempt delay trace d) (hsame : Same d d') :
    Turn cfg attempt delay trace d' := by
  obtain ⟨hclient, hdone, hstatus⟩ := hsame
  exact ⟨hdone.trans h.done, by rw [hclient, hstatus]; exact h.phase, h.streak⟩

/-- An action of the monitor itself does not end the streak. -/
theorem Turn.snoc (h : Turn cfg attempt delay trace d) {event : Event sig}
    (hevent : event.op.inConnect = false) : Turn cfg attempt delay (trace ++ [event]) d := by
  obtain ⟨past, between, rfl, hstreak, hbetween⟩ := h.streak
  refine ⟨h.done, h.phase, past, between ++ [event], by simp, hstreak, ?_⟩
  intro other hother
  rcases List.mem_append.mp hother with hold | hnew
  · exact hbetween other hold
  · rw [List.mem_singleton.mp hnew]
    exact hevent

/-- An action at which the monitor does not stay. -/
def Op.isQuiet : Op → Bool
  | .wait _ => false
  | .sleep _ => false
  | op => !op.inConnect

theorem monitorGuard_of_isQuiet {op : Op} (hquiet : op.isQuiet = true) :
    MonitorGuard cfg trace d op := by
  refine ⟨⟨?_, ?_⟩, ?_⟩
  · rintro client rfl
    cases hquiet
  · rintro client rfl
    cases hquiet
  · rintro (⟨client, rfl⟩ | ⟨delay, rfl⟩ | ⟨hconnect, -⟩)
    · cases hquiet
    · cases hquiet
    · cases op <;> simp_all [Op.isQuiet, Op.inConnect]

/-- The status at an action within a turn, before or in a connect. -/
theorem Turn.reported (h : Turn cfg attempt delay trace d) {part : List (Event sig)} {pinned : Text}
    {op op' : Op} {next : op.Reply → Prog (Except ConnectError (Nat × Text))}
    (hpart : (connectSSH { cfg with fingerprint := pinned }).Reaches part (.act op next))
    (hsleeping : ∀ slept, op' = .sleep slept → slept = delay)
    (hslept : op'.inConnect = true → LastSlept (trace ++ part) delay) :
    ∃ st, Reported cfg (trace ++ part) d op' st := by
  obtain ⟨st, hstatus, hconnected, rfl, rfl, hfailure, hreset⟩ := h.phase.status
  obtain ⟨past, between, rfl, hstreak, hbetween⟩ := h.streak
  refine ⟨st, hstatus, hconnected, fun hfailed => ⟨(hfailure hfailed).1, ?_⟩,
    fun hfailed => (hfailure hfailed).2, hreset, hsleeping, hslept⟩
  exact ⟨past, between, part, pinned, op, next, rfl, hstreak, hbetween, hpart⟩

/-- The status where the monitor waits or sleeps. -/
theorem Turn.reported_own (h : Turn cfg attempt delay trace d) {op : Op}
    (hop : op.inConnect = false) (hsleeping : ∀ slept, op = .sleep slept → slept = delay) :
    ∃ st, Reported cfg trace d op st := by
  have hbegin : (connectSSH { cfg with fingerprint := [] }).Reaches [] _ := .refl _
  have hreported := h.reported hbegin hsleeping (by simp [hop])
  rwa [List.append_nil] at hreported

theorem perform_loadDone {done : Bool} (h : Dialer.perform .loadDone d done = some d') :
    done = d.done ∧ d' = d := by
  simp only [Dialer.perform, Option.ite_none_right_eq_some, Option.some.injEq] at h
  exact ⟨h.1, h.2.symm⟩

theorem perform_getClient {client : Option Nat}
    (h : Dialer.perform .getClient d client = some d') : client = d.client ∧ d' = d := by
  simp only [Dialer.perform, Option.ite_none_right_eq_some, Option.some.injEq] at h
  exact ⟨h.1, h.2.symm⟩

/-- Reading `done` finds it unset. -/
theorem Turn.loadDone {α : Type} {post : List (Event sig) → Dialer → α → Prop}
    {f : Bool → Prog α} (h : Turn cfg attempt delay trace d)
    (hf : ∀ d', Same d d' → Turn cfg attempt delay (trace ++ [⟨.loadDone, false⟩]) d' →
      AlwaysIn Dialer.perform Same (MonitorGuard cfg) post (trace ++ [⟨.loadDone, false⟩]) d'
        (f false)) :
    AlwaysIn Dialer.perform Same (MonitorGuard cfg) post trace d (act .loadDone >>= f) := by
  refine AlwaysIn.perform fun before hsame => ⟨?_, fun done after hafter => ?_⟩
  · exact monitorGuard_of_isQuiet rfl
  · obtain ⟨hdone, rfl⟩ := perform_loadDone hafter
    have hturn := h.same hsame
    rw [hturn.done] at hdone
    subst hdone
    exact hf after hsame (hturn.snoc rfl)

/-- Whatever happens to the client, the monitor goes on without one. -/
theorem awaitLoss_alwaysIn (h : Turn cfg attempt delay trace d) :
    AlwaysIn Dialer.perform Same (MonitorGuard cfg)
      (fun trace' d' stopped => stopped = false ∧ d'.client = none ∧
        Turn cfg attempt delay trace' d') trace d (awaitLoss d.client) := by
  cases hclient : d.client with
  | none => exact ⟨rfl, hclient, h⟩
  | some client =>
      refine AlwaysIn.perform fun d₁ hsame₁ => ⟨⟨⟨?_, ?_⟩, fun _ => ?_⟩, fun _ d₂ hwait => ?_⟩
      · rintro _ ⟨⟩
        rw [hsame₁.1, hclient]
      · rintro _ ⟨⟩
      · exact (h.same hsame₁).reported_own rfl fun slept hslept => by cases hslept
      · obtain rfl : d₁ = d₂ := by
          simp only [Dialer.perform, Option.ite_none_right_eq_some, Option.some.injEq] at hwait
          exact hwait.2
        refine ((h.same hsame₁).snoc rfl).loadDone fun d₃ hsame₃ hturn => ?_
        -- Between the two updates the status still says connected; nothing blocks there.
        refine AlwaysIn.perform fun d₄ hsame₄ => ⟨?_, fun _ d₅ hclear => ?_⟩
        · exact monitorGuard_of_isQuiet rfl
        · cases hclear
          refine AlwaysIn.perform fun d₆ hsame₆ => ⟨?_, fun _ d₇ hset => ?_⟩
          · exact monitorGuard_of_isQuiet rfl
          · cases hset
            have hphase := h.phase
            rw [hclient] at hphase
            obtain ⟨rfl, rfl⟩ := hphase.reset
            have hlost : Turn cfg 0 0 (_ ++ [⟨.clearClient, ()⟩]) d₄ := (hturn.same hsame₄).snoc rfl
            have hnone : d₆.client = none := hsame₆.1
            refine ⟨rfl, hnone, hsame₆.2.1.trans hlost.done, ?_, (hlost.snoc rfl).streak⟩
            simp only [hnone]
            exact .reconnecting

end Turn

/-! ## Connecting -/

/-- A connect closes only a client it has made. -/
def ClosesOwn (history : List (Event sig)) (op : Op) : Prop :=
  ∀ client, op = .closeClient client → ∃ key, ⟨.newClient key, client⟩ ∈ history

theorem closesOwn_of_confined {α : Type} {p : Prog α} {history : List (Event sig)}
    (hp : Confined (fun op : Op => ∀ client, op ≠ .closeClient client) p) :
    p.Always ClosesOwn (fun history' _ => history ⊆ history') history := by
  have halways : p.Always ClosesOwn (fun _ _ => True) history :=
    hp.always fun _ op hop client h => absurd h (hop client)
  refine halways.path.post_imp fun history' value hpath => ?_
  obtain ⟨trace, rfl, -⟩ := hpath
  exact List.subset_append_left _ _

theorem pinHostKey_closesOwn (cfg : SshDialerCfg) {client : Nat} {key : Option HostKey}
    {history : List (Event sig)} (hclient : ⟨.newClient key, client⟩ ∈ history) :
    (pinHostKey cfg client key).Always ClosesOwn (fun _ _ => True) history := by
  cases key with
  | none => trivial
  | some key =>
      simp only [pinHostKey]
      split
      next =>
        have hfile : Confined (fun op : Op => ∀ client, op ≠ .closeClient client)
            (writeFileAtomic .sshKnownHosts (sshFingerprint cfg.sha256 key) 0o600) := by
          apply (writeFileAtomic_onFile _ _ _).imp
          rintro op hop closed rfl
          cases hop
        refine (closesOwn_of_confined hfile).bind fun history' saved hsubset => ?_
        cases saved with
        | error err =>
            refine Always.perform (fun closed h => ?_) fun _ => trivial
            cases h
            exact ⟨_, hsubset hclient⟩
        | ok value => trivial
      next => trivial

theorem newClientConn_closesOwn (cfg : SshDialerCfg) (history : List (Event sig)) :
    (newClientConn cfg).Always ClosesOwn (fun _ _ => True) history := by
  refine Always.perform nofun fun exchanged => ?_
  cases exchanged with
  | error err => trivial
  | ok remoteKey =>
      dsimp only
      split
      next => trivial
      next =>
        refine Always.perform nofun fun result => ?_
        cases result <;> trivial

theorem handshake_closesOwn (cfg : SshDialerCfg) (addr : Text) (history : List (Event sig)) :
    (handshake cfg addr).Always ClosesOwn (fun _ _ => True) history := by
  refine Always.perform nofun fun set => ?_
  cases set with
  | error err => exact Always.perform nofun fun _ => trivial
  | ok value =>
      refine (newClientConn_closesOwn cfg _).bind fun history' result _ => ?_
      cases result with
      | error err => exact Always.perform nofun fun _ => trivial
      | ok remoteKey =>
          refine Always.perform nofun fun cleared => ?_
          cases cleared with
          | error err => exact Always.perform nofun fun _ => trivial
          | ok value =>
              refine Always.perform nofun fun client => ?_
              exact pinHostKey_closesOwn cfg (by simp)

theorem connectSSH_closesOwn (cfg : SshDialerCfg) :
    (connectSSH cfg).Always ClosesOwn (fun _ _ => True) [] := by
  refine Always.perform nofun fun keyData => ?_
  cases keyData with
  | error err => trivial
  | ok keyData =>
      refine Always.perform nofun fun signer => ?_
      cases signer with
      | error err => trivial
      | ok value =>
          refine Always.perform nofun fun dialed => ?_
          cases dialed with
          | error err => trivial
          | ok value => exact handshake_closesOwn cfg _ _

theorem perform_same_of_inConnect {op : Op} {d d' : Dialer} {reply : op.Reply}
    (hop : op.inConnect = true) (hperform : d.perform op reply = some d') : Same d d' := by
  cases op <;> first
    | (cases hperform; exact ⟨rfl, rfl, rfl⟩)
    | cases hop

/-- A connect leaves the fields alone; its result tells whether the streak goes
on. -/
theorem connectSSH_alwaysIn {cfg : SshDialerCfg} {attempt delay : Nat} {trace : List (Event sig)}
    {d : Dialer} (h : Turn cfg attempt delay trace d) (hslept : LastSlept trace delay)
    (pinned : Text) :
    AlwaysIn Dialer.perform Same (MonitorGuard cfg)
      (fun trace' d' result => Same d d' ∧ ∃ connect, trace' = trace ++ connect ∧
        (connectSSH { cfg with fingerprint := pinned }).Returns connect result)
      trace d (connectSSH { cfg with fingerprint := pinned }) := by
  have hconfined := connectSSH_inConnect { cfg with fingerprint := pinned }
  refine Confined.alwaysIn Same.refl (fun _ _ _ => Same.trans) (fun _ _ => id)
    (fun op v reply v' => perform_same_of_inConnect) hconfined ?_ ?_
  · intro part op next d' hpath hsame
    have hop : op.inConnect = true := hconfined.at_reached hpath
    have hsleepless : ∀ other, (⟨.sleep other, ()⟩ : Event sig) ∉ part := by
      intro other hmem
      cases hconfined.of_mem hpath hmem
    refine ⟨⟨?_, ?_⟩, fun _ => (h.same hsame).reported hpath ?_ fun _ => ?_⟩
    · rintro client rfl
      cases hop
    · intro client hclose
      obtain ⟨key, hmem⟩ := ((connectSSH_closesOwn _).at_reached hpath).1 client hclose
      exact ⟨key, List.mem_append_right _ hmem⟩
    · rintro slept rfl
      cases hop
    · obtain ⟨before, after, rfl, hafter⟩ := hslept
      refine ⟨before, after ++ part, by simp, fun other hmem => ?_⟩
      rcases List.mem_append.mp hmem with hold | hnew
      · exact hafter other hold
      · exact hsleepless other hnew
  · intro connect result d' hreturns hsame
    exact ⟨hsame, connect, rfl, hreturns⟩

/-! ## The monitor -/

section Monitor

variable {cfg : SshDialerCfg} {attempt delay : Nat} {trace : List (Event sig)} {d : Dialer}

/-- After a failed connect the delay of the next one is reported. -/
theorem failed_alwaysIn {post : List (Event sig) → Dialer → Unit → Prop} {err : ConnectError}
    {next : Nat → Prog Unit} (hdone : d.done = false) (hclient : d.client = none)
    (hstreak : Streak cfg (attempt + 1) trace)
    (hnext : ∀ trace' d' delay', Turn cfg (attempt + 1) delay' trace' d' →
      AlwaysIn Dialer.perform Same (MonitorGuard cfg) post trace' d' (next delay')) :
    AlwaysIn Dialer.perform Same (MonitorGuard cfg) post trace d (do
      let jitter ← act (.intn 500)
      let delay := reconnectDelay (attempt + 1) + jitter * millisecond
      let _ ← act (.setStatus
        { state := failState err, err := some err, attempt := attempt + 1, retry := delay })
      next delay) := by
  refine AlwaysIn.perform fun d₁ hsame₁ => ⟨?_, fun jitter d₂ hintn => ?_⟩
  · exact monitorGuard_of_isQuiet rfl
  simp only [Dialer.perform, Option.ite_none_right_eq_some, Option.some.injEq] at hintn
  obtain ⟨hjitter, rfl⟩ := hintn
  refine AlwaysIn.perform fun d₃ hsame₃ => ⟨?_, fun _ d₄ hset => ?_⟩
  · exact monitorGuard_of_isQuiet rfl
  cases hset
  have hsame : Same d d₃ := hsame₁.trans hsame₃
  apply hnext
  refine ⟨hsame.2.1.trans hdone, ?_, trace, _, List.append_assoc _ _ _, hstreak,
    by simp [Op.inConnect]⟩
  simp only [hsame.1, hclient]
  exact .failed err (Nat.succ_pos attempt) hjitter

/-- After a connect the client is published, where there was none, and reported. -/
theorem connected_alwaysIn {post : List (Event sig) → Dialer → Unit → Prop} {newClient : Nat}
    {next : Prog Unit} (hclient : d.client = none) (h : d.done = false)
    (hstreak : Streak cfg 0 trace)
    (hnext : ∀ trace' d', Turn cfg 0 0 trace' d' →
      AlwaysIn Dialer.perform Same (MonitorGuard cfg) post trace' d' next) :
    AlwaysIn Dialer.perform Same (MonitorGuard cfg) post trace d (do
      let done ← act .loadDone
      if done then do
        let _ ← act (.closeClient newClient)
        return ()
      else do
        let old ← act (.publish newClient)
        let _ ← closeOld old
        let _ ← act (.setStatus { state := .connected })
        next) := by
  refine AlwaysIn.perform fun d₁ hsame₁ => ⟨?_, fun done d₂ hload => ?_⟩
  · exact monitorGuard_of_isQuiet rfl
  obtain ⟨rfl, rfl⟩ := perform_loadDone hload
  rw [hsame₁.2.1, h]
  refine AlwaysIn.perform fun d₃ hsame₃ => ⟨?_, fun old d₄ hpublish => ?_⟩
  · exact monitorGuard_of_isQuiet rfl
  have hsame : Same d d₃ := hsame₁.trans hsame₃
  simp only [Dialer.perform, Option.ite_none_right_eq_some, Option.some.injEq] at hpublish
  obtain ⟨rfl, rfl⟩ := hpublish
  rw [hsame.1, hclient]
  refine AlwaysIn.perform fun d₅ hsame₅ => ⟨?_, fun _ d₆ hset => ?_⟩
  · exact monitorGuard_of_isQuiet rfl
  cases hset
  apply hnext
  refine ⟨hsame₅.2.1.trans (hsame.2.1.trans h), ?_, trace, _,
    (List.append_assoc _ _ _).trans (List.append_assoc _ _ _), hstreak, by simp [Op.inConnect]⟩
  simp only [show d₅.client = some newClient from hsame₅.1]
  exact .connected newClient

/-- The loop keeps the variables, the fields and the streak in step, whatever
fingerprint it was started with. -/
theorem monitor_alwaysIn (rounds : Nat) (fp pinned : Text)
    (h : Turn cfg attempt delay trace d) :
    AlwaysIn Dialer.perform Same (MonitorGuard cfg) (fun _ _ _ => True) trace d
      (monitor { cfg with fingerprint := fp } rounds pinned attempt delay) := by
  induction rounds generalizing pinned attempt delay trace d with
  | zero => trivial
  | succ rounds ih =>
      refine AlwaysIn.perform fun d₁ hsame₁ => ⟨?_, fun client d₂ hget => ?_⟩
      · exact monitorGuard_of_isQuiet rfl
      obtain ⟨rfl, rfl⟩ := perform_getClient hget
      refine AlwaysIn.bind (awaitLoss_alwaysIn ((h.same hsame₁).snoc rfl)) ?_
      rintro trace₂ d₂ stopped ⟨rfl, hnone, hturn₂⟩
      refine AlwaysIn.perform fun d₃ hsame₃ =>
        ⟨⟨⟨nofun, nofun⟩, fun _ => ?_⟩, fun _ d₄ hsleep => ?_⟩
      · exact (hturn₂.same hsame₃).reported_own rfl fun slept hslept => by
          cases hslept
          rfl
      cases hsleep
      refine Turn.loadDone ((hturn₂.same hsame₃).snoc rfl) fun d₅ hsame₅ hturn₅ => ?_
      have hslept : LastSlept (trace₂ ++ [⟨.sleep delay, ()⟩] ++ [⟨.loadDone, false⟩]) delay :=
        ⟨trace₂, [⟨.loadDone, false⟩], by simp, by simp⟩
      refine AlwaysIn.bind (connectSSH_alwaysIn hturn₅ hslept pinned) ?_
      rintro trace₆ d₆ result ⟨hsame₆, connect, rfl, hconnect⟩
      have hnone₆ : d₆.client = none := by
        rw [hsame₆.1, hsame₅.1, hsame₃.1, hnone]
      have hdone₆ : d₆.done = false := hsame₆.2.1.trans hturn₅.done
      obtain ⟨past, between, hsplit, hstreak, hbetween⟩ := hturn₅.streak
      rw [hsplit]
      cases result with
      | error err =>
          exact failed_alwaysIn hdone₆ hnone₆ (.failed hstreak hbetween hconnect)
            fun trace' d' delay' => ih pinned
      | ok found =>
          exact connected_alwaysIn hnone₆ hdone₆ (.connected hstreak hbetween hconnect)
            fun trace' d' => ih _

/-- Before the monitor runs, nothing has slept and no field is set. -/
theorem readKnownHost_alwaysIn (cfg : SshDialerCfg) :
    AlwaysIn Dialer.perform Same (MonitorGuard cfg)
      (fun trace d _ => (∀ delay, ⟨.sleep delay, ()⟩ ∉ trace) ∧ Same {} d) [] {}
      readKnownHostFingerprint := by
  refine AlwaysIn.perform fun d₁ hsame₁ => ⟨⟨⟨nofun, nofun⟩, ?_⟩, fun data d₂ hread => ?_⟩
  · rintro (⟨client, h⟩ | ⟨delay, h⟩ | ⟨-, delay, h⟩) <;> cases h
  cases hread
  cases data with
  | error err =>
      dsimp only
      split
      next => exact ⟨by simp, hsame₁⟩
      next => exact ⟨by simp, hsame₁⟩
  | ok data =>
      dsimp only
      split
      next => exact ⟨by simp, hsame₁⟩
      next => exact ⟨by simp, hsame₁⟩

/-- From its start on, the process reports its status as it is. -/
theorem newSSHDialer_alwaysIn (cfg : SshDialerCfg) (rounds : Nat) :
    AlwaysIn Dialer.perform Same (MonitorGuard cfg) (fun _ _ _ => True) [] {}
      (newSSHDialer { cfg with fingerprint := [] } rounds) := by
  refine AlwaysIn.bind (readKnownHost_alwaysIn cfg) ?_
  rintro trace d fp ⟨hsleep, hsame⟩
  cases fp with
  | error err => trivial
  | ok fp =>
      have hcfg : (if fp ≠ [] then { cfg with fingerprint := fp }
          else { cfg with fingerprint := [] }) = { cfg with fingerprint := fp } := by
        split
        next => rfl
        next hempty => rw [not_not.mp hempty]
      dsimp only
      rw [hcfg]
      refine AlwaysIn.perform fun d₂ hsame₂ => ⟨?_, fun _ d₃ hset => ?_⟩
      · exact monitorGuard_of_isQuiet rfl
      cases hset
      apply monitor_alwaysIn
      refine ⟨hsame₂.2.1.trans hsame.2.1, ?_, _, [], (List.append_nil _).symm, .start ?_, nofun⟩
      · simp only [hsame₂.1, hsame.1]
        exact .connecting
      · intro delay hmem
        rcases List.mem_append.mp hmem with hold | hnew
        · exact hsleep delay hold
        · cases List.mem_singleton.mp hnew

end Monitor

/-- A loss changes nothing the monitor has set. -/
theorem same_of_disturbed {cfg : SshDialerCfg} {m m' : Machine}
    (h : Process.Disturbed (P := sshProcess cfg) (fun disturbance => disturbance ≠ .stop) m m') :
    Same m.dialer m'.dialer := by
  induction h with
  | refl => exact Same.refl _
  | tail _ hstep ih =>
      obtain ⟨disturbance, hlost, hdisturb⟩ := hstep
      cases disturbance with
      | lost client =>
          cases hdisturb
          exact ih
      | stop => exact absurd rfl hlost

/-- Whatever connects return and whenever tunnels are lost, as long as nothing
stops: where the monitor blocks, the client, the status, the attempt number and
the delay agree, and no action uses a client that does not exist. -/
theorem monitor_reports (cfg : SshDialerCfg) (rounds : Nat) (m₀ : Process.Moment (sshProcess cfg))
    {m : Process.Moment (sshProcess cfg)} {steps : List (Process.Step (sshProcess cfg))}
    (hsteps : ∀ action ∈ steps, (∃ event, action = .run event) ∨
      ∃ client, action = .disturb (.lost client))
    (hrun : (sshProcess cfg).run m₀ (.start rounds :: steps) = some m) {op : Op}
    {next : op.Reply → Prog Unit} (hrest : m.rest = .act op next) :
    NoNilClient (Process.events steps) m.state.dialer op ∧
    (Blocks (Process.events steps) op →
      ∃ st, Reported cfg (Process.events steps) m.state.dialer op st) ∧
    ∀ a b, a ≤ b → reconnectDelay a ≤ reconnectDelay b := by
  have hlosses : ∀ action ∈ steps, (∃ event, action = Process.Step.run event) ∨
      ∃ disturbance, disturbance ≠ Disturbance.stop ∧ action = .disturb disturbance := by
    intro action haction
    rcases hsteps action haction with hevent | ⟨client, rfl⟩
    · exact .inl hevent
    · exact .inr ⟨.lost client, nofun, rfl⟩
  obtain ⟨hpath, hpasses⟩ := Process.run_passes hlosses hrun
  rw [hrest] at hpath
  have hview : Passes Dialer.perform Same {} (Process.events steps) m.state.dialer :=
    hpasses.map Machine.dialer
      (fun op m reply m' hperform => (Machine.perform_eq_some.mp hperform).2)
      (fun m m' => same_of_disturbed)
  have hguard := (newSSHDialer_alwaysIn cfg rounds).at_reached hpath hview
  rw [List.nil_append] at hguard
  exact ⟨hguard.1, hguard.2, fun a b => reconnectDelay_mono⟩

/-- The first connect cannot read its key, and the monitor is about to sleep. -/
def keylessSteps (cfg : SshDialerCfg) : List (Process.Step (sshProcess cfg)) :=
  [.run ⟨.readFile .sshKnownHosts, .error ⟨true, []⟩⟩,
    .run ⟨.setStatus { state := .connecting }, ()⟩, .run ⟨.getClient, none⟩, .run ⟨.sleep 0, ()⟩,
    .run ⟨.loadDone, false⟩, .run ⟨.readFile .sshKey, .error ⟨false, str "denied"⟩⟩,
    .run ⟨.intn 500, 7⟩,
    .run ⟨.setStatus { state := .sshError, err := some (.readKey (str "denied")), attempt := 1,
                       retry := 2007000000 }, ()⟩,
    .run ⟨.getClient, none⟩]

theorem keyless_reports :
    let cfg : SshDialerCfg := { host := str "h", port := 22, sha256 := fun _ => [] }
    ∃ m, (sshProcess cfg).run ⟨⟨{}, {}⟩, .ret ()⟩ (.start 2 :: keylessSteps cfg) = some m ∧
      ∃ st, Reported cfg (Process.events (keylessSteps cfg)) m.state.dialer (.sleep 2007000000)
        st := by
  intro cfg
  have hevents : ∀ action ∈ keylessSteps cfg, (∃ event, action = .run event) ∨
      ∃ client, action = .disturb (.lost client) := by
    simp [keylessSteps]
  have hend : ((sshProcess cfg).run ⟨⟨{}, {}⟩, .ret ()⟩ (.start 2 :: keylessSteps cfg)).any
      (fun m => match m.rest with
        | .ret _ => false
        | .act op _ => decide (op = .sleep 2007000000)) = true := by
    decide +kernel
  obtain ⟨⟨state, rest⟩, hrun, hrest⟩ := (Option.any_eq_true ..).mp hend
  cases rest with
  | ret value => cases hrest
  | act op next =>
      obtain rfl : op = .sleep 2007000000 := of_decide_eq_true hrest
      have hreports := (monitor_reports cfg 2 _ hevents hrun rfl).2.1 (.inr (.inl ⟨_, rfl⟩))
      exact ⟨_, hrun, hreports⟩

end SshGate.Tunnel
