import SshGate.Tunnel.Files

/-! # The host key is pinned once and for all

Whatever happens to connects, writes and processes, the file with the
fingerprint is written at most once, and every client that is published had
the key with the fingerprint in it.
-/

namespace SshGate.Tunnel

open Go Interaction Program

/-! ## Fingerprints -/

theorem sshFingerprint_ne_nil (sha256 : Text → List UInt8) (key : HostKey) :
    sshFingerprint sha256 key ≠ [] :=
  List.append_ne_nil_of_left_ne_nil (by decide) _

/-- A saved fingerprint is read back as it was written. -/
theorem sshFingerprint_trimSpace (sha256 : Text → List UInt8) (key : HostKey) :
    (sshFingerprint sha256 key).trimSpace = sshFingerprint sha256 key := by
  apply Text.trimSpace_of_isVisible
  apply Text.IsVisible.append
  · have hall : (str "SHA256:").all (fun b => 33 ≤ b.toNat ∧ b.toNat < 127) = true := by decide
    exact fun b hb => of_decide_eq_true (List.all_eq_true.mp hall b hb)
  · exact Text.base64_visible _

/-! ## One connect -/

/-- The trusted fingerprint `fp` is the one in the file; the empty text means
that there is no file yet. -/
def PinnedAt (s : Store) (fp : Text) : Prop :=
  (fp = [] → s.files .sshKnownHosts = none) ∧
    (fp ≠ [] → ∃ content, s.files .sshKnownHosts = some content ∧ content.trimSpace = fp)

theorem PinnedAt.of_files {s s' : Store} {fp : Text} (h : PinnedAt s fp)
    (hfiles : s'.files = s.files) : PinnedAt s' fp := by
  unfold PinnedAt at *
  rwa [hfiles]

/-- The dialer's guarantee: a fingerprint in the file stays as it is, and what
is published has the fingerprint in the file. -/
structure Pins (sha256 : Text → List UInt8) (s s' : Store) : Prop where
  kept : ∀ content, s.files .sshKnownHosts = some content →
    s'.files .sshKnownHosts = some content
  published : s'.published = s.published ∨ ∃ key content,
    s'.published = s.published ++ [some key] ∧ s'.files .sshKnownHosts = some content ∧
      content.trimSpace = sshFingerprint sha256 key

theorem Untouched.pins {s s' : Store} (sha256 : Text → List UInt8) (h : Untouched s s') :
    Pins sha256 s s' where
  kept := fun content hcontent => by rw [h.files, hcontent]
  published := .inl h.published

/-- An action that touches nothing, and then the rest. -/
theorem Keeps.quiet {sha256 : Text → List UInt8} {α : Type} {post : Store → α → Prop} {op : Op}
    (hquiet : op.quiet = true) {f : op.Reply → Prog α} {s : Store}
    (hf : ∀ reply s', Untouched s s' → Store.perform op s reply = some s' →
      (f reply).Keeps Store.perform (Pins sha256) post s') :
    (act op >>= f).Keeps Store.perform (Pins sha256) post s := by
  refine Keeps.perform fun reply s' hperform => ?_
  have huntouched := perform_untouched hquiet hperform
  exact ⟨huntouched.pins sha256, hf reply s' huntouched hperform⟩

section Connect

variable (cfg : SshDialerCfg)

/-- A finished handshake went through the host key callback. -/
def Accepted (result : Except HandshakeError (Option HostKey)) : Prop :=
  ∀ remoteKey, result = .ok remoteKey → ∃ key, remoteKey = some key ∧
    (cfg.fingerprint ≠ [] → sshFingerprint cfg.sha256 key = cfg.fingerprint)

theorem newClientConn_keeps (s : Store) :
    (newClientConn cfg).Keeps Store.perform (Pins cfg.sha256)
      (fun s' result => Untouched s s' ∧ Accepted cfg result) s := by
  refine Keeps.quiet rfl fun exchanged s₁ hs₁ _ => ?_
  cases exchanged with
  | error err => exact ⟨hs₁, by simp [Accepted]⟩
  | ok remoteKey =>
      simp only
      split
      next err hcallback => exact ⟨hs₁, by simp [Accepted]⟩
      next hcallback =>
        refine Keeps.quiet rfl fun reply s₂ hs₂ hauthenticate => ?_
        cases reply with
        | error err => exact ⟨hs₁.trans hs₂, by simp [Accepted]⟩
        | ok value =>
            refine ⟨hs₁.trans hs₂, ?_⟩
            rintro _ ⟨rfl⟩
            -- The library's promise: no success without the callback.
            cases remoteKey with
            | none => simp [Store.perform] at hauthenticate
            | some key =>
                refine ⟨key, rfl, fun hpinned => ?_⟩
                by_contra hmismatch
                simp [hostKeyCallback, hpinned, hmismatch] at hcallback

/-- What `connectSSH` leaves behind: a client whose key has the fingerprint in
the file, or the pin as it was. -/
def Connected (s : Store) : Except ConnectError (Nat × Text) → Prop
  | .ok (client, fp) => (cfg.fingerprint ≠ [] → fp = cfg.fingerprint) ∧
      ∃ key content, s.keys client = some key ∧ fp = sshFingerprint cfg.sha256 key ∧
        s.files .sshKnownHosts = some content ∧ content.trimSpace = fp
  | .error _ => PinnedAt s cfg.fingerprint

/-- The first connect saves the fingerprint before it is trusted. -/
theorem pinHostKey_keeps {s : Store} {client : Nat} {key : HostKey}
    (hs : PinnedAt s cfg.fingerprint) (hclient : s.keys client = some key)
    (hkey : cfg.fingerprint ≠ [] → sshFingerprint cfg.sha256 key = cfg.fingerprint) :
    (pinHostKey cfg client (some key)).Keeps Store.perform (Pins cfg.sha256) (Connected cfg) s := by
  unfold pinHostKey
  simp only
  split
  next hfirst =>
    have hnone := hs.1 hfirst
    let data := sshFingerprint cfg.sha256 key
    have hsave : (writeFileAtomic .sshKnownHosts data 0o600).Keeps Store.perform (Pins cfg.sha256)
        (Saved s .sshKnownHosts data) s := by
      refine Keeps.guarantee_imp (fun s' => ∀ content, s'.files .sshKnownHosts = some content →
        content = data) ?_ (by simp [hnone]) (writeFileAtomic_keeps .sshKnownHosts data 0o600 s)
      intro s₁ s₂ hdata hreplaces
      rcases hreplaces.files with hsame | hnew
      · exact ⟨hsame ▸ hdata, ⟨hsame ▸ fun _ h => h, .inl hreplaces.published⟩⟩
      · have hfile : s₂.files .sshKnownHosts = some data := by rw [hnew, Function.update_self]
        refine ⟨fun content h => ?_, ⟨fun content h => ?_, .inl hreplaces.published⟩⟩
        · exact (Option.some.inj (hfile.symm.trans h)).symm
        · rw [hdata content h, hfile]
    refine Keeps.bind hsave fun s' saved hsaved => ?_
    cases saved with
    | error err =>
        refine Keeps.quiet rfl fun _ s'' hs'' _ => ?_
        exact hs.of_files (hs''.files.trans (hsaved.error err rfl))
    | ok value =>
        have hfile : s'.files .sshKnownHosts = some data := by
          rw [hsaved.ok rfl, Function.update_self]
        refine ⟨fun h => absurd hfirst h, key, data, ?_, rfl, hfile,
          sshFingerprint_trimSpace cfg.sha256 key⟩
        rw [hsaved.keys, hclient]
  next hpinned =>
    obtain ⟨content, hcontent, htrim⟩ := hs.2 hpinned
    exact ⟨hkey, key, content, hclient, rfl, hcontent, htrim.trans (hkey hpinned).symm⟩

theorem handshake_keeps (addr : Text) {s : Store} (hs : PinnedAt s cfg.fingerprint) :
    (handshake cfg addr).Keeps Store.perform (Pins cfg.sha256) (Connected cfg) s := by
  have hclose : ∀ (s : Store) (err : ConnectError), PinnedAt s cfg.fingerprint →
      (act .closeConn >>= fun _ => pure (.error err) :
        Prog (Except ConnectError (Nat × Text))).Keeps Store.perform (Pins cfg.sha256)
        (Connected cfg) s := by
    intro s err hs
    refine Keeps.quiet rfl fun _ s' hs' _ => ?_
    exact hs.of_files hs'.files
  refine Keeps.quiet rfl fun set s₁ hs₁ _ => ?_
  have hpinned₁ := hs.of_files hs₁.files
  cases set with
  | error err => exact hclose s₁ _ hpinned₁
  | ok value =>
      refine Keeps.bind (newClientConn_keeps cfg s₁) fun s₂ result hresult => ?_
      obtain ⟨hs₂, haccepted⟩ := hresult
      have hpinned₂ := hpinned₁.of_files hs₂.files
      cases result with
      | error err => exact hclose s₂ _ hpinned₂
      | ok remoteKey =>
          obtain ⟨key, rfl, hkey⟩ := haccepted remoteKey rfl
          refine Keeps.quiet rfl fun cleared s₃ hs₃ _ => ?_
          have hpinned₃ := hpinned₂.of_files hs₃.files
          cases cleared with
          | error err => exact hclose s₃ _ hpinned₃
          | ok value =>
              refine Keeps.perform fun client s₄ hnew => ?_
              simp only [Store.perform, Option.ite_none_right_eq_some,
                Option.some.injEq] at hnew
              obtain ⟨_, rfl⟩ := hnew
              refine ⟨⟨fun _ h => h, .inl rfl⟩, ?_⟩
              exact pinHostKey_keeps cfg hpinned₃ (Function.update_self ..) hkey

/-- One connect keeps the pin, and a client it returns has the pinned key. -/
theorem connectSSH_keeps {s : Store} (hs : PinnedAt s cfg.fingerprint) :
    (connectSSH cfg).Keeps Store.perform (Pins cfg.sha256) (Connected cfg) s := by
  refine Keeps.quiet rfl fun keyData s₁ hs₁ _ => ?_
  have hpinned₁ := hs.of_files hs₁.files
  cases keyData with
  | error err => exact hpinned₁
  | ok keyData =>
      refine Keeps.quiet rfl fun signer s₂ hs₂ _ => ?_
      have hpinned₂ := hpinned₁.of_files hs₂.files
      cases signer with
      | error err => exact hpinned₂
      | ok value =>
          refine Keeps.quiet rfl fun dialed s₃ hs₃ _ => ?_
          have hpinned₃ := hpinned₂.of_files hs₃.files
          cases dialed with
          | error err => exact hpinned₃
          | ok value => exact handshake_keeps cfg _ hpinned₃

end Connect

/-! ## The monitor -/

/-- A program of quiet actions touches nothing. -/
theorem Confined.untouched {α : Type} (sha256 : Text → List UInt8) {p : Prog α}
    (hp : Confined (fun op : Op => op.quiet = true) p) (s : Store) :
    p.Keeps Store.perform (Pins sha256) (fun s' _ => Untouched s s') s := by
  refine Confined.keeps Untouched.refl (fun _ _ _ => Untouched.trans) ?_ hp s
  intro op v reply v' hquiet hperform
  have huntouched := perform_untouched hquiet hperform
  exact ⟨huntouched, huntouched.pins sha256⟩

theorem awaitLoss_quiet (client : Option Nat) :
    Confined (fun op : Op => op.quiet = true) (awaitLoss client) := by
  cases client with
  | none => trivial
  | some client =>
      refine Confined.perform rfl fun _ => Confined.perform rfl fun done => ?_
      cases done with
      | true => trivial
      | false => exact Confined.perform rfl fun _ => Confined.perform rfl fun _ => trivial

theorem closeOld_quiet (old : Option Nat) :
    Confined (fun op : Op => op.quiet = true) (closeOld old) := by
  cases old with
  | none => trivial
  | some client => exact ⟨rfl, fun _ => trivial⟩

/-- The pin after a successful connect. -/
theorem pinnedAt_update {s : Store} {pinned fp content : Text} (hsame : pinned ≠ [] → fp = pinned)
    (hfp : fp ≠ []) (hfile : s.files .sshKnownHosts = some content)
    (htrim : content.trimSpace = fp) : PinnedAt s (if pinned = [] then fp else pinned) := by
  have hpin : (if pinned = [] then fp else pinned) = fp := by
    split
    next => rfl
    next hne => exact (hsame hne).symm
  rw [hpin]
  exact ⟨fun hempty => absurd hempty hfp, fun _ => ⟨content, hfile, htrim⟩⟩

section Monitor

variable (cfg : SshDialerCfg)

/-- The loop's invariant: `pinned` is what the file holds. -/
theorem monitor_keeps (rounds : Nat) {pinned : Text} (attempt delay : Nat) {s : Store}
    (hs : PinnedAt s pinned) :
    (monitor cfg rounds pinned attempt delay).Keeps Store.perform (Pins cfg.sha256)
      (fun _ _ => True) s := by
  induction rounds generalizing pinned attempt delay s with
  | zero => trivial
  | succ rounds ih =>
      refine Keeps.quiet rfl fun client s₁ hs₁ _ => ?_
      refine Keeps.bind (Confined.untouched cfg.sha256 (awaitLoss_quiet client) s₁) ?_
      intro s₂ stopped hs₂
      cases stopped with
      | true => trivial
      | false =>
          refine Keeps.quiet rfl fun _ s₃ hs₃ _ => Keeps.quiet rfl fun done s₄ hs₄ _ => ?_
          have hpinned : PinnedAt s₄ pinned :=
            hs.of_files (hs₁.trans (hs₂.trans (hs₃.trans hs₄))).files
          cases done with
          | true => trivial
          | false =>
              have hconnect := connectSSH_keeps { cfg with fingerprint := pinned } hpinned
              refine Keeps.bind hconnect fun s₅ connected hconnected => ?_
              cases connected with
              | error err =>
                  refine Keeps.quiet rfl fun jitter s₆ hs₆ _ => ?_
                  refine Keeps.quiet rfl fun _ s₇ hs₇ _ => ih _ _ ?_
                  exact PinnedAt.of_files hconnected (hs₆.trans hs₇).files
              | ok result =>
                  obtain ⟨newClient, fp⟩ := result
                  obtain ⟨hsame, key, content, hclient, hfp, hfile, htrim⟩ := hconnected
                  refine Keeps.quiet rfl fun done s₆ hs₆ _ => ?_
                  cases done with
                  | true => exact Keeps.quiet rfl fun _ _ _ _ => trivial
                  | false =>
                      refine Keeps.perform fun old s₇ hpublish => ?_
                      simp only [Store.perform, Option.some.injEq] at hpublish
                      have hfile₇ : s₇.files .sshKnownHosts = some content := by
                        rw [← hpublish]
                        exact (congrFun hs₆.files _).trans hfile
                      refine ⟨⟨?_, .inr ⟨key, content, ?_, hfile₇, htrim.trans hfp⟩⟩, ?_⟩
                      · intro content' hcontent'
                        rw [← hpublish]
                        exact hcontent'
                      · rw [← hpublish, ← hclient, ← hs₆.keys]
                      · refine Keeps.bind (Confined.untouched cfg.sha256 (closeOld_quiet old) s₇) ?_
                        intro s₈ _ hs₈
                        refine Keeps.quiet rfl fun _ s₉ hs₉ _ => ih _ _ ?_
                        have hfile₉ : s₉.files .sshKnownHosts = some content :=
                          (congrFun (hs₈.trans hs₉).files _).trans hfile₇
                        exact pinnedAt_update hsame (hfp ▸ sshFingerprint_ne_nil _ _) hfile₉ htrim

/-- What is read is the pin, whatever the file holds. -/
theorem readKnownHostFingerprint_keeps (sha256 : Text → List UInt8) (s : Store) :
    readKnownHostFingerprint.Keeps Store.perform (Pins sha256)
      (fun s' result => ∀ fp, result = .ok fp → PinnedAt s' fp) s := by
  refine Keeps.quiet rfl fun data s' hs' hread => ?_
  cases data with
  | error err =>
      simp only
      split
      next hmissing =>
        simp only [Store.perform, Option.ite_none_right_eq_some, Option.some.injEq] at hread
        obtain ⟨hnone, rfl⟩ := hread
        rintro _ ⟨rfl⟩
        exact ⟨fun _ => hnone hmissing, fun hne => absurd rfl hne⟩
      next =>
        intro fp hfp
        cases hfp
  | ok data =>
      simp only
      split
      next =>
        intro fp hfp
        cases hfp
      next hne =>
        simp only [Store.perform, Option.ite_none_right_eq_some, Option.some.injEq] at hread
        obtain ⟨hfile, rfl⟩ := hread
        rintro _ ⟨rfl⟩
        exact ⟨fun hempty => absurd hempty hne, fun _ => ⟨data, hfile, rfl⟩⟩

/-- The dialer keeps its guarantee from any store on. -/
theorem newSSHDialer_keeps (rounds : Nat) (s : Store) :
    (newSSHDialer { cfg with fingerprint := [] } rounds).Keeps Store.perform (Pins cfg.sha256)
      (fun _ _ => True) s := by
  refine Keeps.bind (readKnownHostFingerprint_keeps cfg.sha256 s) fun s₁ read hread => ?_
  cases read with
  | error err => trivial
  | ok fp =>
      refine Keeps.quiet rfl fun _ s₂ hs₂ _ => ?_
      by_cases hfp : fp = []
      · simp only [hfp, ne_eq, not_true_eq_false, if_false]
        exact monitor_keeps { cfg with fingerprint := [] } rounds 0 0
          ((hread [] (by rw [hfp])).of_files hs₂.files)
      · simp only [hfp, ne_eq, not_false_eq_true, if_true]
        exact monitor_keeps { cfg with fingerprint := fp } rounds 0 0
          ((hread fp rfl).of_files hs₂.files)

end Monitor

/-! ## Whole histories -/

open Relation (ReflTransGen)

/-- All clients ever published had a host key with this fingerprint. -/
def AllPublished (sha256 : Text → List UInt8) (s : Store) (fp : Text) : Prop :=
  ∀ entry ∈ s.published, ∃ key, entry = some key ∧ sshFingerprint sha256 key = fp

/-- The fingerprint of what was published is the one in the file. -/
def PublishedPinned (sha256 : Text → List UInt8) (s : Store) : Prop :=
  s.published ≠ [] → ∃ content, s.files .sshKnownHosts = some content ∧
    AllPublished sha256 s content.trimSpace

theorem Pins.publishedPinned {sha256 : Text → List UInt8} {s s' : Store} (h : Pins sha256 s s')
    (hs : PublishedPinned sha256 s) : PublishedPinned sha256 s' := by
  intro hsome
  rcases h.published with hsame | ⟨key, content, hnew, hfile, htrim⟩
  · rw [hsame] at hsome
    obtain ⟨content, hcontent, hall⟩ := hs hsome
    refine ⟨content, h.kept content hcontent, ?_⟩
    unfold AllPublished
    rw [hsame]
    exact hall
  · refine ⟨content, hfile, fun entry hentry => ?_⟩
    rw [hnew, List.mem_append, List.mem_singleton] at hentry
    rcases hentry with hold | rfl
    · -- There was a file before, and it is the same now.
      obtain ⟨content', hcontent', hall⟩ := hs (List.ne_nil_of_mem hold)
      have hsame := Option.some.inj ((h.kept content' hcontent').symm.trans hfile)
      exact hsame ▸ hall entry hold
    · exact ⟨key, rfl, htrim.symm⟩

theorem pins_kept {sha256 : Text → List UInt8} {s s' : Store}
    (h : ReflTransGen (Pins sha256) s s') {content : Text}
    (hcontent : s.files .sshKnownHosts = some content) :
    s'.files .sshKnownHosts = some content := by
  induction h with
  | refl => exact hcontent
  | tail _ hstep ih => exact hstep.kept content ih

theorem pins_publishedPinned {sha256 : Text → List UInt8} {s s' : Store}
    (h : ReflTransGen (Pins sha256) s s') (hs : PublishedPinned sha256 s) :
    PublishedPinned sha256 s' := by
  induction h with
  | refl => exact hs
  | tail _ hstep ih => exact hstep.publishedPinned ih

/-- Through any number of process starts, each cut off anywhere, all clients
that are ever published have host keys with one fingerprint, the one that the
file held at first if there was one; and once the file is there, it keeps its
content. -/
theorem sshProcess_pinned (cfg : SshDialerCfg) (s₀ : Store) (hfresh : s₀.published = [])
    {steps : List (Process.Step (sshProcess cfg))} {m : Process.Moment (sshProcess cfg)}
    (hrun : (sshProcess cfg).run ⟨⟨s₀, {}⟩, .ret ()⟩ steps = some m) :
    (∃ fp, AllPublished cfg.sha256 m.state.store fp) ∧
      (∀ content, s₀.files .sshKnownHosts = some content →
        AllPublished cfg.sha256 m.state.store content.trimSpace) ∧
      ∀ content, m.state.store.files .sshKnownHosts = some content →
        ∀ later m', (sshProcess cfg).run m later = some m' →
          m'.state.store.files .sshKnownHosts = some content := by
  have hstart : Process.Keeping (P := sshProcess cfg) Store.perform (Pins cfg.sha256)
      (fun _ _ => True) Machine.store ⟨⟨s₀, {}⟩, .ret ()⟩ := trivial
  obtain ⟨hkeeping, hpins⟩ := Process.run_keeping (sshProcess_owns cfg) (newSSHDialer_keeps cfg)
    hstart hrun
  have hpinned : PublishedPinned cfg.sha256 m.state.store :=
    pins_publishedPinned hpins fun hsome => absurd hfresh hsome
  refine ⟨?_, ?_, ?_⟩
  · by_cases hnone : m.state.store.published = []
    · exact ⟨[], by simp [AllPublished, hnone]⟩
    · obtain ⟨content, _, hall⟩ := hpinned hnone
      exact ⟨content.trimSpace, hall⟩
  · intro content hcontent
    by_cases hnone : m.state.store.published = []
    · simp [AllPublished, hnone]
    · obtain ⟨content', hcontent', hall⟩ := hpinned hnone
      have hsame := Option.some.inj ((pins_kept hpins hcontent).symm.trans hcontent')
      exact hsame ▸ hall
  · intro content hcontent later m' hlater
    obtain ⟨_, hlaterPins⟩ := Process.run_keeping (sshProcess_owns cfg) (newSSHDialer_keeps cfg)
      hkeeping hlater
    exact pins_kept hlaterPins hcontent

/-- A dialer whose hash is the key itself. -/
def sampleCfg : SshDialerCfg := { host := str "vps", port := 22, sha256 := id }

/-- The server of the sample run and one that steps in for it. -/
def serverKey : HostKey := ⟨str "server"⟩
def otherKey : HostKey := ⟨str "other"⟩

/-- The events of a connect up to its handshake with a server with this key. -/
def presentEvents (key : HostKey) : List (Event sig) :=
  [⟨.sleep 0, ()⟩, ⟨.loadDone, false⟩, ⟨.readFile .sshKey, .ok []⟩, ⟨.parsePrivateKey [], .ok ()⟩,
    ⟨.dial (str "vps:22"), .ok ()⟩, ⟨.setDeadline, .ok ()⟩, ⟨.keyExchange, .ok (some key)⟩]

def publishEvents (client : Nat) : List (Event sig) :=
  [⟨.loadDone, false⟩, ⟨.publish client, none⟩, ⟨.setStatus { state := .connected }, ()⟩]

def saveEvents : List (Event sig) :=
  [⟨.createTemp, .ok 0⟩, ⟨.write 0 (sshFingerprint id serverKey), .ok ()⟩, ⟨.chmod 0 0o600, .ok ()⟩,
    ⟨.sync 0, .ok ()⟩, ⟨.close 0, .ok ()⟩, ⟨.rename 0 .sshKnownHosts, .ok ()⟩, ⟨.remove 0, ()⟩]

/-- A process start that reads the file like this and connects. -/
def firstEvents (file : Except ReadError Text) (client : Nat) : List (Event sig) :=
  [⟨.readFile .sshKnownHosts, file⟩, ⟨.setStatus { state := .connecting }, ()⟩,
    ⟨.getClient, none⟩] ++ presentEvents serverKey ++
  [⟨.authenticate true, .ok ()⟩, ⟨.clearDeadline, .ok ()⟩, ⟨.newClient (some serverKey), client⟩]

/-- A reconnect to a server with another key. -/
def mismatchEvents : List (Event sig) :=
  [⟨.getClient, some 0⟩, ⟨.wait 0, ()⟩, ⟨.loadDone, false⟩, ⟨.clearClient, ()⟩,
    ⟨.setStatus { state := .reconnecting }, ()⟩] ++ presentEvents otherKey ++ [⟨.closeConn, ()⟩]

def sampleSteps (events : List (Event sig)) : List (Process.Step (sshProcess sampleCfg)) :=
  events.map fun event => .run event

/-- The first connect pins the key; the tunnel is lost and another server
answers; a second process connects again. -/
def pinnedTwice : List (Process.Step (sshProcess sampleCfg)) :=
  .start 2 :: sampleSteps (firstEvents (.error ⟨true, []⟩) 0 ++ saveEvents ++ publishEvents 0) ++
    .disturb (.lost 0) :: sampleSteps mismatchEvents ++
    .start 1 :: sampleSteps (firstEvents (.ok (sshFingerprint id serverKey)) 1 ++ publishEvents 1)

/-- The data directory of the sample run: a private key only. -/
def sampleStore : Store := { files := fun file => if file = .sshKey then some [] else none }

theorem sshProcess_pinned_twice :
    ∃ m, (sshProcess sampleCfg).run ⟨⟨sampleStore, {}⟩, .ret ()⟩ pinnedTwice = some m ∧
      m.state.store.published = [some serverKey, some serverKey] ∧
      (∃ fp, AllPublished id m.state.store fp) ∧
      ∀ later m', (sshProcess sampleCfg).run m later = some m' →
        m'.state.store.files .sshKnownHosts = some (sshFingerprint id serverKey) := by
  have hend : ((sshProcess sampleCfg).run ⟨⟨sampleStore, {}⟩, .ret ()⟩ pinnedTwice).map
      (fun m => (m.state.store.published, m.state.store.files .sshKnownHosts)) =
      some ([some serverKey, some serverKey], some (sshFingerprint id serverKey)) := by
    decide +kernel
  obtain ⟨m, hrun, hm⟩ := Option.map_eq_some_iff.mp hend
  simp only [Prod.mk.injEq] at hm
  obtain ⟨hsame, _, hkept⟩ := sshProcess_pinned sampleCfg sampleStore rfl hrun
  exact ⟨m, hrun, hm.1, hsame, hkept _ hm.2⟩

end SshGate.Tunnel
