import SshGate.Tunnel.Files

/-! # The SSH identity

`EnsureSSHKeyPair` of `keys.go`. The server knows the public key, so a private
key that is there must never be replaced, whatever happens to the files and the
processes; and what is shown as the public key must belong to it.
-/

namespace SshGate.Tunnel

open Go Interaction Program

/-- What is used of `x/crypto/ssh`. `marshals` tells the PEM texts that a private
key may be written as; a signer is known by its public key. A text that a key
was written as parses to the signer of the key. -/
structure KeyLibrary where
  marshals : PrivateKey → Text → Bool
  parsePrivateKey : Text → Except Text HostKey
  newSignerFromKey : PrivateKey → Except Text HostKey
  marshalAuthorizedKey : HostKey → Text
  parse_marshals : ∀ key data signer, marshals key data = true →
    newSignerFromKey key = .ok signer → parsePrivateKey data = .ok signer

/-- The errors of `EnsureSSHKeyPair`. -/
inductive KeyError where
  | read (path err : Text)
  | parse (path err : Text)
  | generate (err : Text)
  | marshal (err : Text)
  | writePrivate (err : Text)
  | signer (err : Text)
  | writePublic (err : Text)
  deriving Repr, DecidableEq

def KeyError.error : KeyError → Text
  | .read path err => str "read SSH key " ++ path ++ str ": " ++ err ++
      str " (check the file owner; a new key would not match authorized_keys on the server)"
  | .parse path err => str "parse existing SSH key " ++ path ++ str ": " ++ err
  | .generate err => str "generate ed25519 key: " ++ err
  | .marshal err => str "marshal private key: " ++ err
  | .writePrivate err => str "write private key: " ++ err
  | .signer err => str "create signer: " ++ err
  | .writePublic err => str "write public key: " ++ err

def formatPublicKey (lib : KeyLibrary) (key : HostKey) : Text :=
  (lib.marshalAuthorizedKey key).trimSuffix (str "\n") ++ str " ssh-gate"

/-- The branch of `EnsureSSHKeyPair` without a private key. -/
def generateSigner (lib : KeyLibrary) : Prog (Except KeyError HostKey) := do
  let generated ← act .generateKey
  match generated with
  | .error err => return .error (.generate err)
  | .ok key => do
      let marshalled ← act (.marshalPrivateKey key)
      match marshalled with
      | .error err => return .error (.marshal err)
      | .ok data => do
          let written ← writeFileAtomic .sshKey data 0o600
          match written with
          | .error err => return .error (.writePrivate err)
          | .ok () =>
              match lib.newSignerFromKey key with
              | .error err => return .error (.signer err)
              | .ok signer => return .ok signer

/-- The signer of the private key in `privData`, or of a new one. -/
def signerOf (lib : KeyLibrary) (privPath : Text) :
    Except ReadError Text → Prog (Except KeyError HostKey)
  | .error err =>
      if err.isNotExist then generateSigner lib else return .error (.read privPath err.err)
  | .ok data =>
      match lib.parsePrivateKey data with
      | .error err => return .error (.parse privPath err)
      | .ok signer => return .ok signer

/-- The end of `EnsureSSHKeyPair`: the file with the public key is written unless
it holds it already. -/
def savePublicKey (pubKey : Text) : Prog (Except KeyError Text) := do
  let cur ← act (.readFile .sshKeyPub)
  if cur = .ok pubKey then return .ok pubKey
  else do
    let written ← writeFileAtomic .sshKeyPub pubKey 0o644
    match written with
    | .error err => return .error (.writePublic err)
    | .ok () => return .ok pubKey

def ensureSSHKeyPair (lib : KeyLibrary) (privPath : Text) : Prog (Except KeyError Text) := do
  let privData ← act (.readFile .sshKey)
  let signer ← signerOf lib privPath privData
  match signer with
  | .error err => return .error err
  | .ok signer => savePublicKey (formatPublicKey lib signer)

/-! ## Any number of runs -/

/-- The replies that the library can give. -/
def KeyLibrary.allows (lib : KeyLibrary) : (op : Op) → op.Reply → Bool
  | .marshalPrivateKey key, .ok data => lib.marshals key data
  | _, _ => true

def KeyLibrary.perform (lib : KeyLibrary) (op : Op) (s : Store) (reply : op.Reply) :
    Option Store :=
  if lib.allows op reply then s.perform op reply else none

/-- Runs of `EnsureSSHKeyPair` on one data directory, each of which may be cut
off by the next. -/
@[reducible] def keyProcess (lib : KeyLibrary) (privPath : Text) : Process where
  sig := sig
  Entry := Unit
  Result := Except KeyError Text
  main := fun _ => ensureSSHKeyPair lib privPath
  State := Store
  Disturbance := Empty
  perform := lib.perform
  disturb := fun _ disturbance => nomatch disturbance
  restart := id

theorem keyProcess_owns (lib : KeyLibrary) (privPath : Text) :
    Process.Owns (P := keyProcess lib privPath) id lib.perform where
  perform := fun _ _ _ _ hperform => hperform
  disturb := fun _ disturbance => nomatch disturbance
  restart := fun _ => rfl

section Identity

variable (lib : KeyLibrary)

/-- The public key belongs to the private key in the file. -/
def DerivesFrom (s : Store) (pubKey : Text) : Prop :=
  ∃ content signer, s.files .sshKey = some content ∧
    lib.parsePrivateKey content = .ok signer ∧ pubKey = formatPublicKey lib signer

/-- A public key that a run returns is in its file and belongs to the private
key. -/
def Shown (s : Store) (result : Except KeyError Text) : Prop :=
  ∀ shown, result = .ok shown → s.files .sshKeyPub = some shown ∧ DerivesFrom lib s shown

/-- What runs guarantee: a private key stays as it is; each file keeps its
content or gets a complete new one, the private key's a full PEM text and the
other one the public key of the private one. -/
structure KeepsIdentity (s s' : Store) : Prop where
  kept : ∀ content, s.files .sshKey = some content → s'.files .sshKey = some content
  sshKey : s'.files .sshKey = s.files .sshKey ∨
    ∃ key content, s'.files .sshKey = some content ∧ lib.marshals key content = true
  sshKeyPub : s'.files .sshKeyPub = s.files .sshKeyPub ∨
    ∃ pubKey, s'.files .sshKeyPub = some pubKey ∧ DerivesFrom lib s' pubKey
  known : s'.files .sshKnownHosts = s.files .sshKnownHosts

variable {lib}

theorem DerivesFrom.kept {s s' : Store} {pubKey : Text} (hderives : DerivesFrom lib s pubKey)
    (hkept : ∀ content, s.files .sshKey = some content → s'.files .sshKey = some content) :
    DerivesFrom lib s' pubKey := by
  obtain ⟨content, signer, hcontent, hsigner⟩ := hderives
  exact ⟨content, signer, hkept content hcontent, hsigner⟩

theorem DerivesFrom.unique {s : Store} {pubKey pubKey' : Text} (h : DerivesFrom lib s pubKey)
    (h' : DerivesFrom lib s pubKey') : pubKey' = pubKey := by
  obtain ⟨content, signer, hcontent, hsigner, rfl⟩ := h
  obtain ⟨content', signer', hcontent', hsigner', rfl⟩ := h'
  cases hcontent.symm.trans hcontent'
  cases hsigner.symm.trans hsigner'
  rfl

theorem KeepsIdentity.of_files {s s' : Store} (hfiles : s'.files = s.files) :
    KeepsIdentity lib s s' where
  kept := fun content hcontent => by rw [hfiles, hcontent]
  sshKey := .inl (by rw [hfiles])
  sshKeyPub := .inl (by rw [hfiles])
  known := by rw [hfiles]

theorem KeepsIdentity.trans {s s' s'' : Store} (h : KeepsIdentity lib s s')
    (h' : KeepsIdentity lib s' s'') : KeepsIdentity lib s s'' where
  kept := fun content hcontent => h'.kept content (h.kept content hcontent)
  sshKey := by
    rcases h'.sshKey with hsame | hnew
    · rw [hsame]
      exact h.sshKey
    · exact .inr hnew
  sshKeyPub := by
    rcases h'.sshKeyPub with hsame | hnew
    · rw [hsame]
      rcases h.sshKeyPub with hold | ⟨pubKey, hpub, hderives⟩
      · exact .inl hold
      · exact .inr ⟨pubKey, hpub, hderives.kept h'.kept⟩
    · exact .inr hnew
  known := h'.known.trans h.known

theorem keepsIdentity_of_steps {s s' : Store}
    (hsteps : Relation.ReflTransGen (KeepsIdentity lib) s s') : KeepsIdentity lib s s' := by
  induction hsteps with
  | refl => exact .of_files rfl
  | tail _ hstep ih => exact ih.trans hstep

/-! ## One run -/

theorem KeyLibrary.perform_store {op : Op} {s s' : Store} {reply : op.Reply}
    (hperform : lib.perform op s reply = some s') :
    lib.allows op reply = true ∧ s.perform op reply = some s' := by
  unfold KeyLibrary.perform at hperform
  split at hperform
  next hallowed => exact ⟨hallowed, hperform⟩
  next => cases hperform

/-- An action that leaves the files alone, and then the rest. -/
theorem Keeps.leave {α : Type} {post : Store → α → Prop} {op : Op} (hquiet : op.quiet = true)
    {f : op.Reply → Prog α} {s : Store}
    (hf : ∀ reply s', s'.files = s.files → lib.perform op s reply = some s' →
      (f reply).Keeps lib.perform (KeepsIdentity lib) post s') :
    (act op >>= f).Keeps lib.perform (KeepsIdentity lib) post s := by
  refine Keeps.perform fun reply s' hperform => ?_
  have hfiles := (perform_untouched hquiet (KeyLibrary.perform_store hperform).2).files
  exact ⟨.of_files hfiles, hf reply s' hfiles hperform⟩

/-- An atomic write under an invariant that makes its replacement a good one. -/
theorem writeFileAtomic_keepsIdentity {file : DataFile} {data : Text} (perm : Nat) {s : Store}
    (inv : Store → Prop) (hinv : inv s)
    (hstep : ∀ s₁ s₂, inv s₁ → Replaces file data s₁ s₂ → inv s₂ ∧ KeepsIdentity lib s₁ s₂) :
    (writeFileAtomic file data perm).Keeps lib.perform (KeepsIdentity lib)
      (Saved s file data) s := by
  refine Keeps.guarantee_imp inv hstep hinv ?_
  exact Keeps.of_view id (fun _ _ _ _ h => (KeyLibrary.perform_store h).2)
    (writeFileAtomic_keeps file data perm s)

/-- Without a private key a new one is written, and its signer returned. -/
theorem generateSigner_keeps {s : Store} (hnone : s.files .sshKey = none) :
    (generateSigner lib).Keeps lib.perform (KeepsIdentity lib)
      (fun s' result => ∀ signer, result = .ok signer →
        DerivesFrom lib s' (formatPublicKey lib signer)) s := by
  refine Keeps.leave rfl fun generated s₁ hs₁ _ => ?_
  cases generated with
  | error err => rintro _ ⟨⟩
  | ok key =>
      refine Keeps.leave rfl fun marshalled s₂ hs₂ hmarshal => ?_
      cases marshalled with
      | error err => rintro _ ⟨⟩
      | ok data =>
          have hdata : lib.marshals key data = true := (KeyLibrary.perform_store hmarshal).1
          have hnone₂ : s₂.files .sshKey = none := by rw [hs₂, hs₁, hnone]
          -- While the key is written, the file is missing or has the new content.
          refine Keeps.bind (writeFileAtomic_keepsIdentity 0o600
            (fun s' => ∀ content, s'.files .sshKey = some content → content = data)
            (by simp [hnone₂]) ?_) ?_
          · intro s₃ s₄ hinv hreplaces
            rcases hreplaces.files with hsame | hnew
            · exact ⟨hsame ▸ hinv, .of_files hsame⟩
            · have hfile : s₄.files .sshKey = some data := by rw [hnew, Function.update_self]
              refine ⟨fun content h => (Option.some.inj (hfile.symm.trans h)).symm, ?_, ?_, ?_, ?_⟩
              · intro content h
                rw [hinv content h, hfile]
              · exact .inr ⟨key, data, hfile, hdata⟩
              · exact .inl (by rw [hnew, Function.update_of_ne (by decide)])
              · rw [hnew, Function.update_of_ne (by decide)]
          · intro s₃ written hsaved
            cases written with
            | error err => rintro _ ⟨⟩
            | ok value =>
                have hfile : s₃.files .sshKey = some data := by
                  rw [hsaved.ok rfl, Function.update_self]
                cases hsigner : lib.newSignerFromKey key with
                | error err => rintro _ ⟨⟩
                | ok signer =>
                    rintro _ ⟨⟩
                    exact ⟨data, signer, hfile,
                      lib.parse_marshals key data signer hdata hsigner, rfl⟩

theorem signerOf_keeps (privPath : Text) {privData : Except ReadError Text} {s : Store}
    (hread : s.perform (.readFile .sshKey) privData = some s) :
    (signerOf lib privPath privData).Keeps lib.perform (KeepsIdentity lib)
      (fun s' result => ∀ signer, result = .ok signer →
        DerivesFrom lib s' (formatPublicKey lib signer)) s := by
  cases privData with
  | error err =>
      simp only [Store.perform, Option.ite_none_right_eq_some] at hread
      simp only [signerOf]
      split
      next hnotExist => exact generateSigner_keeps (hread.1 hnotExist)
      next => rintro _ ⟨⟩
  | ok data =>
      simp only [Store.perform, Option.ite_none_right_eq_some] at hread
      simp only [signerOf]
      split
      next => rintro _ ⟨⟩
      next signer hsigner =>
        rintro _ ⟨⟩
        exact ⟨data, signer, hread.1, hsigner, rfl⟩

theorem savePublicKey_keeps {s : Store} {pubKey : Text} (hderives : DerivesFrom lib s pubKey) :
    (savePublicKey pubKey).Keeps lib.perform (KeepsIdentity lib) (Shown lib) s := by
  refine Keeps.leave rfl fun cur s₁ hs₁ hread => ?_
  have hderives₁ : DerivesFrom lib s₁ pubKey := hderives.kept fun content h => by rw [hs₁, h]
  split
  next hcur =>
    subst hcur
    rintro _ ⟨⟩
    have hread := (KeyLibrary.perform_store hread).2
    simp only [Store.perform, Option.ite_none_right_eq_some] at hread
    exact ⟨by rw [hs₁, hread.1], hderives₁⟩
  next =>
    refine Keeps.bind (writeFileAtomic_keepsIdentity 0o644 (fun s' => DerivesFrom lib s' pubKey)
      hderives₁ ?_) ?_
    · intro s₂ s₃ hinv hreplaces
      rcases hreplaces.files with hsame | hnew
      · exact ⟨hinv.kept fun content h => by rw [hsame, h], .of_files hsame⟩
      · have hkey : s₃.files .sshKey = s₂.files .sshKey := by
          rw [hnew, Function.update_of_ne (by decide)]
        have hderives₃ : DerivesFrom lib s₃ pubKey := hinv.kept fun content h => by rw [hkey, h]
        refine ⟨hderives₃, fun content h => by rw [hkey, h], .inl hkey,
          .inr ⟨pubKey, ?_, hderives₃⟩,
          ?_⟩
        · rw [hnew, Function.update_self]
        · rw [hnew, Function.update_of_ne (by decide)]
    · intro s₂ written hsaved
      cases written with
      | error err => rintro _ ⟨⟩
      | ok value =>
          rintro _ ⟨⟩
          have hfiles := hsaved.ok rfl
          refine ⟨by rw [hfiles, Function.update_self], hderives₁.kept fun content h => ?_⟩
          rw [hfiles, Function.update_of_ne (by decide), h]

theorem ensureSSHKeyPair_keeps (lib : KeyLibrary) (privPath : Text) (s : Store) :
    (ensureSSHKeyPair lib privPath).Keeps lib.perform (KeepsIdentity lib) (Shown lib) s := by
  refine Keeps.perform fun privData s₁ hread => ?_
  have hread := (KeyLibrary.perform_store hread).2
  have hsame : s₁ = s := by
    cases privData <;> simp_all [Store.perform]
  subst hsame
  refine ⟨.of_files rfl, Keeps.bind (signerOf_keeps privPath hread) ?_⟩
  intro s₂ signer hsigner
  cases signer with
  | error err => rintro _ ⟨⟩
  | ok signer => exact savePublicKey_keeps (hsigner signer rfl)

end Identity

/-- A library whose keys are written as they are. -/
def sampleLibrary : KeyLibrary where
  marshals key data := key.bytes == data
  parsePrivateKey data := .ok ⟨data⟩
  newSignerFromKey key := .ok ⟨key.bytes⟩
  marshalAuthorizedKey key := key.marshal ++ str "\n"
  parse_marshals := by
    rintro key data signer hmarshals ⟨⟩
    rw [beq_iff_eq.mp hmarshals]

/-- The events of an atomic write of this content to a new temporary file. -/
def replaceEvents (tmp : Nat) (file : DataFile) (data : Text) (perm : Nat) : List (Event sig) :=
  [⟨.createTemp, .ok tmp⟩, ⟨.write tmp data, .ok ()⟩, ⟨.chmod tmp perm, .ok ()⟩,
    ⟨.sync tmp, .ok ()⟩, ⟨.close tmp, .ok ()⟩, ⟨.rename tmp file, .ok ()⟩, ⟨.remove tmp, ()⟩]

abbrev sampleKeys : Process := keyProcess sampleLibrary (str "/data/ssh_key")

def keySteps (events : List (Event sig)) : List (Process.Step sampleKeys) :=
  events.map fun event => .run event

/-- A run that generates a key and is cut off while the public key is written;
then one that fails to read the private key, and one that succeeds. -/
def cutOffRuns : List (Process.Step sampleKeys) :=
  keySteps ([⟨.readFile .sshKey, .error ⟨true, []⟩⟩, ⟨.generateKey, .ok ⟨str "k"⟩⟩,
    ⟨.marshalPrivateKey ⟨str "k"⟩, .ok (str "k")⟩] ++ replaceEvents 0 .sshKey (str "k") 0o600 ++
    [⟨.readFile .sshKeyPub, .error ⟨true, []⟩⟩, ⟨.createTemp, .ok 1⟩,
      ⟨.write 1 (str "k ssh-gate"), .error ⟨2, []⟩⟩]) ++
  .start () :: keySteps [⟨.readFile .sshKey, .error ⟨false, str "permission denied"⟩⟩] ++
  .start () :: keySteps ([⟨.readFile .sshKey, .ok (str "k")⟩,
    ⟨.readFile .sshKeyPub, .error ⟨true, []⟩⟩] ++
    replaceEvents 2 .sshKeyPub (str "k ssh-gate") 0o644)

end SshGate.Tunnel
