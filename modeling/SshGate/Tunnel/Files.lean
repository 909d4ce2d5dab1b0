import SshGate.Tunnel.Machine

/-! # Atomic writes

What `writeFileAtomic` does to the data directory, at every moment while it
runs and however it ends.
-/

namespace SshGate.Tunnel

open Go Interaction Program

/-- What a connect does not touch: the files, the clients and what was
published. -/
structure Untouched (s s' : Store) : Prop where
  files : s'.files = s.files
  keys : s'.keys = s.keys
  published : s'.published = s.published

theorem Untouched.refl (s : Store) : Untouched s s := ⟨rfl, rfl, rfl⟩

theorem Untouched.trans {s s' s'' : Store} (h : Untouched s s') (h' : Untouched s' s'') :
    Untouched s s'' :=
  ⟨h'.files.trans h.files, h'.keys.trans h.keys, h'.published.trans h.published⟩

/-- Actions that leave all of this alone. -/
def Op.quiet : Op → Bool
  | .rename _ _ | .newClient _ | .publish _ => false
  | _ => true

theorem perform_untouched {op : Op} (hquiet : op.quiet = true) {s s' : Store} {reply : op.Reply}
    (hperform : s.perform op reply = some s') : Untouched s s' := by
  cases op with
  | rename | newClient | publish => cases hquiet
  | readFile file | createTemp | write tmp data | authenticate called =>
      cases reply <;> simp only [Store.perform, Option.ite_none_right_eq_some, Option.some.injEq]
        at hperform <;> grind [Untouched, Store.append]
  | _ =>
      simp only [Store.perform, Option.some.injEq] at hperform
      subst hperform
      exact ⟨rfl, rfl, rfl⟩

/-- One step of an atomic write: nothing is touched, or the file has its new
content. -/
structure Replaces (file : DataFile) (data : Text) (s s' : Store) : Prop where
  files : s'.files = s.files ∨ s'.files = Function.update s.files file (some data)
  keys : s'.keys = s.keys
  published : s'.published = s.published

theorem Untouched.replaces {s s' : Store} (h : Untouched s s') (file : DataFile) (data : Text) :
    Replaces file data s s' :=
  ⟨.inl h.files, h.keys, h.published⟩

/-- The result of an atomic write that began at `s`. -/
structure Saved (s : Store) (file : DataFile) (data : Text) (s' : Store)
    (result : Except Text Unit) : Prop where
  ok : result = .ok () → s'.files = Function.update s.files file (some data)
  error : ∀ err, result = .error err → s'.files = s.files
  keys : s'.keys = s.keys
  published : s'.published = s.published

theorem Untouched.saved {s s' : Store} (h : Untouched s s') (file : DataFile) (data err : Text) :
    Saved s file data s' (.error err) where
  ok := by simp
  error := fun _ _ => h.files
  keys := h.keys
  published := h.published

theorem Saved.of_untouched {s s' s'' : Store} {file : DataFile} {data : Text}
    {result : Except Text Unit} (h : Saved s file data s' result) (h' : Untouched s' s'') :
    Saved s file data s'' result where
  ok := fun hok => h'.files.trans (h.ok hok)
  error := fun err herr => h'.files.trans (h.error err herr)
  keys := h'.keys.trans h.keys
  published := h'.published.trans h.published

section AtomicWrite

variable {s₀ : Store} {tmp : Nat} {file : DataFile} {data : Text}

/-- The steps between writing and renaming a temporary file. -/
def Op.keepsContent : Op → Bool
  | .chmod _ _ | .sync _ | .close _ => true
  | _ => false

/-- A failed step leaves all files as they were; after a good one the rest of
the write goes on with the full temporary file. -/
theorem orClose_keeps {first next : Prog (Except Text Unit)} {s : Store}
    (hfirst : first.Keeps Store.perform (Replaces file data) (fun s' result =>
      Untouched s₀ s' ∧ (result = .ok () → s'.temps tmp = some data)) s)
    (hnext : ∀ s', Untouched s₀ s' → s'.temps tmp = some data →
      next.Keeps Store.perform (Replaces file data) (Saved s₀ file data) s') :
    (orClose tmp first next).Keeps Store.perform (Replaces file data) (Saved s₀ file data) s := by
  refine Keeps.bind hfirst fun s' result hresult => ?_
  obtain ⟨huntouched, htemp⟩ := hresult
  cases result with
  | ok value => exact hnext s' huntouched (htemp rfl)
  | error err =>
      refine Keeps.perform fun reply s'' hclose => ?_
      have hclosed := perform_untouched rfl hclose
      exact ⟨hclosed.replaces file data, (huntouched.trans hclosed).saved file data err⟩

/-- An action on the temporary file that leaves its content alone. -/
theorem keepTemp_keeps {op : Op} (hop : op.keepsContent = true) {s : Store} (hs : Untouched s₀ s)
    (htemp : s.temps tmp = some data) :
    (act op).Keeps Store.perform (Replaces file data)
      (fun s' _ => Untouched s₀ s' ∧ s'.temps tmp = some data) s := by
  intro reply s' hperform
  have hsame : s' = s := by
    cases op <;> simp_all [Op.keepsContent, Store.perform]
  subst hsame
  exact ⟨(Untouched.refl s').replaces file data, hs, htemp⟩

theorem writeData_keeps {s : Store} (hs : Untouched s₀ s) (htemp : s.temps tmp = some []) :
    (writeData tmp data).Keeps Store.perform (Replaces file data) (fun s' result =>
      Untouched s₀ s' ∧ (result = .ok () → s'.temps tmp = some data)) s := by
  refine Keeps.perform fun reply s' hwrite => ?_
  have huntouched := perform_untouched rfl hwrite
  refine ⟨huntouched.replaces file data, ?_⟩
  cases reply with
  | error err => exact ⟨hs.trans huntouched, by simp⟩
  | ok value =>
      refine ⟨hs.trans huntouched, fun _ => ?_⟩
      simp only [Store.perform, Option.some.injEq] at hwrite
      simp [← hwrite, Store.append, htemp]

theorem replaceFile_keeps {s : Store} (hs : Untouched s₀ s) (htemp : s.temps tmp = some [])
    (perm : Nat) :
    (replaceFile tmp file data perm).Keeps Store.perform (Replaces file data)
      (Saved s₀ file data) s := by
  have hweaken : ∀ (s' : Store) (result : Except Text Unit),
      Untouched s₀ s' ∧ s'.temps tmp = some data →
        Untouched s₀ s' ∧ (result = .ok () → s'.temps tmp = some data) :=
    fun _ _ h => ⟨h.1, fun _ => h.2⟩
  refine orClose_keeps (writeData_keeps hs htemp) fun s hs htemp => ?_
  refine orClose_keeps ((keepTemp_keeps rfl hs htemp).imp hweaken) fun s hs htemp => ?_
  refine orClose_keeps ((keepTemp_keeps rfl hs htemp).imp hweaken) fun s hs htemp => ?_
  refine Keeps.bind (keepTemp_keeps rfl hs htemp) fun s closed hclosed => ?_
  obtain ⟨hs, htemp⟩ := hclosed
  cases closed with
  | error err => exact hs.saved file data err
  | ok value =>
      intro reply s' hrename
      cases reply with
      | error err =>
          simp only [Store.perform, Option.some.injEq] at hrename
          subst hrename
          exact ⟨(Untouched.refl s).replaces file data, hs.saved file data err⟩
      | ok value =>
          simp only [Store.perform, htemp, Option.map_some, Option.some.injEq] at hrename
          subst hrename
          refine ⟨⟨.inr rfl, rfl, rfl⟩, ⟨fun _ => ?_, by simp, hs.keys, hs.published⟩⟩
          rw [hs.files]

/-- An atomic write replaces the file as a whole or leaves it as it was, also
while it runs. -/
theorem writeFileAtomic_keeps (file : DataFile) (data : Text) (perm : Nat) (s : Store) :
    (writeFileAtomic file data perm).Keeps Store.perform (Replaces file data)
      (Saved s file data) s := by
  refine Keeps.perform fun created s' hcreate => ?_
  have huntouched := perform_untouched rfl hcreate
  refine ⟨huntouched.replaces file data, ?_⟩
  cases created with
  | error err => exact huntouched.saved file data err
  | ok tmp =>
      have htemp : s'.temps tmp = some [] := by
        simp only [Store.perform, Option.ite_none_right_eq_some, Option.some.injEq] at hcreate
        simp [← hcreate.2]
      refine Keeps.bind (replaceFile_keeps huntouched htemp perm) fun s₁ result hsaved => ?_
      refine Keeps.perform fun reply s₂ hremove => ?_
      have hremoved := perform_untouched rfl hremove
      exact ⟨hremoved.replaces file data, hsaved.of_untouched hremoved⟩

end AtomicWrite

end SshGate.Tunnel
