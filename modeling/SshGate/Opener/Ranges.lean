import SshGate.Opener.Resolved

/-! # The range of an `ip:` rule

An `ip:` rule should match the addresses its prefix stands for. The resolver
hands out unmapped addresses, and a literal keeps its zone, so a prefix that is
written in the IPv4-mapped form and an address with a zone are never matched.
-/

namespace SshGate

open Go Interaction Program System

/-! ## Prefixes -/

/-- All addresses of the prefix are IPv4-mapped. -/
def IsMapped : Prefix → Prop
  | ⟨.v4 _, _, _, _⟩ => False
  | ⟨.v6 bits _, length, _, _⟩ => bits >>> 32 = 0xFFFF#128 ∧ 96 ≤ length

instance : DecidablePred IsMapped
  | ⟨.v4 _, _, _, _⟩ => inferInstanceAs (Decidable False)
  | ⟨.v6 bits _, length, _, _⟩ =>
      inferInstanceAs (Decidable (bits >>> 32 = 0xFFFF#128 ∧ 96 ≤ length))

/-- The prefix as it is read: a mapped one is the IPv4 prefix it contains. -/
def readPrefix (net : Prefix) : Prefix :=
  match net with
  | ⟨.v6 bits zone, length, fits, zoneless⟩ =>
      if bits >>> 32 = 0xFFFF#128 ∧ 96 ≤ length then
        ⟨.v4 (bits.setWidth 32), length - 96, Nat.sub_le_of_le_add fits, rfl⟩
      else ⟨.v6 bits zone, length, fits, zoneless⟩
  | ⟨.v4 bits, length, fits, zoneless⟩ => ⟨.v4 bits, length, fits, zoneless⟩

/-- Some address of the list, unmapped and without zone, is in the range. -/
def InRange (net : Prefix) (addrs : List Addr) : Prop :=
  ∃ a ∈ addrs, (readPrefix net).contains (plain a) = true

theorem readPrefix_of_not_isMapped {net : Prefix} (hnet : ¬IsMapped net) :
    readPrefix net = net := by
  obtain ⟨addr, length, fits, zoneless⟩ := net
  cases addr with
  | v4 bits => rfl
  | v6 bits zone => exact if_neg hnet

/-- An address of a mapped prefix is a mapped one itself. -/
theorem unmap_ne_of_isMapped {net : Prefix} (hnet : IsMapped net) {a : Addr}
    (hcontains : net.contains a = true) : a.unmap ≠ a := by
  obtain ⟨addr, length, fits, zoneless⟩ := net
  cases addr with
  | v4 bits => cases hnet
  | v6 bits zone =>
      obtain ⟨hbits, hlength⟩ := hnet
      cases a with
      | v4 x => cases hcontains
      | v6 x zone' =>
          obtain ⟨-, hleading⟩ := Prefix.contains_v6.mp hcontains
          have hmapped : x >>> 32 = 0xFFFF#128 := by
            rw [ushiftRight_eq_iff] at hbits ⊢
            have hsplit : (2 : Nat) ^ 32 = 2 ^ (128 - length) * 2 ^ (32 - (128 - length)) := by
              rw [← pow_add]
              congr 1
              omega
            rw [← hbits, hsplit, ← Nat.div_div_eq_div_mul, ← Nat.div_div_eq_div_mul, hleading]
          simp [Addr.unmap, hmapped]

/-- On unmapped addresses `Contains` is membership in the range, except for
mapped prefixes and addresses with a zone. -/
theorem contains_iff_readPrefix {net : Prefix} {a : Addr} (ha : a.unmap = a) :
    net.contains a = true ↔ ¬IsMapped net ∧ a.hasZone = false ∧
      (readPrefix net).contains (plain a) = true := by
  constructor
  · intro hcontains
    have hnet : ¬IsMapped net := fun hmapped => unmap_ne_of_isMapped hmapped hcontains ha
    rw [readPrefix_of_not_isMapped hnet, plain, ha]
    refine ⟨hnet, ?_⟩
    cases a with
    | v4 x => exact ⟨rfl, hcontains⟩
    | v6 x zone =>
        obtain ⟨addr, length, fits, zoneless⟩ := net
        cases addr with
        | v4 bits => cases hcontains
        | v6 bits zone' =>
            obtain ⟨rfl, -⟩ := Prefix.contains_v6.mp hcontains
            exact ⟨rfl, hcontains⟩
  · rintro ⟨hnet, hzone, hcontains⟩
    rw [readPrefix_of_not_isMapped hnet, plain, ha] at hcontains
    cases a with
    | v4 x => exact hcontains
    | v6 x zone =>
        have hzone : zone = [] := by simpa [Addr.hasZone] using hzone
        subst hzone
        exact hcontains

/-! ## The rule -/

/-- In every run, what `resolveAll` returns is unmapped. -/
theorem resolveAll_unmapped {o : Opener} {schedule : List (Action (gate o))}
    {c : Config (gate o)} (hrun : (gate o).run ⟨{}, []⟩ schedule = some c)
    {thread : Thread (gate o)} (hthread : thread ∈ c.threads) {host : Text}
    {before seg after : List (Event sig)} (htrace : thread.trace = before ++ seg ++ after)
    {addrs : List Addr} (hresolved : (resolveAll o.rules.dns host).Returns seg (.ok addrs)) :
    Unmapped addrs := by
  obtain ⟨first, answer, second, rfl, hanswer, hend⟩ := returns_bind.mp hresolved
  cases herr : answer.err with
  | some err =>
      rw [herr] at hend
      cases (returns_ret.mp hend).2
  | none =>
      rw [herr] at hend
      obtain ⟨rfl, haddrs⟩ := returns_ret.mp hend
      cases haddrs
      rw [List.append_nil] at htrace
      exact (((run_traced hrun).deliverable hthread htrace hanswer).canonical herr).unmapped

/-- An `ip:` rule means its range exactly if, where an address is in the range,
the prefix is not a mapped one and such an address has no zone. -/
theorem ipRule_range_iff (o : Opener) (schedule : List (Action (gate o))) (c : Config (gate o))
    (hrun : (gate o).run ⟨{}, []⟩ schedule = some c) (thread : Thread (gate o))
    (hthread : thread ∈ c.threads) (host : Text) (before seg after : List (Event sig))
    (htrace : thread.trace = before ++ seg ++ after) {addrs : List Addr}
    (hresolved : (resolveAll o.rules.dns host).Returns seg (.ok addrs)) (raw : Text)
    (net : Prefix) {matched : Bool}
    (hmatched : (RuleEntry.matches ⟨raw, .ip net⟩ o.rules.dns host).Returns seg matched) :
    (matched = true ↔ InRange net addrs) ↔
      (InRange net addrs → ¬IsMapped net ∧
        ∃ a ∈ addrs, a.hasZone = false ∧ (readPrefix net).contains (plain a) = true) := by
  have hunmapped := resolveAll_unmapped hrun hthread htrace hresolved
  obtain ⟨first, result, second, hseg, hresult, hend⟩ := returns_bind.mp hmatched
  have hsplit : seg ++ [] = first ++ second := by rw [List.append_nil, hseg]
  obtain ⟨rfl, rfl⟩ := hresolved.unique hresult hsplit
  have hmatches : matched = addrs.any net.contains := (returns_ret.mp hend).2.symm
  have hcontains : matched = true ↔ ¬IsMapped net ∧
      ∃ a ∈ addrs, a.hasZone = false ∧ (readPrefix net).contains (plain a) = true := by
    rw [hmatches, List.any_eq_true]
    constructor
    · rintro ⟨a, ha, hin⟩
      obtain ⟨hnet, hzone, hread⟩ := (contains_iff_readPrefix (hunmapped a ha)).mp hin
      exact ⟨hnet, a, ha, hzone, hread⟩
    · rintro ⟨hnet, a, ha, hzone, hread⟩
      exact ⟨a, ha, (contains_iff_readPrefix (hunmapped a ha)).mpr ⟨hnet, hzone, hread⟩⟩
  rw [hcontains]
  constructor
  · exact fun h => h.mpr
  · intro h
    refine ⟨?_, h⟩
    rintro ⟨-, a, ha, -, hread⟩
    exact ⟨a, ha, hread⟩

/-- A rule for `8.0.0.0/8` and the literal `8.8.8.8`. -/
theorem plainRule_matches :
    InRange (mustPrefix "8.0.0.0/8") [.v4 134744072] ∧
      ((true = true ↔ InRange (mustPrefix "8.0.0.0/8") [.v4 134744072]) ↔
        (InRange (mustPrefix "8.0.0.0/8") [.v4 134744072] →
          ¬IsMapped (mustPrefix "8.0.0.0/8") ∧ ∃ a ∈ [Addr.v4 134744072], a.hasZone = false ∧
            (readPrefix (mustPrefix "8.0.0.0/8")).contains (plain a) = true)) := by
  refine ⟨⟨.v4 134744072, List.mem_cons_self, by decide +kernel⟩, ?_⟩
  exact ipRule_range_iff (sampleOpener false) [.spawn (.decide (str "8.8.8.8"))] _ rfl _
    List.mem_cons_self (str "8.8.8.8") [] [] [] rfl (.refl _) (str "ip:8.0.0.0/8") _ (.refl _)

/-- The same range in the mapped form is accepted and matches nothing. -/
theorem mappedRule_dead :
    ∃ r net, parseRuleEntry (fun _ => none) id (str "ip:::ffff:8.0.0.0/104") = .ok r ∧
      r.matcher = .ip net ∧
      resolveAll (sampleOpener false).rules.dns (str "8.8.8.8") = .ret (.ok [.v4 134744072]) ∧
      r.matches (sampleOpener false).rules.dns (str "8.8.8.8") = .ret false ∧
      InRange net [.v4 134744072] := by
  refine ⟨⟨str "ip:::ffff:8.0.0.0/104", .ip (mustPrefix "::ffff:8.0.0.0/104")⟩,
    mustPrefix "::ffff:8.0.0.0/104", rfl, rfl, rfl, rfl, .v4 134744072, List.mem_cons_self, ?_⟩
  decide +kernel

end SshGate
