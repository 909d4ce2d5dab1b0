import Mathlib.Data.List.Forall2
import SshGate.Go.HostPort

/-! # The tunnel DNS servers

`parseTunnelDNS` reads the servers of `TUNNEL_DNS`. A port is checked as a
number by `strconv.Atoi` and kept as the text it was written in, which the SSH
client reads again with `strconv.ParseUint`.
-/

namespace SshGate

open Go

/-- The errors of the setting. -/
inductive TunnelDnsError where
  /-- `invalid TUNNEL_DNS entry %q: use an IP address with an optional port` -/
  | notAddress (entry : Text)
  /-- `invalid TUNNEL_DNS entry %q: use an IP address, not a name` -/
  | notLiteral (entry : Text)
  /-- `invalid TUNNEL_DNS entry %q: bad port` -/
  | badPort (entry : Text)
  /-- `TUNNEL_DNS has no servers` -/
  | noServers
  deriving Repr, DecidableEq

/-- `host, port := entry, "53"`, or what the entry splits into. -/
def entryHostPort (entry : Text) : Option (Text × Text) :=
  if (Addr.parse entry).isSome then some (entry, str "53") else splitHostPort entry

/-- The body of the loop for an entry that is not empty. -/
def parseTunnelDNSEntry (entry : Text) : Except TunnelDnsError Text :=
  match entryHostPort entry with
  | none => .error (.notAddress entry)
  | some (host, port) =>
      if (Addr.parse host).isNone then .error (.notLiteral entry)
      else
        match port.atoi with
        | none => .error (.badPort entry)
        | some n =>
            if n < 1 ∨ 65535 < n then .error (.badPort entry)
            else .ok (Addr.joinHostPort host port)

/-- The loop over the comma-separated items, with the servers appended so far. -/
def parseTunnelDNSItems : List Text → (servers : List Text) → Except TunnelDnsError (List Text)
  | [], servers => if servers = [] then .error .noServers else .ok servers
  | item :: rest, servers =>
      let entry := item.trimSpace
      if entry = [] then parseTunnelDNSItems rest servers
      else
        match parseTunnelDNSEntry entry with
        | .error err => .error err
        | .ok server => parseTunnelDNSItems rest (servers ++ [server])

def parseTunnelDNS (raw : Text) : Except TunnelDnsError (List Text) :=
  parseTunnelDNSItems (raw.split 44) []

/-! ## The grammar of the setting -/

/-- The trimmed items that are not blank. -/
def entriesOf (items : List Text) : List Text := (items.map Text.trimSpace).filter (· ≠ [])

def tunnelDNSEntries (raw : Text) : List Text := entriesOf (raw.split 44)

/-- A port written in decimal digits only. -/
def IsPort (port : Text) : Prop := ∃ n, port.parseDigits = some n ∧ 1 ≤ n ∧ n ≤ 65535

/-- The address and port an entry spells. -/
inductive Spells (entry : Text) : (host port : Text) → Prop
  | bare (hliteral : (Addr.parse entry).isSome) : Spells entry entry (str "53")
  | ported {host port : Text} (hsplit : splitHostPort entry = some (host, port))
      (hliteral : (Addr.parse host).isSome) (hport : IsPort port) : Spells entry host port

/-- The server splits back to what the entry spells, with a port text that the
dial of the SSH client accepts. -/
def Dialable (entry server : Text) : Prop :=
  ∀ host port, Spells entry host port →
    splitHostPort server = some (host, port) ∧ (port.parseUint 16).isSome

/-- The setting is accepted exactly if it has entries and all of them are in the
grammar, and the servers are those of the entries, in order. -/
structure ReadsGrammar (raw : Text) : Prop where
  accepts_iff : (∃ servers, parseTunnelDNS raw = .ok servers) ↔
    tunnelDNSEntries raw ≠ [] ∧
      ∀ entry ∈ tunnelDNSEntries raw, ∃ host port, Spells entry host port
  dialable : ∀ servers, parseTunnelDNS raw = .ok servers →
    List.Forall₂ Dialable (tunnelDNSEntries raw) servers

/-- The entry is an address literal, or splits into one and a port that
`strconv.Atoi` reads as a number in range. -/
def Numbered (entry : Text) : Prop :=
  (Addr.parse entry).isSome ∨
    ∃ host port n, splitHostPort entry = some (host, port) ∧ (Addr.parse host).isSome ∧
      port.atoi = some n ∧ 1 ≤ n ∧ n ≤ 65535

/-- The port of the entry has no plus sign, and the zone of a bare literal no
bracket. -/
def PlainEntry (entry : Text) : Prop :=
  ((Addr.parse entry).isSome → Unbracketed entry) ∧
    ∀ host port, splitHostPort entry = some (host, port) → port.head? ≠ some 43

/-! ## Entries -/

theorem splitHostPort_of_literal {entry : Text} (hliteral : (Addr.parse entry).isSome) :
    splitHostPort entry = none := by
  obtain ⟨addr, haddr⟩ := Option.isSome_iff_exists.mp hliteral
  exact Addr.splitHostPort_of_parse haddr

/-- What splits into a host and a port is no bare literal. -/
theorem entryHostPort_of_split {entry host port : Text}
    (hsplit : splitHostPort entry = some (host, port)) :
    entryHostPort entry = some (host, port) := by
  unfold entryHostPort
  rw [if_neg, hsplit]
  intro hliteral
  rw [splitHostPort_of_literal hliteral] at hsplit
  cases hsplit

theorem Spells.hostPort {entry host port : Text} (hspells : Spells entry host port) :
    entryHostPort entry = some (host, port) := by
  cases hspells with
  | bare hliteral => exact if_pos hliteral
  | ported hsplit hliteral hport => exact entryHostPort_of_split hsplit

theorem Spells.isPort {entry host port : Text} (hspells : Spells entry host port) :
    IsPort port := by
  cases hspells with
  | bare =>
      have hdigits : str "53" = Text.digits 53 := by decide
      exact ⟨53, hdigits ▸ Text.parseDigits_digits 53, by decide, by decide⟩
  | ported hsplit hliteral hport => exact hport

theorem Spells.literal {entry host port : Text} (hspells : Spells entry host port) :
    (Addr.parse host).isSome := by
  cases hspells with
  | bare hliteral => exact hliteral
  | ported hsplit hliteral hport => exact hliteral

theorem parseTunnelDNSEntry_eq_ok_iff {entry server : Text} :
    parseTunnelDNSEntry entry = .ok server ↔
      ∃ host port n, entryHostPort entry = some (host, port) ∧ (Addr.parse host).isSome ∧
        port.atoi = some n ∧ 1 ≤ n ∧ n ≤ 65535 ∧ server = Addr.joinHostPort host port := by
  constructor
  · intro hparse
    unfold parseTunnelDNSEntry at hparse
    split at hparse
    next => cases hparse
    next host port hentry =>
      split at hparse
      next => cases hparse
      next hliteral =>
        split at hparse
        next => cases hparse
        next n hatoi =>
          split at hparse
          next => cases hparse
          next hrange =>
            cases hparse
            rw [not_or] at hrange
            refine ⟨host, port, n, hentry, ?_, hatoi, by omega, by omega, rfl⟩
            exact Option.isSome_iff_ne_none.mpr (mt Option.isNone_iff_eq_none.mpr hliteral)
  · rintro ⟨host, port, n, hentry, hliteral, hatoi, hlow, hhigh, rfl⟩
    have hsome : ¬(Addr.parse host).isNone := by
      rw [Option.isNone_iff_eq_none]
      exact Option.isSome_iff_ne_none.mp hliteral
    rw [parseTunnelDNSEntry, hentry]
    dsimp only
    rw [if_neg hsome, hatoi]
    dsimp only
    rw [if_neg (by omega)]

/-- What the loop accepts as an entry. -/
theorem exists_parseTunnelDNSEntry_iff {entry : Text} :
    (∃ server, parseTunnelDNSEntry entry = .ok server) ↔ Numbered entry := by
  simp only [parseTunnelDNSEntry_eq_ok_iff]
  constructor
  · rintro ⟨server, host, port, n, hentry, hliteral, hatoi, hlow, hhigh, -⟩
    unfold entryHostPort at hentry
    split at hentry
    next hbare => exact .inl hbare
    next => exact .inr ⟨host, port, n, hentry, hliteral, hatoi, hlow, hhigh⟩
  · rintro (hbare | ⟨host, port, n, hsplit, hliteral, hatoi, hlow, hhigh⟩)
    · have hatoi : (str "53").atoi = some 53 := by decide
      exact ⟨_, entry, str "53", 53, if_pos hbare, hbare, hatoi, by decide, by decide, rfl⟩
    · have hentry := entryHostPort_of_split hsplit
      exact ⟨_, host, port, n, hentry, hliteral, hatoi, hlow, hhigh, rfl⟩

/-- Everything in the grammar is accepted. -/
theorem Spells.parse {entry host port : Text} (hspells : Spells entry host port) :
    parseTunnelDNSEntry entry = .ok (Addr.joinHostPort host port) := by
  obtain ⟨n, hdigits, hlow, hhigh⟩ := hspells.isPort
  have hatoi := Text.atoi_of_parseDigits hdigits (by omega)
  exact parseTunnelDNSEntry_eq_ok_iff.mpr
    ⟨host, port, n, hspells.hostPort, hspells.literal, hatoi, by omega, by omega, rfl⟩

/-- A plain entry that is accepted is in the grammar. -/
theorem PlainEntry.endpoint {entry server : Text} (hplain : PlainEntry entry)
    (hparse : parseTunnelDNSEntry entry = .ok server) :
    ∃ host port, Spells entry host port := by
  obtain ⟨host, port, n, hentry, hliteral, hatoi, hlow, hhigh, -⟩ :=
    parseTunnelDNSEntry_eq_ok_iff.mp hparse
  unfold entryHostPort at hentry
  split at hentry
  next hbare => exact ⟨entry, str "53", .bare hbare⟩
  next =>
    have hdigits := Text.parseDigits_of_atoi hatoi hlow (hplain.2 host port hentry)
    exact ⟨host, port, .ported hentry hliteral ⟨n.toNat, hdigits, by omega, by omega⟩⟩

/-- The server of a plain entry can be dialed. -/
theorem PlainEntry.dialable {entry server : Text} (hplain : PlainEntry entry)
    (hparse : parseTunnelDNSEntry entry = .ok server) : Dialable entry server := by
  intro host port hspells
  have hserver := hspells.parse.symm.trans hparse
  obtain rfl := Except.ok.inj hserver
  constructor
  · apply splitHostPort_joinHostPort_iff.mpr
    cases hspells with
    | bare hliteral => exact ⟨hplain.1 hliteral, by decide, by decide⟩
    | ported hsplit hliteral hport =>
        obtain ⟨hhost, hbare, hcolon, -⟩ := splitHostPort_eq_some_iff.mp hsplit
        exact ⟨hhost, hbare, hcolon⟩
  · obtain ⟨n, hdigits, hlow, hhigh⟩ := hspells.isPort
    rw [Text.parseUint, hdigits, Option.filter_some, if_pos (by simp; omega)]
    rfl

/-- An entry of the grammar whose server splits back is plain. -/
theorem Spells.plain {entry host port server : Text} (hspells : Spells entry host port)
    (hdialable : Dialable entry server) : PlainEntry entry := by
  have hback := (hdialable host port hspells).1
  cases hspells with
  | bare hliteral =>
      refine ⟨fun _ => (splitHostPort_eq_some_iff.mp hback).1, ?_⟩
      intro host port hsplit
      rw [splitHostPort_of_literal hliteral] at hsplit
      cases hsplit
  | ported hsplit hliteral hport =>
      constructor
      · intro hentry
        rw [splitHostPort_of_literal hentry] at hsplit
        cases hsplit
      · intro host' port' hsplit'
        obtain ⟨rfl, rfl⟩ : host = host' ∧ port = port' := by
          simpa using hsplit.symm.trans hsplit'
        obtain ⟨n, hdigits, -⟩ := hport
        exact (Text.parseDigits_head hdigits).1

/-! ## The whole setting -/

/-- The loop appends the servers of the entries, in order. -/
theorem parseTunnelDNSItems_eq_ok_iff {items servers result : List Text} :
    parseTunnelDNSItems items servers = .ok result ↔
      result ≠ [] ∧ ∃ more, result = servers ++ more ∧
        List.Forall₂ (fun entry server => parseTunnelDNSEntry entry = .ok server)
          (entriesOf items) more := by
  induction items generalizing servers with
  | nil =>
      unfold parseTunnelDNSItems
      split
      next hempty => simp [entriesOf, hempty]
      next hsome =>
        constructor
        · intro hresult
          cases hresult
          exact ⟨hsome, [], by simp, .nil⟩
        · rintro ⟨-, more, rfl, hmore⟩
          cases hmore
          rw [List.append_nil]
  | cons item rest ih =>
      unfold parseTunnelDNSItems
      dsimp only
      by_cases hblank : item.trimSpace = []
      · rw [if_pos hblank, ih]
        have hskip : entriesOf (item :: rest) = entriesOf rest := by simp [entriesOf, hblank]
        rw [hskip]
      · have htake : entriesOf (item :: rest) = item.trimSpace :: entriesOf rest := by
          simp [entriesOf, hblank]
        rw [if_neg hblank, htake]
        cases hentry : parseTunnelDNSEntry item.trimSpace with
        | error err =>
            dsimp only
            constructor
            · intro hresult
              cases hresult
            · rintro ⟨-, more, -, hmore⟩
              cases hmore with
              | cons hfirst _ =>
                  rw [hentry] at hfirst
                  cases hfirst
        | ok server =>
            dsimp only
            rw [ih]
            constructor
            · rintro ⟨hne, more, rfl, hmore⟩
              exact ⟨hne, server :: more, by simp, .cons hentry hmore⟩
            · rintro ⟨hne, more, rfl, hmore⟩
              cases hmore with
              | cons hfirst hothers =>
                  rw [hentry] at hfirst
                  cases hfirst
                  exact ⟨hne, _, by simp, hothers⟩

theorem parseTunnelDNS_eq_ok_iff {raw : Text} {servers : List Text} :
    parseTunnelDNS raw = .ok servers ↔
      tunnelDNSEntries raw ≠ [] ∧
        List.Forall₂ (fun entry server => parseTunnelDNSEntry entry = .ok server)
          (tunnelDNSEntries raw) servers := by
  rw [parseTunnelDNS, parseTunnelDNSItems_eq_ok_iff]
  constructor
  · rintro ⟨hne, more, rfl, hmore⟩
    refine ⟨?_, hmore⟩
    intro hnone
    rw [tunnelDNSEntries] at hnone
    rw [hnone, List.forall₂_nil_left_iff] at hmore
    exact hne hmore
  · rintro ⟨hne, hservers⟩
    refine ⟨?_, servers, rfl, hservers⟩
    rintro rfl
    exact hne (List.forall₂_nil_right_iff.mp hservers)

theorem exists_servers {entries : List Text} (hentries : ∀ entry ∈ entries, Numbered entry) :
    ∃ servers, List.Forall₂ (fun entry server => parseTunnelDNSEntry entry = .ok server)
      entries servers := by
  induction entries with
  | nil => exact ⟨[], .nil⟩
  | cons entry rest ih =>
      obtain ⟨server, hserver⟩ :=
        exists_parseTunnelDNSEntry_iff.mpr (hentries entry List.mem_cons_self)
      obtain ⟨servers, hservers⟩ := ih fun other hother =>
        hentries other (List.mem_cons_of_mem entry hother)
      exact ⟨server :: servers, .cons hserver hservers⟩

theorem exists_parseTunnelDNS_iff {raw : Text} :
    (∃ servers, parseTunnelDNS raw = .ok servers) ↔
      tunnelDNSEntries raw ≠ [] ∧ ∀ entry ∈ tunnelDNSEntries raw, Numbered entry := by
  simp only [parseTunnelDNS_eq_ok_iff]
  constructor
  · rintro ⟨servers, hne, hservers⟩
    refine ⟨hne, ?_⟩
    have hboth := hservers.imp fun entry server hserver =>
      And.intro (exists_parseTunnelDNSEntry_iff.mp ⟨server, hserver⟩) hserver
    exact ((List.forall₂_and_left _ _).mp hboth).1
  · rintro ⟨hne, hnumbered⟩
    obtain ⟨servers, hservers⟩ := exists_servers hnumbered
    exact ⟨servers, hne, hservers⟩

/-- Where every entry is a literal with a port that `strconv.Atoi` takes, if any,
the setting is read by its grammar exactly if the entries are plain; every other
setting is. -/
theorem readsGrammar_iff (raw : Text) :
    ReadsGrammar raw ↔
      (tunnelDNSEntries raw ≠ [] → (∀ entry ∈ tunnelDNSEntries raw, Numbered entry) →
        ∀ entry ∈ tunnelDNSEntries raw, PlainEntry entry) := by
  constructor
  · intro hreads hne hnumbered
    obtain ⟨servers, hparse⟩ := exists_parseTunnelDNS_iff.mpr ⟨hne, hnumbered⟩
    have hgrammar := (hreads.accepts_iff.mp ⟨servers, hparse⟩).2
    have hboth := (List.forall₂_and_left _ _).mpr ⟨hgrammar, hreads.dialable servers hparse⟩
    have hplain := hboth.imp fun entry server ⟨⟨host, port, hspells⟩, hdialable⟩ =>
      And.intro (hspells.plain hdialable) hdialable
    exact ((List.forall₂_and_left _ _).mp hplain).1
  · intro hplain
    -- What is accepted has a plain entry for every server.
    have hpairs : ∀ servers, parseTunnelDNS raw = .ok servers →
        List.Forall₂ (fun entry server => PlainEntry entry ∧
          parseTunnelDNSEntry entry = .ok server) (tunnelDNSEntries raw) servers := by
      intro servers hparse
      obtain ⟨hne, hservers⟩ := parseTunnelDNS_eq_ok_iff.mp hparse
      have hnumbered := (exists_parseTunnelDNS_iff.mp ⟨servers, hparse⟩).2
      exact (List.forall₂_and_left _ _).mpr ⟨hplain hne hnumbered, hservers⟩
    constructor
    · constructor
      · rintro ⟨servers, hparse⟩
        refine ⟨(parseTunnelDNS_eq_ok_iff.mp hparse).1, ?_⟩
        have hgrammar := (hpairs servers hparse).imp fun entry server ⟨hentry, hserver⟩ =>
          And.intro (hentry.endpoint hserver) hserver
        exact ((List.forall₂_and_left _ _).mp hgrammar).1
      · rintro ⟨hne, hgrammar⟩
        refine exists_parseTunnelDNS_iff.mpr ⟨hne, fun entry hentry => ?_⟩
        obtain ⟨host, port, hspells⟩ := hgrammar entry hentry
        exact exists_parseTunnelDNSEntry_iff.mp ⟨_, hspells.parse⟩
    · intro servers hparse
      exact (hpairs servers hparse).imp fun entry server ⟨hentry, hserver⟩ =>
        hentry.dialable hserver

/-- A port with a plus sign is accepted, which is not in the grammar, and the SSH
client refuses to dial it; a bare literal with a bracket in its zone gives a
server that does not split back. -/
theorem signedPort_not_grammar :
    parseTunnelDNS (str "1.1.1.1:+53") = .ok [str "1.1.1.1:+53"] ∧
      (str "+53").parseUint 16 = none ∧ ¬ReadsGrammar (str "1.1.1.1:+53") ∧
      parseTunnelDNS (str "fe80::1%]") = .ok [str "[fe80::1%]]:53"] ∧
      splitHostPort (str "[fe80::1%]]:53") = none ∧ ¬ReadsGrammar (str "fe80::1%]") := by
  have hsigned : parseTunnelDNS (str "1.1.1.1:+53") = .ok [str "1.1.1.1:+53"] := by
    decide +kernel
  have hzone : parseTunnelDNS (str "fe80::1%]") = .ok [str "[fe80::1%]]:53"] := by
    decide +kernel
  refine ⟨hsigned, by decide, ?_, hzone, by decide, ?_⟩
  · intro hreads
    obtain ⟨host, port, hspells⟩ := (hreads.accepts_iff.mp ⟨_, hsigned⟩).2
      (str "1.1.1.1:+53") (by decide +kernel)
    have hentry := hspells.hostPort
    obtain ⟨rfl, rfl⟩ : str "1.1.1.1" = host ∧ str "+53" = port := by
      have hvalue : entryHostPort (str "1.1.1.1:+53") = some (str "1.1.1.1", str "+53") := by
        decide +kernel
      simpa using hvalue.symm.trans hentry
    obtain ⟨n, hdigits, -⟩ := hspells.isPort
    have hnone : (str "+53").parseDigits = none := by decide
    rw [hnone] at hdigits
    cases hdigits
  · intro hreads
    have hservers := hreads.dialable _ hzone
    have hentries : tunnelDNSEntries (str "fe80::1%]") = [str "fe80::1%]"] := by decide +kernel
    rw [hentries] at hservers
    cases hservers with
    | cons hfirst _ =>
        have hback := (hfirst _ _ (.bare (by decide))).1
        exact absurd hback (by decide)

end SshGate
