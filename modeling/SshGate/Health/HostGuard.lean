import SshGate.Go.HostPort
import SshGate.Rules

/-! # The Host guard of the Web UI

The names `NewHealthServer` and `AllowHosts` put into `allowedHosts`, the check
`uiGuard` makes of the Host header and the routes it stands before.
-/

namespace SshGate

open Go

/-! ## The list of hosts -/

/-- `invalid %s entry %q: want a host name or IP address without port` -/
structure HostListError where
  name : Text
  entry : Text
  deriving Repr, DecidableEq

/-- The loop over the comma-separated items, with the hosts appended so far. -/
def parseHostListItems (name : Text) :
    List Text → (hosts : List Text) → Except HostListError (List Text)
  | [], hosts => .ok hosts
  | item :: rest, hosts =>
      let h := item.trimSpace
      if h = [] then parseHostListItems name rest hosts
      else if (splitHostPort h).isSome ∨ h.any (fun c => c ∈ str "/[] ") then .error ⟨name, h⟩
      else parseHostListItems name rest (hosts ++ [h])

def parseHostList (name raw : Text) : Except HostListError (List Text) :=
  parseHostListItems name (raw.split 44) []

/-- What the list takes: a host without a port, and none of the characters `/`,
`[`, `]` and blank. -/
structure HostEntry (entry : Text) : Prop where
  unsplit : splitHostPort entry = none
  free : ∀ b ∈ str "/[] ", b ∉ entry

theorem parseHostListItems_entries {name : Text} {items hosts result : List Text}
    (hhosts : ∀ entry ∈ hosts, HostEntry entry)
    (hparse : parseHostListItems name items hosts = .ok result) :
    ∀ entry ∈ result, HostEntry entry := by
  induction items generalizing hosts with
  | nil =>
      cases hparse
      exact hhosts
  | cons item rest ih =>
      unfold parseHostListItems at hparse
      dsimp only at hparse
      split at hparse
      next => exact ih hhosts hparse
      next =>
        split at hparse
        next => cases hparse
        next haccept =>
          apply ih ?_ hparse
          intro entry hentry
          rcases List.mem_append.mp hentry with hold | hnew
          · exact hhosts entry hold
          · obtain rfl := List.mem_singleton.mp hnew
            rw [not_or] at haccept
            constructor
            · exact Option.not_isSome_iff_eq_none.mp haccept.1
            · intro b hb hmem
              exact haccept.2 (List.any_eq_true.mpr ⟨b, hmem, decide_eq_true hb⟩)

/-- Every accepted entry is a host without a port. -/
theorem parseHostList_entries {name raw : Text} {hosts : List Text}
    (hparse : parseHostList name raw = .ok hosts) : ∀ entry ∈ hosts, HostEntry entry :=
  parseHostListItems_entries (fun _ hentry => absurd hentry List.not_mem_nil) hparse

/-! ## The server -/

/-- `net.ParseIP`: a literal with a zone is none. -/
def parseIP (s : Text) : Option Addr := (Addr.parse s).filter fun a => !a.hasZone

/-- `IP.IsUnspecified`; the two families are compared as one. -/
def isUnspecified (ip : Addr) : Bool := ip.unmap == .v4 0 || ip == .v6 0 []

/-- The part of the server the guard reads: the keys of `allowedHosts`. -/
structure HealthServer where
  allowedHosts : List Text
  deriving Repr, DecidableEq

/-- The handlers behind the routes. -/
inductive UiHandler where
  | health
  | ready
  | connections
  | status
  | ui
  deriving Repr, DecidableEq

inductive UiReply where
  /-- The mux sends the client to another path, with status 307. -/
  | redirected (path : Text)
  /-- `http.Error` with status 403. -/
  | forbidden (message : Text)
  /-- The handler runs with these headers set. -/
  | served (header : List (Text × Text)) (handler : UiHandler)
  deriving Repr, DecidableEq

section Server

variable (lower : Nat → Nat)

def loopbackNames : List Text := [str "localhost", str "127.0.0.1", str "::1"]

/-- `NewHealthServer`. -/
def newHealthServer (listen : Text) : HealthServer :=
  match splitHostPort listen with
  | none => ⟨loopbackNames⟩
  | some (host, _) =>
      if host ≠ [] ∧ ((parseIP host).all fun ip => !isUnspecified ip) then
        ⟨loopbackNames ++ [normalizeHost lower host]⟩
      else ⟨loopbackNames⟩

def HealthServer.allowHosts (h : HealthServer) (hosts : List Text) : HealthServer :=
  ⟨h.allowedHosts ++ hosts.map (normalizeHost lower)⟩

/-- The name in a Host header as the guard reads it. -/
def hostName (host : Text) : Text :=
  let host :=
    match splitHostPort host with
    | some (hh, _) => hh
    | none => host
  (host.trimPrefix (str "[")).trimSuffix (str "]")

def HealthServer.uiGuard (h : HealthServer) (next : UiHandler) (host : Text) : UiReply :=
  if normalizeHost lower (hostName host) ∈ h.allowedHosts then
    .served
      [(str "X-Content-Type-Options", str "nosniff"),
        (str "X-Frame-Options", str "DENY"),
        (str "Referrer-Policy", str "no-referrer"),
        (str "Content-Security-Policy", str "default-src 'self'; frame-ancestors 'none'")]
      next
  else .forbidden (str "Host not allowed; add it to UI_ALLOWED_HOSTS")

/-- The elements of a rooted path that `path.Clean` keeps; `kept` holds those so
far, last one first. -/
def cleanElements : List Text → (kept : List Text) → List Text
  | [], kept => kept.reverse
  | element :: rest, kept =>
      if element = [] ∨ element = str "." then cleanElements rest kept
      else if element = str ".." then cleanElements rest kept.tail
      else cleanElements rest (element :: kept)

/-- `cleanPath` of `net/http`: the path is rooted and without `.`, `..` and
repeated slashes; a slash at its end stays. -/
def cleanPath (path : Text) : Text :=
  let path := if path.startsWith (str "/") then path else str "/" ++ path
  let np := str "/" ++ [47].intercalate (cleanElements (path.split 47) [])
  if path.endsWith (str "/") ∧ np ≠ str "/" then np ++ str "/" else np

/-- The routes of the mux: probes are open, everything else is guarded. A request
for a path that is not clean is redirected before any handler; `CONNECT`, which the
mux does not clean, is not considered. -/
def HealthServer.serve (h : HealthServer) (path host : Text) : UiReply :=
  if cleanPath path ≠ path then .redirected (cleanPath path)
  else if path = str "/healthz" then .served [] .health
  else if path = str "/readyz" then .served [] .ready
  else if path = str "/api/connections" then h.uiGuard lower .connections host
  else if path = str "/api/status" then h.uiGuard lower .status host
  else h.uiGuard lower .ui host

end Server

/-! ## Which names are admitted -/

/-- A request that the guard stands before. -/
def Guarded (path : Text) : Prop :=
  cleanPath path = path ∧ path ≠ str "/healthz" ∧ path ≠ str "/readyz"

instance (path : Text) : Decidable (Guarded path) := inferInstanceAs (Decidable (_ ∧ _))

def UiReply.isServed : UiReply → Bool
  | .redirected _ => false
  | .forbidden _ => false
  | .served _ _ => true

/-- A listen address without a host, or with an unspecified one in any spelling. -/
def UnspecifiedListen (listen : Text) : Prop :=
  ∃ host port, splitHostPort listen = some (host, port) ∧
    (host = [] ∨ ∃ ip, Addr.parse host = some ip ∧
      (ip = .v4 0 ∨ ip = .v6 0 [] ∨ ip = .v6 0xFFFF00000000 []))

/-- The host of the listen address, if it names one. -/
def ListenHost (listen host : Text) : Prop :=
  (∃ port, splitHostPort listen = some (host, port)) ∧ ¬UnspecifiedListen listen

/-- What remains of a Host header without its port, or without a leading and a
trailing bracket. -/
inductive HostSpelling (host : Text) : (inner : Text) → Prop
  | ported {inner port : Text} (hsplit : splitHostPort host = some (inner, port)) :
      HostSpelling host inner
  | unported {front inner back : Text} (hsplit : splitHostPort host = none)
      (hhost : host = front ++ (inner ++ back))
      (hfront : front = [91] ∨ front = [] ∧ ¬[91] <+: host)
      (hback : back = [93] ∨ back = [] ∧ ¬[93] <:+ inner) :
      HostSpelling host inner

section Admission

variable {lower : Nat → Nat}

/-- The names the server answers to. -/
def AllowedName (lower : Nat → Nat) (listen : Text) (entries : List Text) (name : Text) : Prop :=
  name ∈ loopbackNames ∨ (∃ host, ListenHost listen host ∧ name = normalizeHost lower host) ∨
    ∃ entry ∈ entries, name = normalizeHost lower entry

theorem HostSpelling.hostName {host inner : Text} (hspelling : HostSpelling host inner) :
    hostName host = inner := by
  cases hspelling with
  | ported hsplit =>
      obtain ⟨⟨hopen, hclose⟩, -⟩ := splitHostPort_eq_some_iff.mp hsplit
      have hstart : ¬str "[" <+: inner := fun h => hopen (h.subset List.mem_cons_self)
      have hend : ¬str "]" <:+ inner := fun h => hclose (h.subset List.mem_cons_self)
      rw [SshGate.hostName, hsplit]
      dsimp only
      rw [Text.trimPrefix_of_not_start hstart, Text.trimSuffix_of_not_suffix hend]
  | @unported front inner back hsplit hhost hfront hback =>
      rw [SshGate.hostName, hsplit]
      dsimp only
      have hopened : host.trimPrefix (str "[") = inner ++ back := by
        rcases hfront with rfl | ⟨rfl, hstart⟩
        · rw [hhost]
          exact Text.trimPrefix_append (inner ++ back) [91]
        · exact (Text.trimPrefix_of_not_start hstart).trans hhost
      rw [hopened]
      rcases hback with rfl | ⟨rfl, hend⟩
      · exact Text.trimSuffix_append inner [93]
      · rw [List.append_nil]
        exact Text.trimSuffix_of_not_suffix hend

theorem exists_hostSpelling (host : Text) : ∃ inner, HostSpelling host inner := by
  cases hsplit : splitHostPort host with
  | some parts => exact ⟨parts.1, .ported hsplit⟩
  | none =>
      obtain ⟨front, rest, hhost, hfront⟩ : ∃ front rest, host = front ++ rest ∧
          (front = [91] ∨ front = [] ∧ ¬[91] <+: host) := by
        by_cases hstart : [91] <+: host
        · obtain ⟨rest, hrest⟩ := hstart
          exact ⟨[91], rest, hrest.symm, .inl rfl⟩
        · exact ⟨[], host, rfl, .inr ⟨rfl, hstart⟩⟩
      by_cases hend : [93] <:+ rest
      · obtain ⟨inner, rfl⟩ := hend
        exact ⟨inner, .unported hsplit hhost hfront (.inl rfl)⟩
      · have hshape : host = front ++ (rest ++ []) := by
          rw [List.append_nil]
          exact hhost
        exact ⟨rest, .unported hsplit hshape hfront (.inr ⟨rfl, hend⟩)⟩

theorem mapped_zero_iff {bits : BitVec 128} :
    bits >>> 32 = 0xFFFF#128 ∧ bits.setWidth 32 = 0#32 ↔ bits = 0xFFFF00000000#128 := by
  constructor
  · rintro ⟨hhigh, hlow⟩
    have hhigh' := congrArg BitVec.toNat hhigh
    have hlow' := congrArg BitVec.toNat hlow
    simp only [BitVec.toNat_ushiftRight, Nat.shiftRight_eq_div_pow, BitVec.toNat_setWidth,
      BitVec.toNat_ofNat] at hhigh' hlow'
    apply BitVec.eq_of_toNat_eq
    rw [BitVec.toNat_ofNat]
    omega
  · rintro rfl
    decide

/-- The literals that name no host. -/
theorem isUnspecified_iff {ip : Addr} :
    ip.hasZone = false ∧ isUnspecified ip ↔
      ip = .v4 0 ∨ ip = .v6 0 [] ∨ ip = .v6 0xFFFF00000000 [] := by
  cases ip with
  | v4 bits => simp [Addr.hasZone, isUnspecified, Addr.unmap]
  | v6 bits zone =>
      have hmapped : Addr.unmap (.v6 bits zone) = .v4 0 ↔ bits = 0xFFFF00000000 := by
        refine Iff.trans ?_ mapped_zero_iff
        rw [Addr.unmap]
        split
        next h => simp [h]
        next h => simp [h]
      simp only [Addr.hasZone, isUnspecified, Bool.or_eq_true, beq_iff_eq, hmapped,
        Addr.v6.injEq, Bool.not_eq_false', List.isEmpty_iff, reduceCtorEq, false_or]
      tauto

theorem parseIP_all_iff {host : Text} :
    ((parseIP host).all fun ip => !isUnspecified ip) = true ↔
      ¬∃ ip, Addr.parse host = some ip ∧
        (ip = .v4 0 ∨ ip = .v6 0 [] ∨ ip = .v6 0xFFFF00000000 []) := by
  unfold parseIP
  cases hparse : Addr.parse host with
  | none => simp
  | some ip =>
      simp only [Option.some.injEq, exists_eq_left', ← isUnspecified_iff]
      cases hzone : ip.hasZone with
      | false => simp [Option.filter_some, hzone]
      | true => simp [Option.filter_some, hzone]

/-- The listen host is put into the map exactly if it names one. -/
theorem mem_newHealthServer_iff {listen name : Text} :
    name ∈ (newHealthServer lower listen).allowedHosts ↔
      name ∈ loopbackNames ∨ ∃ host, ListenHost listen host ∧ name = normalizeHost lower host := by
  unfold newHealthServer ListenHost UnspecifiedListen
  cases hsplit : splitHostPort listen with
  | none => simp
  | some parts =>
      obtain ⟨host, port⟩ := parts
      have hnamed : (host ≠ [] ∧ ((parseIP host).all fun ip => !isUnspecified ip) = true) ↔
          ¬(host = [] ∨ ∃ ip, Addr.parse host = some ip ∧
            (ip = .v4 0 ∨ ip = .v6 0 [] ∨ ip = .v6 0xFFFF00000000 [])) := by
        rw [parseIP_all_iff, not_or]
      simp only [hnamed, Option.some.injEq, Prod.mk.injEq]
      split
      next hspecific =>
        rw [List.mem_append, List.mem_singleton]
        apply or_congr_right
        constructor
        · rintro rfl
          refine ⟨host, ⟨⟨port, rfl, rfl⟩, ?_⟩, rfl⟩
          rintro ⟨_, _, ⟨rfl, rfl⟩, hnone⟩
          exact hspecific hnone
        · rintro ⟨_, ⟨⟨_, rfl, rfl⟩, -⟩, rfl⟩
          rfl
      next hnone =>
        constructor
        · exact .inl
        · rintro (hname | ⟨_, ⟨-, hspecific⟩, -⟩)
          · exact hname
          · exact absurd ⟨host, port, ⟨rfl, rfl⟩, Decidable.not_not.mp hnone⟩ hspecific

theorem mem_allowHosts_iff {h : HealthServer} {hosts : List Text} {name : Text} :
    name ∈ (h.allowHosts lower hosts).allowedHosts ↔
      name ∈ h.allowedHosts ∨ ∃ entry ∈ hosts, name = normalizeHost lower entry := by
  simp only [HealthServer.allowHosts, List.mem_append, List.mem_map, eq_comm]

theorem isServed_uiGuard (h : HealthServer) (next : UiHandler) (host : Text) :
    (h.uiGuard lower next host).isServed ↔
      normalizeHost lower (hostName host) ∈ h.allowedHosts := by
  unfold HealthServer.uiGuard
  split
  next hallowed => simp [UiReply.isServed, hallowed]
  next hrefused => simp [UiReply.isServed, hrefused]

theorem isServed_serve (h : HealthServer) {path : Text} (hguarded : Guarded path) (host : Text) :
    (h.serve lower path host).isServed ↔
      normalizeHost lower (hostName host) ∈ h.allowedHosts := by
  obtain ⟨hclean, hhealth, hready⟩ := hguarded
  unfold HealthServer.serve
  rw [if_neg (not_not.mpr hclean), if_neg hhealth, if_neg hready]
  split
  · exact isServed_uiGuard h _ host
  · split <;> exact isServed_uiGuard h _ host

/-! ## Spellings of an entry -/

theorem HostEntry.unbracketed {entry : Text} (hentry : HostEntry entry) : Unbracketed entry :=
  ⟨hentry.free 91 (by decide), hentry.free 93 (by decide)⟩

/-- An entry in another letter case is an entry. -/
theorem HostEntry.sameCase {entry spelled : Text} (hentry : HostEntry entry)
    (hcase : spelled.SameCase entry) : HostEntry spelled := by
  have hfree : ∀ b ∈ str "/[] ", b ∉ spelled := by
    intro b hb hmem
    have hletters : (str "/[] ").all (fun b => Text.NoLetter b) = true := by decide
    have hletter : Text.NoLetter b := of_decide_eq_true (List.all_eq_true.mp hletters b hb)
    exact hentry.free b hb (hcase.symm.mem hletter hmem)
  refine ⟨?_, hfree⟩
  rw [Option.eq_none_iff_forall_ne_some]
  rintro ⟨host, port⟩ hsplit
  obtain ⟨-, -, hport, ⟨hhost, rfl⟩ | rfl⟩ := splitHostPort_eq_some_iff.mp hsplit
  · -- The entry has its only colon at the same place, so it would split too.
    obtain ⟨host', port', rfl, hsame, hsame'⟩ := hcase.symm.append_cons (by decide)
    obtain ⟨hopen, hclose⟩ := hentry.unbracketed
    simp only [List.mem_append, List.mem_cons, not_or] at hopen hclose
    have hunsplit := hentry.unsplit
    rw [splitHostPort_plain ⟨hopen.1, hclose.1⟩ ⟨hopen.2.2, hclose.2.2⟩
      (mt (hsame'.symm.mem (by decide)) hport) (mt (hsame.symm.mem (by decide)) hhost)] at hunsplit
    cases hunsplit
  · exact hfree 91 (by decide) List.mem_cons_self

theorem hostSpelling_bare {entry : Text} (hentry : HostEntry entry) :
    HostSpelling entry entry := by
  obtain ⟨hopen, hclose⟩ := hentry.unbracketed
  have hshape : entry = [] ++ (entry ++ []) := by simp
  refine .unported hentry.unsplit hshape (.inr ⟨rfl, ?_⟩) (.inr ⟨rfl, ?_⟩)
  · exact fun h => hopen (h.subset List.mem_cons_self)
  · exact fun h => hclose (h.subset List.mem_cons_self)

theorem hostSpelling_brackets (entry : Text) : HostSpelling (91 :: (entry ++ [93])) entry :=
  .unported (splitHostPort_brackets entry) rfl (.inl rfl) (.inl rfl)

/-- A guarded request is served exactly under the allowed names, every accepted
entry is such a name in all its spellings, and an unspecified listen host adds
none. -/
theorem hostGuard_admits (name raw listen : Text) (entries : List Text)
    (hlist : parseHostList name raw = .ok entries) :
    (∀ path host, Guarded path →
      ((((newHealthServer lower listen).allowHosts lower entries).serve lower path host).isServed ↔
        ∃ inner, HostSpelling host inner ∧
          AllowedName lower listen entries (normalizeHost lower inner))) ∧
    (∀ path entry spelled port, Guarded path → entry ∈ entries → spelled.SameCase entry →
      (∀ b ∈ port, 48 ≤ b ∧ b ≤ 57) →
      let served (host : Text) : Prop :=
        (((newHealthServer lower listen).allowHosts lower entries).serve lower path host).isServed
      served spelled ∧ (58 ∉ entry → served (spelled ++ 58 :: port)) ∧
        (58 ∈ entry → served (91 :: (spelled ++ [93])) ∧
          served (91 :: (spelled ++ 93 :: 58 :: port)))) ∧
    (UnspecifiedListen listen → ∀ key,
      key ∈ ((newHealthServer lower listen).allowHosts lower entries).allowedHosts ↔
        key ∈ loopbackNames ∨ ∃ entry ∈ entries, key = normalizeHost lower entry) := by
  have hallowed : ∀ key,
      key ∈ ((newHealthServer lower listen).allowHosts lower entries).allowedHosts ↔
        AllowedName lower listen entries key := by
    intro key
    rw [mem_allowHosts_iff, mem_newHealthServer_iff, or_assoc]
    rfl
  have hserved : ∀ {path host inner : Text}, Guarded path → HostSpelling host inner →
      ((((newHealthServer lower listen).allowHosts lower entries).serve lower path host).isServed ↔
        AllowedName lower listen entries (normalizeHost lower inner)) := by
    intro path host inner hguarded hspelling
    rw [isServed_serve _ hguarded, hspelling.hostName, hallowed]
  refine ⟨?_, ?_, ?_⟩
  · intro path host hguarded
    constructor
    · intro hreply
      obtain ⟨inner, hspelling⟩ := exists_hostSpelling host
      exact ⟨inner, hspelling, (hserved hguarded hspelling).mp hreply⟩
    · rintro ⟨inner, hspelling, hname⟩
      exact (hserved hguarded hspelling).mpr hname
  · intro path entry spelled port hguarded hentry hcase hdigits served
    have hspelled := (parseHostList_entries hlist entry hentry).sameCase hcase
    have hname : AllowedName lower listen entries (normalizeHost lower spelled) :=
      .inr (.inr ⟨entry, hentry, normalizeHost_sameCase hcase⟩)
    have hport : Unbracketed port ∧ 58 ∉ port := by
      refine ⟨⟨?_, ?_⟩, ?_⟩ <;> intro hmem <;> exact absurd (hdigits _ hmem) (by decide)
    refine ⟨(hserved hguarded (hostSpelling_bare hspelled)).mpr hname, ?_, ?_⟩
    · intro hplain
      have hsplit := splitHostPort_plain hspelled.unbracketed hport.1 hport.2
        (mt (hcase.symm.mem (by decide)) hplain)
      exact (hserved hguarded (.ported hsplit)).mpr hname
    · intro hcolon
      have hsplit := splitHostPort_bracketed hspelled.unbracketed hport.1 hport.2
      exact ⟨(hserved hguarded (hostSpelling_brackets spelled)).mpr hname,
        (hserved hguarded (.ported hsplit)).mpr hname⟩
  · intro hunspecified key
    rw [hallowed, AllowedName]
    apply or_congr_right
    constructor
    · rintro (⟨host, ⟨-, hspecific⟩, -⟩ | hentry)
      · exact absurd hunspecified hspecific
      · exact hentry
    · exact .inr

/-- A server on all addresses with a LAN name and an IPv6 address. -/
theorem lanNames_admitted :
    let server := (newHealthServer id (str "0.0.0.0:8080")).allowHosts id
      [str "gate.lan", str "fd00::7"]
    (server.serve id (str "/api/status") (str "GATE.Lan:8080")).isServed ∧
      (server.serve id (str "/") (str "[FD00::7]:8080")).isServed ∧
      str "0.0.0.0" ∉ server.allowedHosts := by
  obtain ⟨-, hspellings, hunspecified⟩ := @hostGuard_admits id (str "UI_ALLOWED_HOSTS")
    (str "gate.lan, fd00::7") (str "0.0.0.0:8080") [str "gate.lan", str "fd00::7"]
    (by decide +kernel)
  have hport : ∀ b ∈ str "8080", 48 ≤ b ∧ b ≤ 57 := by
    have hall : (str "8080").all (fun b => 48 ≤ b ∧ b ≤ 57) = true := by decide
    exact fun b hb => of_decide_eq_true (List.all_eq_true.mp hall b hb)
  refine ⟨?_, ?_, ?_⟩
  · exact (hspellings (str "/api/status") (str "gate.lan") (str "GATE.Lan") (str "8080")
      (by decide) (by decide) (by decide) hport).2.1 (by decide)
  · exact ((hspellings (str "/") (str "fd00::7") (str "FD00::7") (str "8080")
      (by decide) (by decide) (by decide) hport).2.2 (by decide)).2
  · rw [hunspecified ⟨str "0.0.0.0", str "8080", by decide, .inr ⟨.v4 0, by decide, .inl rfl⟩⟩]
    decide +kernel

end Admission

end SshGate
