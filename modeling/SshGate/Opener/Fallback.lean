import SshGate.Opener.Dials

/-! # Dialing down the addresses

The order in which the addresses of an answer are dialed, and what becomes of
the dials: they stop at the first success, and only if all of them fail does
the connection.
-/

namespace SshGate

open Go Interaction Program

/-! ## The order of dialing -/

/-- Tunnel dials: the first public IPv4 address, or the first public address if
there is no IPv4 one, and then the other public addresses in resolver order. -/
def TunnelSequence (addrs seq : List Addr) : Prop :=
  (∃ first, seq = first :: addrs.filter (fun a => !isPrivate a && a ≠ first) ∧
    (addrs.find? (fun a => !isPrivate a && a.is4) = some first ∨
      (∀ a ∈ addrs, isPrivate a = false → a.is4 = false) ∧
        addrs.find? (fun a => !isPrivate a) = some first)) ∨
  seq = [] ∧ ∀ a ∈ addrs, isPrivate a = true

/-- The addresses to dial in their order, for a host that was decided to go one
way and goes the other way or the same. -/
def DialSequence (family : IPFamily) (res : LookupResult) (seq : List Addr) :
    (decided route : Route) → Prop
  | .direct, .direct => seq = res.addrs.filter (familyMatches family)
  | .tunnel, .tunnel => TunnelSequence res.addrs seq
  -- Private addresses of a local answer, without those of this machine.
  | .tunnel, .direct => (∀ a ∈ res.addrs, isPrivate a = true) ∧ res.localDirect = true ∧
      seq = (dropHostLocal res.addrs).filter (familyMatches family)
  | .direct, .tunnel => False

/-- No public address is left out. -/
theorem TunnelSequence.mem_iff {addrs seq : List Addr} (h : TunnelSequence addrs seq) (a : Addr) :
    a ∈ seq ↔ a ∈ addrs ∧ isPrivate a = false := by
  rcases h with ⟨first, rfl, hfirst⟩ | ⟨rfl, hprivate⟩
  · have hmem : first ∈ addrs ∧ isPrivate first = false := by
      rcases hfirst with hfound | ⟨-, hfound⟩
      · have hpublic := List.find?_some hfound
        simp only [Bool.and_eq_true, Bool.not_eq_true'] at hpublic
        exact ⟨List.mem_of_find?_eq_some hfound, hpublic.1⟩
      · have hpublic := List.find?_some hfound
        simp only [Bool.not_eq_true'] at hpublic
        exact ⟨List.mem_of_find?_eq_some hfound, hpublic⟩
    by_cases ha : a = first
    · subst ha
      simp [hmem]
    · simp [ha]
  · refine iff_of_false List.not_mem_nil ?_
    rintro ⟨ha, hpublic⟩
    rw [hprivate a ha] at hpublic
    cases hpublic

theorem tunnelSequence_pick {addrs : List Addr} {head : Addr}
    (hhead : pickTunnelAddr (addrs.filter fun a => !isPrivate a) = some head) :
    TunnelSequence addrs (head :: (addrs.filter fun a => !isPrivate a).filter (· ≠ head)) := by
  refine .inl ⟨head, ?_, ?_⟩
  · rw [List.filter_filter]
    congr 1
    exact List.filter_congr fun a _ => Bool.and_comm _ _
  · unfold pickTunnelAddr at hhead
    split at hhead
    next a hfound =>
      obtain rfl := Option.some.inj hhead
      rw [List.find?_filter] at hfound
      simp only [Bool.decide_and, Bool.decide_eq_true] at hfound
      exact .inl hfound
    next hnone =>
      rw [List.find?_filter, List.find?_eq_none] at hnone
      refine .inr ⟨fun a ha hpublic => ?_, ?_⟩
      · simpa [hpublic] using hnone a ha
      · rwa [List.head?_filter] at hhead

section Candidates

variable {family : IPFamily} {host reason : Text}

/-- The candidates are the dial sequence, or there is nothing to dial. -/
def Candidates.Follows (found : Candidates) (family : IPFamily) (decided : Route)
    (res : LookupResult) : Prop :=
  ∃ seq, DialSequence family res seq decided found.route ∧
    (found.addrs = .ok seq ∨ seq = [] ∧ ∃ err, found.addrs = .error err)

theorem directCandidates_follows (addrs : List Addr) :
    (directCandidates family host addrs reason).addrs = .ok (addrs.filter (familyMatches family)) ∨
      addrs.filter (familyMatches family) = [] ∧
        ∃ err, (directCandidates family host addrs reason).addrs = .error err := by
  simp only [directCandidates]
  split
  next hempty => exact .inr ⟨hempty, _, rfl⟩
  next => exact .inl rfl

theorem tunnelCandidates_follows (res : LookupResult) :
    (tunnelCandidates family host res.addrs res.localDirect reason).Follows family .tunnel res := by
  have hprivate : (res.addrs.filter fun a => !isPrivate a) = [] →
      ∀ a ∈ res.addrs, isPrivate a = true := by
    intro hempty a ha
    simpa using List.filter_eq_nil_iff.mp hempty a ha
  simp only [tunnelCandidates]
  split
  next hpublic =>
    split
    next hnone =>
      unfold pickTunnelAddr at hnone
      split at hnone
      next => cases hnone
      next => exact absurd (List.head?_eq_none_iff.mp hnone) hpublic
    next head hhead => exact ⟨_, tunnelSequence_pick hhead, .inl rfl⟩
  next hempty =>
    have hall := hprivate (not_not.mp hempty)
    split
    next =>
      split
      next => exact ⟨[], .inr ⟨rfl, hall⟩, .inr ⟨rfl, _, rfl⟩⟩
      next => exact ⟨[], .inr ⟨rfl, hall⟩, .inr ⟨rfl, _, rfl⟩⟩
    next hreachable =>
      refine ⟨(dropHostLocal res.addrs).filter (familyMatches family), ?_,
        directCandidates_follows _⟩
      rw [directCandidates_route]
      refine ⟨hall, ?_, rfl⟩
      simp only [Bool.or_eq_true, Bool.not_eq_true', not_or, Bool.not_eq_false] at hreachable
      exact hreachable.1

theorem candidatesOf_follows (family : IPFamily) (host : Text) (decided : Route) (reason : Text)
    {answer : Answer} (herr : answer.err = none) :
    (candidatesOf family host decided reason answer).Follows family decided answer.res := by
  unfold candidatesOf
  rw [herr]
  cases decided with
  | direct =>
      refine ⟨_, ?_, directCandidates_follows answer.res.addrs⟩
      rw [directCandidates_route]
      rfl
  | tunnel => exact tunnelCandidates_follows answer.res

end Candidates

/-! ## Dials and errors -/

/-- The errors that unwrapping an error leads to. -/
def Err.chain : Err → List Err
  | .dns host cause => .dns host cause :: cause.chain
  | .network operation address cause => .network operation address cause :: cause.chain
  | .dial ip port cause => .dial ip port cause :: cause.chain
  | .directDial host port cause => .directDial host port cause :: cause.chain
  | .attempts cause count => .attempts cause count :: cause.chain
  | err => [err]

theorem Err.mem_chain_self (err : Err) : err ∈ err.chain := by
  cases err <;> exact List.mem_cons_self

theorem mem_chain_withAttempts {cause err : Err} (h : err ∈ cause.chain) (count : Nat) :
    err ∈ (withAttempts cause count).chain := by
  unfold withAttempts
  split
  next => exact List.mem_cons_of_mem _ h
  next => exact h

/-- One dial of a route with its outcome. -/
def dialEvent (route : Route) (info : ConnMeta) (port : Int) (ip : Addr) (reply : Except Err Nat) :
    Event sig :=
  match route with
  | .direct => ⟨.dialDirect ip port, reply⟩
  | .tunnel => ⟨.dialTunnel info ip port, reply⟩

/-- The connection that an event opened for the client. -/
def openedConn : Event sig → Option Nat
  | ⟨.dialTunnel _ _ _, .ok conn⟩ => some conn
  | ⟨.dialDirect _ _, .ok conn⟩ => some conn
  | _ => none

/-- The trace dials down the sequence: the listed addresses failed, and the
next one, if any, succeeded. -/
def DialsDown (route : Route) (info : ConnMeta) (port : Int) (seq : List Addr)
    (trace : List (Event sig)) (failures : List (Addr × Err)) : Option (Addr × Nat) → Prop
  | some (ip, conn) => (∃ after, seq = failures.map Prod.fst ++ ip :: after) ∧
      trace = failures.map (fun f => dialEvent route info port f.1 (.error f.2)) ++
        [dialEvent route info port ip (.ok conn)]
  | none => seq = failures.map Prod.fst ∧
      trace = failures.map fun f => dialEvent route info port f.1 (.error f.2)

section DialsDown

variable {route : Route} {info : ConnMeta} {port : Int} {seq : List Addr}
  {trace : List (Event sig)} {failures : List (Addr × Err)} {result : Option (Addr × Nat)}

theorem DialsDown.cons (h : DialsDown route info port seq trace failures result) (ip : Addr)
    (err : Err) :
    DialsDown route info port (ip :: seq) (dialEvent route info port ip (.error err) :: trace)
      ((ip, err) :: failures) result := by
  cases result with
  | some success =>
      obtain ⟨⟨after, rfl⟩, rfl⟩ := h
      exact ⟨⟨after, rfl⟩, rfl⟩
  | none =>
      obtain ⟨rfl, rfl⟩ := h
      exact ⟨rfl, rfl⟩

theorem openedConn_failed (route : Route) (info : ConnMeta) (port : Int) (ip : Addr) (err : Err) :
    openedConn (dialEvent route info port ip (.error err)) = none := by
  cases route <;> rfl

theorem openedConn_dialed (route : Route) (info : ConnMeta) (port : Int) (ip : Addr)
    (conn : Nat) : openedConn (dialEvent route info port ip (.ok conn)) = some conn := by
  cases route <;> rfl

/-- Only the last dial opens a connection. -/
theorem DialsDown.openedConn (h : DialsDown route info port seq trace failures result) :
    trace.filterMap openedConn = (result.map Prod.snd).toList := by
  have hfailed : (failures.map fun f => dialEvent route info port f.1 (.error f.2)).filterMap
      SshGate.openedConn = [] := by
    rw [List.filterMap_eq_nil_iff]
    intro event hevent
    obtain ⟨f, -, rfl⟩ := List.mem_map.mp hevent
    exact openedConn_failed route info port f.1 f.2
  cases result with
  | some success =>
      obtain ⟨-, rfl⟩ := h
      rw [List.filterMap_append, hfailed, List.nil_append,
        List.filterMap_cons_some (openedConn_dialed _ _ _ _ _)]
      rfl
  | none =>
      obtain ⟨-, rfl⟩ := h
      exact hfailed

end DialsDown

/-- What a loop over the addresses returns: the first success, or the first of
all errors, which `wrap` describes. -/
def dialedOf (wrap : Addr → Err → Err) (failures : List (Addr × Err))
    (firstErr : Option (Addr × Err)) : Option (Addr × Nat) → Dialed
  | some (ip, conn) => .ok (conn, ip.string)
  | none => .error (firstErr <|> failures.head?.map fun f => (f.1, wrap f.1 f.2))

theorem dialedOf_cons (wrap : Addr → Err → Err) (failures : List (Addr × Err))
    (firstErr : Option (Addr × Err)) (result : Option (Addr × Nat)) (ip : Addr) (err : Err) :
    dialedOf wrap ((ip, err) :: failures) firstErr result =
      dialedOf wrap failures (firstErr <|> some (ip, wrap ip err)) result := by
  cases result with
  | some success => rfl
  | none => cases firstErr <;> rfl

theorem dialTunnelAll_returns {info : ConnMeta} {port : Int} {addrs : List Addr}
    {firstErr : Option (Addr × Err)} {trace : List (Event sig)} {dialed : Dialed}
    (h : (dialTunnelAll info port addrs firstErr).Returns trace dialed) :
    ∃ failures result, DialsDown .tunnel info port addrs trace failures result ∧
      dialed = dialedOf (fun _ err => err) failures firstErr result := by
  induction addrs generalizing firstErr trace with
  | nil =>
      obtain ⟨rfl, rfl⟩ := returns_ret.mp h
      exact ⟨[], none, ⟨rfl, rfl⟩, by simp [dialedOf]⟩
  | cons ip rest ih =>
      obtain ⟨reply, more, rfl, hmore⟩ := returns_perform.mp h
      cases reply with
      | ok conn =>
          obtain ⟨rfl, rfl⟩ := returns_ret.mp hmore
          exact ⟨[], some (ip, conn), ⟨⟨rest, rfl⟩, rfl⟩, rfl⟩
      | error err =>
          obtain ⟨failures, result, hdown, rfl⟩ := ih hmore
          exact ⟨(ip, err) :: failures, result, hdown.cons ip err, (dialedOf_cons _ _ _ _ _ _).symm⟩

/-- With the addresses filtered by family before, each of them is dialed. -/
theorem dialDirectAll_returns {family : IPFamily} {info : ConnMeta} {port : Int}
    {addrs : List Addr} (haddrs : ∀ ip ∈ addrs, familyMatches family ip = true)
    {firstErr : Option (Addr × Err)} {trace : List (Event sig)} {dialed : Dialed}
    (h : (dialDirectAll family port addrs firstErr).Returns trace dialed) :
    ∃ failures result, DialsDown .direct info port addrs trace failures result ∧
      dialed = dialedOf (fun ip err => .dial ip port err) failures firstErr result := by
  induction addrs generalizing firstErr trace with
  | nil =>
      obtain ⟨rfl, rfl⟩ := returns_ret.mp h
      exact ⟨[], none, ⟨rfl, rfl⟩, by simp [dialedOf]⟩
  | cons ip rest ih =>
      obtain ⟨hip, hrest⟩ := List.forall_mem_cons.mp haddrs
      obtain ⟨first, reply, second, rfl, hfirst, hsecond⟩ := returns_bind.mp h
      simp only [dialDirectIP, hip, if_true] at hfirst
      obtain ⟨dial, more, rfl, hmore⟩ := returns_perform.mp hfirst
      cases dial with
      | ok conn =>
          obtain ⟨rfl, rfl⟩ := returns_ret.mp hmore
          obtain ⟨rfl, rfl⟩ := returns_ret.mp hsecond
          exact ⟨[], some (ip, conn), ⟨⟨rest, rfl⟩, rfl⟩, rfl⟩
      | error err =>
          obtain ⟨rfl, rfl⟩ := returns_ret.mp hmore
          obtain ⟨failures, result, hdown, rfl⟩ := ih hrest hsecond
          exact ⟨(ip, err) :: failures, result, hdown.cons ip err, (dialedOf_cons _ _ _ _ _ _).symm⟩

/-! ## Opening a connection -/

/-- What a client gets from the dials: the first connection with its address,
or an error that wraps the one of the first address. -/
def Delivers (failures : List (Addr × Err)) (conn : Except Err (Nat × Text)) :
    Option (Addr × Nat) → Prop
  | some (ip, opened) => conn = .ok (opened, ip.string)
  | none => ∃ err, conn = .error err ∧ ∀ first ∈ failures.head?, first.2 ∈ err.chain

theorem directFailure_chain (host : Text) (port : Int) (count : Nat) (first : Addr × Err) :
    first.2 ∈
      (directFailure host port count (some (first.1, .dial first.1 port first.2))).chain := by
  apply mem_chain_withAttempts
  exact List.mem_cons_of_mem _ (List.mem_cons_of_mem _ (Err.mem_chain_self _))

theorem tunnelFailure_chain (port : Int) (count : Nat) (first : Addr × Err) :
    first.2 ∈ (tunnelFailure port count (some first)).chain := by
  apply mem_chain_withAttempts
  exact List.mem_cons_of_mem _ (Err.mem_chain_self _)

theorem delivers_dialedOf {wrap : Addr → Err → Err} {failure : Option (Addr × Err) → Err}
    (hchain : ∀ first : Addr × Err,
      first.2 ∈ (failure (some (first.1, wrap first.1 first.2))).chain)
    (failures : List (Addr × Err)) (result : Option (Addr × Nat)) :
    Delivers failures ((dialedOf wrap failures none result).mapError failure) result := by
  cases result with
  | some success => rfl
  | none =>
      refine ⟨_, rfl, fun first hfirst => ?_⟩
      rw [Option.mem_def.mp hfirst]
      exact hchain first

theorem dialAll_returns {o : Opener} {info : ConnMeta} {port : Int} {found : Candidates}
    {addrs : List Addr} {trace : List (Event sig)} {opened : Opened}
    (haddrs : found.route = .direct → ∀ ip ∈ addrs, familyMatches o.family ip = true)
    (h : (dialAll o info port found addrs).Returns trace opened) :
    opened.route = found.route ∧
      ∃ failures result, DialsDown found.route info port addrs trace failures result ∧
        Delivers failures opened.conn result := by
  refine ⟨dialAll_route h, ?_⟩
  unfold dialAll at h
  cases hroute : found.route with
  | direct =>
      rw [hroute] at h
      obtain ⟨first, dialed, second, rfl, hfirst, hsecond⟩ := returns_bind.mp h
      obtain ⟨rfl, hconn⟩ : second = [] ∧
          opened.conn = dialed.mapError (directFailure info.host port addrs.length) := by
        cases dialed with
        | ok conn =>
            obtain ⟨rfl, rfl⟩ := returns_ret.mp hsecond
            exact ⟨rfl, rfl⟩
        | error first =>
            obtain ⟨rfl, rfl⟩ := returns_ret.mp hsecond
            exact ⟨rfl, rfl⟩
      obtain ⟨failures, result, hdown, rfl⟩ := dialDirectAll_returns (haddrs hroute) hfirst
      rw [List.append_nil, hconn]
      exact ⟨failures, result, hdown, delivers_dialedOf (directFailure_chain _ _ _) _ _⟩
  | tunnel =>
      rw [hroute] at h
      obtain ⟨first, dialed, second, rfl, hfirst, hsecond⟩ := returns_bind.mp h
      obtain ⟨rfl, hconn⟩ : second = [] ∧
          opened.conn = dialed.mapError (tunnelFailure port addrs.length) := by
        cases dialed with
        | ok conn =>
            obtain ⟨rfl, rfl⟩ := returns_ret.mp hsecond
            exact ⟨rfl, rfl⟩
        | error first =>
            obtain ⟨rfl, rfl⟩ := returns_ret.mp hsecond
            exact ⟨rfl, rfl⟩
      obtain ⟨failures, result, hdown, rfl⟩ := dialTunnelAll_returns hfirst
      rw [List.append_nil, hconn]
      exact ⟨failures, result, hdown, delivers_dialedOf (tunnelFailure_chain _ _) _ _⟩

theorem DialSequence.family {family : IPFamily} {res : LookupResult} {seq : List Addr}
    {decided : Route} (h : DialSequence family res seq decided .direct) :
    ∀ ip ∈ seq, familyMatches family ip = true := by
  intro ip hip
  cases decided with
  | direct =>
      rw [show seq = _ from h] at hip
      exact (List.mem_filter.mp hip).2
  | tunnel =>
      rw [h.2.2] at hip
      exact (List.mem_filter.mp hip).2

theorem DialSequence.mem_iff {family : IPFamily} {res : LookupResult} {seq : List Addr}
    {decided route : Route} (h : DialSequence family res seq decided route)
    (hroute : route = .tunnel) (a : Addr) : a ∈ seq ↔ a ∈ res.addrs ∧ isPrivate a = false := by
  subst hroute
  cases decided with
  | direct => exact h.elim
  | tunnel => exact TunnelSequence.mem_iff h a

/-- Before the candidates are known no connection is opened. -/
theorem candidates_openedConn {o : Opener} {host : Text} {trace : List (Event sig)}
    {found : Candidates} (h : (candidates o host).Returns trace found) :
    trace.filterMap openedConn = [] := by
  apply (candidates_not_isDial o host).filterMap_eq_nil h
  rintro ⟨op, reply⟩ hop
  cases op with
  | dialTunnel info ip port => cases hop
  | dialDirect ip port => cases hop
  | _ => rfl

/-- The dials of a connection: whatever the answer and whichever dials succeed,
they go down the dial sequence of the answer up to the first success, which is
what the client gets; no other connection is opened, and only if all addresses
fail does the client get an error, which wraps that of the first address. -/
theorem openConn_dials_down (o : Opener) (src proto host : Text) (port : Int)
    {trace : List (Event sig)} {opened : Opened}
    (hreturns : (openConn o src proto host port).Returns trace opened) :
    ∃ decided resolved dialed decision answer, trace = decided ++ resolved ++ dialed ∧
      (o.rules.decide host).Returns decided decision ∧
      (resolveFor o.rules.dns host decision.1).Returns resolved answer ∧
      ((∃ err, answer.err = some err ∧ dialed = [] ∧ opened.conn = .error err) ∨
        answer.err = none ∧ ∃ seq failures result,
          DialSequence o.family answer.res seq decision.1 opened.route ∧
          (opened.route = .tunnel →
            ∀ a, a ∈ seq ↔ a ∈ answer.res.addrs ∧ isPrivate a = false) ∧
          DialsDown opened.route ⟨proto, src, host⟩ port seq dialed failures result ∧
          Delivers failures opened.conn result ∧
          trace.filterMap openedConn = (result.map Prod.snd).toList) := by
  obtain ⟨first, found, dialed, rfl, hfirst, hdialed⟩ := returns_bind.mp hreturns
  have hquiet := candidates_openedConn hfirst
  obtain ⟨decided, resolved, decision, answer, rfl, hdecided, hresolved, rfl⟩ :=
    candidates_returns.mp hfirst
  refine ⟨decided, resolved, dialed, decision, answer, rfl, hdecided, hresolved, ?_⟩
  cases herr : answer.err with
  | some err =>
      simp only [candidatesOf, herr] at hdialed
      obtain ⟨rfl, rfl⟩ := returns_ret.mp hdialed
      exact .inl ⟨err, rfl, rfl, rfl⟩
  | none =>
      right
      obtain ⟨seq, hseq, hfound⟩ := candidatesOf_follows o.family host decision.1 decision.2 herr
      rw [List.filterMap_append, hquiet, List.nil_append]
      rcases hfound with hok | ⟨rfl, err, hfailed⟩
      · simp only [hok] at hdialed
        obtain ⟨hroute, failures, result, hdown, hdelivers⟩ := dialAll_returns (by
          intro hdirect
          rw [hdirect] at hseq
          exact hseq.family) hdialed
        rw [hroute]
        exact ⟨rfl, seq, failures, result, hseq, hseq.mem_iff, hdown, hdelivers, hdown.openedConn⟩
      · simp only [hfailed] at hdialed
        obtain ⟨rfl, rfl⟩ := returns_ret.mp hdialed
        exact ⟨rfl, [], [], none, hseq, hseq.mem_iff, ⟨rfl, rfl⟩, ⟨err, rfl, by simp⟩, rfl⟩

/-- The answer has a private address before the public one. -/
theorem mixedAnswer_dials_down :
    ∃ opened, (openConn (sampleOpener false) (str "client") (str "http") (str "a.b") 443).Returns
        mixedEvents opened ∧ opened.conn = .ok (1, str "8.8.8.8") ∧
      ∃ dialed seq failures result, dialed <:+ mixedEvents ∧
        DialsDown opened.route ⟨str "http", str "client", str "a.b"⟩ 443 seq dialed failures
          result ∧
        Delivers failures opened.conn result := by
  obtain ⟨opened, hreturns, hconn⟩ : ∃ opened, (openConn (sampleOpener false) (str "client")
      (str "http") (str "a.b") 443).Returns mixedEvents opened ∧
      opened.conn = .ok (1, str "8.8.8.8") := by
    refine ⟨⟨.ok (1, str "8.8.8.8"), .tunnel, str "fallback"⟩, ?_, rfl⟩
    repeat apply Reaches.act
    exact .refl _
  obtain ⟨decided, resolved, dialed, decision, answer, htrace, -, -, hfound⟩ :=
    openConn_dials_down _ _ _ _ _ hreturns
  rcases hfound with ⟨err, -, -, hfailed⟩ | ⟨-, seq, failures, result, -, -, hdown, hdelivers, -⟩
  · rw [hconn] at hfailed
    cases hfailed
  · refine ⟨opened, hreturns, hconn, dialed, seq, failures, result, ?_, hdown, hdelivers⟩
    rw [htrace]
    exact List.suffix_append _ _

end SshGate
