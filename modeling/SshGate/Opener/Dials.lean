import SshGate.Dns.Calls

/-! # Where a connection is dialed

A connection dials only after its candidates are known, and only by the route
they came with: the tunnel sees public addresses of the call's own answer,
and one call never uses both routes.
-/

namespace SshGate

open Go Interaction Program

/-- The trace passed `ip` to the SSH dialer as a destination. -/
def DialedTunnel (trace : List (Event sig)) (ip : Addr) : Prop :=
  ∃ info port reply, (⟨.dialTunnel info ip port, reply⟩ : Event sig) ∈ trace

/-- The trace dialed `ip` directly. -/
def DialedDirect (trace : List (Event sig)) (ip : Addr) : Prop :=
  ∃ port reply, (⟨.dialDirect ip port, reply⟩ : Event sig) ∈ trace

/-! ## Tunnel candidates are public -/

theorem pickTunnelAddr_mem {addrs : List Addr} {head : Addr}
    (hhead : pickTunnelAddr addrs = some head) : head ∈ addrs := by
  unfold pickTunnelAddr at hhead
  split at hhead
  next a hfound =>
    obtain rfl : a = head := Option.some.inj hhead
    exact List.mem_of_find?_eq_some hfound
  next => exact List.mem_of_mem_head? hhead

theorem directCandidates_route (family : IPFamily) (host : Text) (addrs : List Addr)
    (reason : Text) : (directCandidates family host addrs reason).route = .direct := by
  simp only [directCandidates]
  split
  next => rfl
  next => rfl

theorem tunnelCandidates_public {family : IPFamily} {host reason : Text} {addrs out : List Addr}
    {localDirect : Bool}
    (hroute : (tunnelCandidates family host addrs localDirect reason).route = .tunnel)
    (hout : (tunnelCandidates family host addrs localDirect reason).addrs = .ok out)
    {ip : Addr} (hip : ip ∈ out) : ip ∈ addrs ∧ isPrivate ip = false := by
  simp only [tunnelCandidates] at hroute hout
  split at hout
  next =>
    split at hout
    next => simp at hout
    next head hhead =>
      simp only [Except.ok.injEq] at hout
      have hpublic : ip ∈ addrs.filter fun a => !isPrivate a := by
        rw [← hout] at hip
        rcases List.mem_cons.mp hip with rfl | hrest
        · exact pickTunnelAddr_mem hhead
        · exact List.mem_of_mem_filter hrest
      obtain ⟨hmem, hprivate⟩ := List.mem_filter.mp hpublic
      exact ⟨hmem, by simpa using hprivate⟩
  next hnone =>
    rw [if_neg hnone] at hroute
    split at hout
    next => cases addrs <;> simp at hout
    next hdirect =>
      rw [if_neg hdirect, directCandidates_route] at hroute
      cases hroute

/-- The candidates of a tunnel route are public addresses of the answer. -/
theorem candidatesOf_public {family : IPFamily} {host reason : Text} {route : Route}
    {answer : Answer} {out : List Addr}
    (hroute : (candidatesOf family host route reason answer).route = .tunnel)
    (hout : (candidatesOf family host route reason answer).addrs = .ok out)
    {ip : Addr} (hip : ip ∈ out) : ip ∈ answer.res.addrs ∧ isPrivate ip = false := by
  cases herr : answer.err with
  | some err => simp [candidatesOf, herr] at hout
  | none =>
      cases route with
      | direct =>
          simp only [candidatesOf, herr, directCandidates_route] at hroute
          cases hroute
      | tunnel =>
          simp only [candidatesOf, herr] at hroute hout
          exact tunnelCandidates_public hroute hout hip

/-! ## Dialing keeps to the route -/

theorem dialTunnelAll_confined (info : ConnMeta) (port : Int) (addrs : List Addr)
    (firstErr : Option (Addr × Err)) :
    Confined (fun op => ∃ ip ∈ addrs, op = Op.dialTunnel info ip port)
      (dialTunnelAll info port addrs firstErr) := by
  induction addrs generalizing firstErr with
  | nil => trivial
  | cons ip rest ih =>
      refine .perform ⟨ip, List.mem_cons_self, rfl⟩ fun reply => ?_
      cases reply with
      | ok conn => trivial
      | error err =>
          apply (ih _).imp
          rintro op ⟨next, hnext, rfl⟩
          exact ⟨next, List.mem_cons_of_mem _ hnext, rfl⟩

theorem dialDirectAll_confined (family : IPFamily) (port : Int) (addrs : List Addr)
    (firstErr : Option (Addr × Err)) :
    Confined (fun op => ∃ ip ∈ addrs, op = Op.dialDirect ip port)
      (dialDirectAll family port addrs firstErr) := by
  induction addrs generalizing firstErr with
  | nil => trivial
  | cons ip rest ih =>
      have hdial : Confined (fun op => ∃ next ∈ ip :: rest, op = Op.dialDirect next port)
          (dialDirectIP family ip port) := by
        unfold dialDirectIP
        split
        next =>
          refine .perform ⟨ip, List.mem_cons_self, rfl⟩ fun reply => ?_
          cases reply with
          | ok conn => trivial
          | error err => trivial
        next => trivial
      apply hdial.bind
      intro reply
      cases reply with
      | ok conn => trivial
      | error err =>
          apply (ih _).imp
          rintro op ⟨next, hnext, rfl⟩
          exact ⟨next, List.mem_cons_of_mem _ hnext, rfl⟩

/-- The action that dials `ip` by a route. -/
def Route.dialOp (route : Route) (info : ConnMeta) (ip : Addr) (port : Int) : Op :=
  match route with
  | .direct => .dialDirect ip port
  | .tunnel => .dialTunnel info ip port

theorem dialAll_confined (o : Opener) (info : ConnMeta) (port : Int) (found : Candidates)
    (addrs : List Addr) :
    Confined (fun op => ∃ ip ∈ addrs, op = found.route.dialOp info ip port)
      (dialAll o info port found addrs) := by
  cases hroute : found.route with
  | direct =>
      simp only [dialAll, hroute]
      apply (dialDirectAll_confined o.family port addrs none).bind
      intro dialed
      cases dialed with
      | ok conn => trivial
      | error first => trivial
  | tunnel =>
      simp only [dialAll, hroute]
      apply (dialTunnelAll_confined info port addrs none).bind
      intro dialed
      cases dialed with
      | ok conn => trivial
      | error first => trivial

theorem dialAll_route {o : Opener} {info : ConnMeta} {port : Int} {found : Candidates}
    {addrs : List Addr} {trace : List (Event sig)} {opened : Opened}
    (hpath : (dialAll o info port found addrs).Returns trace opened) :
    opened.route = found.route := by
  cases hroute : found.route with
  | direct =>
      simp only [dialAll, hroute] at hpath
      obtain ⟨first, dialed, second, _, _, hsecond⟩ := returns_bind.mp hpath
      cases dialed with
      | ok conn => rw [← (returns_ret.mp hsecond).2]
      | error err => rw [← (returns_ret.mp hsecond).2]
  | tunnel =>
      simp only [dialAll, hroute] at hpath
      obtain ⟨first, dialed, second, _, _, hsecond⟩ := returns_bind.mp hpath
      cases dialed with
      | ok conn => rw [← (returns_ret.mp hsecond).2]
      | error err => rw [← (returns_ret.mp hsecond).2]

/-- A connection that has dialed knows its candidates: what came before them
is no dial, and what came after is a path of the dial loop. -/
theorem openConn_dialing {o : Opener} {src proto host : Text} {port : Int}
    {trace : List (Event sig)} {q : Prog Opened}
    (hpath : (openConn o src proto host port).Reaches trace q) {event : Event sig}
    (hevent : event ∈ trace) (hdial : event.op.isDial = true) :
    ∃ first found addrs second, trace = first ++ second ∧
      (candidates o host).Returns first found ∧ found.addrs = .ok addrs ∧
      (dialAll o ⟨proto, src, host⟩ port found addrs).Reaches second q := by
  rcases reaches_bind hpath with ⟨p', hp', _⟩ | ⟨first, found, second, rfl, hfirst, hsecond⟩
  · have hother := (candidates_not_isDial o host).of_mem hp' hevent
    rw [hdial] at hother
    cases hother
  · cases haddrs : found.addrs with
    | ok addrs =>
        simp only [haddrs] at hsecond
        exact ⟨first, found, addrs, second, rfl, hfirst, haddrs, hsecond⟩
    | error err =>
        simp only [haddrs] at hsecond
        cases hsecond
        have hother := (candidates_not_isDial o host).of_mem hfirst (by simpa using hevent)
        rw [hdial] at hother
        cases hother

/-- Every dial of a connection is by the route of its candidates, to one of
their addresses. -/
theorem openConn_dial {o : Opener} {src proto host : Text} {port : Int}
    {trace : List (Event sig)} {q : Prog Opened}
    (hpath : (openConn o src proto host port).Reaches trace q) {event : Event sig}
    (hevent : event ∈ trace) (hdial : event.op.isDial = true) :
    ∃ first found addrs second, trace = first ++ second ∧
      (candidates o host).Returns first found ∧ found.addrs = .ok addrs ∧
      (dialAll o ⟨proto, src, host⟩ port found addrs).Reaches second q ∧
      ∃ ip ∈ addrs, event.op = found.route.dialOp ⟨proto, src, host⟩ ip port := by
  obtain ⟨first, found, addrs, second, rfl, hfirst, haddrs, hsecond⟩ :=
    openConn_dialing hpath hevent hdial
  refine ⟨first, found, addrs, second, rfl, hfirst, haddrs, hsecond, ?_⟩
  rcases List.mem_append.mp hevent with hbefore | hafter
  · have hother := (candidates_not_isDial o host).of_mem hfirst hbefore
    rw [hdial] at hother
    cases hother
  · exact (dialAll_confined o _ port found addrs).of_mem hsecond hafter

theorem openConn_dialedTunnel {o : Opener} {src proto host : Text} {port : Int}
    {trace : List (Event sig)} {q : Prog Opened}
    (hpath : (openConn o src proto host port).Reaches trace q) {ip : Addr}
    (hdialed : DialedTunnel trace ip) :
    ∃ first found addrs second, trace = first ++ second ∧
      (candidates o host).Returns first found ∧ found.addrs = .ok addrs ∧
      (dialAll o ⟨proto, src, host⟩ port found addrs).Reaches second q ∧
      found.route = .tunnel ∧ ip ∈ addrs := by
  obtain ⟨info, port', reply, hevent⟩ := hdialed
  obtain ⟨first, found, addrs, second, rfl, hfirst, haddrs, hsecond, ip', hip', hop⟩ :=
    openConn_dial hpath hevent rfl
  refine ⟨first, found, addrs, second, rfl, hfirst, haddrs, hsecond, ?_⟩
  cases hroute : found.route with
  | direct => simp [hroute, Route.dialOp] at hop
  | tunnel =>
      simp only [hroute, Route.dialOp, Op.dialTunnel.injEq] at hop
      exact ⟨rfl, hop.2.1 ▸ hip'⟩

theorem openConn_dialedDirect {o : Opener} {src proto host : Text} {port : Int}
    {trace : List (Event sig)} {q : Prog Opened}
    (hpath : (openConn o src proto host port).Reaches trace q) {ip : Addr}
    (hdialed : DialedDirect trace ip) :
    ∃ first found addrs second, trace = first ++ second ∧
      (candidates o host).Returns first found ∧ found.addrs = .ok addrs ∧
      (dialAll o ⟨proto, src, host⟩ port found addrs).Reaches second q ∧
      found.route = .direct := by
  obtain ⟨port', reply, hevent⟩ := hdialed
  obtain ⟨first, found, addrs, second, rfl, hfirst, haddrs, hsecond, ip', hip', hop⟩ :=
    openConn_dial hpath hevent rfl
  refine ⟨first, found, addrs, second, rfl, hfirst, haddrs, hsecond, ?_⟩
  cases hroute : found.route with
  | direct => rfl
  | tunnel => simp [hroute, Route.dialOp] at hop

/-! ## All connections of a run -/

theorem candidates_returns {o : Opener} {host : Text} {trace : List (Event sig)}
    {found : Candidates} :
    (candidates o host).Returns trace found ↔
      ∃ first second decision answer, trace = first ++ second ∧
        (o.rules.decide host).Returns first decision ∧
        (resolveFor o.rules.dns host decision.1).Returns second answer ∧
        candidatesOf o.family host decision.1 decision.2 answer = found := by
  simp only [candidates, returns_bind, pure_eq_ret, returns_ret]
  constructor
  · rintro ⟨first, decision, second, rfl, hfirst, middle, answer, last, rfl, hmiddle, rfl, hfound⟩
    exact ⟨first, middle, decision, answer, by simp, hfirst, hmiddle, hfound⟩
  · rintro ⟨first, second, decision, answer, rfl, hfirst, hsecond, hfound⟩
    exact ⟨first, decision, second, rfl, hfirst, second, answer, [], by simp, hsecond, rfl, hfound⟩

/-- A thread that opens a connection follows `openConn`. -/
theorem openConn_thread {o : Opener} {w : World} {schedule : List (Action (gate o))}
    {c : Config (gate o)} (hrun : (gate o).run ⟨w, []⟩ schedule = some c)
    {thread : Thread (gate o)} (hthread : thread ∈ c.threads) {src proto host : Text} {port : Int}
    (hcall : thread.call = .openConn src proto host port) :
    ∃ q, (openConn o src proto host port).Reaches thread.trace q ∧
      ∀ opened, thread.rest = .ret (.opened opened) → q = .ret opened := by
  have hpath := System.run_faithful hrun thread hthread
  rw [hcall] at hpath
  obtain ⟨q, hq, hrest⟩ := reaches_map hpath
  refine ⟨q, hq, fun opened hopened => ?_⟩
  obtain ⟨value, rfl, hvalue⟩ := hrest _ hopened
  rw [Result.opened.inj hvalue]

/-- In every run, `openConn` sends no private address through the tunnel, and
nothing at all when all answers are private; a call that reports one route has
not dialed by the other. -/
theorem openConn_tunnels_public_only (o : Opener) (w : World)
    (schedule : List (Action (gate o))) (c : Config (gate o))
    (hrun : (gate o).run ⟨w, []⟩ schedule = some c) (thread : Thread (gate o))
    (hthread : thread ∈ c.threads) (src proto host : Text) (port : Int)
    (hcall : thread.call = .openConn src proto host port) :
    (∀ ip, DialedTunnel thread.trace ip →
      ∀ p ∈ privatePrefixes, p.contains (ip.unmap.withZone []) = false) ∧
    (∀ first second rest decision answer, thread.trace = first ++ second ++ rest →
      (o.rules.decide host).Returns first decision →
      (resolveFor o.rules.dns host decision.1).Returns second answer →
      (∀ a ∈ answer.res.addrs, isPrivate a = true) → ∀ ip, ¬ DialedTunnel thread.trace ip) ∧
    (∀ opened, thread.rest = .ret (.opened opened) →
      (opened.route = .direct → ∀ ip, ¬ DialedTunnel thread.trace ip) ∧
      (opened.route = .tunnel → ∀ ip, ¬ DialedDirect thread.trace ip)) := by
  obtain ⟨q, hpath, hresult⟩ := openConn_thread hrun hthread hcall
  refine ⟨?_, ?_, ?_⟩
  · intro ip hdialed p hp
    obtain ⟨_, _, _, _, _, hfound, haddrs, _, hroute, hip⟩ := openConn_dialedTunnel hpath hdialed
    obtain ⟨_, _, _, _, _, _, _, rfl⟩ := candidates_returns.mp hfound
    have hpublic := (candidatesOf_public hroute haddrs hip).2
    simp only [isPrivate, List.any_eq_false] at hpublic
    simpa [plain] using hpublic p hp
  · intro first second rest decision answer htrace hdecision hanswer hprivate ip hdialed
    obtain ⟨_, found, _, _, htrace', hfound, haddrs, _, hroute, hip⟩ :=
      openConn_dialedTunnel hpath hdialed
    have hown := candidates_returns.mpr
      ⟨first, second, decision, answer, rfl, hdecision, hanswer, rfl⟩
    obtain ⟨_, rfl⟩ := hown.unique hfound (htrace.symm.trans htrace')
    obtain ⟨hmem, hpublic⟩ := candidatesOf_public hroute haddrs hip
    rw [hprivate ip hmem] at hpublic
    cases hpublic
  · intro opened hopened
    obtain rfl := hresult opened hopened
    refine ⟨?_, ?_⟩
    · intro hdirect ip hdialed
      obtain ⟨_, _, _, _, _, _, _, hdials, hroute, _⟩ := openConn_dialedTunnel hpath hdialed
      rw [dialAll_route hdials, hroute] at hdirect
      cases hdirect
    · intro htunnel ip hdialed
      obtain ⟨_, _, _, _, _, _, _, hdials, hroute⟩ := openConn_dialedDirect hpath hdialed
      rw [dialAll_route hdials, hroute] at htunnel
      cases htunnel

/-- A name with a private and a public address: the public one is dialed. -/
def mixedEvents : List (Event sig) :=
  let req : Request := ⟨.tunnel, str "a.b"⟩
  let addrs : List Addr := [.v4 0x0a000001, .v4 0x08080808]
  sampleAttempt req [.opened] (.ok [⟨[10, 0, 0, 1], []⟩, ⟨[8, 8, 8, 8], []⟩]) ++
    [⟨.answered 0 0, ()⟩, ⟨.releaseProbes [0], ()⟩, ⟨.now, 0⟩,
      ⟨.store req { addrs, expires := dnsCacheTTL }, []⟩,
      ⟨.sfEnd req 0 ⟨{ addrs, authoritative := true }, none⟩, ()⟩,
      ⟨.dialTunnel ⟨str "http", str "client", str "a.b"⟩ (.v4 0x08080808) 443, .ok 1⟩]

def mixedAnswer : List (Action (gate (sampleOpener false))) :=
  (gate (sampleOpener false)).alone [.tunnel true]
    (.openConn (str "client") (str "http") (str "a.b") 443) mixedEvents

theorem openConn_tunnels_public_only_mixedAnswer :
    ∃ c thread, (gate (sampleOpener false)).run ⟨{}, []⟩ mixedAnswer = some c ∧
      thread ∈ c.threads ∧ DialedTunnel thread.trace (.v4 0x08080808) ∧
      ∀ ip, DialedTunnel thread.trace ip →
        ∀ p ∈ privatePrefixes, p.contains (ip.unmap.withZone []) = false := by
  obtain ⟨c, hrun⟩ : ∃ c, (gate (sampleOpener false)).run ⟨{}, []⟩ mixedAnswer = some c :=
    Option.isSome_iff_exists.mp (by decide +kernel)
  obtain ⟨rest, hthreads⟩ := System.run_alone hrun
  have hthread := hthreads ▸ List.mem_singleton_self _
  refine ⟨c, _, hrun, hthread, ⟨_, _, _, List.mem_of_getLast? rfl⟩, ?_⟩
  exact (openConn_tunnels_public_only _ _ _ c hrun _ hthread _ _ _ _ rfl).1

end SshGate
