import SshGate.Dns.Paths

/-! # Attempts on a tunnel resolver

An attempt is the part of a trace between two clock readings. Its events tell
which resolver was asked, whether it was reached and with what result.
-/

namespace SshGate

open Go Interaction Program

/-- The attempt got through to resolver `u`: the dial hook opened a channel to
the DNS server, or the HTTP client got a connection to the DoH endpoint. -/
def Contacted (c : DnsCache) (u : Nat) (attempt : List (Event sig)) : Prop :=
  match c.tunnel[u]? with
  | some (.doh _) => ∃ host q outcome,
      (⟨.dohReply u host q, ⟨true, outcome⟩⟩ : Event sig) ∈ attempt
  | _ => (⟨.dialServer u, .opened⟩ : Event sig) ∈ attempt

section Contact

variable {u : Nat} {share : Int} {host : Text} {trace : List (Event sig)}

theorem dialHook_returns {dials : Nat} {opened : Bool}
    (hpath : (dialHook u dials).Returns trace opened) :
    opened = true ↔ (⟨.dialServer u, .opened⟩ : Event sig) ∈ trace := by
  induction dials generalizing trace opened with
  | zero =>
      obtain ⟨rfl, rfl⟩ := returns_ret.mp hpath
      simp
  | succ n ih =>
      obtain ⟨reply, rest, rfl, hrest⟩ := returns_perform.mp hpath
      obtain ⟨first, later, second, rfl, hfirst, hsecond⟩ := returns_bind.mp hrest
      obtain ⟨rfl, rfl⟩ := returns_ret.mp hsecond
      simp only [Bool.or_eq_true, beq_iff_eq, ih hfirst, List.append_nil, List.mem_cons,
        Event.mk.injEq, heq_eq_eq, true_and]
      rw [eq_comm]

/-- One query: the resolver is asked, the hook dials, and the reply comes. -/
theorem query_returns {name : Text} {op : Op} {α : Type} {f : Bool → op.Reply → α} {result : α}
    (hpath : (act (.ask u name share) >>= fun dials => dialHook u dials >>= fun opened =>
      act op >>= fun reply => pure (f opened reply)).Returns trace result) :
    ∃ dials hook opened reply, trace = ⟨.ask u name share, dials⟩ :: hook ++ [⟨op, reply⟩] ∧
      (dialHook u dials).Returns hook opened ∧ result = f opened reply := by
  obtain ⟨dials, rest, rfl, hrest⟩ := returns_perform.mp hpath
  obtain ⟨hook, opened, last, rfl, hhook, hlast⟩ := returns_bind.mp hrest
  obtain ⟨reply, done, rfl, hdone⟩ := returns_perform.mp hlast
  obtain ⟨rfl, rfl⟩ := returns_ret.mp hdone
  exact ⟨dials, hook, opened, reply, rfl, hhook, rfl⟩

/-- A DNS server is called unreachable only if no channel was opened. -/
theorem classifyServer_isUnreachable {opened : Bool}
    {reply : Except ResolverError (List IPAddr)} {err : Err}
    (hresult : classifyServer opened reply = .error err) (herr : err.isUnreachable = true) :
    opened = false := by
  cases reply with
  | ok addrs => cases hresult
  | error cause =>
      cases cause with
      | other message =>
          cases hresult
          cases herr
      | dns isNotFound message =>
          cases isNotFound with
          | true =>
              cases hresult
              cases herr
          | false =>
              cases opened with
              | false => rfl
              | true =>
                  cases hresult
                  cases herr

theorem classifyDoh_not_isUnreachable {q : DohQuery} {outcome : DohOutcome} {err : Err}
    (hresult : classifyDoh q outcome = .error err) : err.isUnreachable = false := by
  unfold classifyDoh at hresult
  split at hresult
  next => cases hresult; rfl
  next =>
    split at hresult
    next => cases hresult; rfl
    next =>
      split at hresult
      next => cases hresult; rfl
      next => cases hresult

/-- The endpoint is called unreachable only if no query so far got a
connection. -/
theorem dohQueries_isUnreachable {queries : List DohQuery} {connected : Bool} {out : List Addr}
    {err : Err} (hpath : (dohQueries u share host queries connected out).Returns trace (.error err))
    (herr : err.isUnreachable = true) :
    connected = false ∧
      ∀ host q outcome, (⟨.dohReply u host q, ⟨true, outcome⟩⟩ : Event sig) ∉ trace := by
  induction queries generalizing trace connected out with
  | nil =>
      obtain ⟨rfl, hresult⟩ := returns_ret.mp hpath
      split at hresult
      next =>
        cases hresult
        cases herr
      next => cases hresult
  | cons q rest ih =>
      obtain ⟨first, result, second, rfl, hfirst, hsecond⟩ := returns_bind.mp hpath
      obtain ⟨dials, hook, opened, ⟨gotConn, outcome⟩, rfl, hhook, rfl⟩ := query_returns hfirst
      -- The hook's events are no replies, so the query's own reply decides.
      have hquery : gotConn = false → ∀ host' q' outcome',
          (⟨.dohReply u host' q', ⟨true, outcome'⟩⟩ : Event sig) ∉
            (⟨.ask u host share, dials⟩ :: hook ++
              [⟨.dohReply u host q, ⟨gotConn, outcome⟩⟩] : List (Event sig)) := by
        rintro rfl host' q' outcome' hmem
        simp only [List.cons_append, List.mem_cons, List.mem_append, List.not_mem_nil,
          or_false] at hmem
        rcases hmem with hask | hdial | hreply
        · cases hask
        · cases (dialHook_confined u dials).of_mem hhook hdial
        · cases hreply
      cases hdoh : classifyDoh q outcome with
      | error cause =>
          simp only [hdoh] at hsecond
          split at hsecond
          next hcond =>
            obtain ⟨rfl, _⟩ := returns_ret.mp hsecond
            simp only [Bool.and_eq_true, Bool.not_eq_true', Bool.or_eq_false_iff] at hcond
            rw [List.append_nil]
            exact ⟨hcond.1.1, hquery hcond.1.2⟩
          next =>
            obtain ⟨rfl, hresult⟩ := returns_ret.mp hsecond
            cases hresult
            rw [classifyDoh_not_isUnreachable hdoh] at herr
            cases herr
      | ok addrs =>
          simp only [hdoh] at hsecond
          obtain ⟨hconnected, hrest⟩ := ih hsecond
          rw [Bool.or_eq_false_iff] at hconnected
          refine ⟨hconnected.1, fun host' q' outcome' hmem => ?_⟩
          rcases List.mem_append.mp hmem with hthis | hlater
          · exact hquery hconnected.2 host' q' outcome' hthis
          · exact hrest host' q' outcome' hlater

/-- An attempt that got through to its resolver does not call it unreachable. -/
theorem Contacted.not_isUnreachable {c : DnsCache} {err : Err} (hcontact : Contacted c u trace)
    (hpath : (upstreamLookup c u share host).Returns trace (.error err)) :
    err.isUnreachable = false := by
  by_contra hset
  rw [Bool.not_eq_false] at hset
  unfold Contacted at hcontact
  unfold upstreamLookup at hpath
  split at hpath
  next endpoint hendpoint =>
    simp only [hendpoint] at hcontact
    obtain ⟨host', q, outcome, hmem⟩ := hcontact
    exact (dohQueries_isUnreachable hpath hset).2 host' q outcome hmem
  next hendpoint =>
    obtain ⟨dials, hook, opened, reply, rfl, hhook, hresult⟩ := query_returns hpath
    have hopened := classifyServer_isUnreachable hresult.symm hset
    have hmem : (⟨.dialServer u, .opened⟩ : Event sig) ∈ hook := by
      split at hcontact
      next host' hdoh => exact absurd hdoh (hendpoint host')
      next => simpa using hcontact
    rw [(dialHook_returns hhook).mpr hmem] at hopened
    cases hopened

end Contact

/-! ## Where an attempt starts and ends -/

def Op.isReply : Op → Bool
  | .resolverReply _ _ | .dohReply _ _ _ => true
  | _ => false

/-- The name that resolver `u` is asked for. -/
def askedName (c : DnsCache) (u : Nat) (host : Text) : Text :=
  match c.tunnel[u]? with
  | some (.doh _) => host
  | _ => host ++ str "."

theorem askedName_inj {c : DnsCache} {u : Nat} {host host' : Text}
    (heq : askedName c u host = askedName c u host') : host = host' := by
  unfold askedName at heq
  split at heq
  next => exact heq
  next => exact List.append_cancel_right heq

section Ends

variable {c : DnsCache} {u : Nat} {share : Int} {host : Text} {trace : List (Event sig)}
  {result : Except Err (List Addr)}

theorem dohQueries_ends {q : DohQuery} {queries : List DohQuery} {connected : Bool}
    {out : List Addr}
    (hpath : (dohQueries u share host (q :: queries) connected out).Returns trace result) :
    ∃ first event, trace = first ++ [event] ∧ event.op.isReply = true := by
  induction queries generalizing q trace connected out with
  | nil =>
      obtain ⟨first, answer, second, rfl, hfirst, hsecond⟩ := returns_bind.mp hpath
      obtain ⟨dials, hook, opened, reply, rfl, _, rfl⟩ := query_returns hfirst
      have hdone : second = [] := by
        dsimp only at hsecond
        split at hsecond
        next => split at hsecond <;> exact (returns_ret.mp hsecond).1
        next => exact (returns_ret.mp hsecond).1
      exact ⟨_, ⟨.dohReply u host q, reply⟩, by rw [hdone, List.append_nil], rfl⟩
  | cons q' rest ih =>
      obtain ⟨first, answer, second, rfl, hfirst, hsecond⟩ := returns_bind.mp hpath
      obtain ⟨dials, hook, opened, reply, rfl, _, rfl⟩ := query_returns hfirst
      dsimp only at hsecond
      split at hsecond
      next =>
        have hdone : second = [] := by
          split at hsecond <;> exact (returns_ret.mp hsecond).1
        exact ⟨_, ⟨.dohReply u host q, reply⟩, by rw [hdone, List.append_nil], rfl⟩
      next =>
        obtain ⟨more, event, rfl, hevent⟩ := ih hsecond
        exact ⟨_, event, (List.append_assoc _ _ _).symm, hevent⟩

theorem upstreamLookup_ends (hpath : (upstreamLookup c u share host).Returns trace result) :
    ∃ first event, trace = first ++ [event] ∧ event.op.isReply = true := by
  unfold upstreamLookup at hpath
  split at hpath
  next => exact dohQueries_ends hpath
  next =>
    obtain ⟨dials, hook, opened, reply, rfl, _, _⟩ := query_returns hpath
    exact ⟨_, ⟨.resolverReply u (host ++ str "."), reply⟩, rfl, rfl⟩

theorem upstreamLookup_asks (hpath : (upstreamLookup c u share host).Returns trace result) :
    ∃ dials rest, trace = ⟨.ask u (askedName c u host) share, dials⟩ :: rest := by
  unfold upstreamLookup at hpath
  split at hpath
  next endpoint hendpoint =>
    have hname : askedName c u host = host := by simp [askedName, hendpoint]
    obtain ⟨first, answer, second, rfl, hfirst, _⟩ := returns_bind.mp hpath
    obtain ⟨dials, hook, opened, reply, rfl, _, _⟩ := query_returns hfirst
    rw [hname]
    exact ⟨dials, _, rfl⟩
  next hendpoint =>
    have hname : askedName c u host = host ++ str "." := by
      unfold askedName
      split
      next host' hdoh => exact absurd hdoh (hendpoint host')
      next => rfl
    obtain ⟨dials, hook, opened, reply, rfl, _, _⟩ := query_returns hpath
    rw [hname]
    exact ⟨dials, _, rfl⟩

end Ends

/-- What follows the last element with a property is determined by the list. -/
theorem append_cons_inj {α : Type} {p : α → Prop} {first first' last last' : List α} {x x' : α}
    (hx : p x) (hx' : p x') (hlast : ∀ y ∈ last, ¬ p y) (hlast' : ∀ y ∈ last', ¬ p y)
    (heq : first ++ x :: last = first' ++ x' :: last') : last = last' := by
  induction first generalizing first' with
  | nil =>
      cases first' with
      | nil => exact (List.cons.inj heq).2
      | cons y rest =>
          have hmem : x' ∈ last := by
            rw [(List.cons.inj heq).2]
            simp
          exact absurd hx' (hlast x' hmem)
  | cons y rest ih =>
      cases first' with
      | nil =>
          have hmem : x ∈ last' := by
            rw [← (List.cons.inj heq).2]
            simp
          exact absurd hx (hlast' x hmem)
      | cons y' rest' => exact ih (List.cons.inj heq).2

/-- A trace tells which attempt was the last one. -/
theorem Tried.unique {c : DnsCache} {host host' : Text} {trace attempt attempt' : List (Event sig)}
    {u u' : Nat} {result result' : Except Err (List Addr)}
    (htried : Tried c host trace u attempt result)
    (htried' : Tried c host' trace u' attempt' result') : u = u' ∧ result = result' := by
  obtain ⟨before, start, share, stop, htrace, hpath⟩ := htried
  obtain ⟨before', start', share', stop', htrace', hpath'⟩ := htried'
  have hfree : ∀ {u share host attempt result}, (upstreamLookup c u share host).Returns attempt
      result → ∀ event ∈ attempt, ¬ event.op = .now := by
    intro u share host attempt result hpath event hmem hnow
    have hop := (upstreamLookup_inAttempt c u share host).of_mem hpath hmem
    rw [hnow] at hop
    cases hop
  have heq := (List.append_inj' (htrace.symm.trans htrace') rfl).1
  obtain rfl : attempt = attempt' := append_cons_inj (p := fun event : Event sig => event.op = .now)
    rfl rfl (hfree hpath) (hfree hpath') heq
  -- The first event of the attempt names the resolver, the share and the name.
  obtain ⟨dials, rest, hasks⟩ := upstreamLookup_asks hpath
  obtain ⟨dials', rest', hasks'⟩ := upstreamLookup_asks hpath'
  have hask := (List.cons.inj (hasks.symm.trans hasks')).1
  have hop : Op.ask u (askedName c u host) share = .ask u' (askedName c u' host') share' :=
    congrArg Event.op hask
  simp only [Op.ask.injEq] at hop
  obtain ⟨rfl, hname, rfl⟩ := hop
  obtain rfl := askedName_inj hname
  have hsame : attempt ++ [] = attempt ++ [] := rfl
  exact ⟨rfl, (Returns.unique hpath hpath' hsame).2⟩

end SshGate
