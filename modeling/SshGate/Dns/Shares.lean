import Mathlib.Tactic.Linarith
import SshGate.Dns.Calls
import SshGate.Interaction.Process
import SshGate.Steps

/-! # The time shares of a flight

A flight has five seconds, three of them for the tunnel resolvers: each in its
turn is given an equal share of what is left of those, in whole nanoseconds.
As long as every resolver keeps to its share, none is given less than its part
of the three seconds, and two seconds are left for the local resolver. Time
that passes outside the lookups of the resolvers is counted apart.
-/

namespace SshGate

open Go Interaction Program System

/-! ## Sharing what is left -/

section Sharing

variable {part budget used idle m : Nat} {remaining : Int}

/-- An equal share of what is left covers the part that is due, up to the time
that was lost. -/
theorem le_tdiv_add (hdue : (((m + 1) * part : Nat) : Int) ≤ remaining + idle) :
    (part : Int) ≤ remaining.tdiv ((m + 1 : Nat) : Int) + idle := by
  have hidle : (idle : Int) ≤ (m + 1 : Nat) * idle := by
    exact_mod_cast Nat.le_mul_of_pos_left idle (Nat.succ_pos m)
  have hpart : (part : Int) ≤ (m + 1 : Nat) * part := by
    exact_mod_cast Nat.le_mul_of_pos_left part (Nat.succ_pos m)
  push_cast at hdue hidle hpart ⊢
  rcases Int.le_total 0 remaining with hpos | hneg
  · rw [Int.tdiv_eq_ediv_of_nonneg hpos]
    have hle : (part : Int) - idle ≤ remaining / ((m : Int) + 1) := by
      apply Int.le_ediv_of_mul_le (by omega)
      linarith [Int.sub_mul (part : Int) idle (m + 1), Int.mul_comm (part : Int) (m + 1),
        Int.mul_comm (idle : Int) (m + 1)]
    omega
  · -- What is left is negative: the quotient is cut towards zero.
    have hle : remaining ≤ remaining.tdiv ((m : Int) + 1) := by
      obtain ⟨lost, rfl⟩ : ∃ lost : Nat, remaining = -lost := ⟨remaining.natAbs, by omega⟩
      rw [Int.neg_tdiv, Int.neg_le_neg_iff]
      exact Int.ofNat_le.mpr (Nat.div_le_self lost (m + 1))
    linarith

/-- Who uses no more than such a share leaves the others their parts. -/
theorem add_le_of_le_tdiv (hused : used ≤ (remaining.tdiv ((m + 1 : Nat) : Int)).toNat)
    (hremaining : remaining ≤ budget) (hdue : (m + 1) * part ≤ budget) :
    m * part + used ≤ budget := by
  have hshare : used ≤ budget / (m + 1) := by
    refine Nat.le_trans hused (Int.toNat_le.mpr ?_)
    calc remaining.tdiv ((m + 1 : Nat) : Int)
        ≤ (budget : Int).tdiv ((m + 1 : Nat) : Int) := by
          apply Int.tdiv_le_tdiv (by omega) hremaining
      _ = ((budget / (m + 1) : Nat) : Int) := rfl
  have hpart : part ≤ budget / (m + 1) := by
    rw [Nat.le_div_iff_mul_le (Nat.succ_pos m), Nat.mul_comm]
    exact hdue
  calc m * part + used
      ≤ m * (budget / (m + 1)) + budget / (m + 1) :=
        Nat.add_le_add (Nat.mul_le_mul_left m hpart) hshare
    _ = (m + 1) * (budget / (m + 1)) := (Nat.succ_mul _ _).symm
    _ ≤ budget := Nat.mul_div_le budget (m + 1)

end Sharing

/-! ## What the time of a flight goes to -/

/-- The clock during a flight, with what its time went to. -/
structure Timer where
  clock : Nat
  /-- The time that passed outside the lookups of the resolvers. -/
  idle : Nat := 0
  /-- The time that each tunnel resolver has used. -/
  used : Nat → Nat := fun _ => 0
  /-- The resolver at work, with the share it was given. -/
  turn : Option (Nat × Int) := none

namespace Timer

def usedBy (t : Timer) (us : List Nat) : Nat := (us.map t.used).sum

/-- Time passes; the resolver at work uses no more than its share. -/
def pass (t : Timer) (elapsed : Nat) : Option Timer :=
  match t.turn with
  | none => some { t with clock := t.clock + elapsed, idle := t.idle + elapsed }
  | some (u, share) =>
      if t.used u + elapsed ≤ share.toNat then
        some { t with clock := t.clock + elapsed
                      used := Function.update t.used u (t.used u + elapsed) }
      else none

/-- The turn of a resolver begins when it is asked and ends when the clock is
read for its round-trip time. -/
def perform : (op : Op) → Timer → op.Reply → Option Timer
  | .now, t, reading => if reading = t.clock then some { t with turn := none } else none
  | .ask u _ share, t, _ => some { t with turn := some (u, share) }
  | _, t, _ => some t

/-- The timer of the flight of thread `i` through a schedule; `none` if a
resolver does not keep to its share. -/
def follow {o : Opener} (i : Nat) : Timer → List (Action (gate o)) → Option Timer
  | t, [] => some t
  | t, .disturb (.tick elapsed) :: rest => (t.pass elapsed).bind fun t' => follow i t' rest
  | t, .run j event :: rest =>
      if j = i then (perform event.op t event.reply).bind fun t' => follow i t' rest
      else follow i t rest
  | t, _ :: rest => follow i t rest

/-- Some time passes. -/
def Passing : Timer → Timer → Prop :=
  Relation.ReflTransGen fun t t' => ∃ elapsed, t.pass elapsed = some t'

theorem pass_clock {t t' : Timer} {elapsed : Nat} (h : t.pass elapsed = some t') :
    t'.clock = t.clock + elapsed := by
  unfold pass at h
  split at h
  next =>
    cases h
    rfl
  next =>
    obtain ⟨-, rfl⟩ := by simpa using h
    rfl

theorem perform_clock' {t t' : Timer} {op : Op} {reply : op.Reply}
    (h : perform op t reply = some t') : t'.clock = t.clock := by
  cases op with
  | now =>
      obtain ⟨-, rfl⟩ := by simpa [perform] using h
      rfl
  | _ =>
      cases h
      rfl

/-- In a run the timer shows the clock, and the events pass through it. -/
theorem follow_passes {o : Opener} {i : Nat} {schedule : List (Action (gate o))}
    {c c' : Config (gate o)} {t t' : Timer} (hrun : (gate o).run c schedule = some c')
    (hfollow : follow i t schedule = some t') (hclock : t.clock = c.state.clock) :
    Passes perform Passing t (eventsOf i schedule) t' ∧ t'.clock = c'.state.clock := by
  induction schedule generalizing c t with
  | nil =>
      simp only [System.run, Option.some.injEq] at hrun
      simp only [follow, Option.some.injEq] at hfollow
      subst hrun hfollow
      exact ⟨.refl, hclock⟩
  | cons action rest ih =>
      simp only [System.run, Option.bind_eq_some_iff] at hrun
      obtain ⟨middle, hstep, hrun⟩ := hrun
      cases action with
      | spawn call =>
          simp only [System.step, Option.some.injEq] at hstep
          subst hstep
          exact ih hrun hfollow hclock
      | disturb disturbance =>
          simp only [System.step, Option.map_eq_some_iff] at hstep
          obtain ⟨state, hdisturb, rfl⟩ := hstep
          cases disturbance with
          | tick elapsed =>
              simp only [follow, Option.bind_eq_some_iff] at hfollow
              obtain ⟨later, hpass, hfollow⟩ := hfollow
              cases hdisturb
              have hlater : later.clock = c.state.clock + elapsed := by
                rw [← hclock]
                exact pass_clock hpass
              obtain ⟨hpasses, hend⟩ := ih hrun hfollow hlater
              refine ⟨hpasses.of_others fun t'' ht'' => ?_, hend⟩
              exact .head ⟨elapsed, hpass⟩ ht''
          | tunnel up =>
              cases hdisturb
              exact ih hrun hfollow hclock
          | purge =>
              cases hdisturb
              exact ih hrun hfollow hclock
      | run j event =>
          obtain ⟨thread, next, state, -, -, hperform, rfl⟩ := step_run_eq_some.mp hstep
          have hstate : state.clock = c.state.clock := perform_clock hperform
          by_cases hij : j = i
          · subst hij
            simp only [follow, if_true, Option.bind_eq_some_iff] at hfollow
            obtain ⟨later, hevent, hfollow⟩ := hfollow
            have hlater : later.clock = state.clock := by
              rw [hstate, ← hclock]
              exact perform_clock' hevent
            obtain ⟨hpasses, hend⟩ := ih hrun hfollow hlater
            rw [eventsOf_run]
            exact ⟨⟨t, later, .refl, hevent, hpasses⟩, hend⟩
          · simp only [follow, if_neg hij] at hfollow
            simp only [eventsOf, if_neg hij]
            exact ih hrun hfollow (hclock.trans hstate.symm)

theorem Passing.invariant {t t' : Timer} (inv : Timer → Prop)
    (hpass : ∀ t t' elapsed, inv t → t.pass elapsed = some t' → inv t') (hinv : inv t)
    (hpassing : Passing t t') : inv t' := by
  induction hpassing with
  | refl => exact hinv
  | tail _ hlast ih =>
      obtain ⟨elapsed, hlast⟩ := hlast
      exact hpass _ _ elapsed ih hlast

end Timer

/-! ## What a flight promises -/

/-- The resolvers that a flight may use: those it was granted. -/
def activeIn (trace : List (Event sig)) : List Nat :=
  trace.filterMap fun
    | ⟨.claim u _, grant⟩ => if grant.granted then some u else none
    | _ => none

def Op.claims : Op → Bool
  | .claim _ _ => true
  | _ => false

/-- The action neither asks nor claims a resolver. -/
def Op.Rests (op : Op) : Prop := op.inAttempt = false ∧ op.claims = false

/-- The share of resolver `u`, with what the resolvers before it have used. -/
structure FairShare (active : List Nat) (t : Timer) (u : Nat) (share : Int) : Prop where
  mem : u ∈ active
  divisor : 0 < active.length - active.idxOf u
  /-- It is an equal part of what is left, but for the time that was lost. -/
  equal : ∃ remaining : Int, share = remaining.tdiv ((active.length - active.idxOf u : Nat) : Int) ∧
    remaining ≤ tunnelLookupTimeout - t.usedBy (active.take (active.idxOf u)) ∧
    tunnelLookupTimeout - t.usedBy (active.take (active.idxOf u)) ≤ remaining + t.idle
  least : ((tunnelLookupTimeout / active.length : Nat) : Int) ≤ share + t.idle

/-- What holds when a flight is about to perform an action. -/
structure FairlyTimed (trace : List (Event sig)) (t : Timer) (op : Op) : Prop where
  share : ∀ u name share, op = .ask u name share → FairShare (activeIn trace) t u share
  total : t.usedBy (activeIn trace) ≤ tunnelLookupTimeout
  /-- The local resolver has time left of what the flight has had since its
  first clock reading. -/
  left : ∀ name, op = .localLookup name → ∃ start, trace.head? = some ⟨.now, start⟩ ∧
    t.clock + 2 * second ≤ start + lookupTimeout + t.idle

/-- How far a flight is: when it started and what it was granted. -/
structure Underway (start : Nat) (active : List Nat) (trace : List (Event sig)) : Prop where
  head : trace.head? = some ⟨.now, start⟩
  active : activeIn trace = active

section Underway

variable {start : Nat} {active : List Nat} {trace : List (Event sig)}

theorem Underway.append (h : Underway start active trace) {more : List (Event sig)}
    (hmore : activeIn more = []) : Underway start active (trace ++ more) := by
  refine ⟨?_, ?_⟩
  · rw [List.head?_append, h.head]
    rfl
  · rw [activeIn, List.filterMap_append]
    exact (congrArg₂ _ h.active hmore).trans (List.append_nil active)

theorem activeIn_of_confined {α : Type} {p q : Prog α}
    (hp : Confined (fun op : Op => op.claims = false) p) (hpath : p.Reaches trace q) :
    activeIn trace = [] := by
  apply hp.filterMap_eq_nil hpath
  rintro ⟨op, reply⟩ hop
  cases op with
  | claim u now => cases hop
  | _ => rfl

theorem activeIn_now (reading : Nat) : activeIn [⟨.now, reading⟩] = [] := rfl

end Underway

/-! ## The account between the turns and in a turn -/

section Account

variable {base idle u : Nat} {used : Nat → Nat} {share : Int} {t t' : Timer} {op : Op}

/-- No resolver is at work, so that only idle time passes. -/
structure Resting (base : Nat) (used : Nat → Nat) (idle : Nat) (t : Timer) : Prop where
  turn : t.turn = none
  used : t.used = used
  clock : t.clock = base + t.idle
  idle : idle ≤ t.idle

theorem Resting.passing (h : Resting base used idle t) (hpassing : t.Passing t') :
    Resting base used idle t' := by
  refine hpassing.invariant _ (fun t t' elapsed h hpass => ?_) h
  simp only [Timer.pass, h.turn, Option.some.injEq] at hpass
  subst hpass
  refine ⟨rfl, h.used, ?_, Nat.le_add_right_of_le h.idle⟩
  rw [h.clock, Nat.add_assoc]

theorem Resting.perform (h : Resting base used idle t) {reply : op.Reply}
    (hop : op.inAttempt = false) (hperform : Timer.perform op t reply = some t') :
    Resting base used idle t' := by
  cases op with
  | now =>
      simp only [Timer.perform, Option.ite_none_right_eq_some, Option.some.injEq] at hperform
      obtain ⟨-, rfl⟩ := hperform
      exact ⟨rfl, h.used, h.clock, h.idle⟩
  | ask v name given => cases hop
  | _ =>
      cases hperform
      exact h

/-- A clock reading tells the time that was lost until then. -/
theorem Resting.now (h : Resting base used idle t) {reading : Nat}
    (hperform : Timer.perform .now t reading = some t') :
    reading = base + t.idle ∧ idle ≤ t.idle ∧ Resting base used t.idle t' := by
  simp only [Timer.perform, Option.ite_none_right_eq_some, Option.some.injEq] at hperform
  obtain ⟨rfl, rfl⟩ := hperform
  exact ⟨h.clock, h.idle, rfl, h.used, h.clock, Nat.le_refl _⟩

/-- Resolver `u` may be at work; it keeps to its share. -/
structure Working (base : Nat) (used : Nat → Nat) (idle u : Nat) (share : Int) (t : Timer) :
    Prop where
  turn : t.turn = none ∨ t.turn = some (u, share)
  used : t.used = Function.update used u (t.used u)
  clock : t.clock = base + t.idle + t.used u
  within : t.used u ≤ share.toNat
  idle : idle ≤ t.idle

theorem Resting.working (h : Resting base used idle t) (hu : used u = 0) (share : Int) :
    Working base used idle u share t := by
  have hzero : t.used u = 0 := by rw [h.used, hu]
  refine ⟨.inl h.turn, ?_, by rw [hzero]; exact h.clock, hzero ▸ Nat.zero_le _, h.idle⟩
  rw [h.used, Function.update_eq_self]

theorem Working.passing (h : Working base used idle u share t) (hpassing : t.Passing t') :
    Working base used idle u share t' := by
  refine hpassing.invariant _ (fun t t' elapsed h hpass => ?_) h
  rcases h.turn with hturn | hturn
  · simp only [Timer.pass, hturn, Option.some.injEq] at hpass
    subst hpass
    refine ⟨.inl rfl, h.used, ?_, h.within, Nat.le_add_right_of_le h.idle⟩
    have hclock := h.clock
    dsimp only
    omega
  · simp only [Timer.pass, hturn, Option.ite_none_right_eq_some, Option.some.injEq] at hpass
    obtain ⟨hwithin, rfl⟩ := hpass
    refine ⟨.inr rfl, ?_, ?_, ?_, h.idle⟩
    · dsimp only
      rw [Function.update_self]
      have hused := congrArg (fun f => Function.update f u (t.used u + elapsed)) h.used
      exact hused.trans (Function.update_idem ..)
    · dsimp only
      rw [Function.update_self, h.clock, Nat.add_assoc]
    · dsimp only
      rwa [Function.update_self]

theorem Working.perform (h : Working base used idle u share t) {reply : op.Reply}
    (hop : op.InAttemptOf u share) (hperform : Timer.perform op t reply = some t') :
    Working base used idle u share t' := by
  cases op with
  | ask v name given =>
      obtain ⟨rfl, rfl⟩ := hop
      cases hperform
      exact ⟨.inr rfl, h.used, h.clock, h.within, h.idle⟩
  | dialServer _ | resolverReply _ _ | dohReply _ _ _ =>
      cases hperform
      exact h
  | _ => cases hop

/-- The reading after the lookup ends the turn. -/
theorem Working.now (h : Working base used idle u share t) {reading : Nat}
    (hperform : Timer.perform .now t reading = some t') :
    Resting (base + t.used u) (Function.update used u (t.used u)) idle t' := by
  simp only [Timer.perform, Option.ite_none_right_eq_some, Option.some.injEq] at hperform
  obtain ⟨-, rfl⟩ := hperform
  refine ⟨rfl, h.used, ?_, h.idle⟩
  have hclock := h.clock
  dsimp only
  omega

theorem sum_map_update {us : List Nat} (hu : u ∉ us) (used : Nat → Nat) (x : Nat) :
    (us.map (Function.update used u x)).sum = (us.map used).sum := by
  congr 1
  apply List.map_congr_left
  intro v hv
  exact Function.update_of_ne (ne_of_mem_of_not_mem hv hu) x used

theorem sum_map_eq_zero {us : List Nat} (hunused : ∀ v ∈ us, used v = 0) :
    (us.map used).sum = 0 := by
  rw [List.map_congr_left hunused]
  simp

end Account

/-! ## One turn -/

section Turn

variable {start base idle u : Nat} {active done rest : List Nat} {used : Nat → Nat}
  {remaining : Int} {history : List (Event sig)} {t : Timer} {op : Op}

/-- What is left for resolver `u` and those after it when its share is taken. -/
structure Offer (done : List Nat) (u : Nat) (rest : List Nat) (used : Nat → Nat) (idle : Nat)
    (remaining : Int) : Prop where
  nodup : (done ++ u :: rest).Nodup
  unused : ∀ v ∈ u :: rest, used v = 0
  due : (rest.length + 1) * (tunnelLookupTimeout / (done ++ u :: rest).length) +
    (done.map used).sum ≤ tunnelLookupTimeout
  high : remaining ≤ tunnelLookupTimeout - (done.map used).sum
  low : tunnelLookupTimeout - (done.map used).sum ≤ remaining + idle

theorem Offer.not_mem (h : Offer done u rest used idle remaining) : u ∉ done ∧ u ∉ rest := by
  have hnodup := List.nodup_append.mp h.nodup
  refine ⟨fun hdone => hnodup.2.2 u hdone u List.mem_cons_self rfl, ?_⟩
  exact (List.nodup_cons.mp hnodup.2.1).1

theorem Offer.idxOf (h : Offer done u rest used idle remaining) :
    (done ++ u :: rest).idxOf u = done.length := by
  rw [List.idxOf_append_of_notMem h.not_mem.1, List.idxOf_cons_self, Nat.add_zero]

/-- The others keep their parts whatever `u` uses of its share. -/
theorem Offer.spent (h : Offer done u rest used idle remaining) {x : Nat}
    (hx : x ≤ (remaining.tdiv ((rest.length + 1 : Nat) : Int)).toNat) :
    rest.length * (tunnelLookupTimeout / (done ++ u :: rest).length) +
      ((done.map used).sum + x) ≤ tunnelLookupTimeout := by
  have hsum : (done.map used).sum ≤ tunnelLookupTimeout := Nat.le_of_add_left_le h.due
  have hhigh : remaining ≤ (tunnelLookupTimeout - (done.map used).sum : Nat) := by
    have := h.high
    omega
  have hleft := add_le_of_le_tdiv hx hhigh (Nat.le_sub_of_add_le h.due)
  omega

theorem Offer.sum_update (h : Offer done u rest used idle remaining) (x : Nat) :
    ((done ++ u :: rest).map (Function.update used u x)).sum = (done.map used).sum + x := by
  have hrest : (rest.map used).sum = 0 :=
    sum_map_eq_zero fun v hv => h.unused v (List.mem_cons_of_mem _ hv)
  rw [List.map_append, List.sum_append, List.map_cons, List.sum_cons, Function.update_self,
    sum_map_update h.not_mem.1, sum_map_update h.not_mem.2, hrest, Nat.add_zero]

theorem Offer.sum_done (h : Offer done u rest used idle remaining) {x : Nat} :
    ((done ++ [u]).map (Function.update used u x)).sum = (done.map used).sum + x := by
  rw [List.map_append, List.sum_append, sum_map_update h.not_mem.1]
  simp

theorem Offer.unused_update (h : Offer done u rest used idle remaining) (x : Nat) :
    ∀ v ∈ rest, Function.update used u x v = 0 := by
  intro v hv
  rw [Function.update_of_ne (ne_of_mem_of_not_mem hv h.not_mem.2)]
  exact h.unused v (List.mem_cons_of_mem _ hv)

theorem Offer.fairShare (h : Offer done u rest used idle remaining)
    (hworking : Working base used idle u (remaining.tdiv ((rest.length + 1 : Nat) : Int)) t) :
    FairShare (done ++ u :: rest) t u (remaining.tdiv ((rest.length + 1 : Nat) : Int)) := by
  have hlength : (done ++ u :: rest).length - done.length = rest.length + 1 := by simp
  have hused : t.usedBy done = (done.map used).sum := by
    rw [Timer.usedBy, hworking.used, sum_map_update h.not_mem.1]
  have hidle := hworking.idle
  have hlow := h.low
  refine ⟨List.mem_append_right _ List.mem_cons_self, ?_, ⟨remaining, ?_, ?_, ?_⟩, ?_⟩
  · rw [h.idxOf, hlength]
    exact Nat.succ_pos _
  · rw [h.idxOf, hlength]
  · rw [h.idxOf, List.take_left, hused]
    exact h.high
  · rw [h.idxOf, List.take_left, hused]
    omega
  · apply le_tdiv_add
    have hdue := h.due
    omega

/-- Every action of the lookup of `u`, and the clock reading after it. -/
theorem Offer.fairlyTimed (h : Offer done u rest used idle remaining)
    (hunderway : Underway start (done ++ u :: rest) history)
    (hworking : Working base used idle u (remaining.tdiv ((rest.length + 1 : Nat) : Int)) t)
    (hop : op = .now ∨ op.InAttemptOf u (remaining.tdiv ((rest.length + 1 : Nat) : Int))) :
    FairlyTimed history t op where
  share := by
    rintro v name share rfl
    obtain ⟨rfl, rfl⟩ := hop.resolve_left (by simp)
    rw [hunderway.active]
    exact h.fairShare hworking
  total := by
    rw [Timer.usedBy, hunderway.active, hworking.used, h.sum_update]
    exact Nat.le_of_add_left_le (h.spent hworking.within)
  left := by
    rintro name rfl
    rcases hop with hnow | hattempt
    · cases hnow
    · cases hattempt

/-- An action while no resolver is at work. -/
theorem Resting.fairlyTimed (h : Resting base used idle t)
    (hunderway : Underway start active history)
    (hsum : (active.map used).sum ≤ tunnelLookupTimeout)
    (hbase : base ≤ start + tunnelLookupTimeout) (hop : op.inAttempt = false) :
    FairlyTimed history t op where
  share := by
    rintro v name share rfl
    cases hop
  total := by
    rw [Timer.usedBy, hunderway.active, h.used]
    exact hsum
  left := by
    intro name _
    refine ⟨start, hunderway.head, ?_⟩
    rw [h.clock]
    simp only [tunnelLookupTimeout, lookupTimeout] at hbase ⊢
    omega

/-- A part of the flight that asks and claims no resolver. -/
theorem Resting.alwaysIn {α : Type} {p : Prog α} (h : Resting base used idle t)
    (hunderway : Underway start active history)
    (hsum : (active.map used).sum ≤ tunnelLookupTimeout)
    (hbase : base ≤ start + tunnelLookupTimeout) (hp : Confined Op.Rests p) :
    AlwaysIn Timer.perform Timer.Passing FairlyTimed
      (fun history' t' _ => Underway start active history' ∧ Resting base used idle t')
      history t p := by
  have hclaims : Confined (fun op : Op => op.claims = false) p := hp.imp fun _ => And.right
  refine hp.alwaysIn_inv h (fun _ _ => Resting.passing)
    (fun op t reply t' hop h => h.perform hop.1) ?_ ?_
  · intro trace op next t' hpath hop h'
    exact h'.fairlyTimed (hunderway.append (activeIn_of_confined hclaims hpath)) hsum hbase hop.1
  · intro trace value t' hpath h'
    exact ⟨hunderway.append (activeIn_of_confined hclaims hpath), h'⟩

/-- The lookup of resolver `u`. -/
theorem upstreamLookup_alwaysIn (c : DnsCache) (host : Text)
    (hoffer : Offer done u rest used idle remaining)
    (hunderway : Underway start (done ++ u :: rest) history) (h : Resting base used idle t) :
    AlwaysIn Timer.perform Timer.Passing FairlyTimed
      (fun history' t' _ => Underway start (done ++ u :: rest) history' ∧
        Working base used idle u (remaining.tdiv ((rest.length + 1 : Nat) : Int)) t')
      history t (upstreamLookup c u (remaining.tdiv ((rest.length + 1 : Nat) : Int)) host) := by
  have hclaims : Confined (fun op : Op => op.claims = false)
      (upstreamLookup c u (remaining.tdiv ((rest.length + 1 : Nat) : Int)) host) := by
    apply (upstreamLookup_inAttempt c u _ host).imp
    intro op hop
    cases op <;> first | rfl | cases hop
  refine (upstreamLookup_inAttemptOf c u _ host).alwaysIn_inv
    (h.working (hoffer.unused u List.mem_cons_self) _) (fun _ _ => Working.passing)
    (fun op t reply t' hop h => h.perform hop) ?_ ?_
  · intro trace op next t' hpath hop h'
    exact hoffer.fairlyTimed (hunderway.append (activeIn_of_confined hclaims hpath)) h' (.inr hop)
  · intro trace value t' hpath h'
    exact ⟨hunderway.append (activeIn_of_confined hclaims hpath), h'⟩

end Turn

/-! ## The flight -/

section Flight

variable {start begun idle : Nat} {active done us : List Nat} {used : Nat → Nat}
  {history : List (Event sig)} {t : Timer}

/-- The resolvers are done for this flight and have kept to their time. -/
def Finished (start : Nat) (active : List Nat) (t : Timer) : Prop :=
  ∃ base used idle, Resting base used idle t ∧
    (active.map used).sum ≤ tunnelLookupTimeout ∧ base ≤ start + tunnelLookupTimeout

theorem Finished.alwaysIn {α : Type} {p : Prog α} (h : Finished start active t)
    (hunderway : Underway start active history)
    (hp : Confined Op.Rests p) :
    AlwaysIn Timer.perform Timer.Passing FairlyTimed
      (fun history' t' _ => Underway start active history' ∧ Finished start active t')
      history t p := by
  obtain ⟨base, used, idle, hrest, hsum, hbase⟩ := h
  apply (hrest.alwaysIn hunderway hsum hbase hp).imp
  rintro history' t' value ⟨hunderway', hrest'⟩
  exact ⟨hunderway', base, used, idle, hrest', hsum, hbase⟩

theorem notFound_rests (c : DnsCache) (host : Text) : Confined Op.Rests (notFound c host) := by
  apply (notFound_confined c host).imp
  rintro op rfl
  exact ⟨rfl, rfl⟩

theorem upstreamFailed_rests (u : Nat) (err : Err) :
    Confined Op.Rests (upstreamFailed u err) := by
  apply (upstreamFailed_confined u err).imp
  rintro op (rfl | rfl)
  · exact ⟨rfl, rfl⟩
  · exact ⟨rfl, rfl⟩

theorem orFallback_rests (c : DnsCache) (host : Text) (walked : Option Answer) :
    Confined Op.Rests (orFallback c host walked) := by
  apply (orFallback_inFallback c host walked).imp
  intro op hop
  cases op <;> first | exact ⟨rfl, rfl⟩ | cases hop

theorem settle_rests (c : DnsCache) (req : Request) (answer : Answer) :
    Confined Op.Rests (settle c req answer) := by
  apply (settle_confined c req answer).imp
  rintro op (rfl | ⟨entry, rfl⟩)
  · exact ⟨rfl, rfl⟩
  · exact ⟨rfl, rfl⟩

theorem walk_alwaysIn (c : DnsCache) (host : Text) {deadline : Nat} (hnodup : (done ++ us).Nodup)
    (hunderway : Underway start (done ++ us) history)
    (hrest : Resting (begun + (done.map used).sum) used idle t) (hunused : ∀ u ∈ us, used u = 0)
    (hdue : us.length * (tunnelLookupTimeout / (done ++ us).length) + (done.map used).sum ≤
      tunnelLookupTimeout)
    (hbegun : begun ≤ start) (hlow : begun + tunnelLookupTimeout ≤ deadline)
    (hhigh : deadline ≤ begun + idle + tunnelLookupTimeout) :
    AlwaysIn Timer.perform Timer.Passing FairlyTimed
      (fun history' t' _ => Underway start (done ++ us) history' ∧ Finished start (done ++ us) t')
      history t (walk c deadline host us) := by
  have hsum : ((done ++ us).map used).sum ≤ tunnelLookupTimeout := by
    rw [List.map_append, List.sum_append, sum_map_eq_zero hunused, Nat.add_zero]
    exact Nat.le_of_add_left_le hdue
  have hbase : begun + (done.map used).sum ≤ start + tunnelLookupTimeout :=
    Nat.add_le_add hbegun (Nat.le_of_add_left_le hdue)
  induction us generalizing done used idle history t with
  | nil => exact ⟨hunderway, _, used, idle, hrest, hsum, hbase⟩
  | cons u rest ih =>
      refine AlwaysIn.perform fun t₁ hpass₁ => ⟨?_, fun reading t₂ hread => ?_⟩
      · exact (hrest.passing hpass₁).fairlyTimed hunderway hsum hbase rfl
      obtain ⟨hreading, hidle, hrest₂⟩ := (hrest.passing hpass₁).now hread
      have hunderway₂ := hunderway.append (activeIn_now reading)
      refine AlwaysIn.perform fun t₃ hpass₃ => ⟨?_, fun begin t₄ hread' => ?_⟩
      · exact (hrest₂.passing hpass₃).fairlyTimed hunderway₂ hsum hbase rfl
      have hrest₄ := (hrest₂.passing hpass₃).perform rfl hread'
      have hunderway₄ := hunderway₂.append (activeIn_now begin)
      have hoffer : Offer done u rest used t₁.idle ((deadline : Int) - reading) :=
        ⟨hnodup, hunused, hdue, by omega, by omega⟩
      refine AlwaysIn.bind (upstreamLookup_alwaysIn c host hoffer hunderway₄ hrest₄) ?_
      rintro history₅ t₅ result ⟨hunderway₅, hworking₅⟩
      refine AlwaysIn.perform fun t₆ hpass₆ => ⟨?_, fun stop t₇ hstop => ?_⟩
      · exact hoffer.fairlyTimed hunderway₅ (hworking₅.passing hpass₆) (.inl rfl)
      -- The turn is over: what `u` has used is in the account of the rest.
      have hworking₆ := hworking₅.passing hpass₆
      have hrest₇ := hworking₆.now hstop
      have hunderway₇ := hunderway₅.append (activeIn_now stop)
      have hspent := hoffer.spent hworking₆.within
      have hsum₇ := (hoffer.sum_update (t₆.used u)).le.trans (Nat.le_of_add_left_le hspent)
      have hfinished : Finished start (done ++ u :: rest) t₇ :=
        ⟨_, _, _, hrest₇, hsum₇, by omega⟩
      cases result with
      | ok addrs =>
          exact hfinished.alwaysIn hunderway₇ (.perform ⟨rfl, rfl⟩ fun _ => trivial)
      | error err =>
          dsimp only
          split
          next =>
            apply hfinished.alwaysIn hunderway₇
            exact .perform ⟨rfl, rfl⟩ fun _ => (notFound_rests c host).bind fun answer => trivial
          next =>
            have hbase₇ : begun + (done.map used).sum + t₆.used u ≤
                start + tunnelLookupTimeout := by omega
            refine AlwaysIn.bind
              (hrest₇.alwaysIn hunderway₇ hsum₇ hbase₇ (upstreamFailed_rests u err)) ?_
            rintro history₈ t₈ _ ⟨hunderway₈, hrest₈⟩
            -- From here on `u` is one of the resolvers that are done.
            rw [Nat.add_assoc, ← hoffer.sum_done] at hrest₈ hbase₇
            rw [← hoffer.sum_done] at hspent
            rw [List.append_cons] at hnodup hunderway₈ hspent hsum₇ ⊢
            exact ih hnodup hunderway₈ hrest₈ (hoffer.unused_update _) hspent (by omega) hsum₇
              hbase₇

theorem Underway.claim {u now : Nat} {grant : Grant} (h : Underway start active history) :
    Underway start (active ++ if grant.granted then [u] else [])
      (history ++ [⟨.claim u now, grant⟩]) := by
  refine ⟨?_, ?_⟩
  · rw [List.head?_append, h.head]
    rfl
  · have hactive := h.active
    unfold activeIn at hactive ⊢
    rw [List.filterMap_append, hactive]
    cases grant <;> rfl

/-- The claims, before any resolver has been asked. -/
theorem claimAll_alwaysIn {base now : Nat} (hunderway : Underway start active history)
    (hrest : Resting base (fun _ => 0) idle t) (hbase : base ≤ start + tunnelLookupTimeout) :
    AlwaysIn Timer.perform Timer.Passing FairlyTimed
      (fun history' t' granted => granted.Sublist us ∧ Underway start (active ++ granted) history' ∧
        Resting base (fun _ => 0) idle t') history t (claimAll now us) := by
  induction us generalizing active history t with
  | nil => exact ⟨.slnil, (List.append_nil active).symm ▸ hunderway, hrest⟩
  | cons u rest ih =>
      have hunused : (active.map fun _ => 0).sum ≤ tunnelLookupTimeout := by simp
      refine AlwaysIn.perform fun t₁ hpass₁ => ⟨?_, fun grant t₂ hclaim => ?_⟩
      · exact (hrest.passing hpass₁).fairlyTimed hunderway hunused hbase rfl
      have hrest₂ := (hrest.passing hpass₁).perform rfl hclaim
      refine AlwaysIn.bind (ih hunderway.claim hrest₂) ?_
      rintro history₃ t₃ granted ⟨hsub, hunderway₃, hrest₃⟩
      cases hgrant : grant.granted with
      | true =>
          simp only [hgrant, if_true, List.append_assoc, List.singleton_append] at hunderway₃
          exact ⟨hsub.cons_cons u, hunderway₃, hrest₃⟩
      | false =>
          simp only [hgrant, Bool.false_eq_true, if_false, List.append_nil] at hunderway₃
          exact ⟨hsub.cons u, hunderway₃, hrest₃⟩

theorem lookup_alwaysIn (c : DnsCache) (host : Text) (hunderway : Underway start [] history)
    (hrest : Resting begun (fun _ => 0) idle t) (hbegun : begun ≤ start) :
    AlwaysIn Timer.perform Timer.Passing FairlyTimed
      (fun history' t' _ => ∃ active, Underway start active history' ∧ Finished start active t')
      history t (lookup c (start + lookupTimeout) host) := by
  have hbase : begun ≤ start + tunnelLookupTimeout := Nat.le_add_right_of_le hbegun
  have hunused : ∀ active : List Nat, (active.map fun _ => 0).sum ≤ tunnelLookupTimeout := by simp
  refine AlwaysIn.perform fun t₁ hpass₁ => ⟨?_, fun now t₂ hnow => ?_⟩
  · exact (hrest.passing hpass₁).fairlyTimed hunderway (hunused _) hbase rfl
  have hrest₂ := (hrest.passing hpass₁).perform rfl hnow
  refine AlwaysIn.bind (claimAll_alwaysIn (hunderway.append (activeIn_now now)) hrest₂ hbase) ?_
  rintro history₃ t₃ active ⟨hsub, hunderway₃, hrest₃⟩
  rw [List.nil_append] at hunderway₃
  refine AlwaysIn.perform fun t₄ hpass₄ => ⟨?_, fun opened t₅ hopened => ?_⟩
  · exact (hrest₃.passing hpass₄).fairlyTimed hunderway₃ (hunused _) hbase rfl
  obtain ⟨hreading, -, hrest₅⟩ := (hrest₃.passing hpass₄).now hopened
  -- The deadline lies within the idle time after the earliest possible one.
  have hwalk := @walk_alwaysIn start begun t₄.idle [] active (fun _ => 0)
    (history₃ ++ [⟨.now, opened⟩]) t₅ c host
    (min (start + lookupTimeout) (opened + tunnelLookupTimeout))
    (List.nodup_range.sublist hsub) (hunderway₃.append (activeIn_now opened)) hrest₅
    (fun _ _ => rfl) (Nat.mul_div_le _ _) hbegun
    (by simp only [tunnelLookupTimeout, lookupTimeout]; omega) (by omega)
  refine AlwaysIn.bind hwalk ?_
  rintro history₆ t₆ walked ⟨hunderway₆, hfinished₆⟩
  refine (hfinished₆.alwaysIn hunderway₆ ?_).imp fun _ _ _ h => ⟨active, h⟩
  exact (orFallback_rests c host walked).bind fun answer => .perform ⟨rfl, rfl⟩ fun _ => trivial

theorem fly_alwaysIn (c : DnsCache) (host : Text) (clock : Nat) :
    AlwaysIn Timer.perform Timer.Passing FairlyTimed (fun _ _ _ => True) [] { clock }
      (fly c ⟨.tunnel, host⟩) := by
  have hrest : Resting clock (fun _ => 0) 0 { clock } := ⟨rfl, rfl, rfl, Nat.le_refl 0⟩
  refine AlwaysIn.perform fun t₁ hpass₁ =>
    ⟨⟨by simp, Nat.zero_le _, by simp⟩, fun start t₂ hnow => ?_⟩
  obtain ⟨hstart, -, hrest₂⟩ := (hrest.passing hpass₁).now hnow
  have hunderway : Underway start [] [⟨.now, start⟩] := ⟨rfl, rfl⟩
  refine AlwaysIn.perform fun t₃ hpass₃ => ⟨?_, fun _ t₄ hadd => ?_⟩
  · exact (hrest₂.passing hpass₃).fairlyTimed hunderway (by simp) (by omega) rfl
  have hrest₄ := (hrest₂.passing hpass₃).perform rfl hadd
  refine AlwaysIn.bind (lookup_alwaysIn c host (hunderway.append rfl) hrest₄ (by omega)) ?_
  rintro history₅ t₅ answer ⟨active, hunderway₅, hfinished⟩
  exact (hfinished.alwaysIn hunderway₅ (settle_rests c _ answer)).imp fun _ _ _ _ => trivial

end Flight

/-- In every run, as long as the resolvers keep to their shares: each is given
an equal share of what is left, never less than its part of the three seconds,
they use no more than those in total, and the local resolver has two of the
five seconds left. All of this is exact up to the time that passes while no
resolver is at work. -/
theorem flight_shares (o : Opener) (schedule : List (Action (gate o))) (c c' : Config (gate o))
    (hrun : (gate o).run c schedule = some c') (i : Nat) (host : Text) (op : Op)
    (next : op.Reply → Prog Answer)
    (hflight : (fly o.rules.dns ⟨.tunnel, host⟩).Reaches (eventsOf i schedule) (.act op next))
    (t : Timer) (htimer : Timer.follow i { clock := c.state.clock } schedule = some t) :
    t.clock = c'.state.clock ∧ FairlyTimed (eventsOf i schedule) t op := by
  obtain ⟨hpasses, hclock⟩ := Timer.follow_passes hrun htimer rfl
  refine ⟨hclock, ?_⟩
  have htimed := (fly_alwaysIn o.rules.dns host c.state.clock).at_reached hflight hpasses
  rwa [List.nil_append] at htimed

/-- Two DNS servers. -/
def twoServers : Opener where
  rules := { (sampleOpener false).rules with
    dns := setTunnelDNS [str "1.1.1.1:53", str "8.8.8.8:53"] (sampleOpener false).rules.dns }
  family := .both

/-- A flight that starts with the tunnel up. -/
def takenOff : Config (gate twoServers) where
  state := { up := true }
  threads := [⟨.resolveTunnel (str "x"), [],
    fly twoServers.rules.dns ⟨.tunnel, str "x"⟩ >>= fun answer => .ret (.answer answer)⟩]

/-- Server `u` accepts the channel at `start` and stays silent for its share. -/
def silentTurn (u start share : Nat) : List (Action (gate twoServers)) :=
  let stop := start + share
  [.run 0 ⟨.now, start⟩, .run 0 ⟨.now, start⟩, .run 0 ⟨.ask u (str "x.") share, 1⟩,
    .run 0 ⟨.dialServer u, .opened⟩, .disturb (.tick share),
    .run 0 ⟨.resolverReply u (str "x."), .error (.dns false (str "timeout"))⟩,
    .run 0 ⟨.now, stop⟩, .run 0 ⟨.tunnelUp, true⟩,
    .run 0 ⟨.failed u (.text (str "timeout")), stop⟩]

/-- Both servers stay silent, and the flight turns to the local resolver. -/
def silence : List (Action (gate twoServers)) :=
  [.run 0 ⟨.now, 0⟩, .run 0 ⟨.lookupsAdd, ()⟩, .run 0 ⟨.now, 0⟩, .run 0 ⟨.claim 0 0, .open⟩,
    .run 0 ⟨.claim 1 0, .open⟩, .run 0 ⟨.now, 0⟩] ++
    silentTurn 0 0 1500000000 ++ silentTurn 1 1500000000 1500000000 ++
    [.run 0 ⟨.fallback, ()⟩, .run 0 ⟨.now, 3 * second⟩, .run 0 ⟨.lastFallback (3 * second), ()⟩]

theorem silence_shares :
    ∃ c t, (gate twoServers).run takenOff silence = some c ∧
      Timer.follow 0 { clock := takenOff.state.clock } silence = some t ∧
      t.usedBy [0, 1] = tunnelLookupTimeout ∧ t.idle = 0 ∧
      c.state.clock + 2 * second ≤ lookupTimeout := by
  obtain ⟨c, hrun⟩ : ∃ c, (gate twoServers).run takenOff silence = some c :=
    Option.isSome_iff_exists.mp (by decide +kernel)
  obtain ⟨t, htimer⟩ : ∃ t, Timer.follow 0 { clock := takenOff.state.clock } silence = some t :=
    Option.isSome_iff_exists.mp (by decide +kernel)
  have hspent : (Timer.follow 0 { clock := takenOff.state.clock } silence).map
      (fun t => (t.usedBy [0, 1], t.idle)) = some (tunnelLookupTimeout, 0) := by decide +kernel
  rw [htimer, Option.map_some, Option.some.injEq, Prod.mk.injEq] at hspent
  obtain ⟨next, hflight⟩ : ∃ next, (fly twoServers.rules.dns ⟨.tunnel, str "x"⟩).Reaches
      (eventsOf 0 silence) (.act (.localLookup (str "x")) next) := by
    refine ⟨?next, ?path⟩
    case path =>
      repeat apply Reaches.act
      exact .refl _
  obtain ⟨hclock, htimed⟩ := flight_shares twoServers silence takenOff c hrun 0 (str "x")
    (.localLookup (str "x")) next hflight t htimer
  obtain ⟨start, hstart, hleft⟩ := htimed.left (str "x") rfl
  obtain rfl : 0 = start := by
    cases hstart
    rfl
  rw [hclock, hspent.2, Nat.zero_add] at hleft
  exact ⟨c, t, hrun, htimer, hspent.1, hspent.2, hleft⟩

end SshGate
