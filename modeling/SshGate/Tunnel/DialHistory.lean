import SshGate.Go.NetipText
import SshGate.Tracker.Lifecycle
import SshGate.Tunnel.TrackDial

/-! # What a dial does

The order in which a dial acts, what the other uses of the tracker can do, and
what a dial is tracked as.
-/

namespace SshGate.TrackDial

open Go Interaction Tracker Program

/-! ## What the programs do -/

theorem mem_trackerEvents {history : List (Event sig)} {op : Tracker.Op} {reply : op.Reply} :
    ⟨op, reply⟩ ∈ history.filterMap trackerEvent ↔ ⟨.track op, reply⟩ ∈ history := by
  rw [List.mem_filterMap]
  constructor
  · rintro ⟨⟨op', reply'⟩, hmem, hevent⟩
    cases op' with
    | track op' =>
        cases hevent
        exact hmem
    | _ => cases hevent
  · exact fun hmem => ⟨_, hmem, rfl⟩

/-- The history up to the dial itself: nothing, or the `Begin` of a record. -/
inductive Starts : List (Event sig) → Prop
  | untracked : Starts []
  | tracked (info : DialMeta) (host : Text) (port began : Int) (id : Nat) :
      Starts [⟨.track (.begin info host port), (began, id)⟩]

/-- No record was begun. -/
def Unbegun (history : List (Event sig)) : Prop :=
  ∀ info host port reply, ⟨.track (.begin info host port), reply⟩ ∉ history

/-- The record of an id was begun and nothing else was done to the tracker. -/
def Holds (id : Nat) (history : List (Event sig)) : Prop :=
  ∃ info host port began rest, history = ⟨.track (.begin info host port), (began, id)⟩ :: rest ∧
    ∀ op reply, ⟨.track op, reply⟩ ∉ rest

/-- When a thread performs an action. -/
def Guard (history : List (Event sig)) : Op → Prop
  | .track (.begin _ _ _) => history = []
  | .track (.fail id _) | .track (.done id) => Holds id history
  | .track (.finish id _ _ _) => Unbegun history ∧
      ∃ tc counters, ⟨.track (.counters tc), counters⟩ ∈ history ∧ counters.id = id
  | .track _ => Unbegun history
  | .client => Starts history
  | .withTimeout => ∃ front, Starts front ∧ history = front ++ [⟨.client, true⟩]
  | .openChannel _ _ _ => ∃ front now, Starts front ∧
      history = front ++ [⟨.client, true⟩, ⟨.withTimeout, now⟩]

variable {d : DialerCfg} {lower : Nat → Nat}

/-- A dial ends with the history of its start and what it did since. -/
theorem dial_always (htimeout : 0 < d.dialTimeout) {front : List (Event sig)}
    (hfront : Starts front) (network addr : Text) :
    Always Guard (fun history result => (∃ rest, history = front ++ rest ∧
      ∀ op reply, ⟨.track op, reply⟩ ∉ rest) ∧ ∀ conn, result = .ok conn → conn = .base)
      front (dial d network addr) := by
  refine .perform hfront fun connected => ?_
  cases connected with
  | false => exact ⟨⟨[⟨.client, false⟩], rfl, by simp⟩, by rintro _ ⟨⟩⟩
  | true =>
      show Always _ _ _ (timeoutOf d >>= _)
      rw [timeoutOf, if_pos htimeout]
      refine .perform ⟨front, hfront, rfl⟩ fun now => .perform ⟨front, now, hfront, by simp⟩ ?_
      rintro ⟨time, err⟩
      have hrest : ∃ rest, front ++ [⟨.client, true⟩] ++ [⟨.withTimeout, now⟩] ++
          [⟨.openChannel network addr (some (now + d.dialTimeout)), (time, err)⟩] = front ++ rest ∧
          ∀ op reply, (⟨.track op, reply⟩ : Event sig) ∉ rest :=
        ⟨_, by rw [List.append_assoc, List.append_assoc], by simp⟩
      cases err with
      | some err => exact ⟨hrest, by rintro _ ⟨⟩⟩
      | none => exact ⟨hrest, by rintro _ ⟨⟩; rfl⟩

/-- How a tracked dial ends: with the error it was settled with, or with the
connection that `Done` gave for its own. -/
def Ended (history : List (Event sig)) : Result → Prop
  | .error err => ∃ front id reply, Holds id front ∧
      history = front ++ [⟨.track (.fail id err.error), reply⟩]
  | .ok outcome => ∃ front id tc, Holds id front ∧ history = front ++ [⟨.track (.done id), tc⟩] ∧
      outcome = .conn (tc.elim .base .tracked)

theorem trackDial_always (htimeout : 0 < d.dialTimeout) (ctx : DialCtx) (network addr : Text) :
    Always Guard (fun history result => Unbegun history ∨ Ended history result) []
      (trackDial d ctx network addr) := by
  unfold trackDial
  split
  next =>
    refine (dial_always htimeout .untracked network addr).bind ?_
    rintro history result ⟨⟨rest, rfl, hrest⟩, -⟩
    exact .inl fun info host port reply => hrest _ reply
  next =>
    refine .perform rfl ?_
    rintro ⟨began, id⟩
    refine (dial_always htimeout (.tracked ..) network addr).bind ?_
    rintro history result ⟨⟨rest, rfl, hrest⟩, hbase⟩
    have hholds : Holds id (⟨.track (.begin (dialPlan ctx addr).info (dialPlan ctx addr).host
        (dialPlan ctx addr).port), (began, id)⟩ :: rest) := ⟨_, _, _, began, rest, rfl, hrest⟩
    cases result with
    | error err =>
        exact ⟨hholds, fun reply => .inr ⟨_, id, reply, hholds, rfl⟩⟩
    | ok conn =>
        cases hbase conn rfl
        refine ⟨hholds, fun tc => ?_⟩
        cases tc with
        | none => exact .inr ⟨_, id, none, hholds, rfl, rfl⟩
        | some tc => exact .inr ⟨_, id, some tc, hholds, rfl, rfl⟩

/-- The actions by which dials start and settle records. -/
def IsDial : Tracker.Op → Prop
  | .begin _ _ _ | .done _ | .fail _ _ => True
  | _ => False

theorem toViews_bytes (now : Int) (recs : List ConnRecord) :
    (toViews now recs).Confined fun op : Tracker.Op => ∃ tc, op = .bytes tc := by
  have hbytes : ∀ rec, (viewBytes rec).Confined fun op : Tracker.Op => ∃ tc, op = .bytes tc := by
    intro rec
    unfold viewBytes
    split
    next tc _ =>
      split
      next => exact .perform ⟨tc, rfl⟩ fun _ => trivial
      next => trivial
    next => trivial
  induction recs with
  | nil => trivial
  | cons rec rest ih =>
      have hview : (toView rec now).Confined fun op : Tracker.Op => ∃ tc, op = .bytes tc :=
        (hbytes rec).bind fun _ => trivial
      exact hview.bind fun _ => ih.bind fun _ => trivial

/-- The other uses of the tracker neither start nor settle a record. -/
theorem use_confined {call : Tracker.Call} (huse : IsUse call) :
    (call.program lower).Confined fun op : Tracker.Op => ¬ IsDial op := by
  have hif : ∀ (condition : Bool) {op : Tracker.Op}, ¬ IsDial op →
      (actIf condition op).Confined fun op : Tracker.Op => ¬ IsDial op := by
    intro condition op hop
    cases condition with
    | false => trivial
    | true => exact .perform hop fun _ => trivial
  cases call with
  | begin info host port => exact huse.elim
  | done id conn => exact huse.elim
  | fail id err => exact huse.elim
  | activeByProto => exact .perform id fun _ => trivial
  | list tab q proto page pageSize =>
      simp only [Tracker.Call.program, Tracker.list]
      split
      next => trivial
      next =>
        split
        next => trivial
        next =>
          split
          next => trivial
          next =>
            refine .perform id fun sweep => ?_
            split
            next => trivial
            next =>
              refine ((toViews_bytes _ _).imp ?_).bind fun _ => trivial
              rintro _ ⟨tc, rfl⟩
              exact id
  | read tc =>
      exact .perform id fun reply => (hif _ id).bind fun _ => (hif _ id).bind fun _ => trivial
  | write tc =>
      exact .perform id fun reply => (hif _ id).bind fun _ => (hif _ id).bind fun _ => trivial
  | close tc =>
      refine .perform id fun first => .perform id fun err => ?_
      cases first with
      | false => trivial
      | true => exact .perform id fun counters => .perform id fun _ => trivial

/-- They finish a record only with the id of a connection they have seen. -/
theorem use_always (call : Tracker.Call) (huse : IsUse call) :
    Always Guard (fun _ _ => True) [] (Call.program d lower (.use call huse)) := by
  have hconfined : (call.program lower).Confined fun op : Tracker.Op => ¬ IsDial op :=
    use_confined huse
  have halways : Always (fun history op => CloseStep call history op ∧ ¬ IsDial op ∧
      ∀ event ∈ history, ¬ IsDial event.op) (fun _ _ => True) [] (call.program lower) := by
    refine (program_closes call).imp (fun trace op next hpath hclose => ?_) fun _ _ _ _ => trivial
    exact ⟨hclose, hconfined.at_reached hpath, fun event hmem => hconfined.of_mem hpath hmem⟩
  have hguard : ∀ history op, (CloseStep call (history.filterMap trackerEvent) op ∧ ¬ IsDial op ∧
      ∀ event ∈ history.filterMap trackerEvent, ¬ IsDial event.op) → Guard history (.track op) := by
    rintro history op ⟨hclose, hop, hhistory⟩
    have hunbegun : Unbegun history :=
      fun _ _ _ _ hmem => hhistory _ (mem_trackerEvents.mpr hmem) trivial
    cases op with
    | begin info host port => exact absurd trivial hop
    | done id => exact absurd trivial hop
    | fail id err => exact absurd trivial hop
    | finish id up down firstErr =>
        obtain ⟨tc, err, counters, -, hid, hclosed⟩ := hclose
        exact ⟨hunbegun, tc, counters, mem_trackerEvents.mp (by simp [hclosed]), hid⟩
    | activeByProto | list | connRead | connWrite | addDown | addUp | keepErr | swapClosed
    | connClose | counters | bytes => exact hunbegun
  exact (halways.embed trackerEmbedding hguard).bind fun _ _ _ => trivial

theorem program_always (htimeout : 0 < d.dialTimeout) (call : Call) :
    Always Guard (fun _ _ => True) [] (call.program d lower) := by
  cases call with
  | dial ctx network addr =>
      exact (trackDial_always htimeout ctx network addr).post_imp fun _ _ _ => trivial
  | use call huse => exact use_always call huse

/-! ## The records that dials begin -/

/-- The action begins a record only as the plan of a tracked dial says. -/
def Planned (call : Call) : Op → Prop
  | .track (.begin info host port) => ∃ ctx network addr, call = .dial ctx network addr ∧
      ctx.noTrack = false ∧ dialPlan ctx addr = ⟨info, host, port⟩
  | _ => True

theorem planned_of_ne {call : Call} {op : Op}
    (hop : ∀ info host port, op ≠ .track (.begin info host port)) : Planned call op := by
  unfold Planned
  split
  next => exact absurd rfl (hop _ _ _)
  next => trivial

theorem dial_confined (network addr : Text) :
    (dial d network addr).Confined fun op : Op => ∀ op', op ≠ .track op' := by
  refine .perform (by rintro _ ⟨⟩) fun connected => ?_
  cases connected with
  | false => trivial
  | true =>
      have htimeout : (timeoutOf d).Confined fun op : Op => ∀ op', op ≠ .track op' := by
        unfold timeoutOf
        split
        next => exact .perform (by rintro _ ⟨⟩) fun _ => trivial
        next => trivial
      refine htimeout.bind fun deadline => .perform (by rintro _ ⟨⟩) ?_
      rintro ⟨time, _ | err⟩ <;> trivial

theorem trackerDone_confined (id : Nat) (conn : Conn) :
    (trackerDone id conn).Confined fun op : Tracker.Op => op = .done id := by
  unfold trackerDone
  split
  next => trivial
  next =>
    refine .perform rfl fun tc => ?_
    cases tc <;> trivial

theorem program_planned (call : Call) : (call.program d lower).Confined (Planned call) := by
  cases call with
  | dial ctx network addr =>
      have hdial : (dial d network addr).Confined (Planned (.dial ctx network addr)) :=
        (dial_confined network addr).imp fun op hop => planned_of_ne fun _ _ _ => hop _
      show (trackDial d ctx network addr).Confined _
      unfold trackDial
      split
      next => exact hdial.bind fun _ => trivial
      next htracked =>
        have hnoTrack : ctx.noTrack = false := by
          cases hmark : ctx.noTrack with
          | false => rfl
          | true => exact absurd (by rw [hmark, Bool.true_or]) htracked
        refine .perform ⟨ctx, network, addr, rfl, hnoTrack, rfl⟩ fun begun => hdial.bind ?_
        intro result
        cases result with
        | error err => exact ⟨trivial, fun _ => trivial⟩
        | ok conn =>
            refine ((trackerDone_confined begun.2 conn).embed trackerEmbedding ?_).bind
              fun _ => trivial
            rintro _ rfl
            trivial
  | use call huse =>
      refine ((use_confined huse).embed trackerEmbedding fun op hop => ?_).bind fun _ => trivial
      exact planned_of_ne (by rintro _ _ _ ⟨⟩; exact hop trivial)

/-! ## The address of a proxied dial -/

/-- The value of digits, from a value on. -/
def digitsValue (n : Nat) (s : Text) : Nat := s.foldl (fun n b => n * 10 + (b.toNat - 48)) n

theorem le_digitsValue (n : Nat) (s : Text) : n ≤ digitsValue n s := by
  induction s generalizing n with
  | nil => exact le_rfl
  | cons b rest ih => exact le_trans (Nat.le_add_right_of_le (by omega)) (ih _)

theorem scanUint_digits {s : Text} (hdigits : s.all fun b => 48 ≤ b && b ≤ 57) {n : Nat}
    (hsmall : digitsValue n s < 2 ^ 64) : s.scanUint n = some (digitsValue n s) := by
  induction s generalizing n with
  | nil => rfl
  | cons b rest ih =>
      rw [List.all_cons, Bool.and_eq_true] at hdigits
      have hfits : n * 10 + (b.toNat - 48) < 2 ^ 64 :=
        lt_of_le_of_lt (le_digitsValue _ rest) hsmall
      rw [Text.scanUint, if_pos hdigits.1]
      dsimp only
      rw [if_neg (Nat.not_le.mpr hfits)]
      exact ih hdigits.2 hsmall

/-- `Atoi` reads what `Itoa` writes. -/
theorem atoiValue_itoa {n : Nat} (hn : n < 2 ^ 63) : (Text.itoa n).atoiValue = n := by
  have hparse := Text.parseDigits_digits n
  obtain ⟨hplus, hminus⟩ := Text.parseDigits_head hparse
  show (Text.digits n).atoiValue = n
  unfold Text.parseDigits at hparse
  split at hparse
  next hdigits =>
    have hvalue : digitsValue 0 (Text.digits n) = n := Option.some.inj hparse
    have hscan := scanUint_digits (n := 0) hdigits.2 (by omega)
    have huint : (Text.digits n).uintValue = n := by
      rw [Text.uintValue, if_neg hdigits.1, hscan, hvalue]
      rfl
    unfold Text.atoiValue
    split
    next heq => exact absurd (by rw [heq]; rfl) hminus
    next heq => exact absurd (by rw [heq]; rfl) hplus
    next => rw [huint]; omega
  next => cases hparse

theorem parseDialAddr_joinHostPort {ip : Addr} {port : Nat} (hip : Unbracketed ip.string)
    (hport : port < 2 ^ 63) :
    parseDialAddr (Addr.joinHostPort ip.string (Text.itoa port)) = (ip.string, (port : Int)) := by
  have hdigits := Text.isDigit_digits port
  have hbare : ∀ b : UInt8, ¬(48 ≤ b ∧ b ≤ 57) → b ∉ Text.itoa port := fun b hb hmem =>
    hb (hdigits b hmem)
  have hsplit := splitHostPort_joinHostPort_iff.mpr
    ⟨hip, ⟨hbare 91 (by decide), hbare 93 (by decide)⟩, hbare 58 (by decide)⟩
  rw [parseDialAddr, hsplit]
  exact Prod.ext rfl (atoiValue_itoa hport)

/-- What a proxied dial is tracked as. -/
theorem dialPlan_of_proxy {ctx : DialCtx} {info : DialMeta} {ip : Addr} {port : Nat}
    (hinfo : ctx.info = some info) (hhost : info.host ≠ []) (hip : Unbracketed ip.string)
    (hport : port < 2 ^ 63) :
    dialPlan ctx (Addr.joinHostPort ip.string (Text.itoa port)) =
      ⟨{ info with dstIP := ip.string }, info.host, port⟩ := by
  rw [dialPlan, parseDialAddr_joinHostPort hip hport]
  simp only [hinfo, if_pos hhost, Addr.parse_string]

end SshGate.TrackDial
