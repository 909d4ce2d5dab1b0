import Mathlib.Data.List.Count
import SshGate.Go.Netip

/-! # Hosts with ports

`net.SplitHostPort` and its relation to `net.JoinHostPort` and to address
literals. A text splits in two forms only, `host:port` and `[host]:port`; an
address literal splits in neither.
-/

namespace Go

/-- `bytealg.LastIndexByteString`. -/
def Text.lastIndexByte (s : Text) (b : UInt8) : Option Nat :=
  (s.reverse.idxOf? b).map fun i => s.length - 1 - i

/-- `net.SplitHostPort`, without the texts of its errors. -/
def splitHostPort (hostport : Text) : Option (Text × Text) :=
  -- The port starts after the last colon.
  match hostport.lastIndexByte 58 with
  | none => none
  | some i =>
      if hostport.head? = some 91 then
        -- The first closing bracket has to stand just before that colon.
        match hostport.idxOf? 93 with
        | none => none
        | some stop =>
            if stop + 1 ≠ i then none
            else if 91 ∈ hostport.drop 1 ∨ 93 ∈ hostport.drop (stop + 1) then none
            else some ((hostport.take stop).drop 1, hostport.drop (i + 1))
      else if 58 ∈ hostport.take i then none
      else if 91 ∈ hostport ∨ 93 ∈ hostport then none
      else some (hostport.take i, hostport.drop (i + 1))

/-- No bracket stands in the text. -/
def Unbracketed (s : Text) : Prop := 91 ∉ s ∧ 93 ∉ s

instance (s : Text) : Decidable (Unbracketed s) := inferInstanceAs (Decidable (_ ∧ _))

/-! ## Splitting -/

theorem Text.lastIndexByte_append_cons (front : Text) {b : UInt8} {back : Text}
    (hback : b ∉ back) : (front ++ b :: back).lastIndexByte b = some front.length := by
  have hreverse : (front ++ b :: back).reverse = back.reverse ++ b :: front.reverse := by simp
  have hidx := idxOf_append_cons front.reverse (mt List.mem_reverse.mp hback)
  rw [lastIndexByte, hreverse, hidx]
  simp

theorem Text.lastIndexByte_eq_none {s : Text} {b : UInt8} (hmem : b ∉ s) :
    s.lastIndexByte b = none := by
  rw [lastIndexByte, List.idxOf?_eq_none_iff.mpr (mt List.mem_reverse.mp hmem)]
  rfl

/-- A byte of a text has a last place in it. -/
theorem Text.exists_last {s : Text} {b : UInt8} (hmem : b ∈ s) :
    ∃ front back, s = front ++ b :: back ∧ b ∉ back := by
  obtain ⟨back, front, hreverse, hback⟩ :=
    List.eq_append_cons_of_mem (List.mem_reverse.mpr hmem)
  refine ⟨front.reverse, back.reverse, ?_, mt List.mem_reverse.mp hback⟩
  rw [← List.reverse_reverse s, hreverse]
  simp

theorem splitHostPort_of_no_colon {s : Text} (hcolon : 58 ∉ s) : splitHostPort s = none := by
  rw [splitHostPort, Text.lastIndexByte_eq_none hcolon]

theorem splitHostPort_plain {host port : Text} (hhost : Unbracketed host)
    (hport : Unbracketed port) (hcolon : 58 ∉ port) (hplain : 58 ∉ host) :
    splitHostPort (host ++ 58 :: port) = some (host, port) := by
  have hopen : 91 ∉ host ++ 58 :: port := by simp [hhost.1, hport.1]
  have hclose : 93 ∉ host ++ 58 :: port := by simp [hhost.2, hport.2]
  have hhead : (host ++ 58 :: port).head? ≠ some 91 := fun h => hopen (List.mem_of_head? h)
  rw [splitHostPort, Text.lastIndexByte_append_cons host hcolon]
  dsimp only
  rw [if_neg hhead, List.take_left, if_neg hplain, if_neg (not_or.mpr ⟨hopen, hclose⟩)]
  simp

theorem splitHostPort_bracketed {host port : Text} (hhost : Unbracketed host)
    (hport : Unbracketed port) (hcolon : 58 ∉ port) :
    splitHostPort (91 :: (host ++ 93 :: 58 :: port)) = some (host, port) := by
  have hlast := Text.lastIndexByte_append_cons (91 :: (host ++ [93])) hcolon
  have hclose : 93 ∉ 91 :: host := by simp [hhost.2]
  have hfirst := Text.idxOf_append_cons (58 :: port) hclose
  have hshape : 91 :: (host ++ [93]) ++ 58 :: port = 91 :: (host ++ 93 :: 58 :: port) := by simp
  have hlength : (91 :: (host ++ [93]) : Text).length = host.length + 2 := by simp
  rw [hshape, hlength] at hlast
  rw [List.cons_append, List.length_cons] at hfirst
  have hinner : 91 ∉ host ++ 93 :: 58 :: port := by simp [hhost.1, hport.1]
  have houter : 93 ∉ (91 :: (host ++ 93 :: 58 :: port)).drop (host.length + 1 + 1) := by
    rw [List.drop_succ_cons, List.drop_append, List.drop_of_length_le (by omega)]
    simp [hport.2]
  rw [splitHostPort, hlast]
  dsimp only
  rw [if_pos List.head?_cons, hfirst]
  dsimp only
  rw [if_neg (by simp), if_neg (not_or.mpr ⟨by simpa using hinner, houter⟩)]
  simp [List.drop_append]

/-- The two forms a text splits in. -/
theorem splitHostPort_eq_some_iff {s host port : Text} :
    splitHostPort s = some (host, port) ↔
      Unbracketed host ∧ Unbracketed port ∧ 58 ∉ port ∧
        (58 ∉ host ∧ s = host ++ 58 :: port ∨ s = 91 :: (host ++ 93 :: 58 :: port)) := by
  constructor
  · intro hsplit
    by_cases hmem : 58 ∈ s
    · obtain ⟨front, back, rfl, hback⟩ := Text.exists_last hmem
      rw [splitHostPort, Text.lastIndexByte_append_cons front hback] at hsplit
      dsimp only at hsplit
      split at hsplit
      next hhead =>
        split at hsplit
        next => cases hsplit
        next stop hstop =>
          split at hsplit
          next => cases hsplit
          next hbefore =>
            split at hsplit
            next => cases hsplit
            next hfree =>
              obtain ⟨first, rest, hshape, hfirst, rfl⟩ := Text.exists_first hstop
              -- The brackets enclose everything before the colon.
              obtain ⟨rfl, rfl⟩ : first ++ [93] = front ∧ rest = 58 :: back := by
                apply List.append_inj
                · rw [hshape]
                  simp
                · simpa using Decidable.not_not.mp hbefore
              cases first with
              | nil => cases hhead
              | cons b inner =>
                  obtain rfl : b = 91 := by simpa using hhead
                  obtain ⟨rfl, rfl⟩ : inner = host ∧ back = port := by
                    simpa [List.drop_append, List.drop_of_length_le] using hsplit
                  simp only [List.mem_cons, not_or] at hfirst
                  have hopen : 91 ∉ inner ∧ 91 ∉ back := by
                    simpa using (not_or.mp hfree).1
                  have hclose : 93 ∉ back := by
                    have hafter := (not_or.mp hfree).2
                    simp only [List.drop_append, List.mem_append, not_or] at hafter
                    simpa using hafter.2
                  refine ⟨⟨hopen.1, hfirst.2⟩, ⟨hopen.2, hclose⟩, hback, .inr ?_⟩
                  simp
      next hhead =>
        rw [List.take_left] at hsplit
        split at hsplit
        next => cases hsplit
        next hplain =>
          split at hsplit
          next => cases hsplit
          next hfree =>
            obtain ⟨rfl, rfl⟩ : front = host ∧ back = port := by simpa using hsplit
            simp only [List.mem_append, List.mem_cons, not_or] at hfree
            obtain ⟨⟨hopenFront, -, hopenBack⟩, hcloseFront, -, hcloseBack⟩ := hfree
            exact ⟨⟨hopenFront, hcloseFront⟩, ⟨hopenBack, hcloseBack⟩, hback,
              .inl ⟨hplain, rfl⟩⟩
    · rw [splitHostPort_of_no_colon hmem] at hsplit
      cases hsplit
  · rintro ⟨hhost, hport, hcolon, ⟨hplain, rfl⟩ | rfl⟩
    · exact splitHostPort_plain hhost hport hcolon hplain
    · exact splitHostPort_bracketed hhost hport hcolon

/-- A host in brackets has no port. -/
theorem splitHostPort_brackets (s : Text) : splitHostPort (91 :: (s ++ [93])) = none := by
  rw [Option.eq_none_iff_forall_ne_some]
  rintro ⟨host, port⟩ hsplit
  obtain ⟨hhost, hport, -, ⟨-, hshape⟩ | hshape⟩ := splitHostPort_eq_some_iff.mp hsplit
  · cases host with
    | nil => cases hshape
    | cons b rest =>
        obtain ⟨rfl, -⟩ := List.cons.inj hshape
        exact hhost.1 List.mem_cons_self
  · -- The last byte of the port would be the closing bracket.
    have hlast := congrArg List.getLast? (List.cons.inj hshape).2
    cases hp : port.getLast? with
    | none =>
        rw [List.getLast?_eq_none_iff.mp hp] at hlast
        simp at hlast
    | some b =>
        have hb : b = 93 := by
          simpa [List.getLast?_append, List.getLast?_cons, hp] using hlast.symm
        exact hport.2 (hb ▸ List.mem_of_getLast? hp)

/-- Joining is undone by splitting exactly for a bare host and a bare port. -/
theorem splitHostPort_joinHostPort_iff {host port : Text} :
    splitHostPort (Addr.joinHostPort host port) = some (host, port) ↔
      Unbracketed host ∧ Unbracketed port ∧ 58 ∉ port := by
  constructor
  · intro hsplit
    obtain ⟨hhost, hport, hcolon, -⟩ := splitHostPort_eq_some_iff.mp hsplit
    exact ⟨hhost, hport, hcolon⟩
  · rintro ⟨hhost, hport, hcolon⟩
    apply splitHostPort_eq_some_iff.mpr
    refine ⟨hhost, hport, hcolon, ?_⟩
    unfold Addr.joinHostPort
    split
    next hmem =>
      exact .inr (List.append_assoc ..)
    next hmem =>
      exact .inl ⟨hmem, List.append_assoc ..⟩

/-! ## Address literals -/

namespace Addr

theorem parseIPv4Fields_no_colon {s : Text} {value digits : Nat} {fields ip : List UInt8}
    (hparse : parseIPv4Fields s value digits fields = some ip) : 58 ∉ s := by
  induction s generalizing value digits fields with
  | nil => simp
  | cons c rest ih =>
      unfold parseIPv4Fields at hparse
      split at hparse
      next hdigit =>
        split at hparse
        next => cases hparse
        next =>
          dsimp only at hparse
          split at hparse
          next => cases hparse
          next =>
            rw [List.mem_cons, not_or]
            refine ⟨?_, ih hparse⟩
            rintro rfl
            revert hdigit
            decide
      next =>
        split at hparse
        next hdot =>
          split at hparse
          next => cases hparse
          next =>
            split at hparse
            next => cases hparse
            next =>
              rw [List.mem_cons, not_or]
              refine ⟨?_, ih hparse⟩
              rw [hdot]
              decide
        next => cases hparse

theorem parseIPv4Fields_length {s : Text} {value digits : Nat} {fields ip : List UInt8}
    (hfields : fields.length ≤ 3) (hparse : parseIPv4Fields s value digits fields = some ip) :
    ip.length = 4 := by
  induction s generalizing value digits fields with
  | nil =>
      unfold parseIPv4Fields at hparse
      split at hparse
      next => cases hparse
      next hthree =>
        obtain rfl := Option.some.inj hparse
        simp only [List.length_append, List.length_cons, List.length_nil]
        omega
  | cons c rest ih =>
      unfold parseIPv4Fields at hparse
      split at hparse
      next =>
        split at hparse
        next => cases hparse
        next =>
          dsimp only at hparse
          split at hparse
          next => cases hparse
          next => exact ih hfields hparse
      next =>
        split at hparse
        next =>
          split at hparse
          next => cases hparse
          next =>
            split at hparse
            next => cases hparse
            next hmore =>
              apply ih ?_ hparse
              simp only [List.length_append, List.length_cons, List.length_nil]
              omega
        next => cases hparse

theorem parseGroup_suffix {s rest : Text} {value count value' count' : Nat}
    (hparse : parseGroup s value count = some (value', count', rest)) : rest <:+ s := by
  induction s generalizing value count with
  | nil =>
      unfold parseGroup at hparse
      cases hparse
      exact List.suffix_refl _
  | cons c tail ih =>
      unfold parseGroup at hparse
      split at hparse
      next =>
        cases hparse
        exact List.suffix_refl _
      next =>
        split at hparse
        next => cases hparse
        next => exact (ih hparse).trans (List.suffix_cons _ _)

/-- Groups that fill an address have two colons between them, written out or as
an ellipsis: every colon adds one group and the last group at most four bytes. -/
theorem parseGroups_colons {fuel : Nat} {s rest : Text} {ip ip' : List UInt8}
    {ellipsis : Option Nat} (hparse : parseGroups fuel s ip none = some (rest, ip', ellipsis)) :
    2 ≤ s.count 58 ∨ ellipsis = none ∧ ip'.length ≤ ip.length + 2 * s.count 58 + 4 := by
  induction fuel generalizing s ip with
  | zero =>
      unfold parseGroups at hparse
      cases hparse
      exact .inr ⟨rfl, by omega⟩
  | succ fuel ih =>
      unfold parseGroups at hparse
      split at hparse
      next => cases hparse
      next => cases hparse
      next value count tail hne hgroup =>
        have hcount := (parseGroup_suffix hgroup).sublist.count_le 58
        dsimp only at hparse
        split at hparse
        next =>
          cases hparse
          right
          simp only [List.length_append, List.length_cons, List.length_nil, true_and]
          omega
        next c more =>
          split at hparse
          next =>
            split at hparse
            next => cases hparse
            next =>
              split at hparse
              next => cases hparse
              next =>
                obtain ⟨quad, hquad, hresult⟩ := Option.map_eq_some_iff.mp hparse
                cases hresult
                have hlength := parseIPv4Fields_length (by simp) hquad
                right
                simp only [List.length_append, true_and]
                omega
          next =>
            split at hparse
            next => cases hparse
            next hcolon =>
              obtain rfl := Decidable.not_not.mp hcolon
              rw [List.count_cons_self] at hcount
              split at hparse
              next => cases hparse
              next =>
                left
                rw [List.count_cons_self] at hcount
                omega
              next =>
                rcases ih hparse with htwo | ⟨hnone, hlength⟩
                · left
                  omega
                · right
                  simp only [List.length_append, List.length_cons, List.length_nil] at hlength
                  exact ⟨hnone, by omega⟩

theorem parseIPv6_colons {s : Text} {a : Addr} (hparse : parseIPv6 s = some a) :
    2 ≤ s.count 58 := by
  unfold parseIPv6 at hparse
  dsimp only at hparse
  split at hparse
  next => cases hparse
  next =>
    have hbody : (s.takeWhile (· ≠ 37)).count 58 ≤ s.count 58 :=
      (List.takeWhile_sublist _).count_le 58
    generalize s.takeWhile (· ≠ 37) = body at hparse hbody
    split at hparse
    next =>
      rw [List.count_cons_self, List.count_cons_self] at hbody
      omega
    next =>
      rw [if_neg (by simp)] at hparse
      dsimp only at hparse
      split at hparse
      next ip ellipsis hgroups =>
        rcases parseGroups_colons hgroups with htwo | ⟨rfl, hlength⟩
        · omega
        · -- Without an ellipsis the groups fill all sixteen bytes.
          obtain ⟨full, hfull, -⟩ := Option.map_eq_some_iff.mp hparse
          unfold expandEllipsis at hfull
          dsimp only at hfull
          split at hfull
          next => cases hfull
          next hshort =>
            rw [List.length_nil] at hlength
            omega
      next => cases hparse

theorem parseIPv6_bracket (s : Text) : parseIPv6 (91 :: s) = none := by
  have hbody : (91 :: s).takeWhile (· ≠ 37) = 91 :: s.takeWhile (· ≠ 37) := rfl
  unfold parseIPv6
  rw [hbody]
  dsimp only
  split
  next => rfl
  next => rfl

/-- An address literal does not split into a host and a port. -/
theorem splitHostPort_of_parse {s : Text} {a : Addr} (hparse : parse s = some a) :
    splitHostPort s = none := by
  unfold parse at hparse
  split at hparse
  next =>
    obtain ⟨ip, hip, -⟩ := Option.map_eq_some_iff.mp hparse
    exact splitHostPort_of_no_colon (parseIPv4Fields_no_colon hip)
  next =>
    have hcolons := parseIPv6_colons hparse
    rw [Option.eq_none_iff_forall_ne_some]
    rintro ⟨host, port⟩ hsplit
    obtain ⟨-, -, hcolon, ⟨hplain, rfl⟩ | rfl⟩ := splitHostPort_eq_some_iff.mp hsplit
    · rw [List.count_append, List.count_cons_self, List.count_eq_zero.mpr hplain,
        List.count_eq_zero.mpr hcolon] at hcolons
      omega
    · rw [parseIPv6_bracket] at hparse
      cases hparse
  next => cases hparse

end Addr

end Go
