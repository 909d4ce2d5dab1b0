import Mathlib.Order.Nat
import SshGate.Go.Text
import SshGate.Interaction.Process

/-! # Buffered reading and copying

`bufio.Reader` over an `io.LimitedReader`, and the two ways `io.Copy` moves
bytes: the loop with a buffer, and `WriteTo` of a buffered reader. The reads and
writes of the connections are programs that a user of this module gives; for
each loop here there is a rule that tells what it keeps when they keep it.
-/

namespace Go

open Interaction Program

inductive IoErr where
  | eof
  /-- `net.ErrClosed` -/
  | closed
  | noProgress
  | other
  deriving Repr, DecidableEq

/-- What a `Read` returns. -/
structure Chunk where
  bytes : Text
  err : Option IoErr := none
  deriving Repr, DecidableEq

/-- What a `Write` returns. -/
structure Written where
  n : Nat
  err : Option IoErr := none
  deriving Repr, DecidableEq

/-- How a copy ends: not within its rounds, at the end of the source, with the
error it then returns, or because the destination did not take the bytes. -/
inductive CopyEnd where
  | unfinished
  | sourceOver (err : Option IoErr)
  | writeFailed
  deriving Repr, DecidableEq

/-- What a copy makes of the error of its source. -/
def copyErr (err : Option IoErr) : Option IoErr := if err = some .eof then none else err

/-! ## The copying loop -/

section Copy

variable {S : Signature} (read : Nat → Program S Chunk) (write : Text → Program S Written)

/-- The buffer size of `io.Copy`. -/
def copyBuffer : Nat := 32 * 1024

/-- After a read: its error, or the next round. -/
def afterRead (err : Option IoErr) (more : Program S CopyEnd) : Program S CopyEnd :=
  match err with
  | some err => return .sourceOver (copyErr (some err))
  | none => more

/-- The first `rounds` rounds of `io.Copy`. -/
def copy : (rounds : Nat) → Program S CopyEnd
  | 0 => return .unfinished
  | rounds + 1 => do
      let got ← read copyBuffer
      if got.bytes ≠ [] then do
        let put ← write got.bytes
        if put.err ≠ none ∨ put.n ≠ got.bytes.length then return .writeFailed
        else afterRead got.err (copy rounds)
      else afterRead got.err (copy rounds)

/-- The loop is made of reads and writes. -/
theorem copy_induction {read : Nat → Program S Chunk} {write : Text → Program S Written}
    (motive : Program S CopyEnd → Prop) (hret : ∀ ended, motive (.ret ended))
    (hread : ∀ f, (∀ got, motive (f got)) → motive (read copyBuffer >>= f))
    (hwrite : ∀ bytes f, (∀ put, motive (f put)) → motive (write bytes >>= f)) (rounds : Nat) :
    motive (copy read write rounds) := by
  induction rounds with
  | zero => exact hret _
  | succ rounds ih =>
      refine hread _ fun got => ?_
      have hend : motive (afterRead got.err (copy read write rounds)) := by
        cases got.err with
        | some err => exact hret _
        | none => exact ih
      split
      next =>
        refine hwrite _ _ fun put => ?_
        split
        next => exact hret _
        next => exact hend
      next => exact hend

variable {V : Type} {effect : (op : S.Op) → V → S.Reply op → Option V} {others : V → V → Prop}
  {guard : List (Event S) → V → S.Op → Prop}

/-- The rule of the copying loop. `holds` speaks of the chunk that was read and
not written yet. -/
theorem copy_always {read : Nat → Program S Chunk} {write : Text → Program S Written}
    (holds : Chunk → V → Prop) (broken : V → Prop)
    (hread : ∀ history v, holds ⟨[], none⟩ v →
      AlwaysIn effect others guard (fun _ v got => holds got v) history v (read copyBuffer))
    (hwrite : ∀ history v got, got.bytes ≠ [] → holds got v →
      AlwaysIn effect others guard (fun _ v put =>
        (put.err ≠ none ∨ put.n ≠ got.bytes.length → broken v) ∧
        (put.err = none → put.n = got.bytes.length → holds ⟨[], got.err⟩ v))
        history v (write got.bytes))
    (rounds : Nat) (history : List (Event S)) {v : V} (hv : holds ⟨[], none⟩ v) :
    AlwaysIn effect others guard (fun _ v ended =>
      (∀ err, ended = .sourceOver err → ∃ err, holds ⟨[], some err⟩ v) ∧
      (ended = .writeFailed → broken v)) history v (copy read write rounds) := by
  induction rounds generalizing history v with
  | zero => exact ⟨by rintro _ ⟨⟩, by rintro ⟨⟩⟩
  | succ rounds ih =>
      refine (hread history v hv).bind fun history₁ v₁ got hgot => ?_
      -- the end of a round, once nothing of the chunk is left
      have hend : ∀ history v, holds ⟨[], got.err⟩ v →
          AlwaysIn effect others guard (fun _ v ended =>
            (∀ err, ended = .sourceOver err → ∃ err, holds ⟨[], some err⟩ v) ∧
            (ended = .writeFailed → broken v)) history v
            (afterRead got.err (copy read write rounds)) := by
        intro history v hv
        cases herr : got.err with
        | some err => exact ⟨fun _ _ => ⟨err, herr ▸ hv⟩, by rintro ⟨⟩⟩
        | none => exact ih history (herr ▸ hv)
      split
      next hbytes =>
        refine (hwrite history₁ v₁ got hbytes hgot).bind fun history₂ v₂ put hput => ?_
        split
        next hfailed => exact ⟨by rintro _ ⟨⟩, fun _ => hput.1 hfailed⟩
        next hwell =>
          obtain ⟨herr, hn⟩ := not_or.mp hwell
          exact hend history₂ v₂ (hput.2 (not_not.mp herr) (not_not.mp hn))
      next hbytes =>
        have hempty : got.bytes = [] := not_not.mp hbytes
        exact hend history₁ v₁ (hempty ▸ hgot)

end Copy

/-! ## The buffered reader -/

namespace Bufio

/-- A `bufio.Reader`: the bytes `buf[r:w]`, the pending error, and the `N` of the
`io.LimitedReader` that it reads from. -/
structure Reader where
  unread : Text
  err : Option IoErr
  left : Nat
  deriving Repr, DecidableEq

/-- `bufio.NewReader(&io.LimitedReader{R: conn, N: limit})` -/
def newReader (limit : Nat) : Reader := ⟨[], none, limit⟩

/-- `defaultBufSize` -/
def size : Nat := 4096

/-- `maxConsecutiveEmptyReads` -/
def maxEmptyReads : Nat := 100

/-- The reader after a read. -/
def Reader.push (b : Reader) (got : Chunk) : Reader :=
  ⟨b.unread ++ got.bytes, got.err.or b.err, b.left - got.bytes.length⟩

/-- What the buffered reader answers; `ErrBufferFull` is its own. -/
inductive SliceErr where
  | full
  | io (err : IoErr)
  deriving Repr, DecidableEq

section Reader

variable {S : Signature} (read : Nat → Program S Chunk)

/-- `Read` of the limited reader. -/
def limitedRead (left room : Nat) : Program S Chunk :=
  if left = 0 then return ⟨[], some .eof⟩ else read (min room left)

def fillFrom : (tries : Nat) → Reader → Program S Reader
  | 0, b => return { b with err := some .noProgress }
  | tries + 1, b => do
      let got ← limitedRead read b.left (size - b.unread.length)
      if got.err ≠ none ∨ got.bytes ≠ [] then return b.push got
      else fillFrom tries (b.push got)

def fill (b : Reader) : Program S Reader := fillFrom read maxEmptyReads b

/-- `ReadSlice`. Every `fill` adds a byte or sets the error, so that more than
`size` rounds are not needed. -/
def readSliceFrom (delim : UInt8) : (rounds : Nat) → Reader →
    Program S ((Text × Option SliceErr) × Reader)
  | 0, b => return ((b.unread, some .full), { b with unread := [] })
  | rounds + 1, b =>
      match b.unread.cut delim with
      | some (line, rest) => return ((line ++ [delim], none), { b with unread := rest })
      | none =>
          match b.err with
          | some err => return ((b.unread, some (.io err)), { b with unread := [], err := none })
          | none =>
              if size ≤ b.unread.length then
                return ((b.unread, some .full), { b with unread := [] })
              else do
                let b ← fill read b
                readSliceFrom delim rounds b

def readSlice (delim : UInt8) (b : Reader) : Program S ((Text × Option SliceErr) × Reader) :=
  readSliceFrom read delim (size + 2) b

/-- `ReadLine`: the line, whether it goes on, and the error. -/
def readLine (b : Reader) : Program S ((Text × Bool × Option IoErr) × Reader) := do
  let ((line, err), b) ← readSlice read 10 b
  match err with
  | some .full =>
      -- a line end may straddle the buffer: its first byte is put back
      if line.getLast? = some 13 then
        return ((line.dropLast, true, none), { b with unread := 13 :: b.unread })
      else return ((line, true, none), b)
  | some (.io err) =>
      if line = [] then return (([], false, some err), b) else return ((line, false, none), b)
  | none =>
      if line.dropLast.getLast? = some 13 then
        return ((line.dropLast.dropLast, false, none), b)
      else return ((line.dropLast, false, none), b)

/-- The loop of `Peek`. -/
def peekFill (n : Nat) : (rounds : Nat) → Reader → Program S Reader
  | 0, b => return b
  | rounds + 1, b =>
      if b.unread.length < n ∧ b.unread.length < size ∧ b.err = none then do
        let b ← fill read b
        peekFill n rounds b
      else return b

def peek (n : Nat) (b : Reader) : Program S ((Text × Option SliceErr) × Reader) := do
  let b ← peekFill read n (size + 2) b
  if size < n then return ((b.unread, some .full), b)
  else if b.unread.length < n then
    return ((b.unread, some (b.err.elim .full .io)), { b with err := none })
  else return ((b.unread.take n, none), b)

/-- The loop of `ReadByte`, followed by `UnreadByte` where the byte is not an
accepted one. -/
def skipByteFrom (accept : UInt8 → Bool) : (rounds : Nat) → Reader →
    Program S (Option Bool × Reader)
  | 0, b => return (none, b)
  | rounds + 1, b =>
      match b.unread, b.err with
      | byte :: rest, _ =>
          if accept byte then return (some true, { b with unread := rest })
          else return (some false, b)
      | [], some _ => return (none, { b with err := none })
      | [], none => do
          let b ← fill read b
          skipByteFrom accept rounds b

end Reader

/-! ### Programs over a buffered reader -/

/-- The methods that a parser of requests uses. -/
inductive Op where
  | readLine
  | peek (n : Nat)
  | buffered
  | skipByte (accept : UInt8 → Bool)

@[reducible] def Op.Reply : Op → Type
  | .readLine => Text × Bool × Option IoErr
  | .peek _ => Text × Option SliceErr
  | .buffered => Nat
  | .skipByte _ => Option Bool

@[reducible] def sig : Signature := ⟨Op, Op.Reply⟩

section Run

variable {S : Signature} {α : Type} (read : Nat → Program S Chunk)

def call : (op : Op) → Reader → Program S (op.Reply × Reader)
  | .readLine, b => readLine read b
  | .peek n, b => peek read n b
  | .buffered, b => return (b.unread.length, b)
  | .skipByte accept, b => skipByteFrom read accept 2 b

/-- A program that uses the reader, run on one. -/
def run : Program sig α → Reader → Program S (α × Reader)
  | .ret value, b => return (value, b)
  | .act op next, b => do
      let (reply, b) ← call read op b
      run (next reply) b

end Run

/-! ### What reading keeps -/

section Rules

variable {S : Signature} {V α : Type} {effect : (op : S.Op) → V → S.Reply op → Option V}
  {others : V → V → Prop} {guard : List (Event S) → V → S.Op → Prop}
  {read : Nat → Program S Chunk} {holds : Reader → V → Prop} {spent : V → Prop}
  {history : List (Event S)} {v : V} {b : Reader}

/-- The connection is read as the reader's invariant `holds` asks for. A `Read`
into a buffer that has room gives bytes or an error; where it gives no bytes the
source is `spent`. -/
structure Reads (effect : (op : S.Op) → V → S.Reply op → Option V) (others : V → V → Prop)
    (guard : List (Event S) → V → S.Op → Prop) (read : Nat → Program S Chunk)
    (holds : Reader → V → Prop) (spent : V → Prop) : Prop where
  read : ∀ history v b room, 0 < room → room ≤ b.left → holds b v →
    AlwaysIn effect others guard (fun _ v got => got.bytes.length ≤ room ∧
      (got.bytes = [] → got.err ≠ none ∧ spent v) ∧ holds (b.push got) v) history v (read room)
  limit : ∀ v b, b.left = 0 → holds b v → holds { b with err := some .eof } v ∧ spent v

theorem Reads.fill (hreads : Reads effect others guard read holds spent) (hb : holds b v)
    (hroom : b.unread.length < size) :
    AlwaysIn effect others guard (fun _ v b' => holds b' v ∧ b'.unread.length ≤ size ∧
      (b'.unread = [] → spent v)) history v (fill read b) := by
  have hlimited : AlwaysIn effect others guard (fun _ v got =>
      got.bytes.length ≤ size - b.unread.length ∧ (got.bytes = [] → got.err ≠ none ∧ spent v) ∧
        holds (b.push got) v) history v (limitedRead read b.left (size - b.unread.length)) := by
    unfold limitedRead
    split
    next hleft =>
      obtain ⟨heof, hspent⟩ := hreads.limit v b hleft hb
      refine ⟨Nat.zero_le _, fun _ => ⟨by rintro ⟨⟩, hspent⟩, ?_⟩
      simpa [Reader.push] using heof
    next hleft =>
      refine (hreads.read history v b _ ?_ (Nat.min_le_right ..) hb).imp ?_
      · exact Nat.lt_min.mpr ⟨Nat.sub_pos_of_lt hroom, Nat.pos_of_ne_zero hleft⟩
      · exact fun _ _ got ⟨hn, hgot⟩ => ⟨hn.trans (Nat.min_le_left ..), hgot⟩
  refine hlimited.bind fun history₁ v₁ got ⟨hn, hgot, hpush⟩ => ?_
  split
  next =>
    refine ⟨hpush, ?_, fun hempty => ?_⟩
    · simp only [Reader.push, List.length_append]
      omega
    · exact (hgot (List.append_eq_nil_iff.mp hempty).2).2
  next hagain =>
    rw [not_or, not_not, not_not] at hagain
    exact absurd hagain.1 (hgot hagain.2).1

/-- Bytes at the front of the buffer may be used, and the error be taken. -/
structure Uses (holds : Reader → V → Prop) : Prop where
  take : ∀ v b rest, rest <:+ b.unread → holds b v → holds { b with unread := rest } v
  clear : ∀ v b, holds b v → holds { b with err := none } v

/-- What holds after a method was called. -/
def Kept (holds : Reader → V → Prop) (v : V) (b : Reader) : Prop :=
  holds b v ∧ b.unread.length ≤ size

theorem Uses.kept (huses : Uses holds) (hb : Kept holds v b) {rest : Text}
    (hrest : rest <:+ b.unread) : Kept holds v { b with unread := rest } :=
  ⟨huses.take v b rest hrest hb.1, hrest.length_le.trans hb.2⟩

theorem Uses.cleared (huses : Uses holds) (hb : Kept holds v b) :
    Kept holds v { b with err := none } :=
  ⟨huses.clear v b hb.1, hb.2⟩

variable (hreads : Reads effect others guard read holds spent) (huses : Uses holds)

include hreads

theorem Reads.fill_kept (hb : Kept holds v b) (hroom : b.unread.length < size) :
    AlwaysIn effect others guard (fun _ v b' => Kept holds v b') history v (Bufio.fill read b) :=
  (hreads.fill hb.1 hroom).imp fun _ _ _ h => ⟨h.1, h.2.1⟩

theorem peekFill_always (n rounds : Nat) (hb : Kept holds v b) :
    AlwaysIn effect others guard (fun _ v b' => Kept holds v b') history v
      (peekFill read n rounds b) := by
  induction rounds generalizing history v b with
  | zero => exact hb
  | succ rounds ih =>
      unfold peekFill
      split
      next hmore => exact (hreads.fill_kept hb hmore.2.1).bind fun _ _ _ hb' => ih hb'
      next => exact hb

include huses

/-- What was used of a line is at the front of a buffer that is kept; the rest of
that buffer is what the reader still holds. -/
theorem readSliceFrom_always (delim : UInt8) (rounds : Nat) (hb : Kept holds v b) :
    AlwaysIn effect others guard (fun _ v r => Kept holds v r.2 ∧
      Kept holds v { r.2 with unread := r.1.1 ++ r.2.unread }) history v
      (readSliceFrom read delim rounds b) := by
  induction rounds generalizing history v b with
  | zero => exact ⟨huses.kept hb (List.nil_suffix), by simpa using hb⟩
  | succ rounds ih =>
      unfold readSliceFrom
      split
      next line rest hcut =>
        obtain ⟨hunread, -⟩ := Text.cut_eq_some hcut
        have hwhole : line ++ [delim] ++ rest = b.unread := by simp [hunread]
        exact ⟨huses.kept hb ⟨line ++ [delim], hwhole⟩, by simpa only [hwhole] using hb⟩
      next =>
        split
        next err herr =>
          refine ⟨huses.cleared (huses.kept hb List.nil_suffix), ?_⟩
          simpa using huses.cleared hb
        next =>
          split
          next => exact ⟨huses.kept hb List.nil_suffix, by simpa using hb⟩
          next hroom =>
            exact (hreads.fill_kept hb (not_le.mp hroom)).bind fun _ _ _ hb' => ih hb'

theorem readLine_always (hb : Kept holds v b) :
    AlwaysIn effect others guard (fun _ v r => Kept holds v r.2) history v (readLine read b) := by
  refine (readSliceFrom_always hreads huses 10 (size + 2) hb).bind ?_
  rintro history₁ v₁ ⟨⟨line, err⟩, b₁⟩ ⟨hkept, hwhole⟩
  dsimp only at hkept hwhole ⊢
  split
  next =>
    split
    next hlast =>
      obtain ⟨front, rfl⟩ := List.getLast?_eq_some_iff.mp hlast
      have hrest : 13 :: b₁.unread <:+ (front ++ [13]) ++ b₁.unread := ⟨front, by simp⟩
      exact huses.kept hwhole hrest
    next => exact hkept
  next => split <;> exact hkept
  next => split <;> exact hkept

theorem peek_always (n : Nat) (hb : Kept holds v b) :
    AlwaysIn effect others guard (fun _ v r => Kept holds v r.2) history v (peek read n b) := by
  refine (peekFill_always hreads n (size + 2) hb).bind fun _ _ b₁ hb₁ => ?_
  split
  next => exact hb₁
  next =>
    split
    next => exact huses.cleared hb₁
    next => exact hb₁

theorem skipByteFrom_always (accept : UInt8 → Bool) (rounds : Nat) (hb : Kept holds v b) :
    AlwaysIn effect others guard (fun _ v r => Kept holds v r.2) history v
      (skipByteFrom read accept rounds b) := by
  induction rounds generalizing history v b with
  | zero => exact hb
  | succ rounds ih =>
      unfold skipByteFrom
      split
      next byte rest hunread =>
        split
        next => exact huses.kept hb ⟨[byte], by simp [hunread]⟩
        next => exact hb
      next => exact huses.cleared hb
      next hunread _ =>
        have hroom : b.unread.length < size := by simp [hunread, size]
        exact (hreads.fill_kept hb hroom).bind fun _ _ _ hb' => ih hb'

/-- Whatever a program does with the reader, the invariant is kept. -/
theorem run_always (p : Program sig α) (hb : Kept holds v b) :
    AlwaysIn effect others guard (fun _ v r => Kept holds v r.2) history v (run read p b) := by
  induction p generalizing history v b with
  | ret value => exact hb
  | act op next ih =>
      have hcall : AlwaysIn effect others guard (fun _ v r => Kept holds v r.2) history v
          (call read op b) := by
        cases op with
        | readLine => exact readLine_always hreads huses hb
        | peek n => exact peek_always hreads huses n hb
        | buffered => exact hb
        | skipByte accept => exact skipByteFrom_always hreads huses accept 2 hb
      exact hcall.bind fun _ _ r hr => ih r.1 hr

end Rules

/-! ### Copying from a buffered reader -/

section WriteTo

variable {S : Signature} (read : Nat → Program S Chunk) (write : Text → Program S Written)

def writeBuf (b : Reader) : Program S (Option IoErr × Reader) := do
  let put ← write b.unread
  return (put.err, { b with unread := b.unread.drop put.n })

/-- The first `rounds` rounds of the loop of `WriteTo`. -/
def writeLoop : (rounds : Nat) → Reader → Program S CopyEnd
  | 0, _ => return .unfinished
  | rounds + 1, b =>
      if b.unread = [] then return .sourceOver (copyErr b.err)
      else do
        let (err, b) ← writeBuf write b
        if err ≠ none then return .writeFailed
        else do
          let b ← fill read b
          writeLoop rounds b

/-- The first step of `WriteTo`: what is in the buffer. -/
def writePending (b : Reader) : Program S (Option IoErr × Reader) :=
  if b.unread ≠ [] then writeBuf write b else return (none, b)

def fillRoom (b : Reader) : Program S Reader :=
  if b.unread.length < size then fill read b else return b

/-- `WriteTo`, and so `io.Copy` from a buffered reader. -/
def writeTo (rounds : Nat) (b : Reader) : Program S CopyEnd := do
  let (err, b) ← writePending write b
  if err ≠ none then return .writeFailed
  else do
    let b ← fillRoom read b
    writeLoop read write rounds b

variable {read write} {V : Type} {effect : (op : S.Op) → V → S.Reply op → Option V}
  {others : V → V → Prop} {guard : List (Event S) → V → S.Op → Prop}
  {holds : Reader → V → Prop} {spent broken : V → Prop}
  (hreads : Reads effect others guard read holds spent)
  (hwrite : ∀ history v b, b.unread ≠ [] → holds b v →
    AlwaysIn effect others guard (fun _ v put => (put.err ≠ none → broken v) ∧
      (put.err = none → put.n = b.unread.length ∧ holds { b with unread := [] } v))
      history v (write b.unread))

include hwrite

theorem writeBuf_always {history : List (Event S)} {v : V} {b : Reader} (hunread : b.unread ≠ [])
    (hb : holds b v) :
    AlwaysIn effect others guard (fun _ v r => (r.1 ≠ none → broken v) ∧
      (r.1 = none → r.2.unread = [] ∧ holds r.2 v)) history v (writeBuf write b) := by
  refine (hwrite history v b hunread hb).bind fun _ _ put hput => ⟨hput.1, fun hnone => ?_⟩
  obtain ⟨hn, hb'⟩ := hput.2 hnone
  have hempty : b.unread.drop put.n = [] := by rw [hn, List.drop_length]
  exact ⟨hempty, hempty ▸ hb'⟩

include hreads

theorem writeLoop_always (rounds : Nat) {history : List (Event S)} {v : V} {b : Reader}
    (hb : holds b v) (hspent : b.unread = [] → spent v) :
    AlwaysIn effect others guard (fun _ v ended =>
      (∀ err, ended = .sourceOver err → ∃ b, holds b v ∧ b.unread = [] ∧ spent v) ∧
      (ended = .writeFailed → broken v)) history v (writeLoop read write rounds b) := by
  induction rounds generalizing history v b with
  | zero => exact ⟨by rintro _ ⟨⟩, by rintro ⟨⟩⟩
  | succ rounds ih =>
      unfold writeLoop
      split
      next hempty => exact ⟨fun _ _ => ⟨b, hb, hempty, hspent hempty⟩, by rintro ⟨⟩⟩
      next hunread =>
        refine (writeBuf_always hwrite hunread hb).bind ?_
        rintro history₁ v₁ ⟨err, b₁⟩ ⟨hfailed, hwell⟩
        dsimp only at hfailed hwell ⊢
        split
        next herr => exact ⟨by rintro _ ⟨⟩, fun _ => hfailed herr⟩
        next herr =>
          obtain ⟨hempty, hb₁⟩ := hwell (not_not.mp herr)
          have hroom : b₁.unread.length < size := by simp [hempty, size]
          exact (hreads.fill hb₁ hroom).bind fun _ _ b₂ ⟨hb₂, _, hspent₂⟩ => ih hb₂ hspent₂

/-- The rule of `WriteTo`: the source was read to its end and everything was
written, or a write failed. -/
theorem writeTo_always (rounds : Nat) {history : List (Event S)} {v : V} {b : Reader}
    (hb : holds b v) :
    AlwaysIn effect others guard (fun _ v ended =>
      (∀ err, ended = .sourceOver err → ∃ b, holds b v ∧ b.unread = [] ∧ spent v) ∧
      (ended = .writeFailed → broken v)) history v (writeTo read write rounds b) := by
  have hfirst : AlwaysIn effect others guard (fun _ v r => (r.1 ≠ none → broken v) ∧
      (r.1 = none → r.2.unread = [] ∧ holds r.2 v)) history v
      (writePending write b) := by
    unfold writePending
    split
    next hunread => exact writeBuf_always hwrite hunread hb
    next hempty => exact ⟨fun h => absurd rfl h, fun _ => ⟨not_not.mp hempty, hb⟩⟩
  refine hfirst.bind ?_
  rintro history₁ v₁ ⟨err, b₁⟩ ⟨hfailed, hwell⟩
  dsimp only at hfailed hwell ⊢
  split
  next herr => exact ⟨by rintro _ ⟨⟩, fun _ => hfailed herr⟩
  next herr =>
    obtain ⟨hempty, hb₁⟩ := hwell (not_not.mp herr)
    have hroom : b₁.unread.length < size := by simp [hempty, size]
    rw [fillRoom, if_pos hroom]
    exact (hreads.fill hb₁ hroom).bind fun _ _ b₂ ⟨hb₂, _, hspent₂⟩ =>
      writeLoop_always hreads hwrite rounds hb₂ hspent₂

end WriteTo

end Bufio

end Go
