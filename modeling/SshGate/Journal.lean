import SshGate.Wire.JournalFields

/-! # Log lines for the journal

`journalEntry` builds the datagram of one log line. The fields it is read back
as are those of the log line, whatever bytes the line holds.
-/

namespace SshGate

open Go Wire

/-- `zerolog.Level` -/
abbrev Level := Int8

namespace Level

def trace : Level := -1
def debug : Level := 0
def info : Level := 1
def warn : Level := 2
def error : Level := 3
def fatal : Level := 4
def panic : Level := 5

end Level

/-- Syslog priority of a level. Fatal and panic stop at crit. -/
def journalPriority (level : Level) : Int :=
  if level = Level.trace ∨ level = Level.debug then 7
  else if level = Level.info then 6
  else if level = Level.warn then 4
  else if level = Level.error then 3
  else if level = Level.fatal ∨ level = Level.panic then 2
  else 6

/-- One native protocol datagram. -/
def journalEntry (ident : Text) (level : Level) (p : Text) : Text :=
  let msg := p.trimSuffix (str "\n")
  str "PRIORITY=" ++ Text.itoa (journalPriority level) ++
    str "\nSYSLOG_IDENTIFIER=" ++ ident ++
    str "\nMESSAGE\n" ++ encodeLE 8 msg.length ++ msg ++ str "\n"

theorem journalPriority_line (level : Level) : 10 ∉ Text.itoa (journalPriority level) := by
  unfold journalPriority
  repeat' split
  all_goals decide

/-- At most one trailing newline is dropped. -/
def IsMessage (p msg : Text) : Prop := p = msg ++ [10] ∨ p = msg ∧ ¬[10] <:+ p

theorem isMessage_trimSuffix (p : Text) : IsMessage p (p.trimSuffix (str "\n")) := by
  by_cases hline : [10] <:+ p
  · obtain ⟨msg, rfl⟩ := hline
    exact .inl (congrArg (· ++ [10]) (Text.trimSuffix_append msg [10]).symm)
  · exact .inr ⟨(Text.trimSuffix_of_not_suffix hline).symm, hline⟩

theorem IsMessage.length_le {p msg : Text} (hmessage : IsMessage p msg) :
    msg.length ≤ p.length := by
  rcases hmessage with rfl | ⟨rfl, -⟩
  · simp
  · exact Nat.le_refl _

end SshGate
