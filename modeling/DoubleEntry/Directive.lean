import DoubleEntry.Text.Blank

/-! # Directives

The words in small letters that begin a statement.
-/

namespace DoubleEntry

/-- The words that begin a statement. -/
inductive Directive where
  /-- The chart of accounts with its opening balances follows. -/
  | openLedger
  /-- From here on every posting is balanced on one account. -/
  | useAccount
  /-- Another file is read in this place. -/
  | inclusion
  /-- Another file is read in this place, as a journal of its own. -/
  | journal
  deriving Repr, DecidableEq

namespace Directive

def words : List (String × Directive) :=
  [("open ledger", openLedger), ("use account", useAccount), ("include", inclusion),
   ("journal", journal)]

/-- The directive that a text is, white space at its end aside. -/
def ofText? (text : List Char) : Option Directive :=
  words.lookup (String.ofList (Blank.trimEnd text))

end Directive

end DoubleEntry
