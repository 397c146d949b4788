import DoubleEntry.Date
import DoubleEntry.Files
import DoubleEntry.Lexeme
import DoubleEntry.Text.Escaped
import DoubleEntry.Text.Position

/-! # Faults

Whatever is wrong with a set of books ends the work on it with one `Fault`: a
cause and the place in a file that it belongs to. The wording of every cause is
in `Cause.message`.
-/

namespace DoubleEntry

/-- The kinds of causes that are told apart in front of a message. -/
inductive FaultKind where
  | io
  | lex
  | syntactic
  | sequence
  | duplicate
  | account
  | notBalanced
  | mismatch
  deriving Repr, DecidableEq

def FaultKind.name : FaultKind → String
  | io => "Io"
  | lex => "Lex"
  | syntactic => "Syntax"
  | sequence => "Sequence"
  | duplicate => "Duplicate"
  | account => "Account"
  | notBalanced => "NotBalanced"
  | mismatch => "Mismatch"

/-- What can be wrong with a set of books. -/
inductive Cause where
  | unreadable (path : String) (reason : ReadError)
  /-- More files ask for each other than may be open at once. -/
  | nestedTooDeep (path : String)
  | unterminatedString (line : List Char)
  /-- Digits are neither a date nor a number. -/
  | malformedNumeric (text : List Char)
  /-- Nothing begins with this character. -/
  | unrecognized (c : Char) (line : List Char)
  | unexpectedEnd
  | expected (wanted found : Lexeme.Kind) (text : List Char)
  /-- No statement begins with this token. -/
  | unexpectedToken (kind : Lexeme.Kind) (text : List Char)
  | unknownDirective (words : List Char)
  | dateAfterDate (pending : Date) (text : List Char)
  | invalidDate (text : List Char)
  | dateWithoutPostings (date : Date)
  | postingsWithoutDate
  | invalidAmount (text : List Char)
  | amountOutOfRange (text : List Char)
  | openInJournal
  | reopened
  | unknownCategory (account : String)
  | alreadyOpened (account : String) (place : Span)
  /-- Postings are dated before the postings ahead of them. -/
  | outOfSequence (last next : Date)
  | unknownAccount (account : String)
  | unbalanced (date : Date) (difference : Int)
  | openingMismatch (difference : Int)
  | closingOutOfRange (account : String) (balance : Int)
  | closingMismatch (difference : Int)
  deriving Repr, DecidableEq

namespace Cause

def kind : Cause → FaultKind
  | unreadable .. | nestedTooDeep .. => .io
  | unterminatedString .. | malformedNumeric .. | unrecognized .. => .lex
  | unexpectedEnd | expected .. | unexpectedToken .. | unknownDirective .. | dateAfterDate ..
  | invalidDate .. | dateWithoutPostings .. | postingsWithoutDate | invalidAmount ..
  | amountOutOfRange .. | openInJournal | reopened | unknownCategory .. => .syntactic
  | outOfSequence .. => .sequence
  | alreadyOpened .. => .duplicate
  | unknownAccount .. => .account
  | unbalanced .. => .notBalanced
  | openingMismatch .. | closingOutOfRange .. | closingMismatch .. => .mismatch

def message : Cause → String
  | unreadable path reason => "Couldn't read " ++ path ++ ": " ++ reason.message
  | nestedTooDeep path => "Couldn't read " ++ path ++ ": too many files ask for each other"
  | unterminatedString line => "Unterminated string: " ++ String.ofList line
  | malformedNumeric text => "Malformed number or date: `" ++ String.ofList text ++ "`."
  | unrecognized c line =>
    "Unrecognized character `" ++ String.ofList [c] ++ "` in `" ++ String.ofList line ++ "`."
  | unexpectedEnd => "Unexpected end of file."
  | expected wanted found text =>
    "Expect " ++ wanted.name ++ ", found " ++ found.name ++ "(" ++
      String.ofList (Escaped.shown text) ++ ")."
  | unexpectedToken kind text =>
    "Unexpected token " ++ kind.name ++ "(" ++ String.ofList text ++ ")."
  | unknownDirective words => "Unknown directive `" ++ String.ofList words ++ "`."
  | dateAfterDate pending text =>
    "Expect postings after " ++ pending.text ++ ", found date " ++ String.ofList text ++ "."
  | invalidDate text => "Invalid date: " ++ String.ofList text ++ "."
  | dateWithoutPostings date => "Date " ++ date.text ++ " has no postings."
  | postingsWithoutDate => "Postings without a date."
  | invalidAmount text => "Invalid amount: " ++ String.ofList text ++ "."
  | amountOutOfRange text => "Amount out of range: " ++ String.ofList text ++ "."
  | openInJournal => "Cannot open ledger inside a journal."
  | reopened => "Cannot reopen ledger."
  | unknownCategory account => "Account " ++ account ++ " has no known category."
  | alreadyOpened account place =>
    "Account " ++ account ++ " has been opened at " ++ place.display ++ "."
  | outOfSequence last next =>
    "Postings not in sequence: " ++ last.text ++ " > " ++ next.text ++ "."
  | unknownAccount account => "Unknown account " ++ account ++ "."
  | unbalanced date difference =>
    "Unbalanced entry on " ++ date.text ++ ". Diff: " ++ toString difference
  | openingMismatch difference => "Opening balance mismatch: " ++ toString difference
  | closingOutOfRange account balance =>
    "Closing balance of " ++ account ++ " is out of range: " ++ toString balance
  | closingMismatch difference => "Closing balance mismatch: " ++ toString difference

end Cause

/-- A cause and where it was found. -/
structure Fault where
  cause : Cause
  span : Span
  deriving Repr, DecidableEq

/-- A fault as it is reported: its kind, its message and its place. -/
def Fault.display (f : Fault) : String :=
  f.cause.kind.name ++ " error: " ++ f.cause.message ++ "\n  " ++ f.span.display

end DoubleEntry
