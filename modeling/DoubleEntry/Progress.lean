import DoubleEntry.Chart
import DoubleEntry.Statement

/-! # What has been read so far

`Books` is what all files have said so far. While a file is being read there is
more to keep in mind: a date that waits for its postings, and the account that
balances them. Both end with the file, and `Progress` keeps them beside the
books.
-/

namespace DoubleEntry

/-- Put an entry behind others that stand in the order of their dates. -/
def Entry.append (pending : List Entry) (entry : Entry) : Except Fault (List Entry) :=
  match pending.getLast? with
  | none => .ok [entry]
  | some last =>
    if last.date ≤ entry.date then .ok (pending ++ [entry])
    else .error ⟨.outOfSequence last.date entry.date, entry.span⟩

/-- What the files read so far have said. -/
structure Books where
  chart : Chart
  /-- The entries in the order in which they were read. -/
  pending : List Entry
  deriving Repr, DecidableEq

def Books.empty : Books := ⟨.empty, []⟩

/-- Whether a file is read as a part of the books or of a journal, which may not
    open the chart. -/
inductive Scope where
  | ledger
  | journal
  deriving Repr, DecidableEq

/-- What has been read while one file is being read. -/
structure Progress where
  books : Books
  /-- The date that waits for its postings, and where it stands. -/
  awaiting : Option (Date × Position)
  /-- The account that balances every posting, and the statement that says so. -/
  contra : Option (String × Span)
  deriving Repr, DecidableEq

namespace Progress

def begin (books : Books) : Progress := ⟨books, none, none⟩

def await (p : Progress) (text : List Char) (span : Span) : Except Fault Progress :=
  match p.awaiting with
  | some (date, _) => .error ⟨.dateAfterDate date text, span⟩
  | none =>
    match Date.ofText? text with
    | none => .error ⟨.invalidDate text, span⟩
    | some date =>
      .ok { p with
        awaiting := some (date, span.start)
        books := { p.books with chart := p.books.chart.note date } }

/-- The date that postings belong to, whose first number stands at `first`. -/
def awaited (p : Progress) (first : Span) : Except Fault (Date × Position) :=
  match p.awaiting with
  | none => .error ⟨.postingsWithoutDate, first⟩
  | some waiting => .ok waiting

/-- The entries that postings make: one of all legs or, with a contra account,
    one for each leg, which is balanced on that account. -/
def entries (contra : Option (String × Span)) (date : Date) (legs : List Leg) (span : Span) :
    List Entry :=
  match contra with
  | none => [⟨date, legs, span⟩]
  | some (account, place) =>
    legs.map fun leg => ⟨date, [leg, ⟨account, leg.amount.opposite, place⟩], span⟩

/-- Enter postings that end at `stop` under the date that waits for them. -/
def enter (p : Progress) (first : Span) (legs : List Leg) (stop : Position) :
    Except Fault Progress := do
  let (date, start) ← p.awaited first
  let new := entries p.contra date legs ⟨first.file, start, stop⟩
  let pending ← new.foldlM Entry.append p.books.pending
  return { p with awaiting := none, books := { p.books with pending := pending } }

/-- Whether the chart may be opened by the statement that begins with `keyword`. -/
def mayOpen (p : Progress) (scope : Scope) (keyword : Span) : Except Fault Unit :=
  if scope = .journal then .error ⟨.openInJournal, keyword⟩
  else if p.books.chart.isOpened then .error ⟨.reopened, keyword⟩
  else .ok ()

/-- Open the chart with the accounts and balances that some legs give. -/
def openChart (p : Progress) (scope : Scope) (keyword : Span) (legs : List Leg)
    (stop : Position) : Except Fault Progress := do
  p.mayOpen scope keyword
  let chart ← legs.foldlM Chart.openAccount p.books.chart
  let opened := { chart with span := some (keyword.upTo stop) }
  return { p with books := { p.books with chart := opened } }

/-- The fault that a flaw amounts to: some other fault may come before it. -/
def faultOf (p : Progress) (scope : Scope) : Flaw → Fault
  | .plain fault => fault
  | .inPostings first fault =>
    match p.awaited first with
    | .error earlier => earlier
    | .ok _ => fault
  | .inOpening keyword fault =>
    match p.mayOpen scope keyword with
    | .error earlier => earlier
    | .ok _ => fault

/-- What a file has said once its last token has been read. No date may wait. -/
def finish (p : Progress) (file : String) (lastEnd : Position) : Except Fault Books :=
  match p.awaiting with
  | some (date, start) => .error ⟨.dateWithoutPostings date, file, start, lastEnd⟩
  | none => .ok p.books

end Progress

end DoubleEntry
