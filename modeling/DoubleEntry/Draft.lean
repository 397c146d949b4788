import DoubleEntry.Visit

/-! # Drafts of the books

A draft is what all files say together, before anything is checked: the chart of
accounts, and the entries in the order of their dates.
-/

namespace DoubleEntry

/-- Books that have been read but not checked. -/
structure Draft where
  /-- The file that was read first. -/
  file : String
  chart : Chart
  /-- The entries in the order of their dates. -/
  pending : List Entry
  finish : Option Date
  deriving Repr, DecidableEq

namespace Draft

/-- The draft of all that has been read. Entries of one day stay in the order in
    which they were read. -/
def ofBooks (file : String) (books : Books) : Draft :=
  let pending := books.pending.mergeSort fun a b => a.date ≤ b.date
  ⟨file, books.chart, pending, pending.getLast?.map (·.date)⟩

def read (files : Files) (root : String) : Traced Draft := do
  let books ← Books.read files files.nesting ⟨root, Span.startOf root, .ledger⟩ .empty
  return ofBooks root books

end Draft

end DoubleEntry
