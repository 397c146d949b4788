import DoubleEntry.Progress
import DoubleEntry.Script
import DoubleEntry.Traced

/-! # Reading files that ask for files

The statements of a file are run one after the other. Those that ask for another
file have it read in their place: an inclusion goes on with the books as they
are, and a journal begins with no entries, which are then put behind the others.
-/

namespace DoubleEntry

structure Visit where
  path : String
  asker : Span
  scope : Scope
  deriving Repr, DecidableEq

namespace Statement

/-- What a statement in a file does. `read` is how other files are read. -/
def run (read : Visit → Books → Traced Books) (file : String) (scope : Scope) (p : Progress) :
    Statement → Traced Progress
  | .date text span => .ofExcept (p.await text span)
  | .postings first legs stop => .ofExcept (p.enter first legs stop)
  | .openLedger keyword legs stop => do
    let opened ← Traced.ofExcept (p.openChart scope keyword legs stop)
    Traced.announce (.opened opened.books.chart.accounts.length file)
    return opened
  | .useAccount account span => return { p with contra := some (account, span) }
  | .inclusion path span => do
    let books ← read ⟨Path.resolve file path, span, scope⟩ p.books
    return { p with books := books }
  | .journal path span => do
    let target := Path.resolve file path
    let inner ← read ⟨target, span, .journal⟩ { p.books with pending := [] }
    Traced.announce (.contributed target inner.pending.length)
    return { p with books := { inner with pending := p.books.pending ++ inner.pending } }

end Statement

namespace Script

def run (script : Script) (read : Visit → Books → Traced Books) (file : String) (scope : Scope)
    (books : Books) : Traced Books := do
  let p ← script.statements.foldlM (Statement.run read file scope) (Progress.begin books)
  match script.ending with
  | .error flaw => Traced.ofExcept (.error (p.faultOf scope flaw))
  | .ok lastEnd => Traced.ofExcept (p.finish file lastEnd)

end Script

namespace Books

/-- Read a file and all files it asks for, at most `depth` of them open at once. -/
def read (files : Files) : Nat → Visit → Books → Traced Books
  | 0, visit, _ => .ofExcept (.error ⟨.nestedTooDeep visit.path, visit.asker⟩)
  | depth + 1, visit, books => do
    Traced.announce (.parsing visit.path)
    match files.read visit.path with
    | .error reason => Traced.ofExcept (.error ⟨.unreadable visit.path reason, visit.asker⟩)
    | .ok text =>
      (Script.ofText visit.path text).run (read files depth) visit.path visit.scope books

end Books

end DoubleEntry
