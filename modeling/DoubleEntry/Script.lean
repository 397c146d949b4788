import DoubleEntry.Statement
import DoubleEntry.Text.Lines

/-! # Scripts

The statements of a whole file, one after the other, together with what ends
them: the end of the file, or a flaw behind which nothing can be read.
-/

namespace DoubleEntry

/-- All that a file says: its statements up to its end, given as the place where
    the last token ends, or up to a flaw. -/
structure Script where
  statements : List Statement
  ending : Except Flaw Position

namespace Script

/-- Read statements up to the end of a file or up to a flaw. -/
def read (c : Cursor) : Script :=
  if c.atEnd then ⟨[], .ok c.lastEnd⟩
  else
    match _h : Statement.read c with
    | .error flaw => ⟨[], .error flaw⟩
    | .ok (s, rest) =>
      let behind := read rest
      ⟨s :: behind.statements, behind.ending⟩
termination_by c.tokens.length
decreasing_by exact Statement.read_shorter _h

def ofText (file text : String) : Script :=
  read (Cursor.ofText file (Lines.unify text.toList))

end Script

end DoubleEntry
