import DoubleEntry.Date
import DoubleEntry.Leg

/-! # Journal entries

An entry is a day and the legs that were posted together on it. In sound books
the legs of every entry add up to zero.
-/

namespace DoubleEntry

/-- The legs posted together on one day. -/
structure Entry where
  date : Date
  legs : List Leg
  span : Span
  deriving Repr, DecidableEq

namespace Entry

def display (entry : Entry) : String :=
  entry.legs.foldl (fun text leg => text ++ "\n  " ++ leg.display) entry.date.text

def touches (entry : Entry) (account : String) : Bool :=
  entry.legs.any (·.account = account)

end Entry

end DoubleEntry
