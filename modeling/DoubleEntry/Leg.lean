import DoubleEntry.Amount
import DoubleEntry.Text.Position

/-! # Legs

A leg is one movement: an amount, and the account that it moves. A positive sum
of legs means that their debits outweigh their credits.
-/

namespace DoubleEntry

structure Leg where
  account : String
  amount : Amount
  span : Span
  deriving Repr, DecidableEq, Inhabited

namespace Leg

/-- How many characters a leg leaves for its amount. -/
def amountWidth : Nat := 14

/-- The amount, moved to the right of its field, and the account. -/
def display (leg : Leg) : String :=
  String.ofList (leg.amount.display.toList.leftpad amountWidth ' ') ++ " " ++ leg.account

-- Sums begin with the numeral, whatever other zero is at hand.
local instance : Zero Int := ⟨0⟩

def sum (legs : List Leg) : Int := (legs.map (·.amount.signed)).sum

end Leg

end DoubleEntry
