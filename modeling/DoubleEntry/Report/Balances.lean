import DoubleEntry.Report.Layout
import DoubleEntry.Report.Row

/-! # The report of balances

One line for each account with its name and its signed closing balance. Names
begin in the first column and balances end in the last one.
-/

namespace DoubleEntry.Ledger

def balanceTexts (ledger : Ledger) : List (String × String) :=
  ledger.sorted.map fun a => (a.name, Money.format a.closing.signed)

/-- The largest of some numbers, zero if there are none. -/
def widest (widths : List Nat) : Nat := widths.foldl max 0

def balanceLine (nameWidth valueWidth : Nat) (name value : String) : String :=
  String.ofList (name.toList.rightpad nameWidth ' ' ++
    ' ' :: ' ' :: value.toList.leftpad valueWidth ' ')

/-- The closing balances of all accounts. The names are filled up to as many
    characters as the longest of them takes bytes. -/
def balances (ledger : Ledger) : String :=
  let texts := ledger.balanceTexts
  let nameWidth := widest (texts.map (·.1.utf8ByteSize))
  let valueWidth := widest (texts.map (·.2.length))
  Layout.lines (texts.map fun (name, value) => balanceLine nameWidth valueWidth name value)

end DoubleEntry.Ledger
