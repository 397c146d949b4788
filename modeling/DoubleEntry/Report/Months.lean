import DoubleEntry.Report.Layout
import DoubleEntry.Report.Row
import DoubleEntry.Text.Ascending

/-! # The report of months

For every month with a posting, the accounts that were posted to and what was
posted to them, debits and credits apart.
-/

namespace DoubleEntry

/-- A leg in the history of its account, with the month it belongs to. -/
structure Movement where
  month : String
  account : String
  leg : Leg
  deriving Repr, DecidableEq

namespace Movement

def ofAccount (a : Account) : List Movement :=
  a.history.flatMap fun entry =>
    (a.legsIn entry).map fun leg => ⟨entry.date.monthText, a.name, leg⟩

def inMonth (month : String) (movements : List Movement) : List Movement :=
  movements.filter (·.month = month)

/-- One row for each account that moved, in the order of their names. -/
def rows (movements : List Movement) : List Row :=
  (Ascending.ofList (movements.map (·.account))).map fun name =>
    .ofLegs name ((movements.filter (·.account = name)).map (·.leg))

end Movement

namespace Ledger

def movements (ledger : Ledger) : List Movement := ledger.accounts.flatMap Movement.ofAccount

def monthRows (ledger : Ledger) : List (String × List Row) :=
  let movements := ledger.movements
  (Ascending.ofList (movements.map (·.month))).map fun month =>
    (month, Movement.rows (Movement.inMonth month movements))

def monthLines (month : String) (rows : List Row) : List (List String) :=
  [month, "Debit", "Credit"] ::
    rows.map fun row => row.account :: Layout.money row.debit row.credit

def months (ledger : Ledger) : String :=
  Layout.lines ((ledger.monthRows.flatMap fun (month, rows) => monthLines month rows).map
    Layout.fields)

end Ledger

end DoubleEntry
