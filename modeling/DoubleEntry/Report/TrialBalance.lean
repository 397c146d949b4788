import DoubleEntry.Report.Layout
import DoubleEntry.Report.Row

/-! # The trial balance

A table with one line for each account, in which every column is a pair of a
debit and a credit. The last line adds up the columns; in sound books the two
sums of a column are the same.
-/

namespace DoubleEntry

inductive TrialBalance where
  | opening
  | closing
  | openingClosing
  | full
  deriving Repr, DecidableEq

namespace TrialBalance

def words : List (String × TrialBalance) :=
  [("o", opening), ("c", closing), ("oc", openingClosing), ("otc", full)]

def ofText? (text : String) : Option TrialBalance := words.lookup text

def refusal (text : String) : String :=
  "unknown trial balance kind `" ++ text ++ "`, expect o, c, oc or otc"

/-- A column: its heading, and what it shows of an account. -/
structure Column where
  heading : String
  row : Account → Row

/-- A date as a heading, which is empty without a date. -/
def heading (date : Option Date) : String := (date.map Date.text).getD ""

def columns (ledger : Ledger) : TrialBalance → List Column
  | opening => [⟨heading ledger.start, Account.openingRow⟩]
  | closing => [⟨heading ledger.finish, Account.closingRow⟩]
  | openingClosing =>
    [⟨heading ledger.start, Account.openingRow⟩, ⟨heading ledger.finish, Account.closingRow⟩]
  | full =>
    [⟨heading ledger.start, Account.openingRow⟩, ⟨"Transactions", Account.transactionRow⟩,
     ⟨heading ledger.finish, Account.closingRow⟩]

def Column.cell (column : Column) (a : Account) : List String :=
  Layout.money (column.row a).debit (column.row a).credit

def Column.totals (column : Column) (accounts : List Account) : List String :=
  Layout.money (Row.debits (accounts.map column.row)) (Row.credits (accounts.map column.row))

def table (ledger : Ledger) (kind : TrialBalance) : List (List String) :=
  let columns := kind.columns ledger
  let accounts := ledger.sorted
  [("Account" :: columns.flatMap fun column => [column.heading, ""]),
   ("" :: columns.flatMap fun _ => ["Debit", "Credit"])] ++
  accounts.map (fun a => a.name :: columns.flatMap (·.cell a)) ++
  [("Totals" :: columns.flatMap (·.totals accounts))]

end TrialBalance

def Ledger.trialBalance (ledger : Ledger) (kind : TrialBalance) : String :=
  Layout.lines ("Trial Balance" :: (kind.table ledger).map Layout.fields)

end DoubleEntry
