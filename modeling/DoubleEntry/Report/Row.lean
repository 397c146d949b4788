import DoubleEntry.Ledger

/-! # Rows of debits and credits

The reports list accounts in the order of their names, each with a debit and a
credit. A balance stands in one of the two columns; the movements of an account
are added up in both.
-/

namespace DoubleEntry

structure Row where
  account : String
  debit : Int
  credit : Int
  deriving Repr, DecidableEq

namespace Row

/-- What a signed value is as a debit. -/
def debitOf (signed : Int) : Int := max signed 0

/-- What a signed value is as a credit. -/
def creditOf (signed : Int) : Int := max (-signed) 0

def ofBalance (account : String) (signed : Int) : Row :=
  ⟨account, debitOf signed, creditOf signed⟩

-- Sums begin with the numeral, whatever other zero is at hand.
local instance : Zero Int := ⟨0⟩

/-- The row of some movements: debits and credits, each added up. -/
def ofLegs (account : String) (legs : List Leg) : Row :=
  ⟨account, (legs.map fun leg => debitOf leg.amount.signed).sum,
    (legs.map fun leg => creditOf leg.amount.signed).sum⟩

def debits (rows : List Row) : Int := (rows.map (·.debit)).sum

def credits (rows : List Row) : Int := (rows.map (·.credit)).sum

end Row

namespace Account

def openingRow (a : Account) : Row := .ofBalance a.name a.opening.signed

def transactionRow (a : Account) : Row := .ofLegs a.name a.ownLegs

def closingRow (a : Account) : Row := .ofBalance a.name a.closing.signed

end Account

namespace Ledger

/-- The accounts in the order of their names. Accounts of one name stay in the
    order in which they were opened. -/
def sorted (ledger : Ledger) : List Account :=
  ledger.accounts.mergeSort fun a b => a.name ≤ b.name

def openingRows (ledger : Ledger) : List Row := ledger.sorted.map Account.openingRow

def transactionRows (ledger : Ledger) : List Row := ledger.sorted.map Account.transactionRow

def closingRows (ledger : Ledger) : List Row := ledger.sorted.map Account.closingRow

end Ledger

end DoubleEntry
