import DoubleEntry.Draft

/-! # Ledgers

A ledger is a draft that has been checked. The opening balances add up to zero,
every entry is on accounts of the chart and adds up to zero, and it has been
posted: it stands in the history of each account it touches. The first thing
that is wrong ends the check.
-/

namespace DoubleEntry

structure Ledger where
  start : Option Date
  finish : Option Date
  /-- The accounts in the order in which they were opened. -/
  accounts : List Account
  deriving Repr, DecidableEq

namespace Account

-- Sums begin with the numeral, whatever other zero is at hand.
local instance : Zero Int := ⟨0⟩

def total (balance : Account → Amount) (accounts : List Account) : Int :=
  (accounts.map fun a => (balance a).signed).sum

end Account

namespace Entry

/-- The first leg on an account that the chart does not have. -/
def stray? (accounts : List Account) (entry : Entry) : Option Leg :=
  entry.legs.find? fun leg => accounts.all (·.name ≠ leg.account)

/-- Put an entry into the history of each account it touches. Of several
    accounts under one name the last one gets it. -/
def record (entry : Entry) : List Account → List Account
  | [] => []
  | a :: rest =>
    if entry.touches a.name ∧ rest.all (·.name ≠ a.name) then
      { a with history := a.history ++ [entry] } :: record entry rest
    else a :: record entry rest

/-- Post an entry, unless it has a leg on an unknown account or its legs do not
    add up to zero. -/
def post (accounts : List Account) (entry : Entry) : Except Fault (List Account) :=
  match entry.stray? accounts with
  | some leg => .error ⟨.unknownAccount leg.account, leg.span⟩
  | none =>
    if Leg.sum entry.legs = 0 then .ok (entry.record accounts)
    else .error ⟨.unbalanced entry.date (Leg.sum entry.legs), entry.span⟩

end Entry

namespace Account

def balance (a : Account) : Int := a.opening.signed + Leg.sum a.ownLegs

/-- Enter the closing balance that follows from the history. -/
def close (a : Account) : Except Fault Account :=
  match Amount.ofSigned? a.balance with
  | none => .error ⟨.closingOutOfRange a.name a.balance, a.span⟩
  | some amount => .ok { a with closing := amount.toSide a.category.naturalSide }

end Account

namespace Draft

/-- What the chart as a whole is reported at: where it was opened, or else the
    beginning of the first file. -/
def place (d : Draft) : Span := d.chart.span.getD (Span.startOf d.file)

def check (d : Draft) : Except Fault Ledger := do
  let opening := Account.total (·.opening) d.chart.accounts
  unless opening = 0 do throw ⟨.openingMismatch opening, d.place⟩
  let posted ← d.pending.foldlM Entry.post d.chart.accounts
  let closed ← posted.mapM Account.close
  let closing := Account.total (·.closing) closed
  unless closing = 0 do throw ⟨.closingMismatch closing, d.place⟩
  return ⟨d.chart.start, d.finish, closed⟩

end Draft

namespace Ledger

def ofDraft (d : Draft) : Traced Ledger := do
  let ledger ← Traced.ofExcept d.check
  Traced.announce (.posted d.pending.length ledger.accounts.length)
  return ledger

def read (files : Files) (root : String) : Traced Ledger := do
  let draft ← Draft.read files root
  ofDraft draft

def account? (ledger : Ledger) (name : String) : Option Account :=
  ledger.accounts.find? (·.name = name)

end Ledger

end DoubleEntry
