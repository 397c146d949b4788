import DoubleEntry.Account
import DoubleEntry.Fault

/-! # The chart of accounts

The accounts are opened together in one place, each under a name of its own. The
chart also keeps the first date that is met in any file.
-/

namespace DoubleEntry

structure Chart where
  /-- The accounts in the order in which they were opened. -/
  accounts : List Account
  start : Option Date
  span : Option Span
  deriving Repr, DecidableEq

namespace Chart

def empty : Chart := ⟨[], none, none⟩

def isOpened (chart : Chart) : Bool := chart.span.isSome || !chart.accounts.isEmpty

def find? (chart : Chart) (name : String) : Option Account :=
  chart.accounts.find? (·.name = name)

/-- Open one account with the balance that a leg gives. Its name has to tell its
    category and has to be new. -/
def openAccount (chart : Chart) (leg : Leg) : Except Fault Chart :=
  match Category.ofAccount? leg.account with
  | none => .error ⟨.unknownCategory leg.account, leg.span⟩
  | some category =>
    match chart.find? leg.account with
    | some existing => .error ⟨.alreadyOpened leg.account existing.span, leg.span⟩
    | none =>
      let account := Account.opened leg.account category leg.amount leg.span
      .ok { chart with accounts := chart.accounts ++ [account] }

/-- Take note of a date: the first one stays. -/
def note (chart : Chart) (date : Date) : Chart :=
  { chart with start := some (chart.start.getD date) }

end Chart

end DoubleEntry
