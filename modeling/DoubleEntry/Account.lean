import DoubleEntry.Category
import DoubleEntry.Entry

/-! # Accounts

An account starts from its opening balance and collects the entries that touch
it. Its balances are kept on the side where its category grows.
-/

namespace DoubleEntry

structure Account where
  name : String
  category : Category
  opening : Amount
  closing : Amount
  /-- The entries with a leg on this account. -/
  history : List Entry
  span : Span
  deriving Repr, DecidableEq

namespace Account

def opened (name : String) (category : Category) (balance : Amount) (span : Span) : Account :=
  let balance := balance.toSide category.naturalSide
  ⟨name, category, balance, balance, [], span⟩

def legsIn (a : Account) (entry : Entry) : List Leg :=
  entry.legs.filter (·.account = a.name)

def ownLegs (a : Account) : List Leg := a.history.flatMap a.legsIn

end Account

end DoubleEntry
