import DoubleEntry.Amount
import DoubleEntry.Text.Capital

/-! # Categories of accounts

The part of an account's name before its first slash tells what kind of account
it is, and the kind tells on which side the account grows.
-/

namespace DoubleEntry

inductive Category where
  | assets
  | liabilities
  | capital
  | incomes
  | expenses
  deriving Repr, DecidableEq, Inhabited

namespace Category

def name : Category → String
  | assets => "ASSETS"
  | liabilities => "LIABILITIES"
  | capital => "CAPITAL"
  | incomes => "INCOMES"
  | expenses => "EXPENSES"

/-- The words that name a category; one of them has two. -/
def words : List (String × Category) :=
  [("ASSETS", assets), ("LIABILITIES", liabilities), ("CAPITAL", capital),
   ("INCOMES", incomes), ("INCOME", incomes), ("EXPENSES", expenses)]

/-- The category that an account's name begins with, in any mixture of small and
    capital letters. A name without a slash has none. -/
def ofAccount? (account : String) : Option Category :=
  if '/' ∈ account.toList then
    words.lookup (String.ofList (Capital.capitals (account.toList.takeWhile (· ≠ '/'))))
  else none

def naturalSide : Category → Side
  | assets | expenses => .debit
  | liabilities | capital | incomes => .credit

/-- The side on which a number posted to an account is entered: where its
    category grows, and on the debit side if it has none. -/
def sideOf (account : String) : Side := ((ofAccount? account).map naturalSide).getD .debit

end Category

end DoubleEntry
