import DoubleEntry.Money

/-! # Lines and fields

A report is a row of lines, each with its end. In a table the fields of a line
stand between tabs.
-/

namespace DoubleEntry.Layout

def lines (texts : List String) : String := String.join (texts.map (· ++ "\n"))

def fields (texts : List String) : String := "\t".intercalate texts

def money (debit credit : Int) : List String := [Money.format debit, Money.format credit]

end DoubleEntry.Layout
