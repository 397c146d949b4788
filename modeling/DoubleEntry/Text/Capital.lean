/-! # Capital letters

The full upper-case mapping of Unicode, as far as its result can consist of the
letters `A` to `Z`. Some characters spell more than one capital, as `ß` does.
-/

namespace DoubleEntry.Capital

/-- The capitals that a character spells. A character whose capital is none of
    the letters `A` to `Z` is left as it is: no word in those letters holds it,
    in either form. -/
def letters (c : Char) : List Char :=
  match c with
  | 'ß' => ['S', 'S']
  | 'ı' => ['I']
  | 'ſ' => ['S']
  | 'ﬀ' => ['F', 'F']
  | 'ﬁ' => ['F', 'I']
  | 'ﬂ' => ['F', 'L']
  | 'ﬃ' => ['F', 'F', 'I']
  | 'ﬄ' => ['F', 'F', 'L']
  | 'ﬅ' => ['S', 'T']
  | 'ﬆ' => ['S', 'T']
  | c => [c.toUpper]

def capitals (text : List Char) : List Char := text.flatMap letters

end DoubleEntry.Capital
