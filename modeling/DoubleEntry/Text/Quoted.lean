/-! # Quoted strings

A string stands between double quotes on one line. Inside it a backslash makes
the next character stand for itself, so that quotes and backslashes can be
written. `items` is how far such a string goes, `quote` writes one and
`unquote` gives back what was written.
-/

namespace DoubleEntry.Quoted

/-- Split what follows an opening quote behind its last complete item: a plain
    character, or a backslash with the character it stands before. The rest
    begins with the closing quote, a line break, a backslash without a partner,
    or nothing. -/
def items : List Char → List Char × List Char
  | [] => ([], [])
  | '\\' :: c :: rest =>
    if c = '\n' then ([], '\\' :: c :: rest)
    else
      let (inner, behind) := items rest
      ('\\' :: c :: inner, behind)
  | c :: rest =>
    if c = '"' ∨ c = '\n' ∨ c = '\\' then ([], c :: rest)
    else
      let (inner, behind) := items rest
      (c :: inner, behind)

/-- Drop the backslash of every escape; a backslash with nothing behind it
    stands for nothing. -/
def unescape : List Char → List Char
  | [] => []
  | ['\\'] => []
  | '\\' :: c :: rest => c :: unescape rest
  | c :: rest => c :: unescape rest

/-- What a quoted text says: its two ends are dropped and its escapes are
    resolved. -/
def unquote (text : List Char) : List Char := unescape text.tail.dropLast

/-- Put a backslash before every quote and every backslash. -/
def escape : List Char → List Char
  | [] => []
  | c :: rest => if c = '"' ∨ c = '\\' then '\\' :: c :: escape rest else c :: escape rest

def quote (text : List Char) : List Char := '"' :: (escape text ++ ['"'])

theorem items_append (text : List Char) : (items text).1 ++ (items text).2 = text := by
  fun_induction items text <;> simp_all

end DoubleEntry.Quoted
