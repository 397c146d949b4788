import DoubleEntry.Text.Quoted

/-! # Lexemes

A text falls apart into lexemes without a gap. Each one is as long as its kind
allows, and what fits no kind becomes an `error` lexeme, so that reading never
stops before the end of the text.
-/

namespace DoubleEntry

namespace Lexeme

inductive Kind where
  | whiteSpace
  | newLine
  /-- A semicolon with the rest of its line. -/
  | comment
  /-- Words in small letters, with the spaces between and after them. -/
  | directive
  /-- Digits in the shape `2020-05-07`. -/
  | date
  /-- Digits and commas, perhaps with a minus sign and two decimals. -/
  | number
  /-- A capital letter with everything up to a blank, a semicolon or the end of
      the line. -/
  | account
  | string
  | error
  deriving Repr, DecidableEq, Inhabited

def Kind.name : Kind → String
  | whiteSpace => "WhiteSpace"
  | newLine => "NewLine"
  | comment => "Comment"
  | directive => "Directive"
  | date => "Numeric(Date)"
  | number => "Numeric(Number)"
  | account => "Account"
  | string => "String"
  | error => "Error"

/-- Whether lexemes of a kind only separate others. -/
def Kind.isTrivia : Kind → Bool
  | whiteSpace | newLine | comment => true
  | _ => false

/-- Blanks that do not end a line. -/
def isSpace (c : Char) : Bool := c = ' ' || c = '\t' || c = '\x0b' || c = '\x0c'

def isSmall (c : Char) : Bool := 'a' ≤ c && c ≤ 'z'

def isSmallOrSpace (c : Char) : Bool := isSmall c || c = ' '

def isNotNewLine (c : Char) : Bool := c ≠ '\n'

def beginsNumeric (c : Char) : Bool := c.isDigit || c = '-'

def isNumeric (c : Char) : Bool := c.isDigit || c = '.' || c = ',' || c = '-'

def isCapital (c : Char) : Bool := 'A' ≤ c && c ≤ 'Z'

def isAccount (c : Char) : Bool := !(isSpace c || c = '\n' || c = ';')

/-- Whether a text has the shape `2020-05-07`. -/
def isDate : List Char → Bool
  | [y₁, y₂, y₃, y₄, '-', m₁, m₂, '-', d₁, d₂] =>
    [y₁, y₂, y₃, y₄, m₁, m₂, d₁, d₂].all Char.isDigit
  | _ => false

/-- Whether a text is digits and commas, at least one digit among them, with
    nothing or a point and two digits behind them. -/
def isUnsigned (text : List Char) : Bool :=
  let whole := text.takeWhile (· ≠ '.')
  whole.any Char.isDigit && whole.all (fun c => c.isDigit || c = ',') &&
    match text.dropWhile (· ≠ '.') with
    | [] => true
    | [_, d₁, d₂] => d₁.isDigit && d₂.isDigit
    | _ => false

def isNumber : List Char → Bool
  | '-' :: rest => isUnsigned rest
  | text => isUnsigned text

def numericKind (text : List Char) : Kind :=
  if isDate text then .date else if isNumber text then .number else .error

end Lexeme

structure Lexeme where
  kind : Lexeme.Kind
  text : List Char
  deriving Repr, DecidableEq

namespace Lexeme

def isTrivia (l : Lexeme) : Bool := l.kind.isTrivia

/-- The first lexeme of a text, given as its first character and the others,
    and the text behind that lexeme. -/
def first (c : Char) (rest : List Char) : Lexeme × List Char :=
  if isSpace c then (⟨.whiteSpace, c :: rest.takeWhile isSpace⟩, rest.dropWhile isSpace)
  else if c = '\n' then (⟨.newLine, [c]⟩, rest)
  else if c = ';' then (⟨.comment, c :: rest.takeWhile isNotNewLine⟩, rest.dropWhile isNotNewLine)
  else if isSmall c then
    (⟨.directive, c :: rest.takeWhile isSmallOrSpace⟩, rest.dropWhile isSmallOrSpace)
  else if beginsNumeric c then
    let run := c :: rest.takeWhile isNumeric
    (⟨numericKind run, run⟩, rest.dropWhile isNumeric)
  else if isCapital c then (⟨.account, c :: rest.takeWhile isAccount⟩, rest.dropWhile isAccount)
  else if c = '"' then
    match Quoted.items rest with
    | (inner, '"' :: behind) => (⟨.string, c :: (inner ++ ['"'])⟩, behind)
    | (inner, behind) => (⟨.error, c :: inner⟩, behind)
  else (⟨.error, [c]⟩, rest)

theorem first_append (c : Char) (rest : List Char) :
    (first c rest).1.text ++ (first c rest).2 = c :: rest := by
  unfold first
  repeat' split
  all_goals simp only [List.cons_append, List.nil_append, List.takeWhile_append_dropWhile]
  · next inner behind h =>
    have := Quoted.items_append rest
    rw [h] at this
    simpa using this
  · next inner behind _ h =>
    have := Quoted.items_append rest
    rw [h] at this
    simpa using this

theorem first_ne_nil (c : Char) (rest : List Char) : (first c rest).1.text ≠ [] := by
  unfold first
  repeat' split
  all_goals simp

theorem first_length_le (c : Char) (rest : List Char) :
    (first c rest).2.length ≤ rest.length := by
  have h := congrArg List.length (first_append c rest)
  have hpos := List.length_pos_iff.2 (first_ne_nil c rest)
  simp only [List.length_append, List.length_cons] at h
  omega

def scan : List Char → List Lexeme
  | [] => []
  | c :: rest => (first c rest).1 :: scan (first c rest).2
termination_by text => text.length
decreasing_by
  have := first_length_le c rest
  simp only [List.length_cons]
  omega

/-- Lexemes with the byte at which each of them begins, the first one at `offset`. -/
def placeBytes (offset : Nat) : List Lexeme → List (Nat × Lexeme)
  | [] => []
  | l :: rest => (offset, l) :: placeBytes (offset + (String.ofList l.text).utf8ByteSize) rest

/-- The lexemes of a text with the byte at which each of them begins. -/
def stream (text : List Char) : List (Nat × Lexeme) := placeBytes 0 (scan text)

theorem flatMap_text_scan (text : List Char) : (scan text).flatMap (·.text) = text := by
  fun_induction scan text with
  | case1 => rfl
  | case2 c rest ih => rw [List.flatMap_cons, ih, first_append]

end Lexeme

end DoubleEntry
