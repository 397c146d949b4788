import DoubleEntry.Lexeme
import DoubleEntry.Text.Position

/-! # Tokens

The lexemes that mean something, each with the place where it stands. White
space, line ends and comments are left out, but they move the place of what
follows them.
-/

namespace DoubleEntry

namespace Lexeme

/-- The position behind a lexeme that stands at `p`. A comment is given no width,
    since nothing but the end of its line can follow it there. -/
def past (p : Position) (l : Lexeme) : Position :=
  match l.kind with
  | .comment => p
  | .newLine => p.nextLine
  | _ => p.advance l.text.length

def lineOf (lexemes : List Lexeme) : List Char :=
  (lexemes.takeWhile (·.kind ≠ .newLine)).flatMap (·.text)

end Lexeme

/-- A lexeme that means something, and where it stands. -/
structure Token extends Lexeme where
  start : Position
  /-- The line from the token on. -/
  line : List Char
  deriving Repr, DecidableEq

namespace Token

def stop (t : Token) : Position := t.start.advance t.text.length

def span (t : Token) (file : String) : Span := ⟨file, t.start, t.stop⟩

/-- The tokens among lexemes of which the first stands at `p`. -/
def place (p : Position) : List Lexeme → List Token
  | [] => []
  | l :: rest =>
    if l.isTrivia then place (l.past p) rest
    else ⟨l, p, Lexeme.lineOf (l :: rest)⟩ :: place (l.past p) rest

def ofText (text : List Char) : List Token := place .first (Lexeme.scan text)

/-- Where reading stands at the end of a text. -/
def finish (text : List Char) : Position := (Lexeme.scan text).foldl Lexeme.past .first

end Token

end DoubleEntry
