import DoubleEntry.Fault
import DoubleEntry.Token

/-! # Reading a file token by token

A cursor stands before one token of a file, or at the end of the file. It can
look at that token and pass it. A token that fits no kind is reported when it is
looked at, and only `consume` passes it.
-/

namespace DoubleEntry

/-- A place between the tokens of a file. -/
structure Cursor where
  file : String
  tokens : List Token
  /-- Where the last token that was passed ends. -/
  lastEnd : Position
  /-- Where reading stands once all tokens are passed. -/
  finish : Position
  deriving Repr

namespace Cursor

def ofText (file : String) (text : List Char) : Cursor :=
  ⟨file, Token.ofText text, .first, Token.finish text⟩

def atEnd (c : Cursor) : Bool := c.tokens.isEmpty

def location (c : Cursor) : Position :=
  match c.tokens with
  | [] => c.finish
  | token :: _ => token.start

def lookahead (c : Cursor) : Option Lexeme.Kind := c.tokens.head?.map (·.kind)

/-- What is wrong with a token that fits no kind: its first character tells. -/
def misfit (token : Token) : Cause :=
  match token.text with
  | '"' :: _ => .unterminatedString token.line
  | c :: _ =>
    if Lexeme.beginsNumeric c then .malformedNumeric token.text else .unrecognized c token.line
  | [] => .unexpectedEnd

def peek (c : Cursor) : Except Fault Token :=
  match c.tokens with
  | [] => .error ⟨.unexpectedEnd, c.file, c.finish, c.finish⟩
  | token :: _ =>
    if token.kind = .error then .error ⟨misfit token, token.span c.file⟩ else .ok token

/-- The cursor behind the next token, whatever it is. -/
def consume (c : Cursor) : Cursor :=
  match c.tokens with
  | [] => c
  | token :: rest => { c with tokens := rest, lastEnd := token.stop }

def next (c : Cursor) : Except Fault (Token × Cursor) :=
  match c.peek with
  | .error fault => .error fault
  | .ok token => .ok (token, c.consume)

/-- The next token, which has to be of one kind, and the cursor behind it. -/
def take (c : Cursor) (kind : Lexeme.Kind) : Except Fault (Token × Cursor) :=
  match c.peek with
  | .error fault => .error fault
  | .ok token =>
    if token.kind = kind then .ok (token, c.consume)
    else .error ⟨.expected kind token.kind token.text, token.span c.file⟩

/-- What can be asked of a cursor. -/
inductive Request where
  | peek
  | next
  | take (kind : Lexeme.Kind)
  | consume
  deriving Repr, DecidableEq

/-- The answer to a request, and the cursor after it. A request that is refused
    leaves the cursor as it was. -/
def serve (c : Cursor) (request : Request) : Except Fault (Option Token) × Cursor :=
  match request with
  | .peek =>
    match c.peek with
    | .error fault => (.error fault, c)
    | .ok token => (.ok (some token), c)
  | .next =>
    match c.next with
    | .error fault => (.error fault, c)
    | .ok (token, behind) => (.ok (some token), behind)
  | .take kind =>
    match c.take kind with
    | .error fault => (.error fault, c)
    | .ok (token, behind) => (.ok (some token), behind)
  | .consume => (.ok none, c.consume)

/-- The cursor after some requests. -/
def after (c : Cursor) (requests : List Request) : Cursor :=
  requests.foldl (fun c request => (c.serve request).2) c

theorem tokens_of_peek {c : Cursor} {token : Token} (h : c.peek = .ok token) :
    c.tokens = token :: c.consume.tokens := by
  unfold peek at h
  split at h
  · cases h
  · next found rest hr =>
    split at h
    · cases h
    · cases h
      simp [consume, hr]

theorem consume_shorter {c : Cursor} {token : Token} (h : c.peek = .ok token) :
    c.consume.tokens.length < c.tokens.length := by
  rw [tokens_of_peek h]
  simp

theorem take_shorter {c c' : Cursor} {kind : Lexeme.Kind} {token : Token}
    (h : c.take kind = .ok (token, c')) : c'.tokens.length < c.tokens.length := by
  unfold take at h
  split at h
  · cases h
  · next found hp =>
    split at h
    · cases h
      exact consume_shorter hp
    · cases h

end Cursor

end DoubleEntry
