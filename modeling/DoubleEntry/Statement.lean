import DoubleEntry.Directive
import DoubleEntry.Leg.Read

/-! # Statements

A file of the books is a row of statements. This module reads one statement off
a cursor. What a statement does to the books is not decided here, and neither is
whether it may stand where it stands.
-/

namespace DoubleEntry

/-- A statement, with the places that its faults would be reported at. -/
inductive Statement where
  /-- A date that the next postings belong to. -/
  | date (text : List Char) (span : Span)
  /-- A run of postings; `first` is its first number and `stop` its end. -/
  | postings (first : Span) (legs : List Leg) (stop : Position)
  /-- The chart of accounts with its opening balances, and its end. -/
  | openLedger (keyword : Span) (legs : List Leg) (stop : Position)
  /-- The account that balances the postings from here on. -/
  | useAccount (account : String) (span : Span)
  | inclusion (path : String) (span : Span)
  | journal (path : String) (span : Span)
  deriving Repr, DecidableEq

/-- What keeps the next statement from being read. -/
inductive Flaw where
  /-- A fault that nothing else comes before. -/
  | plain (fault : Fault)
  /-- A fault within postings. That no date waits for them would come first. -/
  | inPostings (first : Span) (fault : Fault)
  /-- A fault within the chart of accounts. That it may not be opened here would
      come first. -/
  | inOpening (keyword : Span) (fault : Fault)
  deriving Repr, DecidableEq

namespace Statement

def readAfter (directive : Directive) (keyword : Span) (c : Cursor) :
    Except Flaw (Statement × Cursor) :=
  match directive with
  | .openLedger =>
    match Leg.readRun c with
    | .error fault => .error (.inOpening keyword fault)
    | .ok (legs, behind) => .ok (.openLedger keyword legs behind.lastEnd, behind)
  | .useAccount =>
    match c.take .account with
    | .error fault => .error (.plain fault)
    | .ok (name, behind) =>
      .ok (.useAccount (String.ofList name.text) (keyword.upTo name.stop), behind)
  | .inclusion =>
    match c.take .string with
    | .error fault => .error (.plain fault)
    | .ok (path, behind) =>
      .ok (.inclusion (String.ofList (Quoted.unquote path.text)) (keyword.upTo path.stop), behind)
  | .journal =>
    match c.take .string with
    | .error fault => .error (.plain fault)
    | .ok (path, behind) =>
      .ok (.journal (String.ofList (Quoted.unquote path.text)) (keyword.upTo path.stop), behind)

def read (c : Cursor) : Except Flaw (Statement × Cursor) :=
  match c.peek with
  | .error fault => .error (.plain fault)
  | .ok token =>
    match token.kind with
    | .date => .ok (.date token.text (token.span c.file), c.consume)
    | .number =>
      match Leg.readRun c with
      | .error fault => .error (.inPostings (token.span c.file) fault)
      | .ok (legs, behind) => .ok (.postings (token.span c.file) legs behind.lastEnd, behind)
    | .directive =>
      match Directive.ofText? token.text with
      | none =>
        let words := Blank.trimEnd token.text
        .error (.plain ⟨.unknownDirective words,
          c.file, token.start, token.start.advance words.length⟩)
      | some directive => readAfter directive (token.span c.file) c.consume
    | _ => .error (.plain ⟨.unexpectedToken token.kind token.text, token.span c.file⟩)

theorem readAfter_le {directive : Directive} {keyword : Span} {c c' : Cursor} {s : Statement}
    (h : readAfter directive keyword c = .ok (s, c')) :
    c'.tokens.length ≤ c.tokens.length := by
  cases directive with
  | openLedger =>
    simp only [readAfter] at h
    split at h
    · cases h
    · next hrun => cases h; exact Leg.readRun_le hrun
  | useAccount | inclusion | journal =>
    simp only [readAfter] at h
    split at h
    · cases h
    · next htake => cases h; exact Nat.le_of_lt (Cursor.take_shorter htake)

theorem read_shorter {c c' : Cursor} {s : Statement} (h : read c = .ok (s, c')) :
    c'.tokens.length < c.tokens.length := by
  unfold read at h
  split at h
  · cases h
  · next token hpeek =>
    have hless := Cursor.consume_shorter hpeek
    split at h
    · cases h
      exact hless
    · next hkind =>
      split at h
      · cases h
      · next legs behind hrun =>
        cases h
        refine Leg.readRun_shorter ?_ hrun
        simp [Cursor.lookahead, Cursor.tokens_of_peek hpeek, hkind]
    · split at h
      · cases h
      · exact Nat.lt_of_le_of_lt (readAfter_le h) hless
    · cases h

end Statement

end DoubleEntry
