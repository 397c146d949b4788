/-! # Positions in a text

Lines and columns both count from one, and a column counts characters. A span
names a file and the two positions that bound a stretch of it; `start` is its
first character and `stop` stands just past its last one.
-/

namespace DoubleEntry

structure Position where
  line : Nat
  column : Nat
  deriving Repr, DecidableEq, Inhabited

namespace Position

def first : Position := ⟨1, 1⟩

def advance (p : Position) (width : Nat) : Position :=
  { p with column := p.column + width }

def nextLine (p : Position) : Position := ⟨p.line + 1, 1⟩

def step (p : Position) (c : Char) : Position :=
  if c = '\n' then p.nextLine else p.advance 1

/-- The position behind a text that begins at `p`. -/
def past (p : Position) (text : List Char) : Position := text.foldl step p

/-- Positions follow each other by line first and by column within a line. -/
instance : LE Position :=
  ⟨fun p q => p.line < q.line ∨ (p.line = q.line ∧ p.column ≤ q.column)⟩

instance (p q : Position) : Decidable (p ≤ q) :=
  inferInstanceAs (Decidable (_ ∨ _))

instance : Ord Position :=
  ⟨fun p q => if p = q then .eq else if p ≤ q then .lt else .gt⟩

@[simp] theorem past_nil (p : Position) : p.past [] = p := rfl

@[simp] theorem past_cons (p : Position) (c : Char) (text : List Char) :
    p.past (c :: text) = (p.step c).past text := rfl

@[simp] theorem advance_zero (p : Position) : p.advance 0 = p := rfl

theorem advance_advance (p : Position) (m n : Nat) :
    (p.advance m).advance n = p.advance (m + n) := by
  simp [advance, Nat.add_assoc]

theorem past_eq_advance (p : Position) (text : List Char) (h : '\n' ∉ text) :
    p.past text = p.advance text.length := by
  induction text generalizing p with
  | nil => rfl
  | cons c text ih =>
    have hc : c ≠ '\n' := by rintro rfl; simp at h
    have ht : '\n' ∉ text := fun hm => h (List.mem_cons_of_mem _ hm)
    rw [past_cons, ih _ ht, step, if_neg hc, advance_advance, List.length_cons,
      Nat.add_comm 1]

end Position

structure Span where
  file : String
  start : Position
  stop : Position
  deriving Repr, DecidableEq, Inhabited

namespace Span

/-- The very beginning of a file, no character wide. -/
def startOf (file : String) : Span := ⟨file, .first, .first⟩

def upTo (s : Span) (stop : Position) : Span := { s with stop := stop }

/-- The file and the place where the span begins, as people read it. -/
def display (s : Span) : String :=
  s.file ++ ":" ++ toString s.start.line ++ ":" ++ toString s.start.column

end Span

end DoubleEntry
