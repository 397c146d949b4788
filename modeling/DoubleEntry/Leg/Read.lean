import DoubleEntry.Category
import DoubleEntry.Cursor
import DoubleEntry.Leg

/-! # Reading legs

In a file a leg is a number and an account. Legs follow each other without
anything in between, so a run of them ends where no number comes next.
-/

namespace DoubleEntry

def Money.readAt (text : List Char) (span : Span) : Except Fault Int :=
  match Money.ofText text with
  | .ok value => .ok value
  | .error .invalid => .error ⟨.invalidAmount text, span⟩
  | .error .outOfRange => .error ⟨.amountOutOfRange text, span⟩

namespace Leg

/-- Read a number and an account. The amount is entered on the side where the
    account grows. -/
def read (c : Cursor) : Except Fault (Leg × Cursor) :=
  match c.take .number with
  | .error fault => .error fault
  | .ok (number, afterNumber) =>
    match Money.readAt number.text (number.span c.file) with
    | .error fault => .error fault
    | .ok value =>
      match afterNumber.take .account with
      | .error fault => .error fault
      | .ok (name, behind) =>
        let account := String.ofList name.text
        .ok (⟨account, .onSide value (Category.sideOf account), c.file, number.start, name.stop⟩,
          behind)

theorem read_shorter {c c' : Cursor} {leg : Leg} (h : read c = .ok (leg, c')) :
    c'.tokens.length < c.tokens.length := by
  unfold read at h
  split at h
  · cases h
  · next number afterNumber hn =>
    split at h
    · cases h
    · split at h
      · cases h
      · next name behind ha =>
        cases h
        exact Nat.lt_trans (Cursor.take_shorter ha) (Cursor.take_shorter hn)

/-- Read numbers and accounts for as long as a number comes next. -/
def readRun (c : Cursor) : Except Fault (List Leg × Cursor) :=
  if c.lookahead = some .number then
    match _h : read c with
    | .error fault => .error fault
    | .ok (leg, rest) =>
      match readRun rest with
      | .error fault => .error fault
      | .ok (legs, behind) => .ok (leg :: legs, behind)
  else .ok ([], c)
termination_by c.tokens.length
decreasing_by exact read_shorter _h

theorem readRun_le {c c' : Cursor} {legs : List Leg} (h : readRun c = .ok (legs, c')) :
    c'.tokens.length ≤ c.tokens.length := by
  fun_induction readRun c generalizing legs c' with
  | case1 => cases h
  | case2 => cases h
  | case3 c _ leg rest hread legs' behind hrun ih =>
    cases h
    have := read_shorter hread
    have := ih hrun
    omega
  | case4 => cases h; exact Nat.le_refl _

theorem readRun_shorter {c c' : Cursor} {legs : List Leg} (hc : c.lookahead = some .number)
    (h : readRun c = .ok (legs, c')) : c'.tokens.length < c.tokens.length := by
  rw [readRun, if_pos hc] at h
  split at h
  · cases h
  · next leg rest hread =>
    split at h
    · cases h
    · next legs' behind hrun =>
      cases h
      have := read_shorter hread
      have := readRun_le hrun
      omega

end Leg

end DoubleEntry
