import DoubleEntry.Money

/-! # Amounts on a side of the books

An amount is a number of minor units on the debit or on the credit side. Debits
count positive and credits negative, so every amount has a signed value, and one
signed value can be expressed on either side.
-/

namespace DoubleEntry

inductive Side where
  | debit
  | credit
  deriving Repr, DecidableEq, Inhabited

namespace Side

def opposite : Side → Side
  | debit => credit
  | credit => debit

def letter : Side → String
  | debit => "D"
  | credit => "C"

/-- What one minor unit on this side counts. -/
def sign : Side → Int
  | debit => 1
  | credit => -1

@[simp] theorem opposite_opposite (s : Side) : s.opposite.opposite = s := by cases s <;> rfl

@[simp] theorem sign_opposite (s : Side) : s.opposite.sign = -s.sign := by cases s <;> rfl

@[simp] theorem sign_mul_sign (s : Side) : s.sign * s.sign = 1 := by cases s <;> rfl

end Side

/-- A number of minor units and the side it stands on. -/
structure Amount where
  value : Int
  side : Side
  deriving Repr, DecidableEq, Inhabited

namespace Amount

/-- Debits count positive, credits negative. -/
def signed (a : Amount) : Int := a.side.sign * a.value

/-- The value that an amount has on a side. -/
def valueOn (a : Amount) (side : Side) : Int := side.sign * a.signed

/-- The same amount expressed on `side`, or on the opposite side if its value
    would be negative there. -/
def toSide (a : Amount) (side : Side) : Amount :=
  if a.valueOn side < 0 then ⟨-a.valueOn side, side.opposite⟩ else ⟨a.valueOn side, side⟩

def opposite (a : Amount) : Amount := ⟨a.value, a.side.opposite⟩

/-- Enter a number on a side. A negative number comes to stand on the opposite
    side, where it may not exceed the limit. -/
def onSide (number : Int) (side : Side) : Amount :=
  toSide ⟨max number (-Money.limit), side⟩ side

/-- The amount of a signed value: a debit unless the value is negative. -/
def ofSigned (signed : Int) : Amount := onSide signed .debit

def ofSigned? (signed : Int) : Option Amount :=
  if signed.natAbs ≤ Money.limit then
    some ⟨signed.natAbs, if signed < 0 then .credit else .debit⟩
  else none

def display (a : Amount) : String := Money.format a.value ++ " " ++ a.side.letter

@[simp] theorem signed_toSide (a : Amount) (s : Side) : (a.toSide s).signed = a.signed := by
  unfold toSide
  split
  · change s.opposite.sign * -(s.sign * a.signed) = a.signed
    rw [Side.sign_opposite, Int.neg_mul_neg, ← Int.mul_assoc, Side.sign_mul_sign, Int.one_mul]
  · change s.sign * (s.sign * a.signed) = a.signed
    rw [← Int.mul_assoc, Side.sign_mul_sign, Int.one_mul]

theorem value_toSide_nonneg (a : Amount) (s : Side) : 0 ≤ (a.toSide s).value := by
  unfold toSide
  split
  · next h => exact Int.neg_nonneg_of_nonpos (Int.le_of_lt h)
  · next h => exact Int.not_lt.1 h

theorem side_toSide (a : Amount) (s : Side) :
    (a.toSide s).side = if s.sign * a.signed < 0 then s.opposite else s := by
  unfold toSide
  split
  · next h => exact (if_pos h).symm
  · next h => exact (if_neg h).symm

/-- All that matters for the same amount on a side is its signed value. -/
theorem toSide_congr {a b : Amount} (h : a.signed = b.signed) (s : Side) :
    a.toSide s = b.toSide s := by
  unfold toSide valueOn
  rw [h]

theorem toSide_toSide (a : Amount) (s : Side) : (a.toSide s).toSide s = a.toSide s :=
  toSide_congr (signed_toSide a s) s

theorem natAbs_signed (a : Amount) : a.signed.natAbs = a.value.natAbs := by
  obtain ⟨value, side⟩ := a
  cases side <;> simp [signed, Side.sign]

theorem ofSigned?_eq_some {signed : Int} {a : Amount} (h : ofSigned? signed = some a) :
    signed.natAbs ≤ Money.limit ∧ a.signed = signed := by
  unfold ofSigned? at h
  split at h
  · next hfits =>
    cases h
    refine ⟨hfits, ?_⟩
    by_cases hneg : signed < 0
    · simp only [Amount.signed, if_pos hneg, Side.sign]
      omega
    · simp only [Amount.signed, if_neg hneg, Side.sign]
      omega
  · cases h

theorem ofSigned?_eq_none {signed : Int} :
    ofSigned? signed = none ↔ ¬ signed.natAbs ≤ Money.limit := by
  simp [ofSigned?]

@[simp] theorem signed_opposite (a : Amount) : a.opposite.signed = -a.signed := by
  change a.side.opposite.sign * a.value = -(a.side.sign * a.value)
  rw [Side.sign_opposite, Int.neg_mul]

end Amount

end DoubleEntry
