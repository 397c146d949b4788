/-! # Money as text

Money is counted in minor units, a hundred of them to the unit. `format` writes
a count with exactly two decimals. `ofText` reads what people write: commas may
stand anywhere, and a fraction, where there is one, takes exactly two places.
-/

namespace DoubleEntry.Money

/-- The largest number of minor units that an amount may hold: two to the power
    of 63, less one. -/
def limit : Nat := 0x7FFFFFFFFFFFFFFF

/-- Decimal numbers are kept as whole numbers below this, which is two to the
    power of 96. -/
def capacity : Nat := 0x1000000000000000000000000

def twoDigits (n : Nat) : List Char := [Nat.digitChar (n / 10), Nat.digitChar (n % 10)]

/-- The whole units in decimal, a point and the rest in two digits, with a
    minus sign before a negative count. -/
def formatChars (minor : Int) : List Char :=
  (if minor < 0 then ['-'] else []) ++
    (Nat.toDigits 10 (minor.natAbs / 100) ++ '.' :: twoDigits (minor.natAbs % 100))

/-- A count as a decimal number of two places: its digits, at least three of them,
    with a point before the last two. -/
def decimalChars (minor : Int) : List Char :=
  let digits := (Nat.toDigits 10 minor.natAbs).leftpad 3 '0'
  (if minor < 0 then ['-'] else []) ++
    (digits.take (digits.length - 2) ++ '.' :: digits.drop (digits.length - 2))

/-- A count divided by a hundred, with a point between the quotient and the
    remainder. Both go toward zero, and only the quotient shows a sign. -/
def dividedChars (minor : Int) : List Char :=
  (toString (minor.tdiv 100)).toList ++
    '.' :: (Nat.toDigits 10 (minor.tmod 100).natAbs).leftpad 2 '0'

/-- Write a count as a decimal number, or divide it if it is too large for one. -/
def format (minor : Int) : String :=
  String.ofList (if minor.natAbs < capacity then decimalChars minor else dividedChars minor)

/-! ## Both ways to write a count -/

/-- The last two digits of a number stand behind those of its hundreds. -/
theorem toDigits_of_hundred_le {n : Nat} (h : 100 ≤ n) :
    Nat.toDigits 10 n = Nat.toDigits 10 (n / 100) ++ twoDigits (n % 100) := by
  have hunits : n % 100 % 10 = n % 10 := by omega
  have htens : n % 100 / 10 = n / 10 % 10 := by omega
  have hhundreds : n / 10 / 10 = n / 100 := Nat.div_div_eq_div_mul n 10 10
  rw [Nat.toDigits_of_base_le (by decide) (by omega),
    Nat.toDigits_of_base_le (by decide) (by omega), hhundreds, twoDigits, hunits, htens,
    List.append_assoc]
  rfl

theorem leftpad_toDigits (n : Nat) :
    (Nat.toDigits 10 n).leftpad 3 '0' = Nat.toDigits 10 (n / 100) ++ twoDigits (n % 100) := by
  rcases Nat.lt_or_ge n 100 with hlt | hge
  · have small : ∀ n < 100, (Nat.toDigits 10 n).leftpad 3 '0' = '0' :: twoDigits n := by decide
    rw [small n hlt, Nat.div_eq_of_lt hlt, Nat.mod_eq_of_lt hlt]
    rfl
  · rw [toDigits_of_hundred_le hge, List.leftpad]
    have hlength : 3 ≤ (Nat.toDigits 10 (n / 100) ++ twoDigits (n % 100)).length := by
      have := Nat.length_toDigits_pos (b := 10) (n := n / 100)
      simp only [List.length_append, twoDigits, List.length_cons, List.length_nil]
      omega
    rw [Nat.sub_eq_zero_of_le hlength]
    rfl

theorem decimalChars_eq (minor : Int) : decimalChars minor = formatChars minor := by
  have hlength (whole : List Char) (n : Nat) :
      (whole ++ twoDigits n).length - 2 = whole.length := by
    rw [List.length_append]
    rfl
  unfold decimalChars formatChars
  dsimp only
  rw [leftpad_toDigits, hlength, List.take_left, List.drop_left]

/-- The quotient keeps the sign of a count that comes to a unit or more. -/
theorem toList_quotient {minor : Int} (h : 100 ≤ minor.natAbs) :
    (toString (minor.tdiv 100)).toList =
      (if minor < 0 then ['-'] else []) ++ Nat.toDigits 10 (minor.natAbs / 100) := by
  change (minor.tdiv 100).repr.toList = _
  obtain ⟨n, rfl | rfl⟩ := minor.eq_nat_or_neg
  · have hquotient : (n : Int).tdiv 100 = (n / 100 : Nat) := rfl
    have hpos : ¬ (n : Int) < 0 := by omega
    rw [hquotient, Int.repr_eq_if, if_pos (Int.natCast_nonneg _), if_neg hpos,
      Int.toNat_natCast, Int.natAbs_natCast]
    exact Nat.toList_repr
  · have hquotient : (-(n : Int)).tdiv 100 = -(n / 100 : Nat) := Int.neg_tdiv _ _
    rw [Int.natAbs_neg, Int.natAbs_natCast] at h ⊢
    have hneg : -(n : Int) < 0 := by omega
    have hneg' : ¬ 0 ≤ -((n / 100 : Nat) : Int) := by omega
    rw [hquotient, Int.repr_eq_if, if_neg hneg', if_pos hneg, Int.neg_neg, Int.toNat_natCast,
      String.toList_append, Nat.toList_repr]
    rfl

/-- Of a count of less than a unit the sign would be lost. -/
theorem dividedChars_eq {minor : Int} (h : 100 ≤ minor.natAbs) :
    dividedChars minor = formatChars minor := by
  have small : ∀ n < 100, (Nat.toDigits 10 n).leftpad 2 '0' = twoDigits n := by decide
  have hrest : (minor.tmod 100).natAbs = minor.natAbs % 100 := Int.natAbs_tmod minor 100
  rw [dividedChars, hrest, small _ (Nat.mod_lt _ (by decide)), toList_quotient h, formatChars,
    List.append_assoc]

/-- Both ways write a count in the same form. -/
theorem format_eq (minor : Int) : format minor = String.ofList (formatChars minor) := by
  unfold format
  split
  · rw [decimalChars_eq]
  · next hlarge =>
    have hunits : 100 ≤ minor.natAbs := by
      unfold capacity at hlarge
      omega
    rw [dividedChars_eq hunits]

/-! ## Reading -/

inductive Refusal where
  | invalid
  /-- It is an amount, but one beyond `limit`. -/
  | outOfRange
  deriving Repr, DecidableEq

structure Numeral where
  /-- The digits so far, as one whole number. -/
  digits : Nat
  /-- How many digits stand behind the point, once there is a point. -/
  places : Option Nat
  begun : Bool
  deriving Repr, DecidableEq

namespace Numeral

def empty : Numeral := ⟨0, none, false⟩

def push (n : Numeral) (c : Char) : Numeral :=
  ⟨10 * n.digits + (c.toNat - '0'.toNat), n.places.map (· + 1), true⟩

/-- Read digits with at most one point among them. An underscore is passed over
    once there has been a digit. -/
def read? (n : Numeral) : List Char → Option Numeral
  | [] => if n.begun then some n else none
  | c :: rest =>
    if c.isDigit then (n.push c).read? rest
    else if c = '.' ∧ n.places = none then { n with places := some 0 }.read? rest
    else if c = '_' ∧ n.begun then n.read? rest
    else none

/-- The number in minor units, if at most two digits stand behind its point. -/
def minor (n : Numeral) : Nat :=
  match n.places with
  | none | some 0 => n.digits * 100
  | some 1 => n.digits * 10
  | some _ => n.digits

end Numeral

/-- Whether nothing or exactly two bytes stand behind the first point. -/
def fractionFits (text : List Char) : Bool :=
  match text.dropWhile (· ≠ '.') with
  | [] => true
  | _ :: fraction => (String.ofList fraction).utf8ByteSize = 2

/-- Whether a text begins with a minus sign, and what follows its sign. -/
def splitSign : List Char → Bool × List Char
  | '-' :: rest => (true, rest)
  | '+' :: rest => (false, rest)
  | rest => (false, rest)

/-- Read an amount. A number of units that rounds to `capacity` or more is not taken
    for a number. -/
def ofText (text : List Char) : Except Refusal Int :=
  let plain := text.filter (· ≠ ',')
  if fractionFits plain then
    match Numeral.empty.read? (splitSign plain).2 with
    | none => .error .invalid
    | some n =>
      if capacity ≤ (n.minor + 50) / 100 then .error .invalid
      else if n.minor ≤ limit then .ok (if (splitSign plain).1 then -(n.minor : Int) else n.minor)
      else .error .outOfRange
  else .error .invalid

end DoubleEntry.Money
