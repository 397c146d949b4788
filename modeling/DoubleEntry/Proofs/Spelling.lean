import DoubleEntry.Amount
import DoubleEntry.Date
import DoubleEntry.Token
import Mathlib.Data.List.TakeWhile

/-! # What numbers and dates spell

The kind of a lexeme tells the shape of its text. A number of that shape spells
minor units, and it is read as exactly those unless they are beyond the limit. A
date of that shape spells a year, a month and a day, and it is read if the
calendar has that day.
-/

namespace DoubleEntry

/-- A text is cut where a character stands in it for the first time. -/
theorem cut_at {mark : Char} {before behind : List Char} (hbefore : mark ∉ before)
    (hbehind : behind = [] ∨ behind.head? = some mark) :
    (before ++ behind).takeWhile (· ≠ mark) = before ∧
      (before ++ behind).dropWhile (· ≠ mark) = behind := by
  have hplain : ∀ c ∈ before, decide (c ≠ mark) = true := by
    intro c hc
    exact decide_eq_true (ne_of_mem_of_not_mem hc hbefore)
  rw [List.takeWhile_append_of_pos hplain, List.dropWhile_append_of_pos hplain]
  rcases hbehind with rfl | hmark
  · simp
  · obtain ⟨rest, rfl⟩ := List.head?_eq_some_iff.1 hmark
    simp

namespace Lexeme

/-- The text has the shape that its kind asks for. -/
def Formed (l : Lexeme) : Prop :=
  match l.kind with
  | .date => isDate l.text
  | .number => isNumber l.text
  | .account => ∀ c ∈ l.text, isAccount c
  | _ => True

namespace Formed

variable {l : Lexeme}

theorem date (h : l.Formed) (hkind : l.kind = .date) : isDate l.text := by
  rwa [Formed, hkind] at h

theorem number (h : l.Formed) (hkind : l.kind = .number) : isNumber l.text := by
  rwa [Formed, hkind] at h

theorem account (h : l.Formed) (hkind : l.kind = .account) : ∀ c ∈ l.text, isAccount c := by
  rwa [Formed, hkind] at h

end Formed

theorem formed_numeric (text : List Char) : Formed ⟨numericKind text, text⟩ := by
  unfold numericKind
  split
  · assumption
  · split
    · assumption
    · trivial

theorem isAccount_of_isCapital {c : Char} (h : isCapital c) : isAccount c := by
  simp only [isCapital, Bool.and_eq_true, decide_eq_true_eq] at h
  have hne : ∀ blank : Char, blank < 'A' → c ≠ blank := by
    rintro blank hblank rfl
    exact absurd h.1 (Char.not_le.2 hblank)
  simp [isAccount, isSpace, hne ' ' (by decide), hne '\t' (by decide), hne '\x0b' (by decide),
    hne '\x0c' (by decide), hne '\n' (by decide), hne ';' (by decide)]

theorem formed_first (c : Char) (rest : List Char) : (first c rest).1.Formed := by
  unfold first
  split <;> try trivial
  split <;> try trivial
  split <;> try trivial
  split <;> try trivial
  split
  · exact formed_numeric _
  split
  · next hcapital =>
    refine List.forall_mem_cons.2 ⟨isAccount_of_isCapital hcapital, ?_⟩
    intro d hd
    exact List.mem_takeWhile_imp hd
  split
  · split <;> trivial
  · trivial

theorem formed_of_mem_scan {text : List Char} {l : Lexeme} (h : l ∈ scan text) : l.Formed := by
  fun_induction scan text with
  | case1 => cases h
  | case2 c rest ih =>
      rcases List.mem_cons.1 h with rfl | h
      · exact formed_first c rest
      · exact ih h

end Lexeme

namespace Token

theorem mem_of_mem_place {p : Position} {lexemes : List Lexeme} {t : Token}
    (h : t ∈ place p lexemes) : t.toLexeme ∈ lexemes := by
  induction lexemes generalizing p with
  | nil => cases h
  | cons l rest ih =>
      unfold place at h
      split at h
      · exact List.mem_cons_of_mem _ (ih h)
      · rcases List.mem_cons.1 h with rfl | h
        · exact List.mem_cons_self
        · exact List.mem_cons_of_mem _ (ih h)

theorem formed_of_mem {text : List Char} {t : Token} (h : t ∈ ofText text) :
    t.toLexeme.Formed :=
  Lexeme.formed_of_mem_scan (mem_of_mem_place h)

end Token

/-! ## Numbers -/

namespace Money

/-- The digits among some characters, read as one number. -/
def digitsOf (text : List Char) : Nat := Nat.ofDigitChars 10 (text.filter Char.isDigit) 0

/-- The minor units that a number spells: a hundred for each unit before the point
    and one for each behind it, all of them negative behind a minus sign. -/
def spelled (text : List Char) : Int :=
  let size : Nat := 100 * digitsOf (text.takeWhile (· ≠ '.')) + digitsOf (text.dropWhile (· ≠ '.'))
  if text.head? = some '-' then -size else size

/-- A number without its sign: digits and commas, at least one digit among them,
    and perhaps a point with two digits. -/
structure Unsigned (whole fraction : List Char) : Prop where
  plain : ∀ c ∈ whole, c.isDigit ∨ c = ','
  begun : ∃ c ∈ whole, c.isDigit
  places : fraction = [] ∨ ∃ d₁ d₂, d₁.isDigit ∧ d₂.isDigit ∧ fraction = ['.', d₁, d₂]

theorem unsigned_of_isUnsigned {text : List Char} (h : Lexeme.isUnsigned text) :
    Unsigned (text.takeWhile (· ≠ '.')) (text.dropWhile (· ≠ '.')) := by
  simp only [Lexeme.isUnsigned, Bool.and_eq_true] at h
  obtain ⟨⟨hbegun, hwhole⟩, hfraction⟩ := h
  refine ⟨by simpa using hwhole, by simpa using hbegun, ?_⟩
  split at hfraction
  · next hnil => exact .inl hnil
  · next point d₁ d₂ hcons =>
    have hne : text.dropWhile (· ≠ '.') ≠ [] := by
      rw [hcons]
      exact List.cons_ne_nil _ _
    have hhead := List.head_dropWhile_not (· ≠ '.') hne
    simp only [hcons, List.head_cons] at hhead
    have hpoint : point = '.' := by simpa using hhead
    rw [Bool.and_eq_true] at hfraction
    exact .inr ⟨d₁, d₂, hfraction.1, hfraction.2, by rw [hcons, hpoint]⟩
  · cases hfraction

theorem exists_unsigned {text : List Char} (h : Lexeme.isNumber text) :
    ∃ sign whole fraction, (sign = [] ∨ sign = ['-']) ∧ text = sign ++ (whole ++ fraction) ∧
      Unsigned whole fraction := by
  unfold Lexeme.isNumber at h
  split at h
  · next rest =>
    exact ⟨['-'], _, _, .inr rfl, congrArg _ List.takeWhile_append_dropWhile.symm,
      unsigned_of_isUnsigned h⟩
  · exact ⟨[], _, _, .inl rfl, List.takeWhile_append_dropWhile.symm, unsigned_of_isUnsigned h⟩

namespace Numeral

theorem read?_append {n : Numeral} {whole rest : List Char} (h : ∀ c ∈ whole, c.isDigit) :
    n.read? (whole ++ rest) = (whole.foldl push n).read? rest := by
  induction whole generalizing n with
  | nil => rfl
  | cons c whole ih =>
      obtain ⟨hc, hwhole⟩ := List.forall_mem_cons.1 h
      rw [List.cons_append, read?, if_pos hc, ih hwhole, List.foldl_cons]

theorem foldl_push (n : Numeral) (whole : List Char) :
    whole.foldl push n =
      ⟨Nat.ofDigitChars 10 whole n.digits, n.places.map (· + whole.length),
        n.begun || !whole.isEmpty⟩ := by
  induction whole generalizing n with
  | nil => simp
  | cons c whole ih =>
      rw [List.foldl_cons, ih, Nat.ofDigitChars_cons]
      obtain ⟨_, places, _⟩ := n
      cases places <;> simp [push, Nat.add_assoc, Nat.add_comm 1]

theorem read?_unsigned {whole fraction : List Char} (hwhole : ∀ c ∈ whole, c.isDigit)
    (hbegun : whole ≠ [])
    (hplaces : fraction = [] ∨ ∃ d₁ d₂, d₁.isDigit ∧ d₂.isDigit ∧ fraction = ['.', d₁, d₂]) :
    ∃ n, empty.read? (whole ++ fraction) = some n ∧
      n.minor = 100 * Nat.ofDigitChars 10 whole 0 + digitsOf fraction := by
  rw [read?_append hwhole, foldl_push]
  rcases hplaces with rfl | ⟨d₁, d₂, h₁, h₂, rfl⟩
  · refine ⟨_, if_pos ?_, ?_⟩
    · simpa [empty] using hbegun
    · simp [minor, empty, digitsOf]
      omega
  · refine ⟨⟨Nat.ofDigitChars 10 (whole ++ [d₁, d₂]) 0, some 2, true⟩, ?_, ?_⟩
    · simp [read?, empty, push, h₁, h₂, Nat.ofDigitChars_append, Nat.ofDigitChars_cons]
    · simp [minor, digitsOf, h₁, h₂, Nat.ofDigitChars_append, Nat.ofDigitChars_cons]
      omega

end Numeral

namespace Unsigned

variable {whole fraction : List Char}

theorem fraction_begins (h : Unsigned whole fraction) :
    fraction = [] ∨ fraction.head? = some '.' := by
  rcases h.places with rfl | ⟨d₁, d₂, -, -, rfl⟩ <;> simp

theorem filter_fraction (h : Unsigned whole fraction) : fraction.filter (· ≠ ',') = fraction := by
  have hne : ∀ d : Char, d.isDigit → d ≠ ',' := by
    rintro d hd rfl
    exact absurd hd (by decide)
  rcases h.places with rfl | ⟨d₁, d₂, h₁, h₂, rfl⟩
  · rfl
  · simp [hne d₁ h₁, hne d₂ h₂]

theorem filter_whole (h : Unsigned whole fraction) :
    whole.filter (· ≠ ',') = whole.filter Char.isDigit := by
  apply List.filter_congr
  intro c hc
  rcases h.plain c hc with hdigit | rfl
  · have hne : c ≠ ',' := by
      rintro rfl
      exact absurd hdigit (by decide)
    simp [hdigit, hne]
  · decide

theorem point_not_mem (h : Unsigned whole fraction) : '.' ∉ whole := by
  intro hmem
  rcases h.plain _ hmem with hdigit | hcomma
  · exact absurd hdigit (by decide)
  · exact absurd hcomma (by decide)

theorem head?_ne (h : Unsigned whole fraction) {sign : Char} (hsign : sign = '-' ∨ sign = '+') :
    (whole ++ fraction).head? ≠ some sign := by
  obtain ⟨digit, hmem, -⟩ := h.begun
  cases whole with
  | nil => cases hmem
  | cons c rest =>
      rintro ⟨⟩
      rcases hsign with rfl | rfl <;> exact absurd (h.plain _ List.mem_cons_self) (by decide)

theorem withoutCommas (h : Unsigned whole fraction) :
    Unsigned (whole.filter Char.isDigit) fraction := by
  obtain ⟨digit, hmem, hdigit⟩ := h.begun
  exact ⟨fun c hc => .inl (List.mem_filter.1 hc).2,
    ⟨digit, List.mem_filter.2 ⟨hmem, hdigit⟩, hdigit⟩, h.places⟩

end Unsigned

theorem splitSign_eq {text : List Char} (hminus : text.head? ≠ some '-')
    (hplus : text.head? ≠ some '+') : splitSign text = (false, text) := by
  unfold splitSign
  split
  · exact absurd rfl hminus
  · exact absurd rfl hplus
  · rfl

theorem utf8Size_of_isDigit {c : Char} (h : c.isDigit) : c.utf8Size = 1 := by
  rw [Char.isDigit_iff_toNat] at h
  rw [Char.utf8Size_eq_one_iff, UInt32.le_iff_toNat_le]
  exact Nat.le_trans h.2 (by decide)

theorem fractionFits_append {whole fraction : List Char} (hwhole : '.' ∉ whole)
    (hplaces : fraction = [] ∨ ∃ d₁ d₂, d₁.isDigit ∧ d₂.isDigit ∧ fraction = ['.', d₁, d₂]) :
    fractionFits (whole ++ fraction) := by
  rcases hplaces with rfl | ⟨d₁, d₂, h₁, h₂, rfl⟩
  · rw [fractionFits, (cut_at hwhole (.inl rfl)).2]
  · rw [fractionFits, (cut_at hwhole (.inr rfl)).2]
    simp [utf8Size_of_isDigit h₁, utf8Size_of_isDigit h₂]

/-- A number is cut at its point into its sign and whole part, and its fraction. -/
theorem Unsigned.cut {sign whole fraction : List Char} (h : Unsigned whole fraction)
    (hsign : sign = [] ∨ sign = ['-']) :
    (sign ++ (whole ++ fraction)).takeWhile (· ≠ '.') = sign ++ whole ∧
      (sign ++ (whole ++ fraction)).dropWhile (· ≠ '.') = fraction := by
  have hpoint : '.' ∉ sign ++ whole := by
    rcases hsign with rfl | rfl <;> simp [h.point_not_mem]
  rw [← List.append_assoc]
  exact cut_at hpoint h.fraction_begins

theorem spelled_eq {sign whole fraction : List Char} (hsign : sign = [] ∨ sign = ['-'])
    (h : Unsigned whole fraction) :
    spelled (sign ++ (whole ++ fraction)) =
      if sign = [] then (100 * digitsOf whole + digitsOf fraction : Int)
      else -(100 * digitsOf whole + digitsOf fraction : Int) := by
  obtain ⟨htake, hdrop⟩ := h.cut hsign
  have hdigits : digitsOf (sign ++ whole) = digitsOf whole := by
    rcases hsign with rfl | rfl <;> rfl
  rw [spelled, htake, hdrop, hdigits]
  rcases hsign with rfl | rfl
  · rw [List.nil_append, if_neg (h.head?_ne (.inl rfl)), if_pos rfl]
    simp
  · simp

/-- What a number comes to: the minor units it spells, unless they are beyond the limit
    or the units beyond what decimal numbers can hold. -/
theorem ofText_eq {text : List Char} (h : Lexeme.isNumber text) :
    ofText text =
      if (spelled text).natAbs ≤ limit then .ok (spelled text)
      else if capacity ≤ ((spelled text).natAbs + 50) / 100 then .error .invalid
      else .error .outOfRange := by
  obtain ⟨sign, whole, fraction, hsign, rfl, hparts⟩ := exists_unsigned h
  have hplain : (sign ++ (whole ++ fraction)).filter (· ≠ ',') =
      sign ++ (whole.filter Char.isDigit ++ fraction) := by
    rw [List.filter_append, List.filter_append, hparts.filter_whole, hparts.filter_fraction]
    rcases hsign with rfl | rfl <;> rfl
  have hshort := hparts.withoutCommas
  have hsplit : splitSign (sign ++ (whole.filter Char.isDigit ++ fraction)) =
      (!sign.isEmpty, whole.filter Char.isDigit ++ fraction) := by
    rcases hsign with rfl | rfl
    · exact splitSign_eq (hshort.head?_ne (.inl rfl)) (hshort.head?_ne (.inr rfl))
    · rfl
  have hfits : fractionFits (sign ++ (whole.filter Char.isDigit ++ fraction)) := by
    rw [← List.append_assoc]
    apply fractionFits_append _ hparts.places
    rcases hsign with rfl | rfl <;> simp [hshort.point_not_mem]
  obtain ⟨n, hread, hminor⟩ := Numeral.read?_unsigned (fun c hc => (List.mem_filter.1 hc).2)
    (List.ne_nil_of_mem hshort.begun.choose_spec.1) hparts.places
  have hsize : n.minor = 100 * digitsOf whole + digitsOf fraction := hminor
  have hspelled : spelled (sign ++ (whole ++ fraction)) =
      if (!sign.isEmpty) = true then -(n.minor : Int) else n.minor := by
    rw [spelled_eq hsign hparts, hsize]
    rcases hsign with rfl | rfl <;> simp
  have hnatAbs : (spelled (sign ++ (whole ++ fraction))).natAbs = n.minor := by
    rw [hspelled]
    split <;> omega
  unfold ofText
  simp only [hplain, hfits, if_true, hsplit, hread, ← hspelled, hnatAbs]
  by_cases hlimit : n.minor ≤ limit
  · have hfew : ¬ capacity ≤ (n.minor + 50) / 100 := by
      unfold limit at hlimit
      unfold capacity
      omega
    rw [if_neg hfew, if_pos hlimit, if_pos hlimit]
  · rw [if_neg hlimit, if_neg hlimit]

theorem ofText_eq_ok {text : List Char} (h : Lexeme.isNumber text) {value : Int} :
    ofText text = .ok value ↔ value = spelled text ∧ value.natAbs ≤ limit := by
  rw [ofText_eq h]
  constructor
  · intro hread
    split at hread
    · next hlimit =>
      cases hread
      exact ⟨rfl, hlimit⟩
    · split at hread <;> cases hread
  · rintro ⟨rfl, hlimit⟩
    rw [if_pos hlimit]

end Money

/-- A number as an amount on a side. A negative one stands on the opposite side. -/
def Amount.entered (number : Int) (side : Side) : Amount :=
  ⟨number.natAbs, if number < 0 then side.opposite else side⟩

namespace Amount

theorem toSide_eq_entered (number : Int) (side : Side) :
    toSide ⟨number, side⟩ side = entered number side := by
  have hvalue : (⟨number, side⟩ : Amount).valueOn side = number := by
    change side.sign * (side.sign * number) = number
    rw [← Int.mul_assoc, Side.sign_mul_sign, Int.one_mul]
  unfold toSide entered
  rw [hvalue]
  split
  · next hneg => rw [Int.ofNat_natAbs_of_nonpos (Int.le_of_lt hneg)]
  · next hneg => rw [Int.natAbs_of_nonneg (Int.not_lt.1 hneg)]

theorem onSide_eq_entered {number : Int} (h : number.natAbs ≤ Money.limit) (side : Side) :
    onSide number side = entered number side := by
  have hmax : max number (-(Money.limit : Int)) = number := by omega
  rw [onSide, hmax, toSide_eq_entered]

theorem toSide_entered (number : Int) (side : Side) :
    (entered number side).toSide side = entered number side := by
  have hsigned : (entered number side).signed = signed ⟨number, side⟩ := by
    rw [← toSide_eq_entered, signed_toSide]
  exact (toSide_congr hsigned side).trans (toSide_eq_entered number side)

end Amount

/-! ## Dates -/

/-- The digits of a text are those of the year, the month and the day of a date. -/
structure Date.SpelledBy (date : Date) (text : List Char) : Prop where
  year : (Nat.ofDigitChars 10 (text.take 4) 0 : Int) = date.year
  month : Nat.ofDigitChars 10 ((text.drop 5).take 2) 0 = date.month
  day : Nat.ofDigitChars 10 (text.drop 8) 0 = date.day

theorem Date.ofText?_eq_some {text : List Char} (h : Lexeme.isDate text) {date : Date} :
    ofText? text = some date ↔ date.SpelledBy text := by
  unfold Lexeme.isDate at h
  split at h
  · simp only [ofText?, if_pos h, ofParts?]
    constructor
    · intro hread
      split at hread
      · cases hread
        exact ⟨rfl, rfl, rfl⟩
      · cases hread
    · rintro ⟨hyear, hmonth, hday⟩
      obtain ⟨year, month, day, valid⟩ := date
      dsimp only at hyear hmonth hday
      subst hyear hmonth hday
      exact dif_pos valid
  · cases h

end DoubleEntry
