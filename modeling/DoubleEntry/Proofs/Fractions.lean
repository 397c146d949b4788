import DoubleEntry.Proofs.Items
import Mathlib.Data.Rat.Cast.Order
import Mathlib.Tactic.FieldSimp
import Mathlib.Tactic.Ring

/-! # Numbers that no lexeme spells

An amount may be read from any text, and more texts are taken for a number than
lexemes spell: there may be a plus sign, nothing before the point, and underscores
among the digits. What is read is always a hundred times the decimal number that is
written. Two places are asked for behind the point, but an underscore may take one.
-/

namespace DoubleEntry.Money

/-- A digit, or an underscore, which stands among digits and counts for nothing. -/
def isFigure (c : Char) : Bool := c.isDigit || c = '_'

/-- The decimal number that is written in a text. -/
def decimal (text : List Char) : ℚ :=
  let fraction := text.dropWhile (· ≠ '.')
  let size : ℚ := digitsOf (text.takeWhile (· ≠ '.')) +
    digitsOf fraction / 10 ^ fraction.countP Char.isDigit
  if text.head? = some '-' then -size else size

/-- What is taken for a number: its sign, the figures before the point, and nothing or
    a point with two figures behind it. The first figure is a digit. -/
structure Loose (sign whole fraction : List Char) : Prop where
  signed : sign = [] ∨ sign = ['-'] ∨ sign = ['+']
  figures : ∀ c ∈ whole, isFigure c
  places : fraction = [] ∨ ∃ a b, isFigure a ∧ isFigure b ∧ fraction = ['.', a, b]
  begun : ∃ c ∈ (whole ++ fraction.tail).head?, c.isDigit

namespace Numeral

theorem read?_behind_point {n m : Numeral} {places : Nat} {text : List Char}
    (h : n.places = some places) :
    n.read? text = some m ↔ (∀ c ∈ text, isFigure c) ∧
      (n.begun ∨ ∃ c ∈ text.head?, c.isDigit) ∧
      ⟨Nat.ofDigitChars 10 (text.filter Char.isDigit) n.digits,
        some (places + text.countP Char.isDigit), true⟩ = m := by
  induction text generalizing n places with
  | nil =>
      obtain ⟨digits, _, begun⟩ := n
      cases h
      cases begun <;> simp [read?]
  | cons c rest ih =>
      rw [read?]
      by_cases hdigit : c.isDigit
      · have hpush : (n.push c).places = some (places + 1) := by simp [push, h]
        rw [if_pos hdigit, ih hpush]
        simp [hdigit, isFigure, push, Nat.ofDigitChars_cons, Nat.add_assoc, Nat.add_comm 1]
      · by_cases hunderscore : c = '_'
        · subst hunderscore
          cases hbegun : n.begun <;> simp [ih h, h, hbegun, isFigure]
        · simp [hdigit, hunderscore, h, isFigure]

theorem read?_eq_some {n m : Numeral} {text : List Char} (h : n.places = none) :
    n.read? text = some m ↔
      (∀ c ∈ text.takeWhile (· ≠ '.'), isFigure c) ∧
      (∀ c ∈ (text.dropWhile (· ≠ '.')).tail, isFigure c) ∧
      (n.begun ∨ ∃ c ∈ (text.takeWhile (· ≠ '.') ++ (text.dropWhile (· ≠ '.')).tail).head?,
        c.isDigit) ∧
      ⟨Nat.ofDigitChars 10 (text.filter Char.isDigit) n.digits,
        if text.dropWhile (· ≠ '.') = [] then none
        else some ((text.dropWhile (· ≠ '.')).countP Char.isDigit), true⟩ = m := by
  induction text generalizing n with
  | nil =>
      obtain ⟨digits, _, begun⟩ := n
      cases h
      cases begun <;> simp [read?]
  | cons c rest ih =>
      rw [read?]
      by_cases hpoint : c = '.'
      · subst hpoint
        simp [h, read?_behind_point]
      · by_cases hdigit : c.isDigit
        · have hpush : (n.push c).places = none := by simp [push, h]
          rw [if_pos hdigit, ih hpush]
          simp [hpoint, hdigit, isFigure, push, Nat.ofDigitChars_cons]
        · by_cases hunderscore : c = '_'
          · subst hunderscore
            cases hbegun : n.begun <;> simp [ih h, hbegun, isFigure]
          · simp [hpoint, hdigit, hunderscore, isFigure]

end Numeral

/-! ## What a number comes to -/

/-- Digits behind others raise these by as many places. -/
theorem digitsOf_append (first second : List Char) :
    digitsOf (first ++ second) =
      10 ^ second.countP Char.isDigit * digitsOf first + digitsOf second := by
  simp only [digitsOf, List.filter_append, Nat.ofDigitChars_append, List.countP_eq_length_filter]
  exact Nat.ofDigitChars_eq_ofDigitChars_zero

theorem minor_eq (whole : List Char) {fraction : List Char}
    (h : fraction.countP Char.isDigit ≤ 2) :
    ((Numeral.mk (digitsOf (whole ++ fraction)) (if fraction = [] then none
      else some (fraction.countP Char.isDigit)) true).minor : ℚ) =
        100 * (digitsOf whole + digitsOf fraction / 10 ^ fraction.countP Char.isDigit) := by
  rw [digitsOf_append]
  by_cases hnone : fraction = []
  · subst hnone
    simp [Numeral.minor, digitsOf]
    ring
  · rw [if_neg hnone]
    generalize fraction.countP Char.isDigit = places at h
    obtain rfl | rfl | rfl : places = 0 ∨ places = 1 ∨ places = 2 := by omega
    all_goals simp [Numeral.minor]
    all_goals ring

theorem size_of_figures {text : List Char} (h : ∀ c ∈ text, isFigure c) :
    (String.ofList text).utf8ByteSize = text.length := by
  induction text with
  | nil => rfl
  | cons c rest ih =>
      obtain ⟨hc, hrest⟩ := List.forall_mem_cons.1 h
      have hsize : c.utf8Size = 1 := by
        simp only [isFigure, Bool.or_eq_true, decide_eq_true_eq] at hc
        rcases hc with hdigit | rfl
        · exact utf8Size_of_isDigit hdigit
        · decide
      rw [String.ofList_cons, String.utf8ByteSize_append, ih hrest]
      simp [hsize, Nat.add_comm]

namespace Loose

variable {sign whole fraction : List Char}

theorem fraction_begins (h : Loose sign whole fraction) :
    fraction = [] ∨ fraction.head? = some '.' := by
  rcases h.places with rfl | ⟨a, b, -, -, rfl⟩ <;> simp

theorem point_not_mem (h : Loose sign whole fraction) : '.' ∉ sign ++ whole := by
  have hwhole : '.' ∉ whole := fun hmem => absurd (h.figures _ hmem) (by decide)
  rcases h.signed with rfl | rfl | rfl <;> simp [hwhole]

theorem countP_le (h : Loose sign whole fraction) : fraction.countP Char.isDigit ≤ 2 := by
  rcases h.places with rfl | ⟨a, b, -, -, rfl⟩
  · simp
  · have hpoint : Char.isDigit '.' = false := by decide
    have := List.countP_le_length (p := Char.isDigit) (l := [a, b])
    simpa [List.countP_cons, hpoint] using this

theorem splitSign_append (h : Loose sign whole fraction) :
    splitSign (sign ++ (whole ++ fraction)) = (decide (sign = ['-']), whole ++ fraction) := by
  have hhead {c : Char} (hfigure : isFigure c = false) (hpoint : c ≠ '.') :
      (whole ++ fraction).head? ≠ some c := by
    intro hc
    cases whole with
    | nil =>
        rw [List.nil_append] at hc
        rcases h.fraction_begins with rfl | hbegins
        · cases hc
        · exact hpoint (Option.some.inj (hc.symm.trans hbegins))
    | cons d rest =>
        cases hc
        simp [h.figures c List.mem_cons_self] at hfigure
  rcases h.signed with rfl | rfl | rfl
  · exact splitSign_eq (hhead (by decide) (by decide)) (hhead (by decide) (by decide))
  · rfl
  · rfl

theorem fractionFits_append (h : Loose sign whole fraction) :
    fractionFits (sign ++ (whole ++ fraction)) := by
  have hdrop := (cut_at h.point_not_mem h.fraction_begins).2
  rw [List.append_assoc] at hdrop
  rw [fractionFits, hdrop]
  rcases h.places with rfl | ⟨a, b, ha, hb, rfl⟩
  · rfl
  · have hfigures : ∀ c ∈ [a, b], isFigure c := by simp [ha, hb]
    have hsize := size_of_figures hfigures
    simpa using hsize

theorem read?_append (h : Loose sign whole fraction) :
    ∃ n, Numeral.empty.read? (whole ++ fraction) = some n ∧
      (n.minor : ℚ) =
        100 * (digitsOf whole + digitsOf fraction / 10 ^ fraction.countP Char.isDigit) := by
  have hwhole : '.' ∉ whole := fun hmem => h.point_not_mem (List.mem_append_right _ hmem)
  obtain ⟨htake, hdrop⟩ := cut_at hwhole h.fraction_begins
  refine ⟨_, (Numeral.read?_eq_some rfl).2 ?_, minor_eq whole h.countP_le⟩
  rw [htake, hdrop]
  refine ⟨h.figures, ?_, .inr h.begun, rfl⟩
  rcases h.places with rfl | ⟨a, b, ha, hb, rfl⟩ <;> simp_all

theorem decimal_append (h : Loose sign whole fraction) :
    decimal (sign ++ (whole ++ fraction)) =
      if sign = ['-'] then
        -(digitsOf whole + digitsOf fraction / 10 ^ fraction.countP Char.isDigit : ℚ)
      else digitsOf whole + digitsOf fraction / 10 ^ fraction.countP Char.isDigit := by
  obtain ⟨htake, hdrop⟩ := cut_at h.point_not_mem h.fraction_begins
  rw [List.append_assoc] at htake hdrop
  have hdigits : digitsOf (sign ++ whole) = digitsOf whole := by
    rcases h.signed with rfl | rfl | rfl <;> rfl
  have hsign : (sign ++ (whole ++ fraction)).head? = some '-' ↔ sign = ['-'] := by
    have hsplit := h.splitSign_append
    constructor
    · intro hhead
      obtain ⟨rest, hrest⟩ := List.head?_eq_some_iff.1 hhead
      rw [hrest] at hsplit
      simpa [splitSign] using congrArg Prod.fst hsplit
    · rintro rfl
      rfl
  simp only [decimal, htake, hdrop, hdigits, hsign]

end Loose

/-! ## Reading any text -/

theorem ofText_of_read {text : List Char} {n : Numeral}
    (hfits : fractionFits (text.filter (· ≠ ',')))
    (hread : Numeral.empty.read? (splitSign (text.filter (· ≠ ','))).2 = some n) {value : Int} :
    ofText text = .ok value ↔ n.minor ≤ limit ∧
      (if (splitSign (text.filter (· ≠ ','))).1 then -(n.minor : Int) else n.minor) = value := by
  rw [ofText]
  simp only [hfits, hread, if_true]
  by_cases hlimit : n.minor ≤ limit
  · have hfew : ¬ capacity ≤ (n.minor + 50) / 100 := by
      simp only [limit, capacity] at hlimit ⊢
      omega
    simp [hlimit, hfew]
  · split <;> simp [hlimit]

theorem exists_sign (text : List Char) :
    ∃ sign body, (sign = [] ∨ sign = ['-'] ∨ sign = ['+']) ∧ text = sign ++ body ∧
      (splitSign text).2 = body := by
  unfold splitSign
  split
  · next rest => exact ⟨['-'], rest, by simp⟩
  · next rest => exact ⟨['+'], rest, by simp⟩
  · exact ⟨[], text, by simp⟩

theorem exists_loose {text : List Char} {n : Numeral} (hfits : fractionFits text)
    (hread : Numeral.empty.read? (splitSign text).2 = some n) :
    ∃ sign whole fraction, text = sign ++ (whole ++ fraction) ∧ Loose sign whole fraction := by
  obtain ⟨sign, body, hsigned, rfl, hbody⟩ := exists_sign text
  rw [hbody, Numeral.read?_eq_some rfl] at hread
  obtain ⟨hfigures, hbehind, hbegun, -⟩ := hread
  have hbegun : ∃ c ∈ (body.takeWhile (· ≠ '.') ++ (body.dropWhile (· ≠ '.')).tail).head?,
      c.isDigit := hbegun.resolve_left Bool.false_ne_true
  refine ⟨sign, body.takeWhile (· ≠ '.'), body.dropWhile (· ≠ '.'), ?_, hsigned, hfigures, ?_,
    hbegun⟩
  · rw [List.takeWhile_append_dropWhile]
  · have hdrop : (sign ++ body).dropWhile (· ≠ '.') = body.dropWhile (· ≠ '.') := by
      rcases hsigned with rfl | rfl | rfl <;> simp
    rw [fractionFits, hdrop] at hfits
    cases hfraction : body.dropWhile (· ≠ '.') with
    | nil => exact .inl rfl
    | cons point fraction =>
        have hpoint : point = '.' := by
          have hhead := List.head?_dropWhile_not (· ≠ '.') body
          rw [hfraction] at hhead
          simpa using hhead
        rw [hfraction, List.tail_cons] at hbehind
        rw [hfraction, decide_eq_true_eq, size_of_figures hbehind] at hfits
        obtain ⟨a, b, rfl⟩ := List.length_eq_two.1 hfits
        exact .inr ⟨a, b, hbehind a (by simp), hbehind b (by simp), by rw [hpoint]⟩

theorem Loose.ofText_eq_ok {text sign whole fraction : List Char}
    (h : Loose sign whole fraction) (hplain : text.filter (· ≠ ',') = sign ++ (whole ++ fraction))
    {value : Int} :
    ofText text = .ok value ↔
      (value : ℚ) = 100 * decimal (text.filter (· ≠ ',')) ∧ value.natAbs ≤ limit := by
  obtain ⟨n, hread, hminor⟩ := h.read?_append
  have hsplit := h.splitSign_append
  have hfits := h.fractionFits_append
  rw [← hplain] at hsplit hfits
  have hspelled : ((if sign = ['-'] then -(n.minor : Int) else n.minor : Int) : ℚ) =
      100 * decimal (text.filter (· ≠ ',')) := by
    rw [hplain, h.decimal_append]
    split
    · rw [Int.cast_neg, Int.cast_natCast, hminor, mul_neg]
    · rw [Int.cast_natCast, hminor]
  have hsize : (if sign = ['-'] then -(n.minor : Int) else n.minor).natAbs = n.minor := by
    split <;> simp
  rw [ofText_of_read hfits (by rw [hsplit]; exact hread), hsplit, ← hspelled, Int.cast_inj]
  simp only [decide_eq_true_eq]
  constructor
  · rintro ⟨hlimit, rfl⟩
    exact ⟨rfl, hsize.symm ▸ hlimit⟩
  · rintro ⟨rfl, hlimit⟩
    exact ⟨hsize ▸ hlimit, rfl⟩

/-- What is read from a text is a hundred times the decimal number that is written in
    it, and it is within the limit. -/
theorem ofText_eq_ok_iff_loose {text : List Char} {value : Int} :
    ofText text = .ok value ↔
      (∃ sign whole fraction, text.filter (· ≠ ',') = sign ++ (whole ++ fraction) ∧
        Loose sign whole fraction) ∧
      (value : ℚ) = 100 * decimal (text.filter (· ≠ ',')) ∧ value.natAbs ≤ limit := by
  constructor
  · intro h
    have hparts : ∃ sign whole fraction, text.filter (· ≠ ',') = sign ++ (whole ++ fraction) ∧
        Loose sign whole fraction := by
      unfold ofText at h
      dsimp only at h
      split at h
      · next hfits =>
        split at h
        · cases h
        · next n hread => exact exists_loose hfits hread
      · cases h
    obtain ⟨sign, whole, fraction, hplain, hloose⟩ := hparts
    exact ⟨⟨sign, whole, fraction, hplain, hloose⟩, (hloose.ofText_eq_ok hplain).1 h⟩
  · rintro ⟨⟨sign, whole, fraction, hplain, hloose⟩, hvalue⟩
    exact (hloose.ofText_eq_ok hplain).2 hvalue

/-- Behind the point there are two digits, unless an underscore is among them. -/
theorem Loose.digits_iff {sign whole fraction before behind : List Char}
    (h : Loose sign whole fraction)
    (hcut : sign ++ (whole ++ fraction) = before ++ '.' :: behind) (hbefore : '.' ∉ before) :
    (∃ d₁ d₂ : Char, d₁.isDigit ∧ d₂.isDigit ∧ behind = [d₁, d₂]) ↔ '_' ∉ behind := by
  have hdrop := (cut_at h.point_not_mem h.fraction_begins).2
  rw [List.append_assoc, hcut, (cut_at hbefore (.inr rfl)).2] at hdrop
  subst hdrop
  have hplaces := h.places
  simp only [isFigure, Bool.or_eq_true, decide_eq_true_eq] at hplaces
  rcases hplaces with hnone | ⟨a, b, ha, hb, hsame⟩
  · cases hnone
  · cases hsame
    constructor
    · rintro ⟨d₁, d₂, h₁, h₂, hsame⟩ hmem
      cases hsame
      rcases List.mem_pair.1 hmem with rfl | rfl <;> contradiction
    · intro hmem
      simp only [List.mem_cons, List.not_mem_nil, or_false, not_or] at hmem
      exact ⟨a, b, ha.resolve_right (Ne.symm hmem.1), hb.resolve_right (Ne.symm hmem.2), rfl⟩

/-- An amount is read from a text exactly if the text is a number, apart from its
    commas, and the amount is a hundred times that number and within the limit. Where
    there is a point, two digits and nothing else stand behind it unless an underscore
    is among them. -/
theorem readAt_loose (text : List Char) (span : Span) (value : Int) :
    (readAt text span = .ok value ↔
      (∃ sign whole fraction, text.filter (· ≠ ',') = sign ++ (whole ++ fraction) ∧
        Loose sign whole fraction) ∧
      (value : ℚ) = 100 * decimal (text.filter (· ≠ ',')) ∧ value.natAbs ≤ limit) ∧
    (readAt text span = .ok value →
      ∀ before behind, text.filter (· ≠ ',') = before ++ '.' :: behind → '.' ∉ before →
        ((∃ d₁ d₂ : Char, d₁.isDigit ∧ d₂.isDigit ∧ behind = [d₁, d₂]) ↔ '_' ∉ behind)) := by
  constructor
  · rw [readAt_eq_ok, ofText_eq_ok_iff_loose]
  · intro h before behind hcut hbefore
    rw [readAt_eq_ok, ofText_eq_ok_iff_loose] at h
    obtain ⟨⟨sign, whole, fraction, hplain, hloose⟩, -⟩ := h
    exact hloose.digits_iff (hplain.symm.trans hcut) hbefore

theorem readAt_loose_halfUnit :
    readAt "+,.5_".toList (Span.startOf "main") = .ok 50 ∧
      ((50 : Int) : ℚ) = 100 * decimal ("+,.5_".toList.filter (· ≠ ',')) ∧
      ((∃ d₁ d₂ : Char, d₁.isDigit ∧ d₂.isDigit ∧ "5_".toList = [d₁, d₂]) ↔
        '_' ∉ "5_".toList) := by
  have hread : readAt "+,.5_".toList (Span.startOf "main") = .ok 50 := rfl
  exact ⟨hread, ((readAt_loose _ _ _).1.1 hread).2.1,
    (readAt_loose _ _ _).2 hread "+".toList "5_".toList (by decide) (by decide)⟩

theorem readAt_underscorePlace :
    ¬ ∀ (text : List Char) (span : Span) (value : Int), 'e' ∉ text → 'E' ∉ text →
      readAt text span = .ok value →
      ∀ before behind, text.filter (· ≠ ',') = before ++ '.' :: behind → '.' ∉ before →
        (∃ d₁ d₂ : Char, d₁.isDigit ∧ d₂.isDigit ∧ behind = [d₁, d₂]) ∧
          (value : ℚ) = 100 * decimal (text.filter (· ≠ ',')) := by
  intro hall
  have hread : readAt "1.5_".toList (Span.startOf "main") = .ok 150 := rfl
  obtain ⟨⟨d₁, d₂, h₁, h₂, hsame⟩, -⟩ := hall "1.5_".toList (Span.startOf "main") 150 (by decide)
    (by decide) hread "1".toList "5_".toList (by decide) (by decide)
  cases hsame
  exact absurd h₂ (by decide)

end DoubleEntry.Money
