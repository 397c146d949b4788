import DoubleEntry.Date
import Mathlib.Data.List.Lex
import Mathlib.Data.String.Basic

/-! # Months as text

A month is written with its year in four digits and its number in two. Written
in this way, months compare as texts just as they follow each other in the
calendar. Other years need a sign or more digits, and for them this fails.
-/

namespace DoubleEntry

/-! ## Digits of one width -/

theorem append_lt_append {first second : List Char} (hlength : first.length = second.length)
    (h : first < second) (rest rest' : List Char) : first ++ rest < second ++ rest' := by
  induction first generalizing second with
  | nil =>
      cases second with
      | nil => exact absurd h (List.lt_irrefl _)
      | cons => cases hlength
  | cons c first ih =>
      cases second with
      | nil => cases hlength
      | cons d second =>
          rw [List.cons_append, List.cons_append, List.cons_lt_cons_iff]
          rcases List.cons_lt_cons_iff.1 h with hlt | ⟨rfl, hlt⟩
          · exact .inl hlt
          · exact .inr ⟨rfl, ih (Nat.succ.inj hlength) hlt⟩

namespace Date

theorem padded_one {n : Nat} (h : n < 10) : padded 1 n = [Nat.digitChar n] := by
  rw [padded, Nat.toDigits_of_lt_base h]
  rfl

theorem padded_succ (width n : Nat) :
    padded (width + 2) n = padded (width + 1) (n / 10) ++ [Nat.digitChar (n % 10)] := by
  unfold padded List.leftpad
  by_cases h : n < 10
  · rw [Nat.div_eq_of_lt h, Nat.mod_eq_of_lt h, Nat.toDigits_of_lt_base h,
      Nat.toDigits_of_lt_base (Nat.zero_lt_succ 9)]
    simp [List.replicate_succ']
  · rw [Nat.toDigits_of_base_le (by decide) (Nat.not_lt.1 h)]
    simp

theorem length_padded {width n : Nat} (h : n < 10 ^ (width + 1)) :
    (padded (width + 1) n).length = width + 1 := by
  induction width generalizing n with
  | zero => rw [padded_one h]; rfl
  | succ width ih =>
      rw [padded_succ, List.length_append, ih (by rw [Nat.pow_succ] at h; omega)]
      rfl

theorem digitChar_lt : ∀ m < 10, ∀ n < 10, m < n → Nat.digitChar m < Nat.digitChar n := by
  decide

theorem padded_lt {width m n : Nat} (hn : n < 10 ^ (width + 1)) (h : m < n) :
    padded (width + 1) m < padded (width + 1) n := by
  induction width generalizing m n with
  | zero =>
      rw [padded_one (Nat.lt_trans h hn), padded_one hn, List.cons_lt_cons_iff]
      exact .inl (digitChar_lt m (Nat.lt_trans h hn) n hn h)
  | succ width ih =>
      rw [Nat.pow_succ] at hn
      have htens : n / 10 < 10 ^ (width + 1) := by omega
      rw [padded_succ, padded_succ]
      rcases Nat.lt_or_ge (m / 10) (n / 10) with hlt | hge
      · refine append_lt_append ?_ (ih htens hlt) _ _
        rw [length_padded (Nat.lt_trans hlt htens), length_padded htens]
      · have hsame : m / 10 = n / 10 := by omega
        rw [hsame]
        refine List.append_left_lt (List.cons_lt_cons_iff.2 (.inl ?_))
        exact digitChar_lt _ (Nat.mod_lt _ (by decide)) _ (Nat.mod_lt _ (by decide)) (by omega)

end Date

/-! ## Months -/

/-- A month of the calendar. -/
structure Month where
  year : Int
  number : Nat
  deriving DecidableEq

namespace Month

def ofDate (d : Date) : Month := ⟨d.year, d.month⟩

/-- The year and the number of the month, as in `2020-05`. -/
def text (m : Month) : String :=
  String.ofList (Date.yearChars m.year ++ '-' :: Date.padded 2 m.number)

/-- The month comes first in the calendar. -/
def Before (m n : Month) : Prop := m.year < n.year ∨ m.year = n.year ∧ m.number < n.number

/-- A year of four digits and a number of two. -/
structure Short (m : Month) : Prop where
  nonneg : 0 ≤ m.year
  year : m.year ≤ 9999
  number : m.number ≤ 99

theorem before_or {m n : Month} : m.Before n ∨ m = n ∨ n.Before m := by
  obtain ⟨year, number⟩ := m
  obtain ⟨year', number'⟩ := n
  simp only [Before, Month.mk.injEq]
  omega

theorem text_lt_of_before {m n : Month} (hm : m.Short) (hn : n.Short) (h : m.Before n) :
    m.text < n.text := by
  have yearChars_eq {m : Month} (hm : m.Short) :
      Date.yearChars m.year = Date.padded 4 m.year.natAbs := by
    rw [Date.yearChars, if_neg (Int.not_lt.2 hm.nonneg), if_neg (Int.not_lt.2 hm.year)]
  have natAbs_lt {m : Month} (hm : m.Short) : m.year.natAbs < 10 ^ 4 := by
    have := hm.nonneg
    have := hm.year
    omega
  rw [String.lt_iff_toList_lt, text, text, String.toList_ofList, String.toList_ofList,
    yearChars_eq hm, yearChars_eq hn]
  rcases h with hyear | ⟨hyear, hnumber⟩
  · have hlt : m.year.natAbs < n.year.natAbs := by
      have := hm.nonneg
      omega
    refine append_lt_append ?_ (Date.padded_lt (natAbs_lt hn) hlt) _ _
    rw [Date.length_padded (natAbs_lt hm), Date.length_padded (natAbs_lt hn)]
  · have hnumber' : n.number < 10 ^ 2 := Nat.lt_succ_of_le hn.number
    rw [hyear]
    exact List.append_left_lt (List.cons_lt_cons_iff.2 (.inr ⟨rfl, Date.padded_lt hnumber' hnumber⟩))

/-- Months in text are in the order of the calendar. -/
theorem text_lt_text {m n : Month} (hm : m.Short) (hn : n.Short) :
    m.text < n.text ↔ m.Before n := by
  constructor
  · intro h
    rcases before_or (m := m) (n := n) with hbefore | rfl | hafter
    · exact hbefore
    · exact absurd h (String.lt_irrefl _)
    · exact absurd h (String.lt_asymm (text_lt_of_before hn hm hafter))
  · exact text_lt_of_before hm hn

theorem text_inj {m n : Month} (hm : m.Short) (hn : n.Short) : m.text = n.text ↔ m = n := by
  constructor
  · intro h
    rcases before_or (m := m) (n := n) with hbefore | rfl | hafter
    · exact absurd h (ne_of_lt (text_lt_of_before hm hn hbefore))
    · rfl
    · exact absurd h.symm (ne_of_lt (text_lt_of_before hn hm hafter))
  · rintro rfl
    rfl

end Month

end DoubleEntry
