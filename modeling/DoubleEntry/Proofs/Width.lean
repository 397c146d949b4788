import DoubleEntry.Amount
import Mathlib.Algebra.Order.BigOperators.Group.List
import Mathlib.Algebra.Order.Ring.Int

/-! # Numbers of limited width

A machine computes with signed numbers of 64 or of 128 bits. An operation whose
exact result is too wide gives nothing, and a sum gives nothing as soon as what
has been added up so far is too wide. Where there is a result it is the exact one.
-/

namespace DoubleEntry

/-- How many bits a signed number has. -/
inductive Width where
  | bits64
  | bits128
  deriving Repr, DecidableEq

namespace Width

/-- The greatest number of this width. -/
def greatest : Width → Int
  | bits64 => 0x7FFFFFFFFFFFFFFF
  | bits128 => 0x7FFFFFFFFFFFFFFFFFFFFFFFFFFFFFFF

/-- There is one number more below zero than above it. -/
def Holds (width : Width) (number : Int) : Prop :=
  -width.greatest - 1 ≤ number ∧ number ≤ width.greatest

instance (width : Width) (number : Int) : Decidable (width.Holds number) :=
  inferInstanceAs (Decidable (_ ∧ _))

/-- The result of an operation, unless the operation overflows. -/
def keep? (width : Width) (result : Int) : Option Int :=
  if width.Holds result then some result else none

/-- Add values to a sum one after the other, unless one of the additions overflows. -/
def addAll? (width : Width) (sum : Int) (values : List Int) : Option Int :=
  values.foldlM (fun sum value => width.keep? (sum + value)) sum

def sum? (width : Width) (values : List Int) : Option Int := width.addAll? 0 values

theorem keep?_of_holds {width : Width} {result : Int} (h : width.Holds result) :
    width.keep? result = some result := if_pos h

theorem keep?_eq_some {width : Width} {result kept : Int} :
    width.keep? result = some kept ↔ width.Holds result ∧ kept = result := by
  unfold keep?
  split
  · next h => simp only [h, true_and, Option.some.injEq, eq_comm]
  · next h => simp only [h, false_and, reduceCtorEq]

/-- A sum has a result exactly if every part of it from its beginning has one. -/
theorem addAll?_eq_some {width : Width} {start sum : Int} {values : List Int} :
    width.addAll? start values = some sum ↔
      (∀ first, first <+: values → first ≠ [] → width.Holds (start + first.sum)) ∧
        sum = start + values.sum := by
  induction values generalizing start with
  | nil =>
      simp only [addAll?, List.foldlM_nil, List.prefix_nil, List.sum_nil, Int.add_zero]
      constructor
      · rintro ⟨⟩
        exact ⟨fun first h hne => absurd h hne, rfl⟩
      · rintro ⟨-, rfl⟩
        rfl
  | cons value values ih =>
      have hstep : width.addAll? start (value :: values) =
          (width.keep? (start + value)).bind fun next => width.addAll? next values := rfl
      rw [hstep, Option.bind_eq_some_iff]
      simp only [keep?_eq_some, List.sum_cons]
      constructor
      · rintro ⟨next, ⟨hholds, rfl⟩, hrest⟩
        obtain ⟨hparts, rfl⟩ := ih.1 hrest
        refine ⟨fun first hfirst hne => ?_, by omega⟩
        obtain rfl | ⟨part, rfl, hpart⟩ := List.prefix_cons_iff.1 hfirst
        · exact absurd rfl hne
        · by_cases hempty : part = []
          · subst hempty
            simpa using hholds
          · simpa [Int.add_assoc] using hparts part hpart hempty
      · rintro ⟨hparts, rfl⟩
        refine ⟨_, ⟨?_, rfl⟩, ih.2 ⟨fun part hpart hne => ?_, by omega⟩⟩
        · simpa using hparts [value] (by simp) (by simp)
        · simpa [Int.add_assoc] using hparts (value :: part) (by simpa using hpart) (by simp)

theorem sum?_eq_some {width : Width} {sum : Int} {values : List Int} :
    width.sum? values = some sum ↔
      (∀ first, first <+: values → width.Holds first.sum) ∧ sum = values.sum := by
  unfold sum?
  simp only [addAll?_eq_some, Int.zero_add]
  refine and_congr_left fun _ => ⟨fun h first hfirst => ?_, fun h first hfirst _ => h first hfirst⟩
  by_cases hempty : first = []
  · subst hempty
    cases width <;> decide
  · exact h first hfirst hempty

/-! ## Sums of small values -/

theorem natAbs_sum_le {values : List Int} {bound : Nat}
    (h : ∀ value ∈ values, value.natAbs ≤ bound) :
    values.sum.natAbs ≤ values.length * bound := by
  induction values with
  | nil => simp
  | cons value values ih =>
      have hvalue := h value List.mem_cons_self
      have hrest := ih fun other hother => h other (List.mem_cons_of_mem value hother)
      rw [List.sum_cons, List.length_cons, Nat.succ_mul]
      omega

/-- Fewer than two to the power of 64 values of 64 bits have a sum of 128 bits. -/
theorem holds_of_natAbs_le {count : Nat} {number : Int}
    (hnumber : number.natAbs ≤ count * Money.limit) (hcount : count < 0x10000000000000000) :
    bits128.Holds number := by
  unfold Money.limit at hnumber
  constructor <;> simp only [greatest] <;> omega

theorem sum?_of_bounded {values : List Int} (hvalues : ∀ value ∈ values, value.natAbs ≤ Money.limit)
    (hcount : values.length < 0x10000000000000000) : bits128.sum? values = some values.sum := by
  refine sum?_eq_some.2 ⟨fun first hfirst => ?_, rfl⟩
  have hsmall := natAbs_sum_le fun value hvalue => hvalues value (hfirst.subset hvalue)
  exact holds_of_natAbs_le hsmall (Nat.lt_of_le_of_lt hfirst.length_le hcount)

/-- Of values that are not negative, no part of a sum is more than the whole. -/
theorem sum?_of_nonneg {width : Width} {values : List Int} (hvalues : ∀ value ∈ values, 0 ≤ value)
    (hsum : width.Holds values.sum) : width.sum? values = some values.sum := by
  refine sum?_eq_some.2 ⟨?_, rfl⟩
  rintro first ⟨rest, rfl⟩
  obtain ⟨hpart, hothers⟩ := List.forall_mem_append.1 hvalues
  have hfirst := List.sum_nonneg hpart
  have hrest := List.sum_nonneg hothers
  obtain ⟨-, hle⟩ := hsum
  rw [List.sum_append] at hle
  have hgreatest : 0 ≤ width.greatest := by cases width <;> decide
  constructor <;> omega

end Width

end DoubleEntry
