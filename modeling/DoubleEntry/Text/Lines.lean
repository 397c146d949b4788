/-! # Line endings

Inside the library a line ends with a single `\n`. Texts that come from outside
may end their lines with `\r\n` or with a lone `\r`, and both are turned into
`\n` before anything is read.
-/

namespace DoubleEntry.Lines

/-- Whether a text already ends its lines the way the library wants it. -/
def isUnified (text : List Char) : Bool := !text.contains '\r'

/-- Every pair `\r\n` becomes one `\n`. -/
def joinPairs : List Char → List Char
  | '\r' :: '\n' :: rest => '\n' :: joinPairs rest
  | c :: rest => c :: joinPairs rest
  | [] => []

/-- Every `\r` becomes `\n`. -/
def replaceReturns (text : List Char) : List Char :=
  text.map fun c => if c = '\r' then '\n' else c

/-- Every pair `\r\n` becomes one `\n`, and then so does every other `\r`. A text
    without any is left as it is. -/
def unify (text : List Char) : List Char :=
  if isUnified text then text else replaceReturns (joinPairs text)

/-- One pass from left to right: every pair `\r\n` and every other `\r` becomes
    one `\n`. -/
def onePass : List Char → List Char
  | '\r' :: '\n' :: rest => '\n' :: onePass rest
  | c :: rest => (if c = '\r' then '\n' else c) :: onePass rest
  | [] => []

theorem onePass_cons {c : Char} {rest : List Char} (h : ¬ (c = '\r' ∧ rest.head? = some '\n')) :
    onePass (c :: rest) = (if c = '\r' then '\n' else c) :: onePass rest := by
  rw [onePass]
  intro behind hc hrest
  exact h ⟨hc, by rw [hrest]; rfl⟩

theorem isUnified_iff {text : List Char} : isUnified text ↔ '\r' ∉ text := by
  simp [isUnified]

theorem onePass_eq_self {text : List Char} (h : '\r' ∉ text) : onePass text = text := by
  fun_induction onePass text with
  | case1 rest ih => simp at h
  | case2 c rest _ ih =>
    have hc : c ≠ '\r' := by rintro rfl; simp at h
    rw [if_neg hc, ih fun hm => h (List.mem_cons_of_mem _ hm)]
  | case3 => rfl

/-- A `\r` that joining leaves was in no pair, even if a joined one now follows it. -/
theorem replaceReturns_joinPairs (text : List Char) :
    replaceReturns (joinPairs text) = onePass text := by
  fun_induction onePass text with
  | case1 rest ih => exact congrArg ('\n' :: ·) ih
  | case2 c rest hplain ih =>
    rw [joinPairs]
    · exact congrArg (_ :: ·) ih
    · exact hplain
  | case3 => rfl

/-- Two replacements one after the other do the same as one pass. -/
theorem unify_eq_onePass (text : List Char) : unify text = onePass text := by
  unfold unify
  split
  · next h => exact (onePass_eq_self (isUnified_iff.1 h)).symm
  · exact replaceReturns_joinPairs text

theorem unify_eq_self {text : List Char} (h : '\r' ∉ text) : unify text = text :=
  if_pos (isUnified_iff.2 h)

theorem not_mem_unify (text : List Char) : '\r' ∉ unify text := by
  rw [unify_eq_onePass]
  fun_induction onePass text with
  | case1 rest ih => simpa using ih
  | case2 c rest _ ih => split <;> simp_all [eq_comm]
  | case3 => simp

end DoubleEntry.Lines
