import DoubleEntry.Date
import DoubleEntry.Report.Layout

/-! # Reading tables back

A text can be taken apart at its line ends and a line at its tabs. A table that
was laid out in this way is found again if no field holds one of these
characters. Dates and amounts never do.
-/

namespace DoubleEntry.Layout

/-- The text stays within one field. -/
def Plain (text : String) : Prop := '\t' ∉ text.toList ∧ '\n' ∉ text.toList

instance (text : String) : Decidable (Plain text) := inferInstanceAs (Decidable (_ ∧ _))

/-- The lines of a text, each taken apart into its fields. A line is what stands
    before a line end. -/
def table (text : String) : List (List String) :=
  (text.toList.splitOn '\n').dropLast.map fun line => (line.splitOn '\t').map String.ofList

theorem toList_fields (row : List String) :
    (fields row).toList = ['\t'].intercalate (row.map String.toList) := String.toList_intercalate

theorem splitOn_fields {row : List String} (nonempty : row ≠ []) (plain : ∀ f ∈ row, Plain f) :
    ((fields row).toList.splitOn '\t').map String.ofList = row := by
  have htabs : ∀ f ∈ row.map String.toList, '\t' ∉ f :=
    List.forall_mem_map.2 fun f hf => (plain f hf).1
  rw [toList_fields, List.splitOn_intercalate '\t' htabs (mt List.map_eq_nil_iff.1 nonempty)]
  simp

theorem newLine_not_mem_fields {row : List String} (plain : ∀ f ∈ row, Plain f) :
    '\n' ∉ (fields row).toList := by
  rw [toList_fields]
  induction row with
  | nil => exact List.not_mem_nil
  | cons f row ih =>
      obtain ⟨hf, hrow⟩ := List.forall_mem_cons.1 plain
      cases row with
      | nil => simpa using hf.2
      | cons next row =>
          have hrest := ih hrow
          rw [List.map_cons, List.map_cons, List.intercalate_cons_cons]
          rw [List.map_cons] at hrest
          simp [hf.2, hrest]

theorem splitOn_lines {texts : List String} (plain : ∀ text ∈ texts, '\n' ∉ text.toList) :
    (lines texts).toList.splitOn '\n' = texts.map String.toList ++ [[]] := by
  induction texts with
  | nil => rfl
  | cons text texts ih =>
      obtain ⟨htext, htexts⟩ := List.forall_mem_cons.1 plain
      have hlines : (lines (text :: texts)).toList =
          text.toList ++ '\n' :: (lines texts).toList := by
        simp [lines]
      rw [hlines, List.splitOn_append_cons_self_of_not_mem htext, ih htexts]
      rfl

/-- A table is found again in the text that it was laid out as. -/
theorem table_lines {rows : List (List String)} (nonempty : ∀ row ∈ rows, row ≠ [])
    (plain : ∀ row ∈ rows, ∀ f ∈ row, Plain f) : table (lines (rows.map fields)) = rows := by
  have hlines : ∀ text ∈ rows.map fields, '\n' ∉ text.toList :=
    List.forall_mem_map.2 fun row hrow => newLine_not_mem_fields (plain row hrow)
  rw [table, splitOn_lines hlines, List.dropLast_concat, List.map_map, List.map_map]
  calc
    rows.map _ = rows.map id :=
      List.map_congr_left fun row hrow => splitOn_fields (nonempty row hrow) (plain row hrow)
    _ = rows := List.map_id rows

/-! ## Amounts and dates -/

/-- Digits, signs and points. -/
def isNumeral (c : Char) : Bool := c.isDigit || c = '-' || c = '+' || c = '.'

theorem plain_of_numeral {text : String} (h : ∀ c ∈ text.toList, isNumeral c) : Plain text :=
  ⟨fun hmem => absurd (h _ hmem) (by decide), fun hmem => absurd (h _ hmem) (by decide)⟩

theorem isNumeral_of_mem_toDigits {n : Nat} {c : Char} (h : c ∈ Nat.toDigits 10 n) :
    isNumeral c := by
  have hdigit := Nat.isDigit_of_mem_toDigits (by decide) (by decide) h
  simp [isNumeral, hdigit]

theorem isNumeral_digitChar {n : Nat} (h : n < 10) : isNumeral (Nat.digitChar n) := by
  simp [isNumeral, Nat.isDigit_digitChar, h]

theorem isNumeral_of_mem_format {minor : Int} {c : Char} (hc : c ∈ (Money.format minor).toList) :
    isNumeral c := by
  simp only [Money.format_eq, String.toList_ofList, Money.formatChars, Money.twoDigits,
    List.mem_append, List.mem_cons, List.not_mem_nil, or_false] at hc
  rcases hc with hsign | hwhole | hpoint | htens | hunits
  · split at hsign
    · obtain rfl := List.mem_singleton.1 hsign
      decide
    · cases hsign
  · exact isNumeral_of_mem_toDigits hwhole
  · rw [hpoint]
    decide
  · rw [htens]
    exact isNumeral_digitChar (by omega)
  · rw [hunits]
    exact isNumeral_digitChar (by omega)

theorem plain_format (minor : Int) : Plain (Money.format minor) :=
  plain_of_numeral fun _ => isNumeral_of_mem_format

theorem plain_money (debit credit : Int) : ∀ f ∈ money debit credit, Plain f := by
  simp [money, plain_format]

theorem isNumeral_of_mem_padded {width n : Nat} {c : Char} (h : c ∈ Date.padded width n) :
    isNumeral c := by
  rcases List.mem_append.1 h with hzero | hdigit
  · rw [List.eq_of_mem_replicate hzero]
    decide
  · exact isNumeral_of_mem_toDigits hdigit

theorem isNumeral_of_mem_yearChars {year : Int} {c : Char} (h : c ∈ Date.yearChars year) :
    isNumeral c := by
  have signed {sign : Char} (hsign : isNumeral sign)
      (h : c ∈ sign :: Date.padded 4 year.natAbs) : isNumeral c := by
    rcases List.mem_cons.1 h with rfl | hdigit
    · exact hsign
    · exact isNumeral_of_mem_padded hdigit
  unfold Date.yearChars at h
  split at h
  · exact signed rfl h
  · split at h
    · exact signed rfl h
    · exact isNumeral_of_mem_padded h

theorem isNumeral_of_mem_monthText {d : Date} {c : Char} (h : c ∈ d.monthText.toList) :
    isNumeral c := by
  rw [Date.monthText, String.toList_ofList, List.mem_append, List.mem_cons] at h
  rcases h with hyear | rfl | hmonth
  · exact isNumeral_of_mem_yearChars hyear
  · rfl
  · exact isNumeral_of_mem_padded hmonth

theorem plain_monthText (d : Date) : Plain d.monthText :=
  plain_of_numeral fun _ => isNumeral_of_mem_monthText

theorem plain_text (d : Date) : Plain d.text := by
  refine plain_of_numeral fun c hc => ?_
  rw [Date.text, String.toList_append, String.toList_ofList, List.mem_append, List.mem_cons] at hc
  rcases hc with hmonth | rfl | hday
  · exact isNumeral_of_mem_monthText hmonth
  · rfl
  · exact isNumeral_of_mem_padded hday

end DoubleEntry.Layout
