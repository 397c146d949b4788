import DoubleEntry.Proofs.Alike
import DoubleEntry.Proofs.LineEndings
import DoubleEntry.Proofs.Patterns
import DoubleEntry.Proofs.Seams

/-! # Texts made of given lexemes

Every amount can be written as a number. A row of lexemes of which each is what its
own text falls apart into can be written as a text as well, one lexeme on each line.
-/

namespace DoubleEntry

open Lexeme

namespace Money

/-! ## Numbers with two decimals -/

theorem isDigit_of_mem_twoDigits {n : Nat} (h : n < 100) : ∀ c ∈ twoDigits n, c.isDigit := by
  intro c hc
  simp only [twoDigits, List.mem_cons, List.not_mem_nil, or_false] at hc
  rcases hc with rfl | rfl
  · rw [Nat.isDigit_digitChar, decide_eq_true_iff]
    omega
  · rw [Nat.isDigit_digitChar, decide_eq_true_iff]
    omega

theorem unsigned_digits (size : Nat) :
    Unsigned (Nat.toDigits 10 (size / 100)) ('.' :: twoDigits (size % 100)) := by
  have hdigit {c : Char} (hc : c ∈ Nat.toDigits 10 (size / 100)) : c.isDigit :=
    Nat.isDigit_of_mem_toDigits (by decide) (by decide) hc
  have htwo := isDigit_of_mem_twoDigits (Nat.mod_lt size (by decide : 0 < 100))
  obtain ⟨c, rest, hcons⟩ :=
    List.exists_cons_of_ne_nil (Nat.toDigits_ne_nil (b := 10) (n := size / 100))
  constructor
  · exact fun c hc => .inl (hdigit hc)
  · exact ⟨c, by simp [hcons], hdigit (by simp [hcons])⟩
  · exact .inr ⟨_, _, htwo _ (by simp [twoDigits]), htwo _ (by simp [twoDigits]), rfl⟩

theorem digitsOf_toDigits (n : Nat) : digitsOf (Nat.toDigits 10 n) = n := by
  have hall : (Nat.toDigits 10 n).filter Char.isDigit = Nat.toDigits 10 n :=
    List.filter_eq_self.2 fun c hc => Nat.isDigit_of_mem_toDigits (by decide) (by decide) hc
  rw [digitsOf, hall, Nat.ofDigitChars_toDigits (by decide) (by decide)]

theorem digitsOf_twoDigits : ∀ n < 100, digitsOf ('.' :: twoDigits n) = n := by
  decide

theorem spelled_formatChars (minor : Int) :
    Lexeme.isNumber (formatChars minor) ∧ spelled (formatChars minor) = minor := by
  have hsign :
      (if minor < 0 then ['-'] else []) = [] ∨ (if minor < 0 then ['-'] else []) = ['-'] := by
    split <;> simp
  have hparts := unsigned_digits minor.natAbs
  refine ⟨Lexeme.isNumber_append hsign hparts, ?_⟩
  rw [formatChars, spelled_eq hsign hparts, digitsOf_toDigits,
    digitsOf_twoDigits _ (Nat.mod_lt _ (by decide))]
  by_cases hneg : minor < 0
  · rw [if_pos hneg, if_neg (List.cons_ne_nil _ _)]
    omega
  · rw [if_neg hneg, if_pos rfl]
    omega

end Money

namespace Lexeme

theorem isNumeric_of_isNumber {text : List Char} (h : isNumber text) : ∀ c ∈ text, isNumeric c := by
  obtain ⟨sign, whole, fraction, hsign, rfl, hparts⟩ := Money.exists_unsigned h
  simp only [List.forall_mem_append]
  refine ⟨?_, ?_, ?_⟩
  · rcases hsign with rfl | rfl <;> simp [isNumeric]
  · intro c hc
    rcases hparts.plain c hc with hdigit | rfl
    · simp [isNumeric, hdigit]
    · rfl
  · rcases hparts.places with rfl | ⟨d₁, d₂, h₁, h₂, rfl⟩ <;> simp_all [isNumeric]

theorem first_of_beginsNumeric {c : Char} (rest : List Char) (hc : beginsNumeric c) :
    first c rest = (⟨numericKind (c :: rest.takeWhile isNumeric), c :: rest.takeWhile isNumeric⟩,
      rest.dropWhile isNumeric) := by
  have hne (other : Char) (hother : ¬ beginsNumeric other) : c ≠ other := by
    rintro rfl
    exact hother hc
  have hspace : ¬ isSpace c := by
    simp [isSpace, hne ' ' (by decide), hne '\t' (by decide),
      hne '\x0b' (by decide), hne '\x0c' (by decide)]
  have hsmall : ¬ isSmall c := by
    intro hsmall
    simp only [isSmall, Bool.and_eq_true, decide_eq_true_eq] at hsmall
    exact (not_numeric_of_letter (Char.le_trans (by decide) hsmall.1)).1 hc
  rw [first, if_neg hspace, if_neg (hne '\n' (by decide)), if_neg (hne ';' (by decide)),
    if_neg hsmall, if_pos hc]

/-- A number that begins with a digit or a minus sign is one lexeme. -/
theorem scan_number {c : Char} {rest : List Char} (h : isNumber (c :: rest))
    (hc : beginsNumeric c) :
    scan (c :: rest) = [⟨.number, c :: rest⟩] := by
  have hrest : ∀ d ∈ rest, isNumeric d := (List.forall_mem_cons.1 (isNumeric_of_isNumber h)).2
  have hkind : numericKind (c :: rest) = .number := by
    rcases numericKind_shape (c :: rest) with ⟨-, -, hnot⟩ | ⟨hkind, -⟩ | ⟨-, -, hnot⟩
    · exact absurd (mem_numberShape.2 h) hnot
    · exact hkind
    · exact absurd (mem_numberShape.2 h) hnot
  rw [scan, first_of_beginsNumeric rest hc, List.takeWhile_eq_self_iff.2 hrest,
    List.dropWhile_eq_nil_iff.2 hrest, hkind, scan]

/-! ## One lexeme on each line -/

theorem mem_scan_number {c : Char} {rest : List Char} (h : isNumber (c :: rest))
    (hc : beginsNumeric c) : ⟨.number, c :: rest⟩ ∈ scan (c :: rest) := by
  rw [scan_number h hc]
  exact List.mem_singleton_self _

/-- A lexeme that means something and is what its own text falls apart into. -/
structure Whole (l : Lexeme) : Prop where
  scanned : scan l.text = [l]
  meant : ¬ l.isTrivia
  /-- Its text is left as it is when line ends are made one. -/
  unified : '\r' ∉ l.text

/-- A row of lexemes as a text, each of them on a line of its own. -/
def lines (lexemes : List Lexeme) : List Char := lexemes.flatMap fun l => l.text ++ ['\n']

theorem exists_begin_formatChars (minor : Int) :
    ∃ c rest, Money.formatChars minor = c :: rest ∧ beginsNumeric c := by
  obtain ⟨c, rest, hcons⟩ :=
    List.exists_cons_of_ne_nil (Nat.toDigits_ne_nil (b := 10) (n := minor.natAbs / 100))
  have hdigit : c.isDigit :=
    Nat.isDigit_of_mem_toDigits (by decide) (by decide) (hcons ▸ List.mem_cons_self)
  unfold Money.formatChars
  rw [hcons]
  split
  · exact ⟨'-', _, rfl, by decide⟩
  · exact ⟨c, _, rfl, by simp [beginsNumeric, hdigit]⟩

theorem whole_formatChars (minor : Int) : Whole ⟨.number, Money.formatChars minor⟩ := by
  have hnumber := (Money.spelled_formatChars minor).1
  constructor
  · obtain ⟨c, rest, htext, hbegin⟩ := exists_begin_formatChars minor
    rw [htext] at hnumber ⊢
    exact scan_number hnumber hbegin
  · exact Bool.false_ne_true
  · intro hmem
    exact absurd (isNumeric_of_isNumber hnumber _ hmem) (by decide)

theorem meaningful_lines {lexemes : List Lexeme} (h : ∀ l ∈ lexemes, l.Whole) :
    meaningful (lines lexemes) = lexemes := by
  induction lexemes with
  | nil => simp [lines, meaningful, scan]
  | cons l lexemes ih =>
      obtain ⟨hl, hlexemes⟩ := List.forall_mem_cons.1 h
      have hlines : lines (l :: lexemes) = l.text ++ '\n' :: lines lexemes := by simp [lines]
      rw [hlines, meaningful_append_newLine, ih hlexemes, meaningful, hl.scanned,
        meaning_cons _ hl.meant]
      rfl

theorem unified_lines {lexemes : List Lexeme} (h : ∀ l ∈ lexemes, l.Whole) :
    Lines.unify (lines lexemes) = lines lexemes := by
  apply Lines.unify_eq_self
  simp only [lines, List.mem_flatMap, List.mem_append, not_exists, not_and, not_or]
  intro l hl
  exact ⟨(h l hl).unified, by decide⟩

end Lexeme

namespace Token

theorem whole_of_mem {text : String} {t : Token} (h : t ∈ ofString text) : t.toLexeme.Whole := by
  obtain ⟨before, behind, hscan⟩ := List.append_of_mem (mem_of_mem_place h)
  constructor
  · have hcut : scan (Lines.unify text.toList) = before ++ [t.toLexeme] ++ behind := by
      simpa using hscan
    simpa using scan_texts_slice hcut
  · have hmeant : t.toLexeme ∈ meaningful (Lines.unify text.toList) := by
      rw [← map_toLexeme_ofText]
      exact List.mem_map_of_mem h
    exact not_isTrivia_of_mem_meaning hmeant
  · intro hmem
    apply Lines.not_mem_unify text.toList
    rw [← texts_scan (Lines.unify text.toList), hscan]
    simp [hmem]

theorem said_ofString_lines {tokens : List Token} (h : ∀ t ∈ tokens, t.toLexeme.Whole) :
    said (ofString (String.ofList (lines (tokens.map (·.toLexeme))))) = said tokens := by
  have hwhole : ∀ l ∈ tokens.map (·.toLexeme), l.Whole := List.forall_mem_map.2 h
  rw [ofString, String.toList_ofList, unified_lines hwhole, said_ofText, meaningful_lines hwhole,
    List.map_map]
  rfl

end Token

end DoubleEntry
