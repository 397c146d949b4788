import DoubleEntry.Proofs.Bytes
import DoubleEntry.Proofs.Spelling
import Mathlib.Computability.Language

/-! # The patterns of lexemes

Each kind of lexeme has its pattern, a regular language. A text falls apart into
lexemes without a gap, and each of them is the longest beginning of what is left
of the text that its pattern allows. Digits and their marks are taken as one run
before it is decided what they are, and what fits no pattern is an error.
-/

open Computability

namespace DoubleEntry

namespace Lexeme

/-! ## Patterns -/

/-- One character of a class. -/
def one (p : Char → Bool) : Language Char := {text | ∃ c, p c ∧ text = [c]}

def digit : Language Char := one Char.isDigit

/-- The shape `dddd-dd-dd`. -/
def dateShape : Language Char :=
  digit * digit * digit * digit * one (· = '-') * digit * digit * one (· = '-') * digit * digit

def isDigitOrComma (c : Char) : Bool := c.isDigit || c = ','

/-- The shape `-?[0-9,]*[0-9][0-9,]*(\.[0-9][0-9])?`. -/
def numberShape : Language Char :=
  (1 + one (· = '-')) * (one isDigitOrComma)∗ * digit * (one isDigitOrComma)∗ *
    (1 + one (· = '.') * (digit * digit))

/-- Digits with the marks that may stand among them. -/
def numericRun : Language Char := one beginsNumeric * (one isNumeric)∗

/-- A character that stands for itself in a string. -/
def isPlain (c : Char) : Bool := c ≠ '"' && c ≠ '\\' && c ≠ '\n'

/-- A plain character, or a backslash with the character it stands before. -/
def quotedItem : Language Char := one isPlain + one (· = '\\') * one isNotNewLine

/-- A string up to its closing quote. -/
def openString : Language Char := one (· = '"') * quotedItem∗

/-- The pattern of a kind. Dates and numbers are runs that have their shape, so that
    no comma begins a number. An error has none. -/
def Kind.pattern : Kind → Language Char
  | whiteSpace => one isSpace * (one isSpace)∗
  | newLine => one (· = '\n')
  | comment => one (· = ';') * (one isNotNewLine)∗
  | directive => one isSmall * (one isSmallOrSpace)∗
  | date => {text | text ∈ numericRun ∧ text ∈ dateShape}
  | number => {text | text ∈ numericRun ∧ text ∈ numberShape}
  | account => one isCapital * (one isAccount)∗
  | string => openString * one (· = '"')
  | error => 0

/-- The longest beginning of an input that a language allows. -/
structure Longest (L : Language Char) (input text : List Char) : Prop where
  mem : text ∈ L
  begins : text <+: input
  longest : ∀ other ∈ L, other <+: input → other.length ≤ text.length

/-- What the first lexeme of an input has to be. -/
structure Munches (input : List Char) (l : Lexeme) : Prop where
  nonempty : l.text ≠ []
  begins : l.text <+: input
  longest : l.kind ≠ .error → Longest l.kind.pattern input l.text
  /-- A run of digits and their marks is taken whole, and its shape decides. -/
  numeric : ∀ run, Longest numericRun input run → l.text = run ∧
    (l.kind = .date ↔ run ∈ dateShape) ∧ (l.kind = .number ↔ run ∈ numberShape) ∧
    ¬ (run ∈ dateShape ∧ run ∈ numberShape) ∧
    (run ∉ dateShape → run ∉ numberShape → l.kind = .error)
  /-- A quote begins an error exactly if no closing quote completes a string. -/
  unclosed : l.kind = .error ∧ l.text.head? = some '"' ↔
    input.head? = some '"' ∧ ∀ text ∈ Kind.string.pattern, ¬ text <+: input
  /-- It then reaches as far as there are complete items. -/
  unclosed_text : l.kind = .error → l.text.head? = some '"' → Longest openString input l.text
  /-- Any other error is a character that begins no pattern. -/
  misfit : l.kind = .error → l.text.head? ≠ some '"' → l.text ∉ numericRun →
    ∃ c, l.text = [c] ∧ ∀ text, c :: text ∉ numericRun ∧ ∀ kind : Kind, c :: text ∉ kind.pattern

/-! ## Runs of characters -/

theorem mem_one_mul {p : Char → Bool} {L : Language Char} {text : List Char} :
    text ∈ one p * L ↔ ∃ c rest, p c ∧ rest ∈ L ∧ text = c :: rest := by
  rw [Language.mem_mul]
  constructor
  · rintro ⟨_, ⟨c, hc, rfl⟩, rest, hrest, rfl⟩
    exact ⟨c, rest, hc, hrest, rfl⟩
  · rintro ⟨c, rest, hc, hrest, rfl⟩
    exact ⟨[c], ⟨c, hc, rfl⟩, rest, hrest, rfl⟩

theorem mem_many {p : Char → Bool} {text : List Char} : text ∈ (one p)∗ ↔ ∀ c ∈ text, p c := by
  rw [Language.mem_kstar]
  constructor
  · rintro ⟨pieces, rfl, hpieces⟩ c hc
    obtain ⟨piece, hpiece, hmem⟩ := List.mem_flatten.1 hc
    obtain ⟨d, hd, rfl⟩ := hpieces piece hpiece
    rwa [List.mem_singleton.1 hmem]
  · intro h
    refine ⟨text.map ([·]), ?_, List.forall_mem_map.2 fun c hc => ⟨c, h c hc, rfl⟩⟩
    rw [← List.flatMap_def, List.flatMap_singleton']

theorem mem_run {p q : Char → Bool} {text : List Char} :
    text ∈ one p * (one q)∗ ↔ ∃ c rest, p c ∧ (∀ d ∈ rest, q d) ∧ text = c :: rest := by
  rw [mem_one_mul]
  simp only [mem_many]

namespace Longest

variable {L : Language Char} {input text other : List Char}

theorem unique (h : Longest L input text) (h' : Longest L input other) : text = other := by
  have hle := h'.longest text h.mem h.begins
  have hle' := h.longest other h'.mem h'.begins
  exact (List.prefix_of_prefix_length_le h.begins h'.begins hle).eq_of_length
    (Nat.le_antisymm hle hle')

theorem both {M : Language Char} (h : Longest L input text) (hmem : text ∈ M) :
    Longest {other | other ∈ L ∧ other ∈ M} input text :=
  ⟨⟨h.mem, hmem⟩, h.begins, fun other hother => h.longest other hother.1⟩

theorem run {p q : Char → Bool} {c : Char} {rest : List Char} (hc : p c) :
    Longest (one p * (one q)∗) (c :: rest) (c :: rest.takeWhile q) := by
  refine ⟨mem_run.2 ⟨c, _, hc, fun d hd => List.mem_takeWhile_imp hd, rfl⟩, ?_, ?_⟩
  · exact List.cons_prefix_cons.2 ⟨rfl, List.takeWhile_prefix q⟩
  · intro other hother hbegins
    obtain ⟨d, more, -, hmore, rfl⟩ := mem_run.1 hother
    obtain ⟨-, behind, rfl⟩ := List.cons_prefix_cons.1 hbegins
    rw [List.takeWhile_append_of_pos hmore, List.length_cons, List.length_cons, List.length_append]
    omega

theorem single {p : Char → Bool} {c : Char} {rest : List Char} (hc : p c) :
    Longest (one p) (c :: rest) [c] := by
  refine ⟨⟨c, hc, rfl⟩, ⟨rest, rfl⟩, ?_⟩
  rintro _ ⟨d, -, rfl⟩ -
  exact Nat.le_refl _

end Longest

/-! ## Shapes of numbers and dates -/

theorem mem_dateShape {text : List Char} : text ∈ dateShape ↔ isDate text := by
  simp only [dateShape, digit, mul_assoc, mem_one_mul]
  constructor
  · rintro ⟨y₁, _, h₁, ⟨y₂, _, h₂, ⟨y₃, _, h₃, ⟨y₄, _, h₄, ⟨dash, _, hdash, ⟨m₁, _, h₅,
      ⟨m₂, _, h₆, ⟨dash', _, hdash', ⟨d₁, _, h₇, ⟨d₂, h₈, rfl⟩, rfl⟩, rfl⟩, rfl⟩, rfl⟩, rfl⟩, rfl⟩,
      rfl⟩, rfl⟩, rfl⟩
    obtain rfl := of_decide_eq_true hdash
    obtain rfl := of_decide_eq_true hdash'
    simp [isDate, h₁, h₂, h₃, h₄, h₅, h₆, h₇, h₈]
  · intro h
    unfold isDate at h
    split at h
    · next y₁ y₂ y₃ y₄ m₁ m₂ d₁ d₂ =>
      simp only [List.all_cons, List.all_nil, Bool.and_eq_true, and_true] at h
      obtain ⟨h₁, h₂, h₃, h₄, h₅, h₆, h₇, h₈⟩ := h
      exact ⟨y₁, _, h₁, ⟨y₂, _, h₂, ⟨y₃, _, h₃, ⟨y₄, _, h₄, ⟨'-', _, rfl, ⟨m₁, _, h₅,
        ⟨m₂, _, h₆, ⟨'-', _, rfl, ⟨d₁, _, h₇, ⟨d₂, h₈, rfl⟩, rfl⟩, rfl⟩, rfl⟩, rfl⟩, rfl⟩, rfl⟩,
        rfl⟩, rfl⟩, rfl⟩
    · cases h

theorem isUnsigned_append {whole fraction : List Char} (h : Money.Unsigned whole fraction) :
    isUnsigned (whole ++ fraction) := by
  have hbegun : whole.any Char.isDigit := by simpa using h.begun
  have hplain : whole.all fun c => c.isDigit || c = ',' := by simpa using h.plain
  obtain ⟨htake, hdrop⟩ := cut_at h.point_not_mem h.fraction_begins
  simp only [isUnsigned, htake, hdrop, hbegun, hplain, Bool.true_and]
  rcases h.places with rfl | ⟨d₁, d₂, h₁, h₂, rfl⟩
  · rfl
  · simp [h₁, h₂]

theorem isNumber_append {sign whole fraction : List Char} (hsign : sign = [] ∨ sign = ['-'])
    (h : Money.Unsigned whole fraction) : isNumber (sign ++ (whole ++ fraction)) := by
  have hunsigned := isUnsigned_append h
  rcases hsign with rfl | rfl
  · unfold isNumber
    split
    · next rest hsame =>
      refine absurd ?_ (h.head?_ne (.inl rfl))
      rw [← List.nil_append (whole ++ fraction), hsame]
      rfl
    · exact hunsigned
  · exact hunsigned

theorem mem_sign {text : List Char} :
    text ∈ 1 + one (· = '-') ↔ text = [] ∨ text = ['-'] := by
  rw [Language.mem_add, Language.mem_one]
  refine or_congr_right ⟨?_, ?_⟩
  · rintro ⟨c, hc, rfl⟩
    obtain rfl := of_decide_eq_true hc
    rfl
  · rintro rfl
    exact ⟨'-', rfl, rfl⟩

theorem mem_places {text : List Char} :
    text ∈ 1 + one (· = '.') * (digit * digit) ↔
      text = [] ∨ ∃ d₁ d₂, d₁.isDigit ∧ d₂.isDigit ∧ text = ['.', d₁, d₂] := by
  simp only [Language.mem_add, Language.mem_one, digit, mem_one_mul]
  refine or_congr_right ⟨?_, ?_⟩
  · rintro ⟨point, _, hpoint, ⟨d₁, _, h₁, ⟨d₂, h₂, rfl⟩, rfl⟩, rfl⟩
    obtain rfl := of_decide_eq_true hpoint
    exact ⟨d₁, d₂, h₁, h₂, rfl⟩
  · rintro ⟨d₁, d₂, h₁, h₂, rfl⟩
    exact ⟨'.', _, rfl, ⟨d₁, _, h₁, ⟨d₂, h₂, rfl⟩, rfl⟩, rfl⟩

theorem mem_whole {text : List Char} :
    text ∈ (one isDigitOrComma)∗ * (digit * (one isDigitOrComma)∗) ↔
      (∀ c ∈ text, c.isDigit ∨ c = ',') ∧ ∃ c ∈ text, c.isDigit := by
  have hclass (part : List Char) :
      part ∈ (one isDigitOrComma)∗ ↔ ∀ c ∈ part, c.isDigit ∨ c = ',' := by
    simp [mem_many, isDigitOrComma]
  rw [Language.mem_mul]
  simp only [digit, mem_one_mul, hclass]
  constructor
  · rintro ⟨before, hbefore, _, ⟨d, after, hd, hafter, rfl⟩, rfl⟩
    exact ⟨List.forall_mem_append.2 ⟨hbefore, List.forall_mem_cons.2 ⟨.inl hd, hafter⟩⟩,
      d, List.mem_append_right _ List.mem_cons_self, hd⟩
  · rintro ⟨hplain, d, hmem, hd⟩
    obtain ⟨before, after, rfl⟩ := List.append_of_mem hmem
    obtain ⟨hbefore, hrest⟩ := List.forall_mem_append.1 hplain
    exact ⟨before, hbefore, _, ⟨d, after, hd, (List.forall_mem_cons.1 hrest).2, rfl⟩, rfl⟩

theorem mem_numberShape {text : List Char} : text ∈ numberShape ↔ isNumber text := by
  have hshape : numberShape = (1 + one (· = '-')) *
      ((one isDigitOrComma)∗ * (digit * (one isDigitOrComma)∗) *
        (1 + one (· = '.') * (digit * digit))) := by
    simp only [numberShape, mul_assoc]
  rw [hshape, Language.mem_mul]
  constructor
  · rintro ⟨sign, hsign, _, hrest, rfl⟩
    obtain ⟨whole, hwhole, fraction, hfraction, rfl⟩ := Language.mem_mul.1 hrest
    obtain ⟨hplain, hbegun⟩ := mem_whole.1 hwhole
    exact isNumber_append (mem_sign.1 hsign) ⟨hplain, hbegun, mem_places.1 hfraction⟩
  · intro h
    obtain ⟨sign, whole, fraction, hsign, rfl, hparts⟩ := Money.exists_unsigned h
    exact ⟨sign, mem_sign.2 hsign, _, Language.append_mem_mul (mem_whole.2 ⟨hparts.plain,
      hparts.begun⟩) (mem_places.2 hparts.places), rfl⟩

/-- A date has a minus sign behind its first character, and a number has none there. -/
theorem not_date_and_number (text : List Char) : ¬ (text ∈ dateShape ∧ text ∈ numberShape) := by
  rw [mem_dateShape, mem_numberShape]
  rintro ⟨hdate, hnumber⟩
  have hminus : '-' ∈ text.tail := by
    unfold isDate at hdate
    split at hdate
    · simp
    · cases hdate
  obtain ⟨sign, whole, fraction, hsign, rfl, hparts⟩ := Money.exists_unsigned hnumber
  have hnone : '-' ∉ whole ++ fraction := by
    intro hmem
    rcases List.mem_append.1 hmem with hwhole | hfraction
    · rcases hparts.plain _ hwhole with h | h <;> exact absurd h (by decide)
    · rcases hparts.places with rfl | ⟨d₁, d₂, h₁, h₂, rfl⟩
      · cases hfraction
      · have hne : ∀ d : Char, d.isDigit → d ≠ '-' := by
          rintro d hd rfl
          exact absurd hd (by decide)
        simp [(hne d₁ h₁).symm, (hne d₂ h₂).symm] at hfraction
  rcases hsign with rfl | rfl
  · exact hnone (List.mem_of_mem_tail hminus)
  · exact hnone hminus

/-! ## Items of strings -/

theorem mem_quotedItem {text : List Char} :
    text ∈ quotedItem ↔
      (∃ c, isPlain c ∧ text = [c]) ∨ ∃ c, isNotNewLine c ∧ text = ['\\', c] := by
  rw [quotedItem, Language.mem_add, mem_one_mul]
  refine or_congr Iff.rfl ⟨?_, ?_⟩
  · rintro ⟨slash, _, hslash, ⟨c, hc, rfl⟩, rfl⟩
    obtain rfl := of_decide_eq_true hslash
    exact ⟨c, hc, rfl⟩
  · rintro ⟨c, hc, rfl⟩
    exact ⟨'\\', [c], rfl, ⟨c, hc, rfl⟩, rfl⟩

theorem cons_mem_many {L : Language Char} {item rest : List Char} (hitem : item ∈ L)
    (hrest : rest ∈ L∗) : item ++ rest ∈ L∗ := by
  obtain ⟨pieces, rfl, hpieces⟩ := Language.mem_kstar.1 hrest
  exact Language.mem_kstar.2 ⟨item :: pieces, rfl, List.forall_mem_cons.2 ⟨hitem, hpieces⟩⟩

theorem items_item {item behind : List Char} (h : item ∈ quotedItem) :
    Quoted.items (item ++ behind) =
      (item ++ (Quoted.items behind).1, (Quoted.items behind).2) := by
  rcases mem_quotedItem.1 h with ⟨c, hc, rfl⟩ | ⟨c, hc, rfl⟩
  · simp only [isPlain, Bool.and_eq_true, decide_eq_true_eq] at hc
    obtain ⟨⟨hquote, hslash⟩, hline⟩ := hc
    simp [Quoted.items, hquote, hslash, hline]
  · simp [Quoted.items, of_decide_eq_true hc]

theorem items_append_of_mem {inner behind : List Char} (h : inner ∈ quotedItem∗) :
    Quoted.items (inner ++ behind) =
      (inner ++ (Quoted.items behind).1, (Quoted.items behind).2) := by
  obtain ⟨pieces, rfl, hpieces⟩ := Language.mem_kstar.1 h
  clear h
  induction pieces with
  | nil => rfl
  | cons piece pieces ih =>
      obtain ⟨hpiece, hrest⟩ := List.forall_mem_cons.1 hpieces
      rw [List.flatten_cons, List.append_assoc, items_item hpiece, ih hrest, List.append_assoc]

theorem items_mem (text : List Char) : (Quoted.items text).1 ∈ quotedItem∗ := by
  fun_induction Quoted.items text with
  | case1 => exact Language.nil_mem_kstar _
  | case2 => exact Language.nil_mem_kstar _
  | case3 c rest hline inner behind h ih =>
      rw [h] at ih
      exact cons_mem_many (mem_quotedItem.2 (.inr ⟨c, decide_eq_true hline, rfl⟩)) ih
  | case4 => exact Language.nil_mem_kstar _
  | case5 c rest _ hplain inner behind h ih =>
      rw [h] at ih
      rw [not_or, not_or] at hplain
      have hc : isPlain c := by simp [isPlain, hplain]
      exact cons_mem_many (mem_quotedItem.2 (.inl ⟨c, hc, rfl⟩)) ih

/-- A closing quote behind complete items is where reading items stops. -/
theorem items_eq_iff {text inner behind : List Char} :
    Quoted.items text = (inner, '"' :: behind) ↔
      inner ∈ quotedItem∗ ∧ text = inner ++ '"' :: behind := by
  constructor
  · intro h
    have hmem := items_mem text
    have happend := Quoted.items_append text
    rw [h] at hmem happend
    exact ⟨hmem, happend.symm⟩
  · rintro ⟨hinner, rfl⟩
    rw [items_append_of_mem hinner]
    simp [Quoted.items]

theorem longest_openString (rest : List Char) :
    Longest openString ('"' :: rest) ('"' :: (Quoted.items rest).1) := by
  refine ⟨mem_one_mul.2 ⟨'"', _, rfl, items_mem rest, rfl⟩, ?_, ?_⟩
  · exact List.cons_prefix_cons.2 ⟨rfl, _, Quoted.items_append rest⟩
  · intro other hother hbegins
    obtain ⟨c, inner, -, hinner, rfl⟩ := mem_one_mul.1 hother
    obtain ⟨-, behind, rfl⟩ := List.cons_prefix_cons.1 hbegins
    rw [items_append_of_mem hinner, List.length_cons, List.length_cons, List.length_append]
    omega

theorem mem_string {text : List Char} :
    text ∈ Kind.string.pattern ↔ ∃ inner ∈ quotedItem∗, text = '"' :: (inner ++ ['"']) := by
  rw [Kind.pattern, openString, mul_assoc, mem_one_mul]
  constructor
  · rintro ⟨c, _, hc, ⟨inner, hinner, _, ⟨d, hd, rfl⟩, rfl⟩, rfl⟩
    obtain rfl := of_decide_eq_true hc
    obtain rfl := of_decide_eq_true hd
    exact ⟨inner, hinner, rfl⟩
  · rintro ⟨inner, hinner, rfl⟩
    exact ⟨'"', _, rfl, ⟨inner, hinner, ['"'], ⟨'"', rfl, rfl⟩, rfl⟩, rfl⟩

theorem items_of_string {rest text : List Char} (h : text ∈ Kind.string.pattern)
    (hbegins : text <+: '"' :: rest) :
    ∃ inner behind, Quoted.items rest = (inner, '"' :: behind) ∧ text = '"' :: (inner ++ ['"']) := by
  obtain ⟨inner, hinner, rfl⟩ := mem_string.1 h
  obtain ⟨-, behind, rfl⟩ := List.cons_prefix_cons.1 hbegins
  refine ⟨inner, behind, items_eq_iff.2 ⟨hinner, ?_⟩, rfl⟩
  rw [List.append_assoc]
  rfl

/-! ## The first lexeme -/

theorem head_of_mem {p : Char → Bool} {L : Language Char} {c : Char} {text : List Char}
    (h : c :: text ∈ one p * L) : p c := by
  obtain ⟨d, rest, hd, -, hsame⟩ := mem_one_mul.1 h
  rwa [(List.cons.inj hsame).1]

theorem not_numeric_of_letter {c : Char} (h : 'A' ≤ c) : ¬ beginsNumeric c ∧ c ≠ '"' := by
  have hnat : 65 ≤ c.toNat := h
  constructor
  · intro hnumeric
    simp only [beginsNumeric, Bool.or_eq_true, decide_eq_true_eq] at hnumeric
    rcases hnumeric with hdigit | rfl
    · have hle : c.toNat ≤ 57 := (Char.isDigit_iff_toNat.1 hdigit).2
      omega
    · exact absurd hnat (by decide)
  · rintro rfl
    exact absurd hnat (by decide)

theorem not_run_of_begins {c : Char} {rest run : List Char} (hc : ¬ beginsNumeric c) :
    ¬ Longest numericRun (c :: rest) run := by
  intro hrun
  obtain ⟨d, more, hd, -, rfl⟩ := mem_run.1 hrun.mem
  rw [(List.cons_prefix_cons.1 hrun.begins).1] at hd
  exact hc hd

theorem munches_of_plain {c : Char} {rest : List Char} {l : Lexeme} (hkind : l.kind ≠ .error)
    (hnumeric : ¬ beginsNumeric c) (hquote : c ≠ '"')
    (h : Longest l.kind.pattern (c :: rest) (c :: l.text.tail)) (htext : l.text = c :: l.text.tail) :
    Munches (c :: rest) l := by
  rw [← htext] at h
  constructor
  case nonempty => rw [htext]; exact List.cons_ne_nil _ _
  case begins => exact h.begins
  case longest => exact fun _ => h
  case numeric => exact fun run hrun => absurd hrun (not_run_of_begins hnumeric)
  case unclosed =>
    refine ⟨fun hl => absurd hl.1 hkind, fun hinput => ?_⟩
    exact absurd (Option.some.inj hinput.1) hquote
  case unclosed_text => exact fun hl => absurd hl hkind
  case misfit => exact fun hl => absurd hl hkind

/-- The shape of a run decides its kind. -/
theorem numericKind_shape (run : List Char) :
    numericKind run = .date ∧ run ∈ dateShape ∧ run ∉ numberShape ∨
      numericKind run = .number ∧ run ∉ dateShape ∧ run ∈ numberShape ∨
      numericKind run = .error ∧ run ∉ dateShape ∧ run ∉ numberShape := by
  have hnever := not_date_and_number run
  rw [mem_dateShape, mem_numberShape] at hnever ⊢
  unfold numericKind
  by_cases hdate : isDate run
  · exact .inl ⟨if_pos hdate, hdate, fun hnumber => hnever ⟨hdate, hnumber⟩⟩
  · rw [if_neg hdate]
    by_cases hnumber : isNumber run
    · exact .inr (.inl ⟨if_pos hnumber, hdate, hnumber⟩)
    · exact .inr (.inr ⟨if_neg hnumber, hdate, hnumber⟩)

theorem munches_numeric {c : Char} (rest : List Char) (hc : beginsNumeric c) :
    Munches (c :: rest) ⟨numericKind (c :: rest.takeWhile isNumeric),
      c :: rest.takeWhile isNumeric⟩ := by
  have hrun : Longest numericRun (c :: rest) (c :: rest.takeWhile isNumeric) := Longest.run hc
  have hquote : c ≠ '"' := by
    rintro rfl
    exact absurd hc (by decide)
  generalize c :: rest.takeWhile isNumeric = run at hrun
  have hhead : run.head? ≠ some '"' := by
    obtain ⟨d, more, hd, -, rfl⟩ := mem_run.1 hrun.mem
    rintro ⟨⟩
    exact absurd hd (by decide)
  have hkind := numericKind_shape run
  constructor
  case nonempty =>
    obtain ⟨d, more, -, -, rfl⟩ := mem_run.1 hrun.mem
    exact List.cons_ne_nil _ _
  case begins => exact hrun.begins
  case longest =>
    intro hnot
    rcases hkind with ⟨hk, hdate, -⟩ | ⟨hk, -, hnumber⟩ | ⟨hk, -⟩
    · dsimp only
      rw [hk]
      exact hrun.both hdate
    · dsimp only
      rw [hk]
      exact hrun.both hnumber
    · exact absurd hk hnot
  case numeric =>
    intro other hother
    obtain rfl := hother.unique hrun
    rcases hkind with ⟨hk, hdate, hnumber⟩ | ⟨hk, hdate, hnumber⟩ | ⟨hk, hdate, hnumber⟩ <;>
      simp [hk, hdate, hnumber]
  case unclosed =>
    refine ⟨fun hl => absurd hl.2 hhead, fun hinput => ?_⟩
    exact absurd (Option.some.inj hinput.1) hquote
  case unclosed_text => exact fun _ hl => absurd hl hhead
  case misfit => exact fun _ _ hnot => absurd hrun.mem hnot

theorem first_string {rest inner behind : List Char}
    (h : Quoted.items rest = (inner, '"' :: behind)) :
    first '"' rest = (⟨.string, '"' :: (inner ++ ['"'])⟩, behind) := by
  unfold first
  rw [if_neg (by decide), if_neg (by decide), if_neg (by decide), if_neg (by decide),
    if_neg (by decide), if_neg (by decide), if_pos rfl, h]
  rfl

theorem first_open {rest inner stop : List Char} (h : Quoted.items rest = (inner, stop))
    (hstop : stop.head? ≠ some '"') : first '"' rest = (⟨.error, '"' :: inner⟩, stop) := by
  unfold first
  rw [if_neg (by decide), if_neg (by decide), if_neg (by decide), if_neg (by decide),
    if_neg (by decide), if_neg (by decide), if_pos rfl, h]
  split
  · next hclosed =>
    cases hclosed
    exact absurd rfl hstop
  · next hopen =>
    cases hopen
    rfl

/-- Behind a quote there is a string, or an error that no quote closes. -/
theorem first_quote (rest : List Char) :
    (∃ inner behind, Quoted.items rest = (inner, '"' :: behind) ∧
      first '"' rest = (⟨.string, '"' :: (inner ++ ['"'])⟩, behind)) ∨
    ∃ inner stop, Quoted.items rest = (inner, stop) ∧ stop.head? ≠ some '"' ∧
      first '"' rest = (⟨.error, '"' :: inner⟩, stop) := by
  cases h : Quoted.items rest with
  | mk inner stop =>
  by_cases hstop : stop.head? = some '"'
  · obtain ⟨behind, rfl⟩ := List.head?_eq_some_iff.1 hstop
    exact .inl ⟨inner, behind, rfl, first_string h⟩
  · exact .inr ⟨inner, stop, rfl, hstop, first_open h hstop⟩

theorem longest_string {rest inner behind : List Char}
    (h : Quoted.items rest = (inner, '"' :: behind)) :
    Longest Kind.string.pattern ('"' :: rest) ('"' :: (inner ++ ['"'])) := by
  obtain ⟨hinner, rfl⟩ := items_eq_iff.1 h
  refine ⟨mem_string.2 ⟨inner, hinner, rfl⟩, ⟨behind, by simp⟩, ?_⟩
  intro other hother hbegins
  obtain ⟨inner', behind', hitems', rfl⟩ := items_of_string hother hbegins
  cases h.symm.trans hitems'
  exact Nat.le_refl _

theorem munches_quote (rest : List Char) : Munches ('"' :: rest) (first '"' rest).1 := by
  rcases first_quote rest with ⟨inner, behind, hitems, hfirst⟩ | ⟨inner, stop, hitems, hstop, hfirst⟩
  · have hstring := longest_string hitems
    rw [hfirst]
    constructor
    case nonempty => exact List.cons_ne_nil _ _
    case begins => exact hstring.begins
    case longest => exact fun _ => hstring
    case numeric => exact fun run hrun => absurd hrun (not_run_of_begins (by decide))
    case unclosed =>
      refine ⟨fun hl => Kind.noConfusion hl.1, fun hinput => ?_⟩
      exact absurd hstring.begins (hinput.2 _ hstring.mem)
    case unclosed_text => exact fun hl => Kind.noConfusion hl
    case misfit => exact fun hl => Kind.noConfusion hl
  · have hopen := longest_openString rest
    rw [hitems] at hopen
    rw [hfirst]
    constructor
    case nonempty => exact List.cons_ne_nil _ _
    case begins => exact hopen.begins
    case longest => exact fun hl => absurd rfl hl
    case numeric => exact fun run hrun => absurd hrun (not_run_of_begins (by decide))
    case unclosed =>
      refine ⟨fun _ => ⟨rfl, fun other hother hbegins => ?_⟩, fun _ => ⟨rfl, rfl⟩⟩
      obtain ⟨inner', behind, hclosed, -⟩ := items_of_string hother hbegins
      cases hitems.symm.trans hclosed
      exact hstop rfl
    case unclosed_text => exact fun _ _ => hopen
    case misfit => exact fun _ hl => absurd rfl hl

/-- A character that begins no pattern is an error on its own. -/
theorem munches_misfit {c : Char} (rest : List Char) (hquote : c ≠ '"')
    (hnumeric : ¬ beginsNumeric c) (hnone : ∀ text, ∀ kind : Kind, c :: text ∉ kind.pattern) :
    Munches (c :: rest) ⟨.error, [c]⟩ := by
  constructor
  case nonempty => exact List.cons_ne_nil _ _
  case begins => exact ⟨rest, rfl⟩
  case longest => exact fun hl => absurd rfl hl
  case numeric => exact fun run hrun => absurd hrun (not_run_of_begins hnumeric)
  case unclosed =>
    refine ⟨fun hl => absurd (Option.some.inj hl.2) hquote, fun hinput => ?_⟩
    exact absurd (Option.some.inj hinput.1) hquote
  case unclosed_text => exact fun _ hl => absurd (Option.some.inj hl) hquote
  case misfit =>
    intro _ _ _
    exact ⟨c, rfl, fun text => ⟨fun h => hnumeric (head_of_mem h), hnone text⟩⟩

theorem munches_first (c : Char) (rest : List Char) : Munches (c :: rest) (first c rest).1 := by
  by_cases hquote : c = '"'
  · rw [hquote]
    exact munches_quote rest
  unfold first
  split
  · next hspace =>
    have hnumeric : ¬ beginsNumeric c := by
      simp only [isSpace, Bool.or_eq_true, decide_eq_true_eq] at hspace
      rcases hspace with ((rfl | rfl) | rfl) | rfl <;> decide
    exact munches_of_plain Kind.noConfusion hnumeric hquote (Longest.run hspace) rfl
  split
  · next hline =>
    subst hline
    exact munches_of_plain Kind.noConfusion (by decide) hquote (Longest.single rfl) rfl
  split
  · next hsemicolon =>
    subst hsemicolon
    exact munches_of_plain Kind.noConfusion (by decide) hquote (Longest.run rfl) rfl
  split
  · next hsmall =>
    have hletter : 'A' ≤ c := by
      simp only [isSmall, Bool.and_eq_true, decide_eq_true_eq] at hsmall
      exact Char.le_trans (by decide) hsmall.1
    exact munches_of_plain Kind.noConfusion (not_numeric_of_letter hletter).1 hquote
      (Longest.run hsmall) rfl
  split
  · next hnumeric => exact munches_numeric rest hnumeric
  split
  · next hnumeric hcapital =>
    exact munches_of_plain Kind.noConfusion hnumeric hquote (Longest.run hcapital) rfl
  next hspace hline hsemicolon hsmall hnumeric hcapital =>
    apply munches_misfit rest hquote hnumeric
    intro text kind h
    cases kind with
    | whiteSpace => exact hspace (head_of_mem h)
    | newLine =>
        obtain ⟨d, hd, hsame⟩ := h
        rw [← (List.cons.inj hsame).1] at hd
        exact hline (of_decide_eq_true hd)
    | comment => exact hsemicolon (of_decide_eq_true (head_of_mem h))
    | directive => exact hsmall (head_of_mem h)
    | date | number => exact hnumeric (head_of_mem h.1)
    | account => exact hcapital (head_of_mem h)
    | string =>
        obtain ⟨inner, -, hsame⟩ := mem_string.1 h
        exact hquote (List.cons.inj hsame).1
    | error => exact h

/-! ## The whole text -/

theorem munches_of_scan {text : List Char} {before behind : List Lexeme} {l : Lexeme}
    (h : scan text = before ++ l :: behind) : Munches ((l :: behind).flatMap (·.text)) l := by
  fun_induction scan text generalizing before with
  | case1 => exact absurd h (by simp)
  | case2 c rest ih =>
      cases before with
      | nil =>
          have htext := flatMap_text_scan (c :: rest)
          rw [scan, h] at htext
          rw [show (l :: behind).flatMap (·.text) = c :: rest from htext,
            ← show (first c rest).1 = l from (List.cons.inj h).1]
          exact munches_first c rest
      | cons other before => exact ih (List.cons.inj h).2

theorem map_snd_placeBytes (offset : Nat) (lexemes : List Lexeme) :
    (placeBytes offset lexemes).map (·.2) = lexemes := by
  induction lexemes generalizing offset with
  | nil => rfl
  | cons l rest ih => exact congrArg (l :: ·) (ih _)

/-- A lexeme begins at the byte that the lexemes before it leave off at. -/
theorem placeBytes_split {offset place : Nat} {lexemes : List Lexeme} {l : Lexeme}
    {before behind : List (Nat × Lexeme)}
    (h : placeBytes offset lexemes = before ++ (place, l) :: behind) :
    place = offset + (String.ofList (before.flatMap (·.2.text))).utf8ByteSize ∧
      lexemes = before.map (·.2) ++ l :: behind.map (·.2) := by
  induction before generalizing offset lexemes with
  | nil =>
      cases lexemes with
      | nil => cases h
      | cons first rest =>
          cases h
          exact ⟨rfl, congrArg (l :: ·) (map_snd_placeBytes _ _).symm⟩
  | cons other before ih =>
      cases lexemes with
      | nil => cases h
      | cons first rest =>
          obtain ⟨rfl, hrest⟩ := List.cons.inj h
          obtain ⟨hplace, hlexemes⟩ := ih hrest
          constructor
          · rw [hplace, List.flatMap_cons, String.ofList_append, String.utf8ByteSize_append,
              Nat.add_assoc]
          · rw [hlexemes]
            rfl

/-- The lexemes of a text leave nothing out, begin where the bytes before them end,
    and are as long as their patterns allow. -/
theorem stream_munches (text : String) :
    (stream text.toList).flatMap (·.2.text) = text.toList ∧
      ∀ before offset l behind, stream text.toList = before ++ (offset, l) :: behind →
        offset = (Bytes.ofText (String.ofList (before.flatMap (·.2.text)))).length ∧
          Munches (l.text ++ behind.flatMap (·.2.text)) l := by
  have hscan := map_snd_placeBytes 0 (scan text.toList)
  constructor
  · have htexts := flatMap_text_scan text.toList
    rwa [← hscan, List.flatMap_map] at htexts
  · intro before offset l behind h
    obtain ⟨hoffset, hlexemes⟩ := placeBytes_split h
    have hmunches := munches_of_scan hlexemes
    rw [List.flatMap_cons, List.flatMap_map] at hmunches
    rw [Nat.zero_add] at hoffset
    exact ⟨hoffset, hmunches⟩

/-- A string that is not closed leaves a backslash behind that becomes an error of
    its own, and the two dots are no number. -/
theorem stream_munches_looseBackslash :
    ∃ before behind, stream "é 1..5 \"a\\\"b\\\n".toList =
        before ++ (8, ⟨.error, ['"', 'a', '\\', '"', 'b']⟩) :: behind ∧
      Munches "\"a\\\"b\\\n".toList ⟨.error, ['"', 'a', '\\', '"', 'b']⟩ := by
  have hstream : stream "é 1..5 \"a\\\"b\\\n".toList =
      [(0, ⟨.error, ['é']⟩), (2, ⟨.whiteSpace, [' ']⟩), (3, ⟨.error, ['1', '.', '.', '5']⟩),
        (7, ⟨.whiteSpace, [' ']⟩)] ++
      (8, ⟨.error, ['"', 'a', '\\', '"', 'b']⟩) ::
        [(13, ⟨.error, ['\\']⟩), (14, ⟨.newLine, ['\n']⟩)] := by
    decide +kernel
  exact ⟨_, _, hstream, ((stream_munches _).2 _ _ _ _ hstream).2⟩

end Lexeme

end DoubleEntry
