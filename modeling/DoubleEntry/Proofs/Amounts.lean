import DoubleEntry.Proofs.Items
import DoubleEntry.Proofs.Posting
import DoubleEntry.Proofs.Respelling

/-! # Amounts as they are read and written

A number that stands in a file is read as exactly what it spells, or it is refused
because it is too large. An amount is written in one form whatever its size, and a
number that is read and written again comes out in its canonical form.
-/

namespace DoubleEntry.Money

/-! ## Numbers that are too large -/

/-- The digits before the point of a number, as one number. -/
def units (text : List Char) : Nat := digitsOf (text.takeWhile (· ≠ '.'))

/-- The digits behind the point of a number, as one number. -/
def hundredths (text : List Char) : Nat := digitsOf (text.dropWhile (· ≠ '.'))

/-- The number, rounded to whole units, is more than a decimal number can hold. -/
def Overflows (text : List Char) : Prop :=
  capacity ≤ units text ∨ units text = capacity - 1 ∧ 50 ≤ hundredths text

instance (text : List Char) : Decidable (Overflows text) := inferInstanceAs (Decidable (_ ∨ _))

theorem natAbs_spelled (text : List Char) :
    (spelled text).natAbs = 100 * units text + hundredths text := by
  unfold spelled units hundredths
  dsimp only
  split <;> omega

theorem digitChar_sub {c : Char} (h : c.isDigit) :
    c.toNat - 48 < 10 ∧ Nat.digitChar (c.toNat - 48) = c := by
  have hbounds : 48 ≤ c.toNat ∧ c.toNat ≤ 57 := Char.isDigit_iff_toNat.1 h
  have hlt : c.toNat - 48 < 10 := by omega
  refine ⟨hlt, Char.toNat_inj.1 ?_⟩
  rw [Nat.toNat_digitChar_of_lt_ten hlt]
  omega

theorem digitsOf_pair {d₁ d₂ : Char} (h₁ : d₁.isDigit) (h₂ : d₂.isDigit) :
    digitsOf ['.', d₁, d₂] = 10 * (d₁.toNat - 48) + (d₂.toNat - 48) := by
  simp [digitsOf, h₁, h₂, Nat.ofDigitChars_cons]

theorem Unsigned.digitsOf_lt {whole fraction : List Char} (h : Unsigned whole fraction) :
    digitsOf fraction < 100 := by
  rcases h.places with rfl | ⟨d₁, d₂, h₁, h₂, rfl⟩
  · decide
  · have htens := (digitChar_sub h₁).1
    have hunits := (digitChar_sub h₂).1
    rw [digitsOf_pair h₁ h₂]
    omega

theorem hundredths_lt {text : List Char} (h : Lexeme.isNumber text) : hundredths text < 100 := by
  obtain ⟨sign, whole, fraction, hsign, rfl, hparts⟩ := exists_unsigned h
  rw [hundredths, (hparts.cut hsign).2]
  exact hparts.digitsOf_lt

theorem overflows_iff {text : List Char} (h : Lexeme.isNumber text) :
    capacity ≤ ((spelled text).natAbs + 50) / 100 ↔ Overflows text := by
  have hlt := hundredths_lt h
  rw [natAbs_spelled]
  unfold Overflows capacity
  omega

/-- A number is refused at its place if it spells more than the limit. -/
theorem complains_readAt {text : List Char} (h : Lexeme.isNumber text) {span : Span}
    {c : Complaint} :
    Complains (readAt text span) c ↔ limit < (spelled text).natAbs ∧
      c = ⟨.syntactic, (if Overflows text then "Invalid amount: " else "Amount out of range: ") ++
        String.ofList text ++ ".", span⟩ := by
  rw [readAt, ofText_eq h]
  by_cases hlimit : (spelled text).natAbs ≤ limit
  · rw [if_pos hlimit]
    constructor
    · intro hc
      exact absurd hc not_complains_ok
    · intro hc
      omega
  · rw [if_neg hlimit, and_iff_right (Nat.lt_of_not_le hlimit)]
    by_cases hoverflows : Overflows text
    · rw [if_pos ((overflows_iff h).2 hoverflows), if_pos hoverflows]
      exact complains_error
    · rw [if_neg (mt (overflows_iff h).1 hoverflows), if_neg hoverflows]
      exact complains_error

/-- A number of a file is read as the minor units it spells if they are within the
    limit. Otherwise it is refused, and not even taken for a number if it has as many
    units as decimal numbers can hold. -/
theorem readAt_number {source : List Char} {number : Lexeme} (h : number ∈ Lexeme.scan source)
    (hkind : number.kind = .number) (span : Span) :
    (∀ value, readAt number.text span = .ok value ↔
      value = spelled number.text ∧ value.natAbs ≤ limit) ∧
    (∀ c, Complains (readAt number.text span) c ↔ limit < (spelled number.text).natAbs ∧
      c = ⟨.syntactic, (if Overflows number.text then "Invalid amount: "
        else "Amount out of range: ") ++ String.ofList number.text ++ ".", span⟩) ∧
    (Overflows number.text → capacity - 1 ≤ units number.text) := by
  have hnumber := (Lexeme.formed_of_mem_scan h).number hkind
  refine ⟨fun value => ?_, fun c => complains_readAt hnumber, fun hoverflows => ?_⟩
  · rw [readAt_eq_ok, ofText_eq_ok hnumber]
  · unfold Overflows at hoverflows
    omega

theorem readAt_number_atLimit :
    (⟨.number, "-92,233,720,368,547,758.07".toList⟩ ∈
        Lexeme.scan "-92,233,720,368,547,758.07".toList ∧
      readAt "-92,233,720,368,547,758.07".toList (Span.startOf "main") = .ok (-limit)) ∧
    (⟨.number, "-92,233,720,368,547,758.08".toList⟩ ∈
        Lexeme.scan "-92,233,720,368,547,758.08".toList ∧
      Complains (readAt "-92,233,720,368,547,758.08".toList (Span.startOf "main"))
        ⟨.syntactic, "Amount out of range: -92,233,720,368,547,758.08.", Span.startOf "main"⟩) := by
  constructor
  · have hmem : ⟨.number, "-92,233,720,368,547,758.07".toList⟩ ∈
        Lexeme.scan "-92,233,720,368,547,758.07".toList :=
      Lexeme.mem_scan_number (by decide) (by decide)
    exact ⟨hmem, ((readAt_number hmem rfl _).1 _).2 (by decide)⟩
  · have hmem : ⟨.number, "-92,233,720,368,547,758.08".toList⟩ ∈
        Lexeme.scan "-92,233,720,368,547,758.08".toList :=
      Lexeme.mem_scan_number (by decide) (by decide)
    exact ⟨hmem, ((readAt_number hmem rfl _).2.1 _).2 (by decide)⟩

/-! ## The canonical form of a number -/

/-- Digits without the zeros before them. The last digit stays, whatever it is. -/
def stripZeros : List Char → List Char
  | '0' :: c :: rest => stripZeros (c :: rest)
  | digits => digits

/-- A number without its commas and without needless zeros, with two decimals, and with
    its sign if it is not zero. -/
def canonical (text : List Char) : List Char :=
  let whole := (text.takeWhile (· ≠ '.')).filter Char.isDigit
  let fraction := text.dropWhile (· ≠ '.')
  (if text.head? = some '-' ∧ text.any fun c => c.isDigit ∧ c ≠ '0' then ['-'] else []) ++
    (stripZeros whole ++ if fraction = [] then ['.', '0', '0'] else fraction)

theorem toDigits_digit {c : Char} (h : c.isDigit) : Nat.toDigits 10 (c.toNat - 48) = [c] := by
  obtain ⟨hlt, hchar⟩ := digitChar_sub h
  rw [Nat.toDigits_of_lt_base hlt, hchar]

theorem digit_pos {c : Char} (h : c.isDigit) : 0 < c.toNat - 48 ↔ c ≠ '0' := by
  have hbounds : 48 ≤ c.toNat ∧ c.toNat ≤ 57 := Char.isDigit_iff_toNat.1 h
  have hzero : c.toNat = '0'.toNat ↔ c = '0' := Char.toNat_inj
  have hcode : '0'.toNat = 48 := rfl
  rw [ne_eq, ← hzero]
  omega

theorem toDigits_ofDigitChars {digits : List Char} (h : ∀ c ∈ digits, c.isDigit) {n : Nat}
    (hn : 0 < n) :
    Nat.toDigits 10 (Nat.ofDigitChars 10 digits n) = Nat.toDigits 10 n ++ digits := by
  induction digits generalizing n with
  | nil => exact (List.append_nil _).symm
  | cons c digits ih =>
      obtain ⟨hc, hdigits⟩ := List.forall_mem_cons.1 h
      have hmore : 0 < 10 * n + (c.toNat - 48) := by omega
      rw [Nat.ofDigitChars_cons]
      calc
        _ = Nat.toDigits 10 (10 * n + (c.toNat - 48)) ++ digits := ih hdigits hmore
        _ = Nat.toDigits 10 n ++ [c] ++ digits := by
          rw [← Nat.toDigits_append_toDigits (by decide) hn (digitChar_sub hc).1,
            toDigits_digit hc]
        _ = Nat.toDigits 10 n ++ c :: digits := List.append_assoc _ _ _

/-- The value of some digits is written as these digits without needless zeros. -/
theorem toDigits_eq_stripZeros {digits : List Char} (h : ∀ c ∈ digits, c.isDigit)
    (nonempty : digits ≠ []) :
    Nat.toDigits 10 (Nat.ofDigitChars 10 digits 0) = stripZeros digits := by
  fun_induction stripZeros digits with
  | case1 c rest ih =>
      rw [← ih (List.forall_mem_cons.1 h).2 (List.cons_ne_nil _ _), Nat.ofDigitChars_cons]
      rfl
  | case2 digits hlead =>
      obtain ⟨c, rest, rfl⟩ := List.exists_cons_of_ne_nil nonempty
      obtain ⟨hc, hrest⟩ := List.forall_mem_cons.1 h
      by_cases hzero : c = '0'
      · cases rest with
        | nil => rw [hzero]; rfl
        | cons d rest => exact absurd (hzero ▸ rfl) (hlead d rest)
      · have hpos : 0 < 10 * 0 + (c.toNat - 48) := by
          rw [Nat.mul_zero, Nat.zero_add]
          exact (digit_pos hc).2 hzero
        rw [Nat.ofDigitChars_cons]
        apply (toDigits_ofDigitChars hrest hpos).trans
        rw [Nat.mul_zero, Nat.zero_add, toDigits_digit hc]
        rfl

theorem ofDigitChars_pos {digits : List Char} (h : ∀ c ∈ digits, c.isDigit) {n : Nat} :
    0 < Nat.ofDigitChars 10 digits n ↔ 0 < n ∨ ∃ c ∈ digits, c ≠ '0' := by
  induction digits generalizing n with
  | nil => simp
  | cons c digits ih =>
      obtain ⟨hc, hdigits⟩ := List.forall_mem_cons.1 h
      have hmore : 0 < 10 * n + (c.toNat - 48) ↔ 0 < n ∨ c ≠ '0' := by
        rw [← digit_pos hc]
        omega
      rw [Nat.ofDigitChars_cons, List.exists_mem_cons_iff, ← or_assoc, ← hmore]
      exact ih hdigits

theorem digitsOf_pos {text : List Char} :
    0 < digitsOf text ↔ ∃ c ∈ text, c.isDigit ∧ c ≠ '0' := by
  have hdigits : ∀ c ∈ text.filter Char.isDigit, c.isDigit := fun c hc => (List.mem_filter.1 hc).2
  rw [digitsOf, ofDigitChars_pos hdigits]
  simp [and_assoc]

theorem twoDigits_digitsOf {d₁ d₂ : Char} (h₁ : d₁.isDigit) (h₂ : d₂.isDigit) :
    twoDigits (digitsOf ['.', d₁, d₂]) = [d₁, d₂] := by
  obtain ⟨hlt₁, hchar₁⟩ := digitChar_sub h₁
  obtain ⟨hlt₂, hchar₂⟩ := digitChar_sub h₂
  have htens : (10 * (d₁.toNat - 48) + (d₂.toNat - 48)) / 10 = d₁.toNat - 48 := by omega
  have hunits : (10 * (d₁.toNat - 48) + (d₂.toNat - 48)) % 10 = d₂.toNat - 48 := by omega
  rw [digitsOf_pair h₁ h₂, twoDigits, htens, hunits, hchar₁, hchar₂]

theorem natAbs_spelled_pos {text : List Char} :
    0 < (spelled text).natAbs ↔ ∃ c ∈ text, c.isDigit ∧ c ≠ '0' := by
  have heither : 0 < (spelled text).natAbs ↔ 0 < units text ∨ 0 < hundredths text := by
    rw [natAbs_spelled]
    omega
  rw [heither, units, hundredths, digitsOf_pos, digitsOf_pos]
  conv_rhs => rw [← List.takeWhile_append_dropWhile (p := (· ≠ '.')) (l := text)]
  simp only [List.mem_append, or_and_right, exists_or]

theorem spelled_neg {text : List Char} :
    spelled text < 0 ↔ text.head? = some '-' ∧ text.any fun c => c.isDigit ∧ c ≠ '0' := by
  rw [List.any_eq_true]
  simp only [decide_eq_true_eq]
  rw [← natAbs_spelled_pos]
  unfold spelled
  dsimp only
  split
  · next hsign =>
    rw [and_iff_right hsign]
    omega
  · next hsign =>
    constructor
    · intro hneg
      omega
    · intro hboth
      exact absurd hboth.1 hsign

theorem formatChars_spelled {text : List Char} (h : Lexeme.isNumber text) :
    formatChars (spelled text) = canonical text := by
  have hlt := hundredths_lt h
  have hunits : (spelled text).natAbs / 100 = units text := by
    rw [natAbs_spelled]
    omega
  have hrest : (spelled text).natAbs % 100 = hundredths text := by
    rw [natAbs_spelled]
    omega
  obtain ⟨sign, whole, fraction, hsign, rfl, hparts⟩ := exists_unsigned h
  obtain ⟨htake, hdrop⟩ := hparts.cut hsign
  have hwhole : Nat.toDigits 10 (units (sign ++ (whole ++ fraction))) =
      stripZeros ((sign ++ whole).filter Char.isDigit) := by
    obtain ⟨c, hc, hdigit⟩ := hparts.begun
    have hbegun : c ∈ (sign ++ whole).filter Char.isDigit :=
      List.mem_filter.2 ⟨List.mem_append_right _ hc, hdigit⟩
    rw [units, htake]
    exact toDigits_eq_stripZeros (fun d hd => (List.mem_filter.1 hd).2) (List.ne_nil_of_mem hbegun)
  have hfraction : '.' :: twoDigits (hundredths (sign ++ (whole ++ fraction))) =
      if fraction = [] then ['.', '0', '0'] else fraction := by
    rw [hundredths, hdrop]
    rcases hparts.places with rfl | ⟨d₁, d₂, h₁, h₂, rfl⟩
    · rfl
    · rw [twoDigits_digitsOf h₁ h₂]
      rfl
  rw [formatChars, hunits, hrest, hwhole, hfraction, canonical, htake, hdrop]
  simp only [spelled_neg]

example : formatChars (spelled "-0,012".toList) = "-12.00".toList := by decide

/-! ## Writing and reading -/

theorem isNumber_format (minor : Int) : Lexeme.isNumber (format minor).toList := by
  rw [format_eq, String.toList_ofList]
  exact (spelled_formatChars minor).1

theorem spelled_format (minor : Int) : spelled (format minor).toList = minor := by
  rw [format_eq, String.toList_ofList]
  exact (spelled_formatChars minor).2

theorem scan_format (minor : Int) :
    Lexeme.scan (format minor).toList = [⟨.number, (format minor).toList⟩] := by
  rw [format_eq, String.toList_ofList]
  exact (Lexeme.whole_formatChars minor).scanned

/-- Both ways to write a count agree where the second one is taken. -/
theorem dividedChars_eq_decimalChars {minor : Int} (h : capacity ≤ minor.natAbs) :
    dividedChars minor = decimalChars minor := by
  have hhundred : 100 ≤ minor.natAbs := Nat.le_trans (by decide) h
  rw [dividedChars_eq hhundred, decimalChars_eq]

theorem format_injective : Function.Injective format := by
  intro minor other h
  calc
    minor = spelled (format minor).toList := (spelled_format minor).symm
    _ = spelled (format other).toList := by rw [h]
    _ = other := spelled_format other

theorem readAt_format {minor : Int} (h : minor.natAbs ≤ limit) (span : Span) :
    readAt (format minor).toList span = .ok minor := by
  rw [readAt_eq_ok, ofText_eq_ok (isNumber_format minor), spelled_format]
  exact ⟨rfl, h⟩

theorem format_of_readAt {text : List Char} (h : Lexeme.isNumber text) {span : Span} {minor : Int}
    (hread : readAt text span = .ok minor) : (format minor).toList = canonical text := by
  obtain ⟨rfl, -⟩ := (ofText_eq_ok h).1 (readAt_eq_ok.1 hread)
  rw [format_eq, String.toList_ofList, formatChars_spelled h]

/-- Every count is written in the same form, which tells it from all others. What is
    written is one number, and it is read as that count again if it is within the limit.
    A number that is read and written again comes out in its canonical form. -/
theorem format_canonical :
    (∀ minor : Int, (format minor).toList =
      (if minor < 0 then ['-'] else []) ++
        (Nat.toDigits 10 (minor.natAbs / 100) ++ '.' :: twoDigits (minor.natAbs % 100))) ∧
    (∀ minor : Int, capacity ≤ minor.natAbs → dividedChars minor = decimalChars minor) ∧
    Function.Injective format ∧
    (∀ minor : Int, minor.natAbs ≤ limit → ∀ span,
      Lexeme.scan (format minor).toList = [⟨.number, (format minor).toList⟩] ∧
        readAt (format minor).toList span = .ok minor) ∧
    (∀ (source : List Char) (number : Lexeme), number ∈ Lexeme.scan source →
      number.kind = .number → ∀ span minor, readAt number.text span = .ok minor →
        (format minor).toList = canonical number.text) := by
  refine ⟨?_, ?_, format_injective, ?_, ?_⟩
  · intro minor
    rw [format_eq, String.toList_ofList, formatChars]
  · intro minor hlarge
    exact dividedChars_eq_decimalChars hlarge
  · intro minor hlimit span
    exact ⟨scan_format minor, readAt_format hlimit span⟩
  · intro source number h hkind span minor hread
    exact format_of_readAt ((Lexeme.formed_of_mem_scan h).number hkind) hread

theorem format_canonical_atEnds :
    (capacity ≤ Int.natAbs (-0x80000000000000000000000000000000) ∧
      dividedChars (-0x80000000000000000000000000000000) =
        decimalChars (-0x80000000000000000000000000000000)) ∧
    (Int.natAbs (-limit) ≤ limit ∧
      readAt (format (-limit)).toList (Span.startOf "main") = .ok (-limit)) ∧
    (⟨.number, "-0,012".toList⟩ ∈ Lexeme.scan "-0,012".toList ∧
      readAt "-0,012".toList (Span.startOf "main") = .ok (-1200) ∧
      (format (-1200)).toList = canonical "-0,012".toList) := by
  obtain ⟨-, hpaths, -, hround, hcanonical⟩ := format_canonical
  refine ⟨⟨by decide, hpaths _ (by decide)⟩, ⟨by decide, (hround _ (by decide) _).2⟩, ?_⟩
  have hmem : ⟨.number, "-0,012".toList⟩ ∈ Lexeme.scan "-0,012".toList :=
    Lexeme.mem_scan_number (by decide) (by decide)
  have hread : readAt "-0,012".toList (Span.startOf "main") = .ok (-1200) :=
    readAt_eq_ok.2 ((ofText_eq_ok (by decide)).2 (by decide))
  exact ⟨hmem, hread, hcanonical _ _ hmem rfl _ _ hread⟩

end DoubleEntry.Money
