import DoubleEntry.Proofs.Amounts
import DoubleEntry.Proofs.Month
import DoubleEntry.Proofs.Written
import Mathlib.Tactic.IntervalCases

/-! # Dates as texts

A date that stands in a file is accepted if the calendar has the day that its digits
name, and it is written again as it was read. Since all its numbers have a fixed width,
the later of two dates also comes later as a text. Whatever is ordered by dates could
as well be ordered by their texts.
-/

namespace DoubleEntry

/-! ## Days of the calendar -/

/-- The calendar has this day. -/
structure Calendar.HasDay (year month day : Nat) : Prop where
  months : 1 ≤ month ∧ month ≤ 12
  days : 1 ≤ day ∧ day ≤ 31
  short : month ∈ [4, 6, 9, 11] → day ≤ 30
  february : month = 2 → day ≤ 29
  /-- Every fourth year is a leap year, of the full centuries only every fourth. -/
  leap : month = 2 → day = 29 → 4 ∣ year ∧ (100 ∣ year → 400 ∣ year)

theorem Calendar.isLeap_iff (year : Nat) :
    isLeap year ↔ 4 ∣ year ∧ (100 ∣ year → 400 ∣ year) := by
  simp only [isLeap, decide_eq_true_eq]
  omega

theorem Calendar.hasDay_iff {year month day : Nat} :
    HasDay year month day ↔ 1 ≤ day ∧ day ≤ daysIn year month := by
  have february : (1 ≤ day ∧ day ≤ if isLeap year then 29 else 28) ↔
      (1 ≤ day ∧ day ≤ 29) ∧ (day = 29 → 4 ∣ year ∧ (100 ∣ year → 400 ∣ year)) := by
    rw [← isLeap_iff]
    split
    all_goals simp_all
    all_goals omega
  constructor
  · rintro ⟨hmonth, hday, hshort, hfebruary, hleap⟩
    obtain ⟨hlow, hhigh⟩ := hmonth
    interval_cases month <;> simp_all [daysIn]
  · intro h
    obtain ⟨hlow, hhigh⟩ := month_of_daysIn (Nat.lt_of_lt_of_le h.1 h.2)
    have hday := Nat.le_trans h.2 (daysIn_le year month)
    refine ⟨⟨hlow, hhigh⟩, ⟨h.1, hday⟩, ?_, ?_, ?_⟩
    all_goals interval_cases month <;> simp_all [daysIn]

/-- The digits of a date name a day of the calendar. -/
def Calendar.Names (text : List Char) : Prop :=
  HasDay (Nat.ofDigitChars 10 (text.take 4) 0) (Nat.ofDigitChars 10 ((text.drop 5).take 2) 0)
    (Nat.ofDigitChars 10 (text.drop 8) 0)

/-! ## Reading and writing -/

theorem Lexeme.length_of_isDate {text : List Char} (h : isDate text) : text.length = 10 := by
  unfold isDate at h
  split at h
  · rfl
  · cases h

namespace Date

theorem padded_ofDigitChars {width : Nat} {digits : List Char} (h : ∀ c ∈ digits, c.isDigit)
    (hlength : digits.length = width + 1) :
    padded (width + 1) (Nat.ofDigitChars 10 digits 0) = digits := by
  induction width generalizing digits with
  | zero =>
      obtain ⟨c, rfl⟩ := List.length_eq_one_iff.1 hlength
      obtain ⟨hlt, hchar⟩ := Money.digitChar_sub (h c List.mem_cons_self)
      have hvalue : Nat.ofDigitChars 10 [c] 0 = c.toNat - 48 := by simp [Nat.ofDigitChars_cons]
      rw [hvalue, padded_one hlt, hchar]
  | succ width ih =>
      obtain ⟨front, c, rfl⟩ := (List.eq_nil_or_concat digits).resolve_left (by
        rintro rfl
        cases hlength)
      rw [List.concat_eq_append] at h hlength ⊢
      obtain ⟨hfront, hlast⟩ := List.forall_mem_append.1 h
      obtain ⟨hlt, hchar⟩ := Money.digitChar_sub (hlast c List.mem_cons_self)
      have hvalue : Nat.ofDigitChars 10 (front ++ [c]) 0 =
          10 * Nat.ofDigitChars 10 front 0 + (c.toNat - 48) := by
        simp [Nat.ofDigitChars_append, Nat.ofDigitChars_cons]
      have htens : (10 * Nat.ofDigitChars 10 front 0 + (c.toNat - 48)) / 10 =
          Nat.ofDigitChars 10 front 0 := by omega
      have hunits : (10 * Nat.ofDigitChars 10 front 0 + (c.toNat - 48)) % 10 = c.toNat - 48 := by
        omega
      have hshorter : front.length = width + 1 := by simpa using hlength
      rw [hvalue, padded_succ, htens, hunits, ih hfront hshorter, hchar]

theorem yearChars_of_isWritten {d : Date} (h : d.IsWritten) :
    yearChars d.year = padded 4 d.year.natAbs := by
  rw [yearChars, if_neg (Int.not_lt.2 h.1), if_neg (Int.not_lt.2 h.2)]

theorem SpelledBy.toList_text {d : Date} {text : List Char} (shaped : Lexeme.isDate text)
    (h : d.SpelledBy text) : d.text.toList = text ∧ d.monthText.toList = text.take 7 := by
  have hyear := yearChars_of_isWritten (h.isWritten shaped)
  rw [← h.year, Int.natAbs_natCast] at hyear
  unfold Lexeme.isDate at shaped
  split at shaped
  · next y₁ y₂ y₃ y₄ m₁ m₂ d₁ d₂ =>
    simp only [List.all_cons, List.all_nil, Bool.and_eq_true, and_true] at shaped
    obtain ⟨hy₁, hy₂, hy₃, hy₄, hm₁, hm₂, hd₁, hd₂⟩ := shaped
    have hyears : padded 4 (Nat.ofDigitChars 10 [y₁, y₂, y₃, y₄] 0) = [y₁, y₂, y₃, y₄] :=
      padded_ofDigitChars (by simp [hy₁, hy₂, hy₃, hy₄]) rfl
    have hmonths : padded 2 (Nat.ofDigitChars 10 [m₁, m₂] 0) = [m₁, m₂] :=
      padded_ofDigitChars (by simp [hm₁, hm₂]) rfl
    have hdays : padded 2 (Nat.ofDigitChars 10 [d₁, d₂] 0) = [d₁, d₂] :=
      padded_ofDigitChars (by simp [hd₁, hd₂]) rfl
    have hmonth := h.month
    have hday := h.day
    simp only [List.take_succ_cons, List.take_zero, List.drop_succ_cons, List.drop_zero]
      at hyear hmonth hday
    have hmonthText : d.monthText.toList = [y₁, y₂, y₃, y₄, '-', m₁, m₂] := by
      rw [monthText, String.toList_ofList, ← h.year, ← hmonth]
      simp only [List.take_succ_cons, List.take_zero]
      rw [hyear, hyears, hmonths]
      rfl
    refine ⟨?_, hmonthText⟩
    rw [text, String.toList_append, hmonthText, String.toList_ofList, ← hday, hdays]
    rfl
  · cases shaped

/-- Only texts of the shape of a date are read. -/
theorem isDate_of_ofText? {text : List Char} {d : Date} (h : ofText? text = some d) :
    Lexeme.isDate text := by
  unfold ofText? at h
  split at h
  · split at h
    · next hdigits => exact hdigits
    · cases h
  · cases h

theorem isWritten_of_ofText? {text : List Char} {d : Date} (h : ofText? text = some d) :
    d.IsWritten := by
  have shaped := isDate_of_ofText? h
  exact ((ofText?_eq_some shaped).1 h).isWritten shaped

theorem text_of_ofText? {text : List Char} {d : Date} (h : ofText? text = some d) :
    d.text = String.ofList text ∧ d.monthText = String.ofList (text.take 7) := by
  have shaped := isDate_of_ofText? h
  obtain ⟨htext, hmonth⟩ := ((ofText?_eq_some shaped).1 h).toList_text shaped
  exact ⟨by rw [← htext, String.ofList_toList], by rw [← hmonth, String.ofList_toList]⟩

/-- A text of the shape of a date is read if the calendar has the day. -/
theorem exists_ofText?_iff {text : List Char} (shaped : Lexeme.isDate text) :
    (∃ d, ofText? text = some d) ↔ Calendar.Names text := by
  simp only [ofText?_eq_some shaped]
  rw [Calendar.Names, Calendar.hasDay_iff]
  constructor
  · rintro ⟨d, hyear, hmonth, hday⟩
    rw [hyear, hmonth, hday]
    exact d.valid
  · intro valid
    exact ⟨⟨_, _, _, valid⟩, rfl, rfl, rfl⟩

/-! ## The order of dates and of texts -/

section Order

variable {d e : Date}

theorem length_monthText (hd : d.IsWritten) : d.monthText.toList.length = 7 := by
  have hyear : d.year.natAbs < 10 ^ 4 := by
    have := hd.1
    have := hd.2
    omega
  have hmonth : d.month < 10 ^ 2 := by
    have := d.month_bounds
    omega
  simp [monthText, yearChars_of_isWritten hd, length_padded hyear, length_padded hmonth]

theorem before_or_of_not_le (h : ¬ e ≤ d) :
    (Month.ofDate d).Before (Month.ofDate e) ∨
      Month.ofDate d = Month.ofDate e ∧ d.day < e.day := by
  have hkey : ¬ e.key ≤ d.key := h
  have := d.month_bounds
  have := d.day_bounds
  have := e.month_bounds
  have := e.day_bounds
  simp only [key] at hkey
  simp only [Month.Before, Month.ofDate, Month.mk.injEq]
  omega

theorem text_ofDate (d : Date) : (Month.ofDate d).text = d.monthText := rfl

theorem text_lt_of_not_le (hd : d.IsWritten) (he : e.IsWritten) (h : ¬ e ≤ d) :
    d.text < e.text := by
  rw [String.lt_iff_toList_lt, text, text, String.toList_append, String.toList_append]
  rcases before_or_of_not_le h with hbefore | ⟨hsame, hday⟩
  · have hmonth := Month.text_lt_of_before hd.month_short he.month_short hbefore
    rw [text_ofDate, text_ofDate] at hmonth
    apply append_lt_append
    · rw [length_monthText hd, length_monthText he]
    · exact String.lt_iff_toList_lt.1 hmonth
  · have hmonth : d.monthText = e.monthText := congrArg Month.text hsame
    have hdays : padded 2 d.day < padded 2 e.day := by
      apply padded_lt _ hday
      have := e.day_bounds
      omega
    rw [hmonth, String.toList_ofList, String.toList_ofList]
    exact List.append_left_lt (List.cons_lt_cons_iff.2 (.inr ⟨rfl, hdays⟩))

/-- Days in text are in the order of the calendar. -/
theorem le_iff_text (hd : d.IsWritten) (he : e.IsWritten) :
    d ≤ e ↔ Bytes.ofText d.text ≤ Bytes.ofText e.text := by
  rw [← List.not_lt, Bytes.ofText_lt]
  constructor
  · intro h hlt
    rcases em (e ≤ d) with hge | hnot
    · rw [le_antisymm h hge] at hlt
      exact String.lt_irrefl _ hlt
    · exact String.lt_asymm hlt (text_lt_of_not_le hd he hnot)
  · intro h
    by_contra hnot
    exact h (text_lt_of_not_le he hd hnot)

theorem monthText_lt_iff (hd : d.IsWritten) (he : e.IsWritten) :
    Bytes.ofText d.monthText < Bytes.ofText e.monthText ↔
      (Month.ofDate d).Before (Month.ofDate e) := by
  rw [Bytes.ofText_lt, ← text_ofDate, ← text_ofDate]
  exact Month.text_lt_text hd.month_short he.month_short

end Order

end Date

/-! ## What is ordered by dates -/

theorem Entry.append_eq_ok {pending after : List Entry} {entry : Entry} :
    append pending entry = .ok after ↔
      (∀ last ∈ lastDate pending, last ≤ entry.date) ∧ after = pending ++ [entry] := by
  have dated : ∀ other ∈ [entry], other.date = entry.date := by simp
  rw [← appendAll_eq_ok (List.cons_ne_nil _ _) dated, foldlM_cons_eq_ok]
  simp [pure, Except.pure]

theorem Entry.append_eq_ok_text {pending after : List Entry} {entry : Entry}
    (hpending : ∀ other ∈ pending, other.date.IsWritten) (hentry : entry.date.IsWritten) :
    append pending entry = .ok after ↔
      (∀ last ∈ lastDate pending, Bytes.ofText last.text ≤ Bytes.ofText entry.date.text) ∧
        after = pending ++ [entry] := by
  have hlast : ∀ last ∈ lastDate pending, last.IsWritten := by
    intro last h
    obtain ⟨other, hother, rfl⟩ := Option.map_eq_some_iff.1 h
    exact hpending other (List.mem_of_getLast? hother)
  rw [append_eq_ok]
  apply and_congr_left'
  exact forall₂_congr fun last h => Date.le_iff_text (hlast last h) hentry

/-- Entries are sorted by their dates as by the texts of their dates, and those of one
    day stay as they are in both cases. -/
theorem Entry.mergeSort_eq_text {entries : List Entry}
    (h : ∀ entry ∈ entries, entry.date.IsWritten) :
    entries.mergeSort (fun a b => a.date ≤ b.date) =
      entries.mergeSort fun a b => Bytes.ofText a.date.text ≤ Bytes.ofText b.date.text := by
  have hsame : ∀ a ∈ entries, ∀ b ∈ entries, decide (a.date ≤ b.date) =
      decide (Bytes.ofText a.date.text ≤ Bytes.ofText b.date.text) := by
    intro a ha b hb
    exact decide_eq_decide.2 (Date.le_iff_text (h a ha) (h b hb))
  simpa using List.map_mergeSort (f := id) hsame

theorem Draft.pending_of_read {files : Files} {root : String} {d : Draft}
    (h : (read files root).result = .ok d) :
    ∃ books, (Books.read files files.nesting ⟨root, Span.startOf root, .ledger⟩ .empty).result =
        .ok books ∧
      d.pending = books.pending.mergeSort fun a b =>
        Bytes.ofText a.date.text ≤ Bytes.ofText b.date.text := by
  obtain ⟨books, hbooks, rfl⟩ := result_read_eq_ok.1 h
  have hwritten := Books.read_isWritten hbooks ⟨List.forall_mem_nil _, List.forall_mem_nil _⟩
  exact ⟨books, hbooks, Entry.mergeSort_eq_text hwritten.entries⟩

namespace Date

theorem exists_await_iff {p : Progress} {text : List Char} (span : Span)
    (shaped : Lexeme.isDate text) (hp : p.awaiting = none) :
    (∃ q, p.await text span = .ok q) ↔ Calendar.Names text := by
  rw [← exists_ofText?_iff shaped]
  simp [Progress.await_eq_ok, hp]

theorem complains_await {p : Progress} {text : List Char} {span : Span} {c : Complaint}
    (shaped : Lexeme.isDate text) (hp : p.awaiting = none) :
    Complains (p.await text span) c ↔ ¬ Calendar.Names text ∧
      c = ⟨.syntactic, "Invalid date: " ++ String.ofList text ++ ".", span⟩ := by
  rw [← exists_ofText?_iff shaped, Progress.await, hp]
  dsimp only
  cases ofText? text with
  | none =>
      have hfault : (⟨.invalidDate text, span⟩ : Fault).complaint =
          ⟨.syntactic, "Invalid date: " ++ String.ofList text ++ ".", span⟩ := rfl
      rw [complains_error, hfault]
      simp
  | some d => simp [not_complains_ok]

/-- A date that stands in a file is accepted if the calendar has the day, and is written
    as it was read. Dates follow each other as their texts do, and so do months: an entry
    comes behind others if its date does as a text, and sorting by dates is sorting by
    texts. -/
theorem read_asWritten :
    (∀ source, ∀ l ∈ Lexeme.scan source, l.kind = .date →
      ∀ (p : Progress) (span : Span), p.awaiting = none →
        ((∃ q, p.await l.text span = .ok q) ↔ Calendar.Names l.text) ∧
        (∀ q, p.await l.text span = .ok q → ∃ d, ofText? l.text = some d ∧
          q.awaiting = some (d, span.start) ∧ d.text = String.ofList l.text ∧
            d.text.length = 10) ∧
        ∀ c, Complains (p.await l.text span) c ↔ ¬ Calendar.Names l.text ∧
          c = ⟨.syntactic, "Invalid date: " ++ String.ofList l.text ++ ".", span⟩) ∧
    (∀ text text' d e, ofText? text = some d → ofText? text' = some e →
      (d ≤ e ↔ Bytes.ofText (String.ofList text) ≤ Bytes.ofText (String.ofList text')) ∧
      d.monthText = String.ofList (text.take 7) ∧
      (Bytes.ofText d.monthText < Bytes.ofText e.monthText ↔
        (Month.ofDate d).Before (Month.ofDate e))) ∧
    (∀ entries : List Entry, (∀ entry ∈ entries, ∃ text, ofText? text = some entry.date) →
      entries.mergeSort (fun a b => a.date ≤ b.date) =
          entries.mergeSort (fun a b => Bytes.ofText a.date.text ≤ Bytes.ofText b.date.text) ∧
        ∀ entry, (∃ text, ofText? text = some entry.date) →
          ∀ after, Entry.append entries entry = .ok after ↔
            (∀ last ∈ Entry.lastDate entries,
              Bytes.ofText last.text ≤ Bytes.ofText entry.date.text) ∧
            after = entries ++ [entry]) ∧
    ∀ files root draft, (Draft.read files root).result = .ok draft →
      ∃ books, (Books.read files files.nesting ⟨root, Span.startOf root, .ledger⟩ .empty).result =
          .ok books ∧
        draft.pending = books.pending.mergeSort fun a b =>
          Bytes.ofText a.date.text ≤ Bytes.ofText b.date.text := by
  refine ⟨?_, ?_, ?_, fun files root draft => Draft.pending_of_read⟩
  · intro source l hl hkind p span hp
    have shaped := (Lexeme.formed_of_mem_scan hl).date hkind
    refine ⟨exists_await_iff span shaped hp, ?_, fun c => complains_await shaped hp⟩
    intro q hq
    obtain ⟨-, d, hd, rfl⟩ := Progress.await_eq_ok.1 hq
    obtain ⟨htext, -⟩ := text_of_ofText? hd
    refine ⟨d, hd, rfl, htext, ?_⟩
    rw [htext, String.length_ofList, Lexeme.length_of_isDate shaped]
  · intro text text' d e hd he
    have hwritten := isWritten_of_ofText? hd
    have hwritten' := isWritten_of_ofText? he
    obtain ⟨htext, hmonth⟩ := text_of_ofText? hd
    obtain ⟨htext', -⟩ := text_of_ofText? he
    rw [← htext, ← htext']
    exact ⟨le_iff_text hwritten hwritten', hmonth, monthText_lt_iff hwritten hwritten'⟩
  · intro entries h
    have hwritten : ∀ entry ∈ entries, entry.date.IsWritten := by
      intro entry hentry
      obtain ⟨text, htext⟩ := h entry hentry
      exact isWritten_of_ofText? htext
    refine ⟨Entry.mergeSort_eq_text hwritten, ?_⟩
    rintro entry ⟨text, htext⟩ after
    exact Entry.append_eq_ok_text hwritten (isWritten_of_ofText? htext)

theorem read_asWritten_leapDays :
    let source := "1900-02-29 2000-02-29".toList
    let p := Progress.begin .empty
    let span := Span.startOf "main"
    (⟨.date, "1900-02-29".toList⟩ ∈ Lexeme.scan source ∧
      Complains (p.await "1900-02-29".toList span)
        ⟨.syntactic, "Invalid date: 1900-02-29.", span⟩) ∧
    (⟨.date, "2000-02-29".toList⟩ ∈ Lexeme.scan source ∧
      ∃ q, p.await "2000-02-29".toList span = .ok q) := by
  intro source p span
  have hscan : ⟨.date, "1900-02-29".toList⟩ ∈ Lexeme.scan source ∧
      ⟨.date, "2000-02-29".toList⟩ ∈ Lexeme.scan source := by
    decide +kernel
  have hcommon : ¬ Calendar.Names "1900-02-29".toList := by
    rw [Calendar.Names, Calendar.hasDay_iff]
    decide
  have hleap : Calendar.Names "2000-02-29".toList := by
    rw [Calendar.Names, Calendar.hasDay_iff]
    decide
  have hrefused := (read_asWritten.1 source _ hscan.1 rfl p span rfl).2.2
    ⟨.syntactic, "Invalid date: 1900-02-29.", span⟩
  have haccepted := (read_asWritten.1 source _ hscan.2 rfl p span rfl).1
  exact ⟨⟨hscan.1, hrefused.2 ⟨hcommon, rfl⟩⟩, hscan.2, haccepted.2 hleap⟩

end Date

end DoubleEntry
