import DoubleEntry.Proofs.Patterns

/-! # Quoting a text

Between its quotes a string is a row of pieces: characters that stand for themselves,
and characters behind a backslash. The pieces can be told from what is written, and a
string says one character for each of them. Every text on one line can be quoted: what
is quoted is one string, whatever follows it, and it says the text again.
-/

open Computability

namespace DoubleEntry.Quoted

/-- A piece of a string: a character that stands for itself, or any character of the
    line behind a backslash. -/
inductive Piece where
  | plain (c : Char) (free : Lexeme.isPlain c)
  | escaped (c : Char) (free : Lexeme.isNotNewLine c)

namespace Piece

/-- How the piece is written. -/
def text : Piece → List Char
  | plain c _ => [c]
  | escaped c _ => ['\\', c]

/-- The character that the piece stands for. -/
def meaning : Piece → Char
  | plain c _ | escaped c _ => c

theorem ne_of_plain {c : Char} (h : Lexeme.isPlain c) : c ≠ '"' ∧ c ≠ '\\' ∧ c ≠ '\n' := by
  simpa [Lexeme.isPlain, and_assoc] using h

theorem meaning_ne_newLine (piece : Piece) : piece.meaning ≠ '\n' := by
  cases piece with
  | plain c free => exact (ne_of_plain free).2.2
  | escaped c free => simpa [meaning, Lexeme.isNotNewLine] using free

theorem mem_quotedItem {text : List Char} :
    text ∈ Lexeme.quotedItem ↔ ∃ piece : Piece, text = piece.text := by
  rw [Lexeme.mem_quotedItem]
  constructor
  · intro h
    rcases h with ⟨c, free, rfl⟩ | ⟨c, free, rfl⟩
    · exact ⟨.plain c free, rfl⟩
    · exact ⟨.escaped c free, rfl⟩
  · intro h
    obtain ⟨piece, rfl⟩ := h
    cases piece with
    | plain c free => exact .inl ⟨c, free, rfl⟩
    | escaped c free => exact .inr ⟨c, free, rfl⟩

theorem mem_quotedItems {inner : List Char} :
    inner ∈ Lexeme.quotedItem∗ ↔ ∃ pieces : List Piece, inner = pieces.flatMap text := by
  constructor
  · intro h
    obtain ⟨items, rfl, hitems⟩ := Language.mem_kstar.1 h
    clear h
    induction items with
    | nil => exact ⟨[], rfl⟩
    | cons item items ih =>
        obtain ⟨hitem, hrest⟩ := List.forall_mem_cons.1 hitems
        obtain ⟨piece, rfl⟩ := mem_quotedItem.1 hitem
        obtain ⟨pieces, hpieces⟩ := ih hrest
        exact ⟨piece :: pieces, by simp [hpieces]⟩
  · intro h
    obtain ⟨pieces, rfl⟩ := h
    induction pieces with
    | nil => exact Language.nil_mem_kstar _
    | cons piece pieces ih => exact Lexeme.cons_mem_many (mem_quotedItem.2 ⟨piece, rfl⟩) ih

/-- No backslash stands for itself, so the pieces can be told from the text. -/
theorem flatMap_text_inj {first second : List Piece} :
    first.flatMap text = second.flatMap text ↔ first = second := by
  constructor
  · intro h
    induction first generalizing second with
    | nil =>
        cases second with
        | nil => rfl
        | cons piece second => cases piece <;> simp [text] at h
    | cons piece first ih =>
        cases second with
        | nil => cases piece <;> simp [text] at h
        | cons other second =>
            cases piece with
            | plain c free =>
                cases other with
                | plain d free' =>
                    obtain ⟨rfl, hrest⟩ := List.cons.inj h
                    rw [ih hrest]
                | escaped d free' => exact absurd (List.cons.inj h).1 (ne_of_plain free).2.1
            | escaped c free =>
                cases other with
                | plain d free' => exact absurd (List.cons.inj h).1.symm (ne_of_plain free').2.1
                | escaped d free' =>
                    obtain ⟨rfl, hrest⟩ := List.cons.inj (List.cons.inj h).2
                    rw [ih hrest]
  · intro h
    rw [h]

end Piece

/-- A string as it is written. -/
def written (pieces : List Piece) : List Char := '"' :: (pieces.flatMap Piece.text ++ ['"'])

theorem written_inj {first second : List Piece} : written first = written second ↔ first = second := by
  simp [written, Piece.flatMap_text_inj]

/-! ## What a string says -/

theorem unescape_pieces (pieces : List Piece) :
    unescape (pieces.flatMap Piece.text) = pieces.map Piece.meaning := by
  induction pieces with
  | nil => rfl
  | cons piece pieces ih =>
      cases piece with
      | plain c free =>
          have hslash := (Piece.ne_of_plain free).2.1
          simp [Piece.text, Piece.meaning, unescape, hslash, ih]
      | escaped c free => simp [Piece.text, Piece.meaning, unescape, ih]

theorem unquote_written (pieces : List Piece) :
    unquote (written pieces) = pieces.map Piece.meaning := by
  simp [unquote, written, unescape_pieces]

/-! ## Strings in a text -/

theorem scan_written (pieces : List Piece) (rest : List Char) :
    Lexeme.scan (written pieces ++ rest) = ⟨.string, written pieces⟩ :: Lexeme.scan rest := by
  have hitems : items (pieces.flatMap Piece.text ++ '"' :: rest) =
      (pieces.flatMap Piece.text, '"' :: rest) :=
    Lexeme.items_eq_iff.2 ⟨Piece.mem_quotedItems.2 ⟨pieces, rfl⟩, rfl⟩
  have happend : written pieces ++ rest = '"' :: (pieces.flatMap Piece.text ++ '"' :: rest) := by
    simp [written]
  rw [happend, Lexeme.scan, Lexeme.first_string hitems]
  rfl

theorem exists_written {source : List Char} {l : Lexeme} (h : l ∈ Lexeme.scan source)
    (hkind : l.kind = .string) : ∃ pieces, l.text = written pieces := by
  obtain ⟨before, behind, hsplit⟩ := List.append_of_mem h
  have hlongest := (Lexeme.munches_of_scan hsplit).longest (by simp [hkind])
  rw [hkind] at hlongest
  obtain ⟨inner, hinner, htext⟩ := Lexeme.mem_string.1 hlongest.mem
  obtain ⟨pieces, rfl⟩ := Piece.mem_quotedItems.1 hinner
  exact ⟨pieces, htext⟩

/-! ## Quoting -/

/-- A text without line ends is quoted as pieces that say it. -/
theorem exists_quote_eq {text : List Char} (h : '\n' ∉ text) :
    ∃ pieces, quote text = written pieces ∧ pieces.map Piece.meaning = text := by
  suffices hescape : ∃ pieces : List Piece,
      escape text = pieces.flatMap Piece.text ∧ pieces.map Piece.meaning = text by
    obtain ⟨pieces, htext, hmeaning⟩ := hescape
    exact ⟨pieces, by rw [quote, written, htext], hmeaning⟩
  induction text with
  | nil => exact ⟨[], rfl, rfl⟩
  | cons c rest ih =>
      obtain ⟨hc, hrest⟩ := not_or.1 (mt List.mem_cons.2 h)
      obtain ⟨pieces, htext, hmeaning⟩ := ih hrest
      by_cases hspecial : c = '"' ∨ c = '\\'
      · have free : Lexeme.isNotNewLine c := by simpa [Lexeme.isNotNewLine] using Ne.symm hc
        exact ⟨.escaped c free :: pieces, by simp [escape, hspecial, htext, Piece.text],
          by simp [Piece.meaning, hmeaning]⟩
      · have free : Lexeme.isPlain c := by
          rw [not_or] at hspecial
          simp [Lexeme.isPlain, hspecial, Ne.symm hc]
        exact ⟨.plain c free :: pieces, by simp [escape, hspecial, htext, Piece.text],
          by simp [Piece.meaning, hmeaning]⟩

theorem scan_quote {text : List Char} (h : '\n' ∉ text) (rest : List Char) :
    Lexeme.scan (quote text ++ rest) = ⟨.string, quote text⟩ :: Lexeme.scan rest := by
  obtain ⟨pieces, hquote, -⟩ := exists_quote_eq h
  rw [hquote]
  exact scan_written pieces rest

theorem unquote_quote {text : List Char} (h : '\n' ∉ text) : unquote (quote text) = text := by
  obtain ⟨pieces, hquote, hmeaning⟩ := exists_quote_eq h
  rw [hquote, unquote_written, hmeaning]

theorem newLine_not_mem_meaning (pieces : List Piece) : '\n' ∉ pieces.map Piece.meaning := by
  simp [Piece.meaning_ne_newLine]

/-- A text without line ends is quoted as one string, whatever follows it, and the
    string says that text. A string that stands in a text is a row of pieces in one way
    only. It says one character for each of them, and what it says can be quoted again. -/
theorem quote_faithful :
    (∀ text : List Char, '\n' ∉ text → ∀ rest,
      Lexeme.scan (quote text ++ rest) = ⟨.string, quote text⟩ :: Lexeme.scan rest ∧
        unquote (quote text) = text) ∧
    (∀ (source : List Char) (l : Lexeme), l ∈ Lexeme.scan source → l.kind = .string →
      (∃ pieces : List Piece, unquote l.text = pieces.map Piece.meaning ∧
        ∀ others : List Piece,
          l.text = '"' :: (others.flatMap Piece.text ++ ['"']) ↔ others = pieces) ∧
      ∀ rest, Lexeme.scan (quote (unquote l.text) ++ rest) =
          ⟨.string, quote (unquote l.text)⟩ :: Lexeme.scan rest ∧
        unquote (quote (unquote l.text)) = unquote l.text) := by
  constructor
  · intro text h rest
    exact ⟨scan_quote h rest, unquote_quote h⟩
  · intro source l hmem hkind
    obtain ⟨pieces, htext⟩ := exists_written hmem hkind
    have hmeaning : unquote l.text = pieces.map Piece.meaning := by rw [htext, unquote_written]
    have honeLine : '\n' ∉ unquote l.text := hmeaning ▸ newLine_not_mem_meaning pieces
    refine ⟨⟨pieces, hmeaning, fun others => ?_⟩, fun rest => ?_⟩
    · change l.text = written others ↔ _
      rw [htext, written_inj, eq_comm]
    · exact ⟨scan_quote honeLine rest, unquote_quote honeLine⟩

theorem quote_faithful_slashes :
    ('\n' ∉ "a\\\"".toList ∧ unquote (quote "a\\\"".toList) = "a\\\"".toList) ∧
    (⟨.string, "\"\\x\\\\\"".toList⟩ ∈ Lexeme.scan "é\"\\x\\\\\"\\\"".toList ∧
      unquote (quote (unquote "\"\\x\\\\\"".toList)) = unquote "\"\\x\\\\\"".toList ∧
      unquote "\"\\x\\\\\"".toList = "x\\".toList) := by
  have hmem : ⟨.string, "\"\\x\\\\\"".toList⟩ ∈ Lexeme.scan "é\"\\x\\\\\"\\\"".toList := by
    decide +kernel
  exact ⟨⟨by decide, (quote_faithful.1 _ (by decide) []).2⟩,
    hmem, ((quote_faithful.2 _ _ hmem rfl).2 []).2, by decide⟩

end DoubleEntry.Quoted
