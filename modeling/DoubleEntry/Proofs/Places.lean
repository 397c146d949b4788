import DoubleEntry.Proofs.Items
import DoubleEntry.Proofs.Patterns

/-! # Where lexemes stand

The place of a character can be counted in the text before it: a line for each
line end, and a column for each character since the last of them. Reading counts
along with the lexemes and leaves comments out. It comes to the same places all
the same, since only line ends stand behind comments and no other lexeme holds
the character that ends a line.
-/

namespace DoubleEntry

namespace Position

/-- The position behind `before`, which is counted in all of it. -/
def behind (before : List Char) : Position :=
  ⟨1 + before.count '\n', 1 + (before.reverse.takeWhile (· ≠ '\n')).length⟩

theorem behind_append_char (before : List Char) (c : Char) :
    behind (before ++ [c]) = (behind before).step c := by
  unfold behind step
  by_cases h : c = '\n'
  · simp [h, nextLine, Nat.add_assoc]
  · simp [h, advance, Nat.add_assoc]

theorem past_behind (before text : List Char) :
    (behind before).past text = behind (before ++ text) := by
  induction text generalizing before with
  | nil => rw [past_nil, List.append_nil]
  | cons c text ih =>
      rw [past_cons, ← behind_append_char, ih, List.append_assoc]
      rfl

theorem behind_append_newLine (before : List Char) :
    behind (before ++ ['\n']) = (behind before).nextLine := by
  rw [behind_append_char]
  exact if_pos rfl

theorem behind_append_plain {before text : List Char} (h : '\n' ∉ text) :
    behind (before ++ text) = (behind before).advance text.length := by
  rw [← past_behind, past_eq_advance _ _ h]

theorem nextLine_behind_append {before text : List Char} (h : '\n' ∉ text) :
    (behind (before ++ text)).nextLine = (behind before).nextLine := by
  rw [behind_append_plain h]
  rfl

theorem le_refl (p : Position) : p ≤ p := .inr ⟨rfl, Nat.le_refl _⟩

theorem le_trans {p q r : Position} (hpq : p ≤ q) (hqr : q ≤ r) : p ≤ r := by
  change _ ∨ _ at hpq hqr
  change _ ∨ _
  omega

theorem le_step (p : Position) (c : Char) : p ≤ p.step c := by
  unfold step
  split
  · exact .inl (Nat.lt_succ_self _)
  · exact .inr ⟨rfl, Nat.le_add_right _ _⟩

theorem le_past (p : Position) (text : List Char) : p ≤ p.past text := by
  induction text generalizing p with
  | nil => exact le_refl p
  | cons c text ih => exact le_trans (le_step p c) (ih _)

theorem behind_le_append (before text : List Char) : behind before ≤ behind (before ++ text) := by
  rw [← past_behind]
  exact le_past _ _

end Position

namespace Lexeme

/-! ## Line ends and comments -/

/-- The text that some lexemes are cut from. -/
def texts (lexemes : List Lexeme) : List Char := lexemes.flatMap (·.text)

@[simp] theorem texts_append (first second : List Lexeme) :
    texts (first ++ second) = texts first ++ texts second := List.flatMap_append

@[simp] theorem texts_cons (l : Lexeme) (rest : List Lexeme) :
    texts (l :: rest) = l.text ++ texts rest := rfl

@[simp] theorem texts_nil : texts [] = [] := rfl

theorem texts_scan (text : List Char) : texts (scan text) = text := flatMap_text_scan text

/-- Only a line end holds the character that ends a line. -/
def Breaks (l : Lexeme) : Prop :=
  if l.kind = .newLine then l.text = ['\n'] else '\n' ∉ l.text

/-- Lexemes as they follow each other in a text. -/
structure Lined (lexemes : List Lexeme) : Prop where
  breaks : ∀ l ∈ lexemes, l.Breaks
  comments : lexemes.IsChain fun l next => l.kind = .comment → next.kind = .newLine

theorem newLine_not_mem_run {p q : Char → Bool} {c : Char} {rest : List Char}
    (hp : p '\n' = false) (hq : q '\n' = false) (hc : p c) : '\n' ∉ c :: rest.takeWhile q := by
  intro hmem
  rcases List.mem_cons.1 hmem with rfl | hmem
  · exact absurd hc (by simp [hp])
  · exact absurd (List.mem_takeWhile_imp hmem) (by simp [hq])

theorem newLine_not_mem_items (text : List Char) : '\n' ∉ (Quoted.items text).1 := by
  fun_induction Quoted.items text with
  | case1 | case2 | case4 => exact List.not_mem_nil
  | case3 c rest hline inner behind h ih =>
      rw [h] at ih
      simp [Ne.symm hline, ih]
  | case5 c rest _ hplain inner behind h ih =>
      rw [h] at ih
      simp only [not_or] at hplain
      simp [Ne.symm hplain.2.1, ih]

theorem numericKind_cases (text : List Char) :
    numericKind text = .date ∨ numericKind text = .number ∨ numericKind text = .error := by
  unfold numericKind
  split
  · exact .inl rfl
  split
  · exact .inr (.inl rfl)
  · exact .inr (.inr rfl)

theorem breaks_first (c : Char) (rest : List Char) : (first c rest).1.Breaks := by
  by_cases hquote : c = '"'
  · subst hquote
    have hitems := newLine_not_mem_items rest
    rcases first_quote rest with ⟨inner, behind, h, hfirst⟩ | ⟨inner, stop, h, -, hfirst⟩
    · rw [h] at hitems
      rw [hfirst]
      simpa [Breaks] using hitems
    · rw [h] at hitems
      rw [hfirst]
      simpa [Breaks] using hitems
  unfold first
  split
  · next hspace => exact newLine_not_mem_run (by decide) (by decide) hspace
  split
  · next hline => simp [Breaks, hline]
  next hline =>
  split
  · next hsemicolon =>
    exact newLine_not_mem_run (p := (· = ';')) (by decide) (by decide) (decide_eq_true hsemicolon)
  split
  · next hsmall => exact newLine_not_mem_run (by decide) (by decide) hsmall
  split
  · next hnumeric =>
    have hkind : numericKind (c :: rest.takeWhile isNumeric) ≠ .newLine := by
      rcases numericKind_cases (c :: rest.takeWhile isNumeric) with h | h | h <;> simp [h]
    rw [Breaks, if_neg hkind]
    exact newLine_not_mem_run (by decide) (by decide) hnumeric
  split
  · next hcapital => exact newLine_not_mem_run (by decide) (by decide) hcapital
  · simp [Breaks, Ne.symm hline]

theorem eq_semicolon_of_comment {c : Char} {rest : List Char}
    (h : (first c rest).1.kind = .comment) : c = ';' := by
  by_contra hc
  have hnumeric := numericKind_cases (c :: rest.takeWhile isNumeric)
  unfold first at h
  simp only [hc, if_false] at h
  repeat' split at h
  all_goals simp_all

/-- Behind a comment the text goes on with a line end, if at all. -/
theorem behind_comment {c : Char} {rest : List Char} (h : (first c rest).1.kind = .comment) :
    ∀ next ∈ (first c rest).2.head?, next = '\n' := by
  obtain rfl := eq_semicolon_of_comment h
  intro next hnext
  have hnot := List.head?_dropWhile_not isNotNewLine rest
  have hbehind : (first ';' rest).2 = rest.dropWhile isNotNewLine := rfl
  rw [hbehind] at hnext
  rw [hnext] at hnot
  simpa [isNotNewLine] using hnot

theorem lined_scan (text : List Char) : Lined (scan text) := by
  fun_induction scan text with
  | case1 => exact ⟨fun _ hl => absurd hl List.not_mem_nil, .nil⟩
  | case2 c rest ih =>
      refine ⟨List.forall_mem_cons.2 ⟨breaks_first c rest, ih.breaks⟩,
        List.isChain_cons.2 ⟨?_, ih.comments⟩⟩
      intro next hnext hcomment
      have hline := behind_comment hcomment
      generalize (first c rest).2 = behind at hnext hline
      cases behind with
      | nil => simp [scan] at hnext
      | cons d behind =>
          obtain rfl : d = '\n' := hline d rfl
          rw [scan] at hnext
          obtain rfl := Option.some.inj hnext
          rfl

theorem Lined.left {lexemes behind : List Lexeme} (h : Lined (lexemes ++ behind)) :
    Lined lexemes :=
  ⟨fun l hl => h.breaks l (List.mem_append_left _ hl), h.comments.left_of_append⟩

/-! ## Counting along the lexemes -/

/-- Lexemes without a comment behind all others. -/
def settled (lexemes : List Lexeme) : List Lexeme :=
  if lexemes.getLast?.any (·.kind = .comment) then lexemes.dropLast else lexemes

theorem settled_comment {lexemes : List Lexeme} {l : Lexeme} (h : l.kind = .comment) :
    settled (lexemes ++ [l]) = lexemes := by
  simp [settled, h]

theorem settled_of_getLast? {lexemes : List Lexeme}
    (h : ∀ l ∈ lexemes.getLast?, l.kind ≠ .comment) : settled lexemes = lexemes := by
  unfold settled
  cases hlast : lexemes.getLast? with
  | none => simp
  | some l => simp [h l hlast]

theorem settled_append {lexemes : List Lexeme} {l : Lexeme} (h : l.kind ≠ .comment) :
    settled (lexemes ++ [l]) = lexemes ++ [l] :=
  settled_of_getLast? (by simp [h])

theorem settled_begins (lexemes : List Lexeme) : settled lexemes <+: lexemes := by
  unfold settled
  split
  · exact List.dropLast_prefix lexemes
  · exact List.prefix_rfl

theorem Lined.settled_eq {lexemes behind : List Lexeme} {l : Lexeme}
    (h : Lined (lexemes ++ l :: behind)) (hl : l.kind ≠ .newLine) : settled lexemes = lexemes := by
  cases lexemes using List.reverseRecOn with
  | nil => rfl
  | append_singleton before last =>
      have hcomment := (List.isChain_append.1 h.comments).2.2 last (by simp) l rfl
      exact settled_append fun hlast => hl (hcomment hlast)

/-- Line ends put right what comments leave out. -/
theorem nextLine_settled {lexemes : List Lexeme} (h : Lined lexemes) :
    (Position.behind (texts (settled lexemes))).nextLine =
      (Position.behind (texts lexemes)).nextLine := by
  cases lexemes using List.reverseRecOn with
  | nil => rfl
  | append_singleton before last =>
      by_cases hlast : last.kind = .comment
      · have hplain := h.breaks last (by simp)
        rw [Breaks, if_neg (by simp [hlast])] at hplain
        rw [settled_comment hlast, texts_append, texts_cons, texts_nil, List.append_nil,
          Position.nextLine_behind_append hplain]
      · rw [settled_append hlast]

theorem past_of_plain {l : Lexeme} (p : Position) (hline : l.kind ≠ .newLine)
    (hcomment : l.kind ≠ .comment) : past p l = p.advance l.text.length := by
  unfold past
  split
  · next h => exact absurd h hcomment
  · next h => exact absurd h hline
  · rfl

/-- Reading comes to the true place behind what it has read, save for a comment. -/
theorem foldl_past {lexemes : List Lexeme} (h : Lined lexemes) :
    lexemes.foldl past .first = Position.behind (texts (settled lexemes)) := by
  induction lexemes using List.reverseRecOn with
  | nil => rfl
  | append_singleton before l ih =>
      have hbefore := ih h.left
      have hbreaks := h.breaks l (by simp)
      rw [List.foldl_append, List.foldl_cons, List.foldl_nil, hbefore]
      by_cases hline : l.kind = .newLine
      · rw [Breaks, if_pos hline] at hbreaks
        rw [settled_append (by simp [hline]), texts_append, texts_cons, texts_nil, List.append_nil,
          hbreaks, Position.behind_append_newLine, ← nextLine_settled h.left]
        simp only [past, hline]
      rw [Breaks, if_neg hline] at hbreaks
      rw [Lined.settled_eq h hline]
      by_cases hcomment : l.kind = .comment
      · rw [settled_comment hcomment]
        simp only [past, hcomment]
      · rw [settled_append hcomment, past_of_plain _ hline hcomment, texts_append, texts_cons,
          texts_nil, List.append_nil, Position.behind_append_plain hbreaks]

/-! ## The lexemes that mean something -/

def meaning (lexemes : List Lexeme) : List Lexeme := lexemes.filter (!·.isTrivia)

/-- The lexemes of a text without those that only separate others. -/
def meaningful (text : List Char) : List Lexeme := meaning (scan text)

@[simp] theorem meaning_append (first second : List Lexeme) :
    meaning (first ++ second) = meaning first ++ meaning second := List.filter_append ..

@[simp] theorem meaning_nil : meaning [] = [] := rfl

theorem meaning_cons_trivia {l : Lexeme} (rest : List Lexeme) (h : l.isTrivia) :
    meaning (l :: rest) = meaning rest := by
  simp [meaning, h]

theorem meaning_cons {l : Lexeme} (rest : List Lexeme) (h : ¬ l.isTrivia) :
    meaning (l :: rest) = l :: meaning rest := by
  simp [meaning, h]

theorem not_isTrivia_of_mem_meaning {lexemes : List Lexeme} {l : Lexeme} (h : l ∈ meaning lexemes) :
    ¬ l.isTrivia := by
  simpa using (List.mem_filter.1 h).2

theorem kind_of_meaning {l : Lexeme} (h : ¬ l.isTrivia) : l.kind ≠ .newLine ∧ l.kind ≠ .comment := by
  constructor
  · intro hline
    exact h (by rw [isTrivia, hline]; rfl)
  · intro hcomment
    exact h (by rw [isTrivia, hcomment]; rfl)

theorem past_of_meaning {l : Lexeme} (p : Position) (h : ¬ l.isTrivia) :
    past p l = p.advance l.text.length :=
  past_of_plain p (kind_of_meaning h).1 (kind_of_meaning h).2

section Cut

variable {text : List Char} {before behind : List Lexeme} {l : Lexeme}

theorem foldl_past_before (h : scan text = before ++ l :: behind) (hl : ¬ l.isTrivia) :
    before.foldl past .first = Position.behind (texts before) := by
  have hlined := h ▸ lined_scan text
  rw [foldl_past hlined.left, hlined.settled_eq (kind_of_meaning hl).1]

theorem foldl_past_behind (h : scan text = before ++ l :: behind) (hl : ¬ l.isTrivia) :
    (before ++ [l]).foldl past .first = Position.behind (texts (before ++ [l])) := by
  have hlined := h ▸ lined_scan text
  rw [List.append_cons] at hlined
  rw [foldl_past hlined.left, settled_append (kind_of_meaning hl).2]

end Cut

end Lexeme

namespace Token

open Lexeme

theorem map_toLexeme_place (p : Position) (lexemes : List Lexeme) :
    (place p lexemes).map (·.toLexeme) = meaning lexemes := by
  fun_induction place p lexemes with
  | case1 => rfl
  | case2 p l rest htrivia ih => rw [ih, meaning_cons_trivia rest htrivia]
  | case3 p l rest hmeans ih => rw [List.map_cons, ih, meaning_cons rest hmeans]

theorem map_toLexeme_ofText (text : List Char) :
    (ofText text).map (·.toLexeme) = meaningful text := map_toLexeme_place _ _

/-- Each token is a cut through the lexemes. -/
theorem exists_cut_of_place {p : Position} {lexemes : List Lexeme} {before rest : List Token}
    {t : Token} (h : place p lexemes = before ++ t :: rest) :
    ∃ passed behind, lexemes = passed ++ t.toLexeme :: behind ∧ ¬ t.isTrivia ∧
      meaning passed = before.map (·.toLexeme) ∧ t.start = passed.foldl past p ∧
      rest = place (past t.start t.toLexeme) behind := by
  induction lexemes generalizing p before with
  | nil => simp [place] at h
  | cons l lexemes ih =>
      rw [place] at h
      split at h
      · next htrivia =>
        obtain ⟨passed, behind, rfl, hmeans, hpassed, hstart, hrest⟩ := ih h
        refine ⟨l :: passed, behind, rfl, hmeans, ?_, hstart, hrest⟩
        rw [meaning_cons_trivia passed htrivia, hpassed]
      · next hmeans =>
        cases before with
        | nil =>
            obtain ⟨rfl, rfl⟩ := List.cons.inj h
            exact ⟨[], lexemes, rfl, hmeans, rfl, rfl, rfl⟩
        | cons first before =>
            obtain ⟨rfl, hbehind⟩ := List.cons.inj h
            obtain ⟨passed, behind, rfl, hfound, hpassed, hstart, hrest⟩ := ih hbehind
            refine ⟨l :: passed, behind, rfl, hfound, ?_, hstart, hrest⟩
            rw [meaning_cons passed hmeans, hpassed, List.map_cons]

end Token

end DoubleEntry
