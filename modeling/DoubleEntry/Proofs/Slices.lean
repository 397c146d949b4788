import DoubleEntry.Proofs.Standing

/-! # Slices of a text

A slice that is cut out of a text along its lexemes falls apart into the same
lexemes when it is read on its own. A span of tokens therefore shows these tokens
and nothing else, and its two ends are true places in the text.
-/

namespace DoubleEntry

namespace Lexeme

/-! ## What follows a lexeme -/

theorem run_of_shorter {p : Char → Bool} {rest shorter : List Char}
    (h : shorter <+: rest.dropWhile p) :
    (rest.takeWhile p ++ shorter).takeWhile p = rest.takeWhile p ∧
      (rest.takeWhile p ++ shorter).dropWhile p = shorter := by
  have hrun : ∀ c ∈ rest.takeWhile p, p c := fun c hc => List.mem_takeWhile_imp hc
  rw [List.takeWhile_append_of_pos hrun, List.dropWhile_append_of_pos hrun]
  cases shorter with
  | nil => simp
  | cons c shorter =>
      obtain ⟨behind, hbehind⟩ := h
      have hnot := List.head?_dropWhile_not p rest
      rw [← hbehind] at hnot
      have hc : ¬ p c := by simpa using hnot
      simp [hc]

theorem items_of_stop {stop shorter : List Char} (hstop : Quoted.items stop = ([], stop))
    (h : shorter <+: stop) : Quoted.items shorter = ([], shorter) := by
  obtain ⟨behind, rfl⟩ := h
  match shorter with
  | [] => rfl
  | [c] =>
      by_cases hc : c = '"' ∨ c = '\n' ∨ c = '\\'
      · simp [Quoted.items, hc]
      · simp only [not_or] at hc
        simp [Quoted.items, hc] at hstop
  | c :: d :: shorter =>
      by_cases hslash : c = '\\'
      · subst hslash
        by_cases hd : d = '\n'
        · simp [Quoted.items, hd]
        · simp [Quoted.items, hd] at hstop
      · by_cases hc : c = '"' ∨ c = '\n'
        · simp [Quoted.items, hslash, hc]
        · simp only [not_or] at hc
          simp [Quoted.items, hslash, hc] at hstop

theorem items_of_shorter {rest shorter : List Char} (h : shorter <+: (Quoted.items rest).2) :
    Quoted.items ((Quoted.items rest).1 ++ shorter) = ((Quoted.items rest).1, shorter) := by
  have hagain : Quoted.items ((Quoted.items rest).1 ++ (Quoted.items rest).2) = _ :=
    items_append_of_mem (items_mem rest)
  rw [Quoted.items_append] at hagain
  have hinner := List.self_eq_append_right.1 (congrArg Prod.fst hagain)
  have hstop : Quoted.items (Quoted.items rest).2 = ([], (Quoted.items rest).2) :=
    Prod.ext hinner (congrArg Prod.snd hagain).symm
  rw [items_append_of_mem (items_mem rest), items_of_stop hstop h, List.append_nil]

/-- A lexeme ends where it did if less follows it. -/
theorem first_of_shorter {c : Char} {rest shorter : List Char} (h : shorter <+: (first c rest).2) :
    first c ((first c rest).1.text.tail ++ shorter) = ((first c rest).1, shorter) := by
  by_cases hquote : c = '"'
  · subst hquote
    have hagain : shorter <+: (Quoted.items rest).2 → _ := items_of_shorter
    rcases first_quote rest with ⟨inner, behind, hitems, hfirst⟩ | ⟨inner, stop, hitems, hstop, hfirst⟩
    · rw [hfirst] at h ⊢
      apply first_string
      rw [List.tail_cons, List.append_assoc]
      exact items_eq_iff.2 ⟨(items_eq_iff.1 hitems).1, rfl⟩
    · rw [hfirst] at h ⊢
      rw [hitems] at hagain
      apply first_open (hagain h)
      intro hhead
      obtain ⟨behind, rfl⟩ := List.head?_eq_some_iff.1 hhead
      obtain ⟨more, rfl⟩ := h
      exact hstop rfl
  unfold first at h ⊢
  split_ifs at h ⊢ with hspace hline hsemicolon hsmall hnumeric hcapital
  · simp [run_of_shorter h]
  · simp
  · simp [run_of_shorter h]
  · simp [run_of_shorter h]
  · simp [run_of_shorter h]
  · simp [run_of_shorter h]
  · simp

theorem scan_texts_behind {text : List Char} {before behind : List Lexeme}
    (h : scan text = before ++ behind) : scan (texts behind) = behind := by
  induction before generalizing text with
  | nil =>
      rw [List.nil_append] at h
      rw [← h, texts_scan]
  | cons l before ih =>
      cases text with
      | nil => simp [scan] at h
      | cons c rest =>
          rw [scan] at h
          exact ih (List.cons.inj h).2

theorem scan_texts_left {slice behind : List Lexeme}
    (h : scan (texts (slice ++ behind)) = slice ++ behind) : scan (texts slice) = slice := by
  induction slice with
  | nil => simp [scan]
  | cons l slice ih =>
      have hall : scan (texts (l :: slice ++ behind)) = [l] ++ (slice ++ behind) := h
      have hslice := ih (scan_texts_behind hall)
      cases htext : texts (l :: slice ++ behind) with
      | nil =>
          rw [htext] at h
          simp [scan] at h
      | cons c rest =>
          rw [htext, scan, List.cons_append] at h
          obtain ⟨hfirst, hrest⟩ := List.cons.inj h
          have hbehind : (first c rest).2 = texts slice ++ texts behind := by
            rw [← texts_scan (first c rest).2, hrest, texts_append]
          have hl : l.text = c :: l.text.tail := by
            have hhead := first_append c rest
            have hne := first_ne_nil c rest
            rw [hfirst] at hhead hne
            cases hcut : l.text with
            | nil => exact absurd hcut hne
            | cons d more =>
                rw [hcut] at hhead
                rw [(List.cons.inj hhead).1, List.tail_cons]
          have hshort := first_of_shorter (hbehind ▸ List.prefix_append (texts slice) (texts behind))
          rw [hfirst] at hshort
          rw [texts_cons, hl, List.cons_append, scan, hshort, hslice]

/-- A slice along the lexemes of a text falls apart into just these lexemes. -/
theorem scan_texts_slice {text : List Char} {before slice behind : List Lexeme}
    (h : scan text = before ++ slice ++ behind) : scan (texts slice) = slice := by
  rw [List.append_assoc] at h
  exact scan_texts_left (scan_texts_behind h)

end Lexeme

open Lexeme

/-- A span shows these lexemes of a text: its ends are true places in the text, the
    first lexeme begins and the last one ends there, and what lies between falls
    apart into them when it is read on its own. -/
structure Span.Shows (span : Span) (text : List Char) (lexemes : List Lexeme) : Prop where
  ordered : span.start ≤ span.stop
  slice : ∃ before slice behind, scan text = before ++ slice ++ behind ∧
    span.start = .behind (texts before) ∧ span.stop = .behind (texts (before ++ slice)) ∧
    slice.head? = lexemes.head? ∧ slice.getLast? = lexemes.getLast? ∧
    scan (texts slice) = slice ∧ meaning slice = lexemes

namespace Token

/-- A row of tokens is a slice along the lexemes. -/
theorem exists_slice_of_place {p : Position} {lexemes : List Lexeme} {before tokens rest : List Token}
    {t : Token} (h : place p lexemes = before ++ t :: (tokens ++ rest)) :
    ∃ passed slice behind, lexemes = passed ++ slice ++ behind ∧
      slice.head? = some t.toLexeme ∧
      slice.getLast? = ((t :: tokens).map (·.toLexeme)).getLast? ∧
      meaning slice = (t :: tokens).map (·.toLexeme) ∧
      t.start = passed.foldl past p ∧
      lastStop t.start (t :: tokens) = (passed ++ slice).foldl past p := by
  obtain ⟨passed, behind, rfl, hmeans, -, hstart, hrest⟩ := exists_cut_of_place h
  cases tokens using List.reverseRecOn with
  | nil =>
      refine ⟨passed, [t.toLexeme], behind, by simp, rfl, rfl, meaning_cons [] hmeans, hstart, ?_⟩
      rw [List.foldl_append, ← hstart]
      exact (past_of_meaning _ hmeans).symm
  | append_singleton middle last =>
      rw [List.append_assoc] at hrest
      obtain ⟨between, behind, rfl, hmeans', hbetween, hstart', -⟩ :=
        exists_cut_of_place hrest.symm
      refine ⟨passed, t.toLexeme :: between ++ [last.toLexeme], behind, by simp, rfl, ?_, ?_,
        hstart, ?_⟩
      · rw [← List.cons_append, List.map_append, List.map_singleton, List.getLast?_concat,
          List.getLast?_concat]
      · rw [meaning_append, meaning_cons _ hmeans, hbetween, meaning_cons [] hmeans']
        simp
      · rw [List.foldl_append, List.foldl_append, ← hstart, List.foldl_cons, List.foldl_cons,
          ← hstart', lastStop, ← List.cons_append, List.getLast?_concat]
        exact (past_of_meaning _ hmeans').symm

theorem shows {text : List Char} {before tokens rest : List Token} {t : Token}
    (h : ofText text = before ++ t :: (tokens ++ rest)) (file : String) :
    Span.Shows ⟨file, t.start, lastStop t.start (t :: tokens)⟩ text
      ((t :: tokens).map (·.toLexeme)) := by
  obtain ⟨passed, slice, behind, hscan, hhead, hlast, hmeans, hstart, hstop⟩ :=
    exists_slice_of_place h
  have hlined : Lined (passed ++ slice) := (hscan ▸ lined_scan text).left
  have hplain : ∀ l ∈ (t :: tokens).map (·.toLexeme), ¬ l.isTrivia := by
    intro l hl
    rw [← hmeans] at hl
    exact not_isTrivia_of_mem_meaning hl
  have hstart' : t.start = .behind (texts passed) := by
    obtain ⟨more, rfl⟩ := List.head?_eq_some_iff.1 hhead
    rw [List.append_assoc] at hscan
    rw [hstart, foldl_past_before hscan (hplain _ List.mem_cons_self)]
  have hstop' : lastStop t.start (t :: tokens) = .behind (texts (passed ++ slice)) := by
    rw [hstop, foldl_past hlined, settled_of_getLast?]
    intro l hl
    rw [List.getLast?_append, hlast, List.map_cons,
      List.getLast?_eq_some_getLast (List.cons_ne_nil _ _), Option.some_or] at hl
    obtain rfl := Option.some.inj hl
    exact (kind_of_meaning (hplain _ (List.getLast_mem _))).2
  constructor
  · dsimp only
    rw [hstop', hstart', texts_append]
    exact Position.behind_le_append _ _
  · exact ⟨passed, slice, behind, hscan, hstart', hstop', hhead, hlast, scan_texts_slice hscan, hmeans⟩

end Token

end DoubleEntry
