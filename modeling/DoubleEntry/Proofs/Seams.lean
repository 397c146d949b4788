import DoubleEntry.Proofs.Slices

/-! # Texts that are put together

No lexeme but a line end holds the character that ends a line. Two texts with a
line end between them therefore fall apart as each of them does alone.
-/

namespace DoubleEntry

namespace Lines

theorem unify_append_newLine (before behind : List Char) :
    unify (before ++ '\n' :: behind) = unify before ++ '\n' :: unify behind ∨
      ∃ start, unify before = start ++ ['\n'] ∧
        unify (before ++ '\n' :: behind) = start ++ '\n' :: unify behind := by
  simp only [unify_eq_onePass]
  fun_induction onePass before with
  | case1 rest ih =>
      rw [List.cons_append, List.cons_append, onePass]
      refine ih.imp (congrArg _) ?_
      intro hlast
      obtain ⟨start, hstart, hboth⟩ := hlast
      exact ⟨'\n' :: start, congrArg _ hstart, congrArg _ hboth⟩
  | case2 c rest hplain ih =>
      by_cases hlast : c = '\r' ∧ rest = []
      · obtain ⟨rfl, rfl⟩ := hlast
        exact .inr ⟨[], rfl, rfl⟩
      have hnot : ¬ (c = '\r' ∧ (rest ++ '\n' :: behind).head? = some '\n') := by
        intro hpair
        obtain ⟨rfl, hhead⟩ := hpair
        cases rest with
        | nil => exact hlast ⟨rfl, rfl⟩
        | cons d rest =>
            obtain rfl := Option.some.inj hhead
            exact hplain rest rfl rfl
      rw [List.cons_append, onePass_cons hnot]
      refine ih.imp (congrArg _) ?_
      intro hlater
      obtain ⟨start, hstart, hboth⟩ := hlater
      exact ⟨_ :: start, congrArg _ hstart, congrArg _ hboth⟩
  | case3 => exact .inl rfl

end Lines

namespace Lexeme

/-- Lexemes are cut wherever a line ends. -/
theorem exists_cut_at_newLine {lexemes : List Lexeme} {before behind : List Char}
    (breaks : ∀ l ∈ lexemes, l.Breaks) (h : texts lexemes = before ++ '\n' :: behind) :
    ∃ first rest, lexemes = first ++ rest ∧ texts first = before := by
  induction lexemes generalizing before with
  | nil => exact absurd h (List.append_ne_nil_of_right_ne_nil _ (List.cons_ne_nil _ _)).symm
  | cons l lexemes ih =>
      obtain ⟨hl, hlexemes⟩ := List.forall_mem_cons.1 breaks
      have later (left : List Char) (hbefore : before = l.text ++ left)
          (hleft : texts lexemes = left ++ '\n' :: behind) :
          ∃ first rest, l :: lexemes = first ++ rest ∧ texts first = before := by
        obtain ⟨first, rest, rfl, rfl⟩ := ih hlexemes hleft
        exact ⟨l :: first, rest, rfl, hbefore.symm⟩
      rw [texts_cons] at h
      rcases List.append_eq_append_iff.1 h with ⟨left, hbefore, hleft⟩ | ⟨own, hown, hbehind⟩
      · exact later left hbefore hleft
      · cases own with
        | nil =>
            rw [List.append_nil] at hown
            exact later [] (by rw [hown, List.append_nil]) hbehind.symm
        | cons c own =>
            obtain ⟨rfl, -⟩ := List.cons.inj hbehind
            have hmem : '\n' ∈ l.text := by
              rw [hown]
              exact List.mem_append_right _ List.mem_cons_self
            unfold Breaks at hl
            split at hl
            · -- The lexeme is the line end itself.
              rw [hl] at hown
              cases before with
              | nil => exact ⟨[], l :: lexemes, rfl, rfl⟩
              | cons d before => exact absurd (List.cons.inj hown).2.symm (by simp)
            · exact absurd hmem hl

theorem scan_append_newLine (before behind : List Char) :
    scan (before ++ '\n' :: behind) = scan before ++ scan ('\n' :: behind) := by
  have hwhole := texts_scan (before ++ '\n' :: behind)
  obtain ⟨first, rest, hcut, rfl⟩ := exists_cut_at_newLine (lined_scan _).breaks hwhole
  have hrest : texts rest = '\n' :: behind := by
    rw [hcut, texts_append] at hwhole
    exact List.append_cancel_left hwhole
  have hfirst : scan (texts first) = first := by
    apply scan_texts_left
    rw [texts_append, hrest, hcut]
  rw [hcut, hfirst, ← hrest, scan_texts_behind hcut]

theorem meaningful_append_newLine (before behind : List Char) :
    meaningful (before ++ '\n' :: behind) = meaningful before ++ meaningful behind := by
  have hline : scan ('\n' :: behind) = ⟨.newLine, ['\n']⟩ :: scan behind := by
    rw [scan]
    rfl
  rw [meaningful, scan_append_newLine, meaning_append, hline, meaning_cons_trivia _ rfl]
  rfl

/-- Texts that are joined by a line end mean what each of them means, however the
    lines of the first one end. -/
theorem meaningful_unify_append (before behind : List Char) :
    meaningful (Lines.unify (before ++ '\n' :: behind)) =
      meaningful (Lines.unify before) ++ meaningful (Lines.unify behind) := by
  rcases Lines.unify_append_newLine before behind with hjoin | ⟨start, hbefore, hjoin⟩
  · rw [hjoin, meaningful_append_newLine]
  · have hnone : meaningful [] = [] := by
      rw [meaningful, scan]
      rfl
    rw [hjoin, hbefore, meaningful_append_newLine, meaningful_append_newLine, hnone,
      List.append_nil]

end Lexeme

end DoubleEntry
