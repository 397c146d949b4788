import DoubleEntry.Path

/-! # Files beside each other

A file whose name has no slash in it lies in the directory of the file that asks for
it. What it asks for is therefore looked up from where the other file looks it up.
-/

namespace DoubleEntry

namespace Path

/-- The name of a file in the directory of the file that asks for it. -/
def IsPlain (name : String) : Prop := '/' ∉ name.toList ∧ name ≠ "" ∧ name ≠ "."

instance (name : String) : Decidable (IsPlain name) := inferInstanceAs (Decidable (_ ∧ _))

theorem trimReversed_cons {c : Char} {rest : List Char} (hslash : c ≠ '/')
    (hdot : ¬ (c = '.' ∧ rest.head? = some '/')) : trimReversed (c :: rest) = c :: rest := by
  unfold trimReversed
  split
  · next h => exact absurd (List.cons.inj h).1 hslash
  · next h =>
    obtain ⟨rfl, rfl⟩ := List.cons.inj h
    exact absurd ⟨rfl, rfl⟩ hdot
  · rfl

theorem trimReversed_trimReversed (path : List Char) :
    trimReversed (trimReversed path) = trimReversed path := by
  fun_induction trimReversed path with
  | case1 rest ih => exact ih
  | case2 rest ih => exact ih
  | case3 path hslash hdot =>
      unfold trimReversed
      split
      · next rest => exact absurd rfl (hslash rest)
      · next rest => exact absurd rfl (hdot rest)
      · rfl

theorem length_trimReversed_le (path : List Char) : (trimReversed path).length ≤ path.length := by
  fun_induction trimReversed path with
  | case1 rest ih => exact Nat.le_succ_of_le ih
  | case2 rest ih => exact Nat.le_succ_of_le (Nat.le_succ_of_le ih)
  | case3 => exact Nat.le_refl _

theorem trimReversed_of_isPlain {name : String} (h : IsPlain name) (rest : List Char) :
    trimReversed (name.toList.reverse ++ rest) = name.toList.reverse ++ rest := by
  obtain ⟨hslash, hempty, hdot⟩ := h
  cases hname : name.toList.reverse with
  | nil => exact absurd (String.toList_eq_nil_iff.1 (List.reverse_eq_nil_iff.1 hname)) hempty
  | cons c before =>
      have hmem : ∀ d ∈ c :: before, d ≠ '/' := by
        intro d hd heq
        rw [← hname, List.mem_reverse] at hd
        exact hslash (heq ▸ hd)
      refine trimReversed_cons (hmem c List.mem_cons_self) ?_
      intro hpair
      obtain ⟨rfl, hnext⟩ := hpair
      cases before with
      | nil =>
          refine hdot (String.toList_inj.1 ?_)
          rw [← List.reverse_reverse name.toList, hname]
          rfl
      | cons d before =>
          obtain rfl := Option.some.inj hnext
          exact hmem _ (List.mem_cons_of_mem _ List.mem_cons_self) rfl

theorem dropWhile_of_isPlain {name : String} (h : IsPlain name) (rest : List Char) :
    (name.toList.reverse ++ rest).dropWhile (· ≠ '/') = rest.dropWhile (· ≠ '/') := by
  refine List.dropWhile_append_of_pos ?_
  intro c hc
  rw [List.mem_reverse] at hc
  exact decide_eq_true fun heq => h.1 (heq ▸ hc)

theorem reverse_ne_nil_of_isPlain {name : String} (h : IsPlain name) : name.toList.reverse ≠ [] :=
  fun hnil => h.2.1 (String.toList_eq_nil_iff.1 (List.reverse_eq_nil_iff.1 hnil))

theorem parent?_of_isPlain {name : String} (h : IsPlain name) : parent? name.toList = some [] := by
  have htrim := trimReversed_of_isPlain h []
  have hdrop := dropWhile_of_isPlain h []
  rw [List.append_nil] at htrim hdrop
  unfold parent?
  rw [htrim]
  split
  · next hnil => exact absurd hnil (reverse_ne_nil_of_isPlain h)
  · rw [hdrop]
    rfl

theorem parent?_behind_slash {name : String} (h : IsPlain name) (above : List Char) :
    parent? ((('/' :: above).reverse) ++ name.toList) =
      match trimReversed above with
      | [] => some ['/']
      | directory => some directory.reverse := by
  unfold parent?
  rw [List.reverse_append, List.reverse_reverse, trimReversed_of_isPlain h]
  split
  · next hnil =>
    exact absurd (List.append_eq_nil_iff.1 hnil).1 (reverse_ne_nil_of_isPlain h)
  · rw [dropWhile_of_isPlain h]
    rfl

/-- A directory that a file lies in is empty, the root directory, or has nothing at
    its end to be trimmed. -/
theorem parent?_cases {path directory : List Char} (h : parent? path = some directory) :
    directory = [] ∨ directory = ['/'] ∨
      directory ≠ [] ∧ trimReversed directory.reverse = directory.reverse := by
  unfold parent? at h
  split at h
  · cases h
  · split at h
    · cases h
      exact .inl rfl
    · split at h
      · cases h
        exact .inr (.inl rfl)
      · next hne =>
        cases h
        refine .inr (.inr ⟨fun hnil => hne (List.reverse_eq_nil_iff.1 hnil), ?_⟩)
        rw [List.reverse_reverse]
        exact trimReversed_trimReversed _

theorem parent?_join_of_isPlain {name : String} (h : IsPlain name) {path directory : List Char}
    (hparent : parent? path = some directory) :
    parent? (join directory name.toList) = some directory := by
  have hrelative : ¬ isAbsolute name.toList = true := fun hhead =>
    h.1 (List.mem_of_mem_head? (of_decide_eq_true hhead))
  unfold join
  rcases parent?_cases hparent with rfl | rfl | ⟨hne, htrim⟩
  · rw [if_pos (.inr rfl)]
    exact parent?_of_isPlain h
  · rw [if_neg (by simp [hrelative]), if_pos (by rfl)]
    exact parent?_behind_slash h []
  · have hlast : directory.getLast? ≠ some '/' := by
      intro hslash
      rw [← List.head?_reverse] at hslash
      obtain ⟨above, habove⟩ := List.head?_eq_some_iff.1 hslash
      have hshorter := length_trimReversed_le above
      rw [habove, trimReversed] at htrim
      rw [htrim] at hshorter
      exact Nat.not_succ_le_self _ hshorter
    have hbehind := parent?_behind_slash h directory.reverse
    rw [List.reverse_cons, List.reverse_reverse, List.append_assoc, htrim] at hbehind
    rw [if_neg (by simp [hrelative, hne]), if_neg hlast]
    refine hbehind.trans ?_
    split
    · next hnil => exact absurd (List.reverse_eq_nil_iff.1 hnil) hne
    · rw [List.reverse_reverse]

/-- A path in a file of a plain name means what it means in the file that asks for
    that file. -/
theorem resolve_resolve {name : String} (h : IsPlain name) (root path : String) :
    resolve (resolve root name) path = resolve root path := by
  unfold resolve
  cases hparent : parent? root.toList with
  | none =>
      dsimp only
      rw [parent?_of_isPlain h]
      simp only [join, or_true, if_true, String.ofList_toList]
  | some directory =>
      dsimp only
      rw [String.toList_ofList, parent?_join_of_isPlain h hparent]

end Path

end DoubleEntry
