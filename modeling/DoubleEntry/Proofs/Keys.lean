import DoubleEntry.Proofs.Directory

/-! # Paths of the same file

Paths that differ in doubled slashes, in single dots behind slashes or in slashes at
their ends name the same file. What a path in a file means depends on no more than
which file that is: its key tells the key of what is asked for.
-/

namespace DoubleEntry.Path

/-- The key of a path that stands in a file with this key. A file that lies in no
    directory, or in the one that reading starts from, leaves the path as it is. -/
def Key.behind (k : Key) (path : List Char) : Key :=
  if isAbsolute path ∨ k.names = [] ∨ (k.names.length = 1 ∧ ¬ k.absolute ∧ ¬ k.dotted) then
    key path
  else ⟨k.absolute, k.dotted, k.names.dropLast ++ (key path).names⟩

/-! ## Keys of paths put together -/

theorem names_append_slash (first second : List Char) :
    (key (first ++ '/' :: second)).names = (key first).names ++ (key second).names := by
  rw [key, pieces_append_slash, List.filter_append]
  rfl

theorem key_append_slash {first : List Char} (h : first ≠ []) (second : List Char) :
    key (first ++ '/' :: second) =
      ⟨(key first).absolute, (key first).dotted, (key first).names ++ (key second).names⟩ := by
  obtain ⟨c, rest, rfl⟩ := List.exists_cons_of_ne_nil h
  have hhead : (pieces (c :: rest ++ '/' :: second)).head? = (pieces (c :: rest)).head? := by
    rw [pieces_append_slash, List.head?_append_of_ne_nil _ (pieces_ne_nil _)]
  rw [key, hhead, ← names_append_slash]
  rfl

theorem key_nil_names : (key []).names = [] := rfl

theorem key_dot_names : (key ['.']).names = [] := rfl

theorem pieces_of_not_mem {name : List Char} (h : '/' ∉ name) : pieces name = [name] := by
  induction name with
  | nil => rfl
  | cons c name ih =>
      rw [List.mem_cons, not_or] at h
      rw [pieces, if_neg (Ne.symm h.1), ih h.2]

theorem isAbsolute_of_not_mem {name : List Char} (h : '/' ∉ name) : isAbsolute name = false :=
  decide_eq_false fun hhead => h (List.mem_of_mem_head? hhead)

theorem dotted_of_isAbsolute {path : List Char} (h : isAbsolute path) :
    (key path).dotted = false := by
  obtain ⟨rest, rfl⟩ := List.head?_eq_some_iff.1 (of_decide_eq_true h)
  rfl

theorem isAbsolute_append {first : List Char} (h : isAbsolute first) (second : List Char) :
    isAbsolute (first ++ second) := by
  obtain ⟨rest, rfl⟩ := List.head?_eq_some_iff.1 (of_decide_eq_true h)
  rfl

theorem absolute_or_dotted {path : List Char} (hne : path ≠ []) (hnames : (key path).names = []) :
    (key path).absolute = true ∨ (key path).dotted = true := by
  obtain ⟨c, rest, rfl⟩ := List.exists_cons_of_ne_nil hne
  by_cases hslash : c = '/'
  · subst hslash
    exact .inl rfl
  · obtain ⟨piece, others, hpieces⟩ := List.exists_cons_of_ne_nil (pieces_ne_nil rest)
    have hfirst : pieces (c :: rest) = (c :: piece) :: others := by
      rw [pieces, if_neg hslash, hpieces]
    right
    simp only [key, hfirst, List.filter_eq_nil_iff, List.forall_mem_cons] at hnames ⊢
    simpa using hnames.1

theorem key_join {directory path : List Char} (hdirectory : directory ≠ [])
    (hpath : isAbsolute path = false) :
    key (join directory path) = ⟨(key directory).absolute, (key directory).dotted,
      (key directory).names ++ (key path).names⟩ := by
  have hneither : ¬ (isAbsolute path = true ∨ directory = []) := by simp [hpath, hdirectory]
  rw [join, if_neg hneither]
  split
  · next hlast =>
    obtain ⟨front, rfl⟩ := List.getLast?_eq_some_iff.1 hlast
    by_cases hfront : front = []
    · subst hfront
      rfl
    · have hwhole : front ++ ['/'] ++ path = front ++ '/' :: path := by simp
      rw [hwhole, key_append_slash hfront, key_append_slash hfront]
      simp [key, pieces]
  · exact key_append_slash hdirectory path

/-! ## Keys of trimmed paths -/

theorem names_trimReversed (path : List Char) :
    (key (trimReversed path).reverse).names = (key path.reverse).names := by
  fun_induction trimReversed path with
  | case1 rest ih =>
      rw [ih, List.reverse_cons, names_append_slash, eq_comm]
      exact List.append_nil _
  | case2 rest ih =>
      have hreverse : ('.' :: '/' :: rest).reverse = rest.reverse ++ '/' :: ['.'] := by simp
      rw [ih, hreverse, names_append_slash, eq_comm]
      exact List.append_nil _
  | case3 => rfl

theorem names_of_trimReversed {path : List Char} (h : trimReversed path.reverse = []) :
    (key path).names = [] := by
  have hnames := names_trimReversed path.reverse
  rw [h, List.reverse_reverse] at hnames
  exact hnames.symm

theorem key_trimReversed {path : List Char} (h : trimReversed path ≠ []) :
    key (trimReversed path).reverse = key path.reverse := by
  have hrest {rest : List Char} (h : trimReversed rest ≠ []) : rest.reverse ≠ [] := by
    rintro hnil
    rw [List.reverse_eq_nil_iff.1 hnil] at h
    exact h rfl
  fun_induction trimReversed path with
  | case1 rest ih =>
      rw [ih h, List.reverse_cons, key_append_slash (hrest h), key_nil_names, List.append_nil]
  | case2 rest ih =>
      have hreverse : ('.' :: '/' :: rest).reverse = rest.reverse ++ '/' :: ['.'] := by simp
      rw [ih h, hreverse, key_append_slash (hrest h), key_dot_names, List.append_nil]
  | case3 => rfl

theorem isAbsolute_of_trimReversed {path : List Char} (h : trimReversed path = []) :
    path = [] ∨ isAbsolute path.reverse := by
  fun_induction trimReversed path with
  | case1 rest ih | case2 rest ih =>
      right
      rcases ih h with rfl | habsolute
      · rfl
      · simpa using isAbsolute_append habsolute _
  | case3 => exact .inl h

theorem name_of_trimReversed {front name : List Char}
    (h : trimReversed (front ++ '/' :: name).reverse = (front ++ '/' :: name).reverse) :
    name ≠ [] ∧ name ≠ ['.'] := by
  constructor
  · rintro rfl
    have hshorter := length_trimReversed_le front.reverse
    rw [List.reverse_append, List.reverse_cons, List.reverse_nil, List.nil_append,
      List.singleton_append, trimReversed] at h
    rw [h, List.length_cons] at hshorter
    omega
  · rintro rfl
    have hshorter := length_trimReversed_le front.reverse
    have hreverse : (front ++ '/' :: ['.']).reverse = '.' :: '/' :: front.reverse := by simp
    rw [hreverse, trimReversed] at h
    rw [h, List.length_cons, List.length_cons] at hshorter
    omega

/-! ## The directory that a file lies in -/

theorem names_of_parent?_none {path : List Char} (h : parent? path = none) :
    (key path).names = [] := by
  unfold parent? at h
  split at h
  · next hnil => exact names_of_trimReversed hnil
  · split at h
    · cases h
    · split at h <;> cases h

theorem names_of_not_mem {path : List Char} (h : '/' ∉ path) :
    (key path).names = [] ∨
      ((key path).names.length = 1 ∧ ¬ (key path).absolute ∧ ¬ (key path).dotted) := by
  by_cases hdot : path = ['.']
  · exact .inl (by rw [hdot]; rfl)
  · by_cases hnil : path = []
    · exact .inl (by rw [hnil]; rfl)
    · right
      simp [key, pieces_of_not_mem h, isAbsolute_of_not_mem h, hdot, hnil]

/-- The directory of a file has the names of that file but the last one, and it begins
    as that file does. -/
theorem key_parent? {front name directory : List Char} (hname : '/' ∉ name)
    (htrimmed : trimReversed (front ++ '/' :: name).reverse = (front ++ '/' :: name).reverse)
    (h : parent? (front ++ '/' :: name) = some directory) :
    directory ≠ [] ∧
      (key (front ++ '/' :: name)).names = (key directory).names ++ [name] ∧
      (key (front ++ '/' :: name)).absolute = (key directory).absolute ∧
      (key (front ++ '/' :: name)).dotted = (key directory).dotted := by
  obtain ⟨hnonempty, hdot⟩ := name_of_trimReversed htrimmed
  have hnames : (key (front ++ '/' :: name)).names = (key front).names ++ [name] := by
    rw [names_append_slash]
    simp [key, pieces_of_not_mem hname, hnonempty, hdot]
  rw [parent?_of_slash hname htrimmed] at h
  split at h
  · next hnil =>
    cases h
    have habsolute : isAbsolute (front ++ '/' :: name) := by
      rcases isAbsolute_of_trimReversed hnil with hempty | habsolute
      · rw [List.reverse_eq_nil_iff.1 hempty]
        rfl
      · rw [List.reverse_reverse] at habsolute
        exact isAbsolute_append habsolute _
    refine ⟨List.cons_ne_nil _ _, ?_, habsolute, dotted_of_isAbsolute habsolute⟩
    rw [hnames, names_of_trimReversed hnil]
    rfl
  · next hsome =>
    cases h
    have hkey := key_trimReversed hsome
    rw [List.reverse_reverse] at hkey
    have hfront : front ≠ [] := by
      rintro rfl
      exact hsome rfl
    refine ⟨fun hnil => hsome (List.reverse_eq_nil_iff.1 hnil), ?_, ?_, ?_⟩
    · rw [hnames, hkey]
    · rw [hkey, key_append_slash hfront]
    · rw [hkey, key_append_slash hfront]

/-- A file that lies in a directory lies there under a trimmed path as well. -/
theorem exists_trimmed {path directory : List Char} (h : parent? path = some directory) :
    ∃ trimmed, key trimmed = key path ∧ trimmed ≠ [] ∧
      trimReversed trimmed.reverse = trimmed.reverse ∧ parent? trimmed = some directory := by
  have hleft : trimReversed path.reverse ≠ [] := by
    intro hnil
    unfold parent? at h
    rw [hnil] at h
    cases h
  refine ⟨(trimReversed path.reverse).reverse, ?_,
    fun hnil => hleft (List.reverse_eq_nil_iff.1 hnil), ?_, ?_⟩
  · rw [key_trimReversed hleft, List.reverse_reverse]
  · rw [List.reverse_reverse, trimReversed_trimReversed]
  · rw [← h]
    unfold parent?
    rw [List.reverse_reverse, trimReversed_trimReversed]

/-- What a path in a file names depends on no more than which file that is. -/
theorem key_resolve (file path : String) :
    key (resolve file path).toList = (key file.toList).behind path.toList := by
  unfold resolve Key.behind
  cases hparent : parent? file.toList with
  | none => rw [if_pos (.inr (.inl (names_of_parent?_none hparent)))]
  | some directory =>
      dsimp only
      obtain ⟨trimmed, hkey, hnonempty, htrimmed, hparent⟩ := exists_trimmed hparent
      rw [String.toList_ofList, ← hkey]
      rcases exists_name trimmed with hname | ⟨front, name, rfl, hname⟩
      · rw [parent?_of_not_mem hnonempty htrimmed hname] at hparent
        cases hparent
        rw [if_pos (.inr (names_of_not_mem hname)), join, if_pos (.inr rfl)]
      · obtain ⟨hdirectory, hnames, habsolute, hdotted⟩ := key_parent? hname htrimmed hparent
        by_cases hpath : isAbsolute path.toList
        · rw [if_pos (.inl hpath), join, if_pos (.inl hpath)]
        · rw [if_neg, key_join hdirectory (Bool.eq_false_iff.2 hpath), habsolute, hdotted, hnames,
            List.dropLast_concat]
          rw [habsolute, hdotted, hnames]
          rintro (h | h | ⟨hone, hrelative, hplain⟩)
          · exact hpath h
          · simp at h
          · have hnone : (key directory).names = [] := by simpa using hone
            rcases absolute_or_dotted hdirectory hnone with h | h
            · exact hrelative h
            · exact hplain h

theorem key_resolve_congr {file other : String} (h : key file.toList = key other.toList)
    (path : String) : key (resolve file path).toList = key (resolve other path).toList := by
  rw [key_resolve, key_resolve, h]

end DoubleEntry.Path
