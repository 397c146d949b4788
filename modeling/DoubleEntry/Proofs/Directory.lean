import DoubleEntry.Proofs.Beside
import DoubleEntry.Proofs.Spelling
import Mathlib.Data.List.Chain

/-! # Paths from the directory of a file

A file that is named without detours lies in what its name has up to the last
slash. A relative path in it means that directory with the path behind it, and this
is again a name without detours if the path is one. Along a chain of files the
directories therefore stand one behind the other, until an absolute path takes the
place of all that came before it.
-/

namespace DoubleEntry.Path

/-- A path up to its last slash, which is included. -/
def directory (path : List Char) : List Char := (path.reverse.dropWhile (· ≠ '/')).reverse

/-- A path that names a file without detours: no slash stands at its end, none
    follows another one, and no name is a single dot. -/
structure Regular (path : List Char) : Prop where
  nonempty : path ≠ []
  named : path.getLast? ≠ some '/'
  single : path.IsChain fun c d => c = '/' → d ≠ '/'
  undotted : ['.'] ∉ pieces path

instance (path : List Char) : Decidable (Regular path) :=
  decidable_of_iff (path ≠ [] ∧ path.getLast? ≠ some '/' ∧
    (path.IsChain fun c d => c = '/' → d ≠ '/') ∧ ['.'] ∉ pieces path)
    ⟨fun ⟨hnonempty, hnamed, hsingle, hundotted⟩ => ⟨hnonempty, hnamed, hsingle, hundotted⟩,
      fun h => ⟨h.nonempty, h.named, h.single, h.undotted⟩⟩

/-- Where a chain of paths leads to, each of them in the file that the ones before it
    lead to. -/
def along (root : String) (paths : List String) : String := paths.foldl resolve root

/-! ## Pieces and directories -/

theorem pieces_ne_nil (path : List Char) : pieces path ≠ [] := by
  cases path with
  | nil => exact List.cons_ne_nil _ _
  | cons c rest =>
      unfold pieces
      split
      · exact List.cons_ne_nil _ _
      · split <;> exact List.cons_ne_nil _ _

theorem pieces_append_slash (first second : List Char) :
    pieces (first ++ '/' :: second) = pieces first ++ pieces second := by
  induction first with
  | nil => rfl
  | cons c first ih =>
      rw [List.cons_append, pieces, ih, pieces]
      split
      · rfl
      · obtain ⟨piece, others, hpieces⟩ := List.exists_cons_of_ne_nil (pieces_ne_nil first)
        rw [hpieces]
        rfl

theorem directory_of_not_mem {name : List Char} (h : '/' ∉ name) : directory name = [] := by
  have hcut := (cut_at (List.mem_reverse.not.2 h) (.inl rfl)).2
  rw [List.append_nil] at hcut
  rw [directory, hcut]
  rfl

theorem directory_behind_slash (front : List Char) {name : List Char} (h : '/' ∉ name) :
    directory (front ++ '/' :: name) = front ++ ['/'] := by
  have hcut := (cut_at (List.mem_reverse.not.2 h)
    (.inr (rfl : ('/' :: front.reverse).head? = some '/'))).2
  have hreverse : (front ++ '/' :: name).reverse = name.reverse ++ '/' :: front.reverse := by simp
  rw [directory, hreverse, hcut, List.reverse_cons, List.reverse_reverse]

theorem exists_name (path : List Char) :
    '/' ∉ path ∨ ∃ front name, path = front ++ '/' :: name ∧ '/' ∉ name := by
  induction path with
  | nil => exact .inl List.not_mem_nil
  | cons c path ih =>
      rcases ih with hplain | ⟨front, name, rfl, hname⟩
      · by_cases hslash : c = '/'
        · exact .inr ⟨[], path, by rw [hslash]; rfl, hplain⟩
        · exact .inl (List.not_mem_cons_of_ne_of_not_mem (Ne.symm hslash) hplain)
      · exact .inr ⟨c :: front, name, rfl, hname⟩

/-! ## Names without detours -/

theorem trimReversed_reverse {path : List Char} (hslash : path.getLast? ≠ some '/')
    (hdot : ['.'] ∉ pieces path) : trimReversed path.reverse = path.reverse := by
  cases hpath : path.reverse with
  | nil => rfl
  | cons c rest =>
      rw [List.getLast?_eq_head?_reverse, hpath] at hslash
      refine trimReversed_cons (fun hc => hslash (congrArg some hc)) ?_
      rintro ⟨rfl, hnext⟩
      obtain ⟨above, rfl⟩ := List.head?_eq_some_iff.1 hnext
      have hsplit : path = above.reverse ++ '/' :: ['.'] := by
        rw [← List.reverse_reverse path, hpath]
        simp
      rw [hsplit, pieces_append_slash] at hdot
      exact hdot (List.mem_append_right _ List.mem_cons_self)

theorem parent?_of_not_mem {path : List Char} (hne : path ≠ [])
    (htrimmed : trimReversed path.reverse = path.reverse) (hname : '/' ∉ path) :
    parent? path = some [] := by
  have hdrop := (cut_at (List.mem_reverse.not.2 hname) (.inl rfl)).2
  rw [List.append_nil] at hdrop
  unfold parent?
  rw [htrimmed]
  split
  · next hnil => exact absurd (List.reverse_eq_nil_iff.1 hnil) hne
  · rw [hdrop]

theorem parent?_of_slash {front name : List Char} (hname : '/' ∉ name)
    (htrimmed : trimReversed (front ++ '/' :: name).reverse = (front ++ '/' :: name).reverse) :
    parent? (front ++ '/' :: name) =
      match trimReversed front.reverse with
      | [] => some ['/']
      | directory => some directory.reverse := by
  have hreverse : (front ++ '/' :: name).reverse = name.reverse ++ '/' :: front.reverse := by simp
  have hdrop := (cut_at (List.mem_reverse.not.2 hname)
    (.inr (rfl : ('/' :: front.reverse).head? = some '/'))).2
  unfold parent?
  rw [htrimmed]
  split
  · next hnil => simp at hnil
  · rw [hreverse, hdrop]
    rfl

namespace Regular

variable {path front name : List Char}

theorem trimmed (h : Regular path) : trimReversed path.reverse = path.reverse :=
  trimReversed_reverse h.named h.undotted

theorem getLast?_front (h : Regular (front ++ '/' :: name)) : front.getLast? ≠ some '/' :=
  fun hlast => (List.isChain_append.1 h.single).2.2 '/' hlast '/' rfl rfl rfl

/-- The directory without its slash, except for the root directory. -/
theorem parent?_eq (h : Regular (front ++ '/' :: name)) (hname : '/' ∉ name) :
    parent? (front ++ '/' :: name) = some (if front = [] then ['/'] else front) := by
  have hundotted : ['.'] ∉ pieces front := fun hmem => h.undotted <| by
    rw [pieces_append_slash]
    exact List.mem_append_left _ hmem
  rw [parent?_of_slash hname h.trimmed, trimReversed_reverse h.getLast?_front hundotted]
  split
  · next hnil => rw [if_pos (List.reverse_eq_nil_iff.1 hnil)]
  · next hsome =>
    rw [if_neg fun hnil => hsome (List.reverse_eq_nil_iff.2 hnil), List.reverse_reverse]

end Regular

/-- A relative path is put behind the directory of the file that it stands in. -/
theorem resolve_of_regular {file : String} (h : Regular file.toList) (path : String) :
    resolve file path =
      if isAbsolute path.toList then path
      else String.ofList (directory file.toList ++ path.toList) := by
  unfold resolve
  rcases exists_name file.toList with hname | ⟨front, name, hfile, hname⟩
  · rw [parent?_of_not_mem h.nonempty h.trimmed hname, directory_of_not_mem hname]
    simp [join]
  · rw [hfile] at h ⊢
    have hlast := h.getLast?_front
    rw [h.parent?_eq hname, directory_behind_slash front hname]
    by_cases habsolute : isAbsolute path.toList
    · simp [join, habsolute]
    · by_cases hroot : front = []
      · simp [join, habsolute, hroot]
      · simp [join, habsolute, hroot, hlast]

theorem resolve_of_isAbsolute (file : String) {path : String} (h : isAbsolute path.toList) :
    resolve file path = path := by
  unfold resolve
  split
  · rfl
  · simp [join, h]

/-! ## Chains of paths -/

theorem directory_append (file path : List Char) :
    directory (directory file ++ path) = directory file ++ directory path := by
  rcases exists_name path with hpath | ⟨front, name, rfl, hname⟩
  · rw [directory_of_not_mem hpath, List.append_nil]
    rcases exists_name file with hfile | ⟨above, name, rfl, hname⟩
    · rw [directory_of_not_mem hfile, List.nil_append, directory_of_not_mem hpath]
    · rw [directory_behind_slash above hname, List.append_assoc]
      exact directory_behind_slash above hpath
  · rw [directory_behind_slash front hname, ← List.append_assoc, directory_behind_slash _ hname,
      List.append_assoc]

theorem Regular.behind {file path : List Char} (hfile : Regular file) (hpath : Regular path)
    (hrelative : isAbsolute path = false) : Regular (directory file ++ path) := by
  rcases exists_name file with hname | ⟨front, name, rfl, hname⟩
  · rwa [directory_of_not_mem hname, List.nil_append]
  · rw [directory_behind_slash front hname, List.append_assoc, List.singleton_append]
    have hhead : path.head? ≠ some '/' := fun hslash => by simp [isAbsolute, hslash] at hrelative
    constructor
    case nonempty => exact List.append_ne_nil_of_right_ne_nil _ (List.cons_ne_nil _ _)
    case named =>
      rw [List.getLast?_append, List.getLast?_cons_of_ne_nil hpath.nonempty]
      obtain ⟨c, hlast⟩ := Option.isSome_iff_exists.1 (List.getLast?_isSome.2 hpath.nonempty)
      rw [hlast, Option.some_or, ← hlast]
      exact hpath.named
    case single =>
      obtain ⟨hfront, -, hseam⟩ := List.isChain_append.1 hfile.single
      refine List.isChain_append.2 ⟨hfront, List.isChain_cons.2 ⟨?_, hpath.single⟩, hseam⟩
      rintro c hc - rfl
      exact hhead hc
    case undotted =>
      rw [pieces_append_slash, List.mem_append, not_or]
      refine ⟨fun hmem => hfile.undotted ?_, hpath.undotted⟩
      rw [pieces_append_slash]
      exact List.mem_append_left _ hmem

theorem along_append (root : String) (paths others : List String) :
    along root (paths ++ others) = along (along root paths) others := List.foldl_append

theorem along_of_isAbsolute (root : String) (before : List String) {path : String}
    (h : isAbsolute path.toList) (behind : List String) :
    along root (before ++ path :: behind) = along path behind := by
  rw [along_append, along, List.foldl_cons, resolve_of_isAbsolute _ h]
  rfl

/-- Along relative paths the directories stand one behind the other, and the last
    path behind them. -/
theorem along_of_regular {root : String} (hroot : Regular root.toList) {paths : List String}
    (hpaths : ∀ path ∈ paths, Regular path.toList ∧ isAbsolute path.toList = false)
    {last : String} (hlast : isAbsolute last.toList = false) :
    along root (paths ++ [last]) = String.ofList
      ((root :: paths).flatMap (fun path => directory path.toList) ++ last.toList) := by
  induction paths generalizing root with
  | nil =>
      rw [List.nil_append, along, List.foldl_cons, List.foldl_nil, resolve_of_regular hroot,
        if_neg (by simp [hlast])]
      simp
  | cons path paths ih =>
      obtain ⟨⟨hpath, hrelative⟩, hrest⟩ := List.forall_mem_cons.1 hpaths
      have hstep : resolve root path = String.ofList (directory root.toList ++ path.toList) := by
        rw [resolve_of_regular hroot, if_neg (by simp [hrelative])]
      have hnext : Regular (resolve root path).toList := by
        rw [hstep, String.toList_ofList]
        exact hroot.behind hpath hrelative
      have hdirectory : directory (resolve root path).toList =
          directory root.toList ++ directory path.toList := by
        rw [hstep, String.toList_ofList, directory_append]
      change along (resolve root path) (paths ++ [last]) = _
      rw [ih hnext hrest]
      simp only [List.flatMap_cons, hdirectory, List.append_assoc]

end DoubleEntry.Path
