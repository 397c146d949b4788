import DoubleEntry.Proofs.Reading

/-! # Line endings do not matter

A text may end its lines with `\n`, with `\r` or with both. All three are read as
the same text, so the files of the books may each be written with another line end,
and what is read, what is wrong and where it stands are the same.
-/

namespace DoubleEntry

namespace Lines

theorem unify_unify (text : List Char) : unify (unify text) = unify text :=
  unify_eq_self (not_mem_unify text)

/-- What a line ends with. -/
inductive Ending where
  | lineFeed
  | carriageReturn
  | both
  deriving Repr, DecidableEq

namespace Ending

def text : Ending → List Char
  | lineFeed => ['\n']
  | carriageReturn => ['\r']
  | both => ['\r', '\n']

/-- Write a text with this at the end of each of its lines. -/
def write (e : Ending) (text : List Char) : List Char :=
  text.flatMap fun c => if c = '\n' then e.text else [c]

theorem write_newLine (e : Ending) (text : List Char) :
    e.write ('\n' :: text) = e.text ++ e.write text := by
  simp [write]

theorem write_plain (e : Ending) {c : Char} (text : List Char) (h : c ≠ '\n') :
    e.write (c :: text) = c :: e.write text := by
  simp [write, h]

theorem newLine_not_mem_write (text : List Char) : '\n' ∉ carriageReturn.write text := by
  induction text with
  | nil => simp [write]
  | cons c text ih =>
      by_cases h : c = '\n'
      · simp [h, write_newLine, Ending.text, ih]
      · simp [write_plain _ _ h, Ne.symm h, ih]

theorem onePass_text_append (e : Ending) (text : List Char) :
    onePass (e.text ++ e.write text) = '\n' :: onePass (e.write text) := by
  cases e with
  | lineFeed => exact onePass_cons (by simp)
  | both => simp only [Ending.text, List.cons_append, List.nil_append, onePass]
  | carriageReturn =>
      refine onePass_cons ?_
      intro h
      exact newLine_not_mem_write text (List.mem_of_mem_head? h.2)

theorem unify_write (e : Ending) {text : List Char} (h : '\r' ∉ text) :
    unify (e.write text) = text := by
  rw [unify_eq_onePass]
  induction text with
  | nil => rfl
  | cons c text ih =>
      simp only [List.mem_cons, not_or] at h
      by_cases hline : c = '\n'
      · rw [hline, write_newLine, onePass_text_append, ih h.2]
      · have hplain : ¬ (c = '\r' ∧ (e.write text).head? = some '\n') :=
          fun hpair => h.1 hpair.1.symm
        rw [write_plain e text hline, onePass_cons hplain, if_neg (Ne.symm h.1), ih h.2]

end Ending

/-- The same texts, each written with the line end that is chosen for its path. -/
def writeAll (choice : String → Ending) (texts : List (String × String)) :
    List (String × String) :=
  texts.map fun named => (named.1, String.ofList ((choice named.1).write named.2.toList))

end Lines

namespace Files

/-- The text of a file as it is read. -/
def lines (files : Files) (path : String) : Except ReadError (List Char) :=
  (files.read path).map fun text => Lines.unify text.toList

theorem find?_writeAll (choice : String → Lines.Ending) (texts : List (String × String))
    (path : String) :
    find? (Lines.writeAll choice texts) path =
      (texts.reverse.find? fun named => Path.key named.1.toList = Path.key path.toList).map
        fun named => String.ofList ((choice named.1).write named.2.toList) := by
  unfold find? Lines.writeAll
  rw [← List.map_reverse, List.find?_map, Option.map_map]
  rfl

theorem lines_writeAll (choice : String → Lines.Ending) {texts : List (String × String)}
    (plain : ∀ named ∈ texts, '\r' ∉ named.2.toList) (path : String) :
    (inMemory (Lines.writeAll choice texts)).lines path = (inMemory texts).lines path := by
  unfold lines inMemory
  dsimp only
  rw [find?_writeAll, find?]
  cases hfound : texts.reverse.find?
      fun named => Path.key named.1.toList = Path.key path.toList with
  | none => rfl
  | some named =>
      have hplain := plain named (List.mem_reverse.1 (List.mem_of_find?_eq_some hfound))
      simp [Except.map, Lines.Ending.unify_write _ hplain, Lines.unify_eq_self hplain]

end Files

/-- Reading depends on nothing but the texts as they are read. -/
theorem Books.read_of_lines {files others : Files}
    (h : ∀ path, files.lines path = others.lines path) (depth : Nat) :
    read files depth = read others depth := by
  induction depth with
  | zero => rfl
  | succ depth ih =>
      funext visit books
      have hlines := h visit.path
      unfold Files.lines at hlines
      unfold read
      rw [ih]
      cases hfile : files.read visit.path with
      | error reason =>
          cases hother : others.read visit.path with
          | error other =>
              rw [hfile, hother] at hlines
              cases hlines
              rfl
          | ok text =>
              rw [hfile, hother] at hlines
              cases hlines
      | ok text =>
          cases hother : others.read visit.path with
          | error other =>
              rw [hfile, hother] at hlines
              cases hlines
          | ok text' =>
              rw [hfile, hother] at hlines
              have hsame : Lines.unify text.toList = Lines.unify text'.toList :=
                Except.ok.inj hlines
              have hscript : Script.ofText visit.path text = Script.ofText visit.path text' := by
                rw [Script.ofText, hsame]
                rfl
              simp only [hscript]

theorem Ledger.read_of_lines {files others : Files} (hnesting : files.nesting = others.nesting)
    (h : ∀ path, files.lines path = others.lines path) (root : String) :
    read files root = read others root := by
  unfold read Draft.read
  rw [Books.read_of_lines h, hnesting]

/-- Two replacements of line ends do what one pass does, and doing it again changes
    nothing. Whatever line end is chosen for each file, what is read from the files
    is the same ledger or the same fault, with all its places. -/
theorem Ledger.read_writeAll :
    (∀ text, Lines.unify text = Lines.onePass text ∧ '\r' ∉ Lines.unify text ∧
      Lines.unify (Lines.unify text) = Lines.unify text) ∧
    ∀ (texts : List (String × String)) (choice : String → Lines.Ending),
      (∀ named ∈ texts, '\r' ∉ named.2.toList) → ∀ root,
        read (.inMemory (Lines.writeAll choice texts)) root = read (.inMemory texts) root := by
  constructor
  · intro text
    exact ⟨Lines.unify_eq_onePass text, Lines.not_mem_unify text, Lines.unify_unify text⟩
  · intro texts choice plain root
    refine read_of_lines ?_ (Files.lines_writeAll choice plain) root
    simp [Files.inMemory, Lines.writeAll]

/-- Books with a blank line before postings that do not balance. -/
def Lines.stallTexts : List (String × String) := [
  ("main", "open ledger\n 5 ASSETS/Cash\n 5 CAPITAL/Own\ninclude \"stall\"\n"),
  ("stall", "2020-05-01\n\n 1 ASSETS/Cash\n")]

theorem Ledger.read_writeAll_stallTexts :
    (∀ named ∈ Lines.stallTexts, '\r' ∉ named.2.toList) ∧
    (read (.inMemory [
      ("main", "open ledger\r\n 5 ASSETS/Cash\r\n 5 CAPITAL/Own\r\ninclude \"stall\"\r\n"),
      ("stall", "2020-05-01\r\r 1 ASSETS/Cash\r")]) "main").result =
        .error ⟨.unbalanced ⟨2020, 5, 1, by decide⟩ 100, "stall", ⟨1, 1⟩, ⟨3, 15⟩⟩ := by
  have plain : ∀ named ∈ Lines.stallTexts, '\r' ∉ named.2.toList := by decide +kernel
  have hsame := read_writeAll.2 Lines.stallTexts
    (fun path => if path = "main" then .both else .carriageReturn) plain "main"
  refine ⟨plain, (congrArg (fun files => (read (.inMemory files) "main").result) ?_).trans
    ((congrArg Traced.result hsame).trans ?_)⟩
  · decide +kernel
  · decide +kernel

end DoubleEntry
