import DoubleEntry.Proofs.Tree

/-! # Journals apart

A journal shares the chart with the books that ask for it. All that it can do to
the chart is to give it the first date of all, since everything below it is read
as a part of the journal and may not open any account. Its entries are put behind
those that stand there already.
-/

namespace DoubleEntry

/-- What reading a file as a part of `scope` may do to the chart. A first date stays,
    and a part of a journal leaves the accounts as they are. -/
structure Chart.Grows (scope : Scope) (chart after : Chart) : Prop where
  start : ∀ date, chart.start = some date → after.start = some date
  accounts : scope = .journal → after.accounts = chart.accounts
  span : scope = .journal → after.span = chart.span

namespace Chart.Grows

variable {scope : Scope} {a b c : Chart}

theorem refl : a.Grows scope a := ⟨fun _ => id, fun _ => rfl, fun _ => rfl⟩

theorem trans (h : a.Grows scope b) (h' : b.Grows scope c) : a.Grows scope c where
  start date hdate := h'.start date (h.start date hdate)
  accounts hscope := (h'.accounts hscope).trans (h.accounts hscope)
  span hscope := (h'.span hscope).trans (h.span hscope)

theorem of_journal (h : a.Grows .journal b) : a.Grows scope b :=
  ⟨h.start, fun _ => h.accounts rfl, fun _ => h.span rfl⟩

theorem note (date : Date) : a.Grows scope (a.note date) := by
  refine ⟨fun other hother => ?_, fun _ => rfl, fun _ => rfl⟩
  rw [Chart.note, hother]
  rfl

theorem start_cases (h : a.Grows scope b) :
    b.start = a.start ∨ a.start = none ∧ ∃ date, b.start = some date := by
  cases hstart : a.start with
  | some date => exact .inl (h.start date hstart)
  | none =>
      cases hafter : b.start with
      | none => exact .inl rfl
      | some date => exact .inr ⟨rfl, date, rfl⟩

end Chart.Grows

/-- One statement, if the files it asks for do no more than they may. -/
theorem Statement.Does.grows {file : String} {scope : Scope} {p q : Progress} {s : Statement}
    (h : s.Does (fun visit books after => books.chart.Grows visit.scope after.chart) file scope p q) :
    p.books.chart.Grows scope q.books.chart := by
  cases h with
  | date h =>
      obtain ⟨-, date, -, rfl⟩ := Progress.await_eq_ok.1 h
      exact .note date
  | postings h =>
      obtain ⟨date, start, -, pending, -, rfl⟩ := Progress.enter_eq_ok.1 h
      exact .refl
  | openLedger h =>
      obtain ⟨hopen, chart, hchart, rfl⟩ := Progress.openChart_eq_ok.1 h
      obtain ⟨-, -, new, -, rfl⟩ := Chart.openAll_eq_ok.1 hchart
      refine ⟨fun _ => id, ?_, ?_⟩
      · rintro rfl
        exact absurd hopen nofun
      · rintro rfl
        exact absurd hopen nofun
  | useAccount => exact .refl
  | inclusion h => exact h
  | journal h => exact h.of_journal

theorem Books.read_grows {files : Files} {depth : Nat} {visit : Visit} {books after : Books}
    (h : (read files depth visit books).result = .ok after) :
    books.chart.Grows visit.scope after.chart :=
  read_induction (S := fun scope p q => p.books.chart.Grows scope q.books.chart)
    (F := fun scope books after => books.chart.Grows scope after.chart)
    .refl .trans (fun _ => Statement.Does.grows) (fun h _ => h) h

namespace Files

/-- Nothing below a file that is read as a part of a journal opens the chart. -/
theorem Reads.tree_closed {files : Files} {depth : Nat} {path other : String}
    (h : files.Reads depth .journal path) (htree : files.Tree path other) : files.Closed other := by
  obtain ⟨below, -, inner, hread, hscope⟩ := h.tree htree
  rw [hscope rfl] at hread
  exact hread.closed

end Files

namespace Draft

theorem reads_of_read {files : Files} {root : String} {d : Draft}
    (h : (read files root).result = .ok d) : files.Reads files.nesting .ledger root := by
  obtain ⟨books, hbooks, -⟩ := result_read_eq_ok.1 h
  exact ⟨_, _, books, hbooks⟩

/-- A `journal` statement without fault leaves the accounts and the place of the
    chart as they are, may only give the chart its first date, and puts the entries
    of the journal behind the others. No file below the journal opens the chart,
    and where one does the books as a whole cannot be read. -/
theorem journal_isolated (files : Files) :
    (∀ (depth : Nat) (file : String) (scope : Scope) (p q : Progress) (path : String) (span : Span),
      (Statement.run (Books.read files depth) file scope p (.journal path span)).result = .ok q →
      q.books.chart.accounts = p.books.chart.accounts ∧ q.books.chart.span = p.books.chart.span ∧
      (q.books.chart.start = p.books.chart.start ∨
        p.books.chart.start = none ∧ ∃ date, q.books.chart.start = some date) ∧
      (∃ passages new, Walks files (Path.resolve file path) passages ∧ Contribute passages new ∧
        q.books.pending = p.books.pending ++ new) ∧
      q.awaiting = p.awaiting ∧ q.contra = p.contra ∧
      ∀ other, files.Tree (Path.resolve file path) other → files.Closed other) ∧
    (∀ root file path other, files.Tree root file → files.AsksJournal file path →
      files.Tree path other → ¬ files.Closed other →
      ∃ fault, (read files root).result = .error fault) := by
  constructor
  · intro depth file scope p q path span h
    rw [Statement.result_run_journal, map_eq_ok] at h
    obtain ⟨inner, hread, rfl⟩ := h
    have hgrows := Books.read_grows hread
    obtain ⟨passages, new, hwalks, hnew, hinner⟩ := Books.read_adds hread
    refine ⟨hgrows.accounts rfl, hgrows.span rfl, hgrows.start_cases,
      ⟨passages, new, hwalks, hnew, congrArg (p.books.pending ++ ·) hinner⟩, rfl, rfl, ?_⟩
    intro other htree
    exact Files.Reads.tree_closed ⟨span, _, inner, hread⟩ htree
  · intro root file path other hfile hjournal htree hopens
    cases hread : (read files root).result with
    | error fault => exact ⟨fault, rfl⟩
    | ok d =>
        obtain ⟨below, -, inner, hfile, -⟩ := (reads_of_read hread).tree hfile
        obtain ⟨least, -, hpath⟩ := hfile.journal hjournal
        exact absurd (hpath.tree_closed htree) hopens

/-- A journal that includes a file with an earlier date. -/
def clubFiles : Files := .inMemory [
  ("main", "journal \"club\"\n"),
  ("club", "include \"dues\"\n2020-05-01 1 ASSETS/Cash\n"),
  ("dues", "2020-04-01 2 ASSETS/Cash\n")]

/-- A journal that includes a file which opens the chart. -/
def rashFiles : Files := .inMemory [
  ("main", "journal \"club\"\n"),
  ("club", "include \"dues\"\n"),
  ("dues", "open ledger 5 ASSETS/Cash\n")]

theorem journal_isolated_clubFiles :
    (∃ q, (Statement.run (Books.read clubFiles 3) "main" .ledger (.begin .empty)
        (.journal "club" ⟨"main", ⟨1, 1⟩, ⟨1, 15⟩⟩)).result = .ok q ∧
      q.books.chart.accounts = [] ∧ q.books.pending.map (·.date.text) = ["2020-04-01", "2020-05-01"] ∧
      clubFiles.Closed "club") ∧
    ∃ fault, (read rashFiles "main").result = .error fault := by
  constructor
  · have hdates : ((Statement.run (Books.read clubFiles 3) "main" .ledger (.begin .empty)
        (.journal "club" ⟨"main", ⟨1, 1⟩, ⟨1, 15⟩⟩)).result.map fun q =>
          q.books.pending.map (·.date.text)) = .ok ["2020-04-01", "2020-05-01"] := by
      decide +kernel
    obtain ⟨q, hq, hpending⟩ := map_eq_ok.1 hdates
    obtain ⟨haccounts, -, -, -, -, -, hclosed⟩ := (journal_isolated clubFiles).1 _ _ _ _ _ _ _ hq
    exact ⟨q, hq, haccounts, hpending, hclosed "club" .root⟩
  · have hclub : Token.ofText "include \"dues\"\n".toList = [] ++
        [⟨⟨.directive, "include ".toList⟩, ⟨1, 1⟩, "include \"dues\"".toList⟩,
          ⟨⟨.string, "\"dues\"".toList⟩, ⟨1, 9⟩, "\"dues\"".toList⟩] := by
      decide +kernel
    have hmain : Token.ofText "journal \"club\"\n".toList = [] ++
        [⟨⟨.directive, "journal ".toList⟩, ⟨1, 1⟩, "journal \"club\"".toList⟩,
          ⟨⟨.string, "\"club\"".toList⟩, ⟨1, 9⟩, "\"club\"".toList⟩] := by
      decide +kernel
    have hjournal : rashFiles.AsksJournal "main" "club" :=
      ⟨_, [], _, _, [], ⟨_, rfl, rfl⟩, hmain, by decide, rfl, by decide +kernel⟩
    have hasks : Span.Asks ⟨"club", ⟨1, 1⟩, ⟨1, 15⟩⟩ "include \"dues\"\n".toList "dues" :=
      ⟨_, _, .inl (by decide), rfl, Token.shows_two hclub "club", by decide +kernel⟩
    have htext : rashFiles.Holds "club" "include \"dues\"\n".toList := ⟨_, rfl, rfl⟩
    have htree : rashFiles.Tree "club" "dues" := .asked .root htext hasks
    refine (journal_isolated rashFiles).2 "main" "main" "club" "dues" .root hjournal htree ?_
    intro hclosed
    have hopens : ∃ t ∈ Token.ofText "open ledger 5 ASSETS/Cash\n".toList, t.Says "open ledger" := by
      decide +kernel
    obtain ⟨t, ht, hsays⟩ := hopens
    exact hclosed _ ⟨_, rfl, rfl⟩ t ht hsays

end Draft

end DoubleEntry
