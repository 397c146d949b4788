import DoubleEntry.Proofs.Breaks

/-! # The period of the books

A date that is read waits for postings and gets them before its file ends. The
dates of the entries are therefore exactly the dates that are read. The first of
them in reading order is the start of the books, and the latest is their end.
-/

namespace DoubleEntry

/-! ## The dates that are read -/

/-- All tokens of some passages in reading order. -/
def Token.ofPassages (passages : List Passage) : List Token := passages.flatMap (·.item.tokens)

/-- The dates among some tokens. -/
def Token.days (tokens : List Token) : List Token := tokens.filter (·.kind = .date)

theorem Token.days_append (first second : List Token) :
    days (first ++ second) = days first ++ days second :=
  List.filter_append ..

theorem Token.days_ofPassages_append (first second : List Passage) :
    days (ofPassages (first ++ second)) = days (ofPassages first) ++ days (ofPassages second) := by
  rw [ofPassages, List.flatMap_append, days_append]
  rfl

theorem Pair.days_eq_nil (ps : List Pair) : Token.days (ps.flatMap tokens) = [] := by
  simp only [Token.days, List.filter_eq_nil_iff, List.mem_flatMap, decide_eq_true_eq]
  rintro t ⟨p, -, ht⟩
  rcases List.mem_pair.1 ht with rfl | rfl
  · simp [p.number_kind]
  · simp [p.account_kind]

theorem Item.days_tokens (item : Item) : Token.days item.tokens = item.day?.toList := by
  cases item with
  | date day h => simp [Token.days, tokens, day?, h]
  | postings first others => exact Pair.days_eq_nil (first :: others)
  | openLedger keyword h pairs =>
      have hpairs := Pair.days_eq_nil pairs
      simpa [Token.days, tokens, day?, h.1] using hpairs
  | useAccount keyword h account ha => simp [Token.days, tokens, day?, h.1, ha]
  | inclusion keyword h path hp => simp [Token.days, tokens, day?, h.1, hp]
  | journal keyword h path hp => simp [Token.days, tokens, day?, h.1, hp]

theorem Token.days_ofPassages_cons (p : Passage) (passages : List Passage) :
    days (ofPassages (p :: passages)) = p.item.day?.toList ++ days (ofPassages passages) := by
  rw [ofPassages, List.flatMap_cons, days_append, Item.days_tokens]
  rfl

/-! ## What reading makes of dates -/

/-- A date waits for its postings. -/
def Progress.Awaits (p : Progress) (date : Date) : Prop := p.awaiting.map (·.1) = some date

/-- On the way from `p` to `q` the tokens `days` are read, which spell `dates`, and
    the entries `new` are put behind the others. The first date stays the start, and
    a date has its entries unless it still waits for them. -/
structure Progress.Tells (p q : Progress) (days : List Token) (dates : List Date)
    (new : List Entry) : Prop where
  spelled : List.Forall₂ (fun date day => date.SpelledBy day.text) dates days
  start : q.books.chart.start = p.books.chart.start.or dates.head?
  pending : q.books.pending = p.books.pending ++ new
  dated : ∀ date, (∃ entry ∈ new, entry.date = date) ∨ q.Awaits date ↔
    p.Awaits date ∨ date ∈ dates

namespace Progress.Tells

variable {p q r : Progress} {days days' : List Token} {dates dates' : List Date}
  {new new' : List Entry}

theorem quiet (hstart : q.books.chart.start = p.books.chart.start)
    (hpending : q.books.pending = p.books.pending) (hawaiting : q.awaiting = p.awaiting) :
    p.Tells q [] [] [] where
  spelled := .nil
  start := by simp [hstart]
  pending := by simp [hpending]
  dated date := by simp [Awaits, hawaiting]

theorem append (h : p.Tells q days dates new) (h' : q.Tells r days' dates' new') :
    p.Tells r (days ++ days') (dates ++ dates') (new ++ new') where
  spelled := List.rel_append h.spelled h'.spelled
  start := by rw [h'.start, h.start, List.head?_append, Option.or_assoc]
  pending := by rw [h'.pending, h.pending, List.append_assoc]
  dated date := by
    simp only [List.mem_append, or_and_right, exists_or]
    rw [or_assoc, h'.dated date, ← or_assoc, h.dated date, or_assoc]

theorem date {span : Span} {day : Token} (shaped : Lexeme.isDate day.text)
    (h : p.await day.text span = .ok q) : ∃ dates, p.Tells q [day] dates [] := by
  obtain ⟨hnone, date, hdate, rfl⟩ := await_eq_ok.1 h
  refine ⟨[date], ?_, ?_, ?_, ?_⟩
  · exact .cons ((Date.ofText?_eq_some shaped).1 hdate) .nil
  · cases hstart : p.books.chart.start <;> simp [Chart.note, hstart]
  · simp
  · intro other
    simp [Awaits, hnone, eq_comm]

theorem postings {first : Span} {legs : List Leg} {stop : Position} (nonempty : legs ≠ [])
    (h : p.enter first legs stop = .ok q) : ∃ new, p.Tells q [] [] new := by
  obtain ⟨date, start, hwait, pending, hpending, rfl⟩ := enter_eq_ok.1 h
  have hnew : entries p.contra date legs ⟨first.file, start, stop⟩ ≠ [] :=
    entries_ne_nil nonempty
  obtain ⟨-, rfl⟩ := (Entry.appendAll_eq_ok hnew date_of_mem_entries).1 hpending
  obtain ⟨entry, hentry⟩ := List.exists_mem_of_ne_nil _ hnew
  refine ⟨_, .nil, by simp, rfl, ?_⟩
  intro other
  simp only [Awaits, hwait, Option.map_none, Option.map_some, reduceCtorEq, or_false,
    List.not_mem_nil, Option.some.injEq]
  constructor
  · rintro ⟨found, hfound, rfl⟩
    exact (date_of_mem_entries found hfound).symm
  · rintro rfl
    exact ⟨entry, hentry, date_of_mem_entries entry hentry⟩

theorem asked {books after : Books} (h : (begin books).Tells (begin after) days dates new)
    (hstart : p.books.chart.start = books.chart.start)
    (hafter : q.books.chart.start = after.chart.start)
    (hpending : q.books.pending = p.books.pending ++ new) (hawaiting : q.awaiting = p.awaiting) :
    p.Tells q days dates new where
  spelled := h.spelled
  start := by rw [hafter, hstart]; exact h.start
  pending := hpending
  dated date := by
    have hfile := h.dated date
    simp only [Awaits, begin, Option.map_none, reduceCtorEq, or_false, false_or] at hfile
    rw [hfile, Awaits, Awaits, hawaiting]
    exact or_comm

end Progress.Tells

/-- What reading a file tells. No date waits before it or behind it. -/
def Books.Tells (books after : Books) (passages : List Passage) : Prop :=
  ∃ dates new, (Progress.begin books).Tells (Progress.begin after)
    (Token.days (Token.ofPassages passages)) dates new

theorem Item.run_tells {files : Files} {read : Visit → Books → Traced Books} {file : String}
    {scope : Scope} {p q : Progress} {before : List Item} {item : Item} {inner : List Passage}
    (reads : ∀ {visit books after passages}, (read visit books).result = .ok after →
      Walks files visit.path passages → books.Tells after passages)
    (formed : item.Formed) (hinner : Asks files file item inner)
    (h : (Statement.run read file scope p (item.statement file)).result = .ok q) :
    ∃ dates new,
      p.Tells q (Token.days (Token.ofPassages (⟨file, before, item⟩ :: inner))) dates new := by
  rw [Token.days_ofPassages_cons]
  cases item with
  | date day hday =>
      obtain rfl := hinner
      obtain ⟨dates, htells⟩ :=
        Progress.Tells.date ((formed day List.mem_cons_self).date hday) h
      exact ⟨dates, [], htells⟩
  | postings first others =>
      obtain rfl := hinner
      obtain ⟨new, htells⟩ := Progress.Tells.postings (by simp) h
      exact ⟨[], new, htells⟩
  | openLedger keyword hkeyword pairs =>
      obtain rfl := hinner
      rw [statement, Statement.result_run_openLedger] at h
      obtain ⟨-, chart, hopen, rfl⟩ := Progress.openChart_eq_ok.1 h
      obtain ⟨-, -, new, -, rfl⟩ := Chart.openAll_eq_ok.1 hopen
      exact ⟨[], [], .quiet rfl rfl rfl⟩
  | useAccount keyword hkeyword account haccount =>
      obtain rfl := hinner
      cases h
      exact ⟨[], [], .quiet rfl rfl rfl⟩
  | inclusion keyword hkeyword path hpath =>
      rw [statement, Statement.result_run_inclusion, map_eq_ok] at h
      obtain ⟨books, hread, rfl⟩ := h
      obtain ⟨dates, new, htells⟩ := reads hread hinner
      exact ⟨dates, new, htells.asked rfl rfl htells.pending rfl⟩
  | journal keyword hkeyword path hpath =>
      rw [statement, Statement.result_run_journal, map_eq_ok] at h
      obtain ⟨books, hread, rfl⟩ := h
      obtain ⟨dates, new, htells⟩ := reads hread hinner
      have hpending : books.pending = new := htells.pending
      exact ⟨dates, new, htells.asked rfl rfl (congrArg _ hpending) rfl⟩

theorem Item.runAll_tells {files : Files} {read : Visit → Books → Traced Books} {file : String}
    {scope : Scope} {p q : Progress} {before items : List Item} {passages : List Passage}
    (reads : ∀ {visit books after passages}, (read visit books).result = .ok after →
      Walks files visit.path passages → books.Tells after passages)
    (formed : ∀ item ∈ items, item.Formed) (hwalk : Walk files file before items passages)
    (h : runAll read file scope p items = .ok q) :
    ∃ dates new, p.Tells q (Token.days (Token.ofPassages passages)) dates new := by
  induction items generalizing before p passages with
  | nil =>
      cases hwalk
      cases h
      exact ⟨[], [], .quiet rfl rfl rfl⟩
  | cons item items ih =>
      obtain ⟨hitem, hitems⟩ := List.forall_mem_cons.1 formed
      obtain ⟨inner, others, hinner, hrest, rfl⟩ := hwalk.exists_of_cons
      obtain ⟨mid, hmid, h⟩ := runAll_cons_eq_ok.1 h
      obtain ⟨dates, new, hfirst⟩ : ∃ dates new,
          p.Tells mid (Token.days (Token.ofPassages (⟨file, before, item⟩ :: inner))) dates new :=
        Item.run_tells reads hitem hinner hmid
      obtain ⟨dates', new', hsecond⟩ := ih hitems hrest h
      rw [← List.cons_append, Token.days_ofPassages_append]
      exact ⟨_, _, hfirst.append hsecond⟩

/-- A file whose dates have all got their postings. -/
theorem Books.read_tells {files : Files} {depth : Nat} {visit : Visit} {books after : Books}
    {passages : List Passage} (h : (read files depth visit books).result = .ok after)
    (hwalks : Walks files visit.path passages) : books.Tells after passages := by
  induction depth generalizing visit books after passages with
  | zero => cases h
  | succ depth ih =>
      obtain ⟨text, items, p, htext, hitems, -, hrun, hnone, rfl⟩ := read_succ_eq_ok.1 h
      obtain ⟨found, others, hfound, hothers, hwalk⟩ := hwalks
      cases htext.symm.trans hfound
      cases hitems.unique hothers
      obtain ⟨dates, new, htells⟩ := Item.runAll_tells ih hitems.formed hwalk hrun
      refine ⟨dates, new, htells.spelled, htells.start, htells.pending, ?_⟩
      intro date
      rw [← htells.dated date, Progress.Awaits, Progress.Awaits, hnone]
      rfl

/-! ## The end of the books -/

/-- The last of some entries in the order of their dates has the latest date. -/
theorem Entry.lastDate_eq_some_iff {entries : List Entry}
    (sorted : entries.Pairwise fun a b => a.date ≤ b.date) (date : Date) :
    lastDate entries = some date ↔
      (∃ entry ∈ entries, entry.date = date) ∧ ∀ entry ∈ entries, entry.date ≤ date := by
  cases entries using List.reverseRecOn with
  | nil => simp [lastDate]
  | append_singleton entries last =>
      have hlast : ∀ entry ∈ entries ++ [last], entry.date ≤ last.date := by
        obtain ⟨-, -, hall⟩ := List.pairwise_append.1 sorted
        intro entry hentry
        rcases List.mem_append.1 hentry with hentry | hentry
        · exact hall entry hentry last List.mem_cons_self
        · rw [List.mem_singleton.1 hentry]
          exact Date.le_refl _
      have hmem : last ∈ entries ++ [last] := by simp
      have hdate : lastDate (entries ++ [last]) = some last.date := by simp [lastDate]
      rw [hdate, Option.some.injEq]
      constructor
      · rintro rfl
        exact ⟨⟨last, hmem, rfl⟩, hlast⟩
      · rintro ⟨⟨entry, hentry, rfl⟩, hall⟩
        exact Date.le_antisymm (hall last hmem) (hlast entry hentry)

theorem Entry.lastDate_eq_none_iff {entries : List Entry} :
    lastDate entries = none ↔ entries = [] := by
  simp [lastDate]

namespace Draft

/-- The dates that are read on the way through all files are those of the entries.
    The first one is the start of the books, and their end is the latest one. There
    is no start, no end and no entry exactly if no date is read. -/
theorem read_period {files : Files} {root : String} {d : Draft}
    (h : (read files root).result = .ok d) :
    ∃ passages dates,
      (∀ others, Walks files root others ↔ others = passages) ∧
      List.Forall₂ (fun date day => date.SpelledBy day.text) dates
        (Token.days (Token.ofPassages passages)) ∧
      (∀ date, date ∈ dates ↔ ∃ entry ∈ d.pending, entry.date = date) ∧
      d.chart.start = dates.head? ∧
      (∀ date, d.finish = some date ↔
        (∃ entry ∈ d.pending, entry.date = date) ∧ ∀ entry ∈ d.pending, entry.date ≤ date) ∧
      (d.chart.start = none ↔ d.finish = none) ∧ (d.finish = none ↔ d.pending = []) ∧
      (d.pending = [] ↔ ∀ t ∈ Token.ofPassages passages, t.kind ≠ .date) ∧
      ∀ first, d.chart.start = some first →
        (∃ entry ∈ d.pending, entry.date = first) ∧
          ∃ last, d.finish = some last ∧ first ≤ last := by
  have sorted := read_sorted h
  obtain ⟨books, hbooks, rfl⟩ := result_read_eq_ok.1 h
  obtain ⟨passages, -, hwalks, -⟩ := Books.read_adds hbooks
  obtain ⟨dates, new, htells⟩ := Books.read_tells hbooks hwalks
  have hmem (entry : Entry) : entry ∈ (ofBooks root books).pending ↔ entry ∈ new := by
    have hnew : books.pending = new := htells.pending
    rw [← hnew]
    exact List.mem_mergeSort
  have hdates (date : Date) :
      date ∈ dates ↔ ∃ entry ∈ (ofBooks root books).pending, entry.date = date := by
    have hdated := htells.dated date
    simp only [Progress.Awaits, Progress.begin, Option.map_none, reduceCtorEq, or_false,
      false_or] at hdated
    rw [← hdated]
    simp only [hmem]
  have hstart : (ofBooks root books).chart.start = dates.head? := htells.start
  have hfinish := Entry.lastDate_eq_some_iff sorted
  have hnone : (ofBooks root books).pending = [] ↔ dates = [] := by
    simp only [List.eq_nil_iff_forall_not_mem, hdates, not_exists, not_and]
    constructor
    · intro hempty date entry hentry
      exact absurd hentry (hempty entry)
    · intro hempty entry hentry
      exact hempty entry.date entry hentry rfl
  have hend : (ofBooks root books).finish = none ↔ (ofBooks root books).pending = [] :=
    Entry.lastDate_eq_none_iff
  refine ⟨passages, dates, ?_, htells.spelled, hdates, hstart, hfinish, ?_, hend, ?_, ?_⟩
  · exact fun others => ⟨fun hothers => hothers.unique hwalks, fun hothers => hothers ▸ hwalks⟩
  · rw [hstart, hend, hnone, List.head?_eq_none_iff]
  · have hdays : dates = [] ↔ Token.days (Token.ofPassages passages) = [] := by
      rw [← List.length_eq_zero_iff, htells.spelled.length_eq, List.length_eq_zero_iff]
    rw [hnone, hdays, Token.days, List.filter_eq_nil_iff]
    simp
  · intro first hfirst
    rw [hstart] at hfirst
    have hentry := (hdates first).1 (List.mem_of_mem_head? hfirst)
    refine ⟨hentry, ?_⟩
    cases hlast : (ofBooks root books).finish with
    | none =>
        obtain ⟨entry, hentry, -⟩ := hentry
        rw [hend.1 hlast] at hentry
        cases hentry
    | some last =>
        obtain ⟨entry, hentry, rfl⟩ := hentry
        exact ⟨last, rfl, ((hfinish last).1 hlast).2 entry hentry⟩

/-- Books in which a date waits while the chart is read. The first journal has both
    an earlier and a later date, and the second lies between them. -/
def eveFiles : Files := .inMemory [
  ("main", "2020-03-01 include \"chart\" 5 ASSETS/Cash\njournal \"club\" journal \"fair\"\n"),
  ("chart", "open ledger 1 ASSETS/Cash 1 CAPITAL/Own\n"),
  ("club", "2020-01-31 2 ASSETS/Cash 2020-06-01 3 ASSETS/Cash\n"),
  ("fair", "2020-04-01 4 ASSETS/Cash\n")]

theorem read_period_eveFiles :
    ∃ d, (read eveFiles "main").result = .ok d ∧ d.chart.start = some ⟨2020, 3, 1, by decide⟩ ∧
      d.finish = some ⟨2020, 6, 1, by decide⟩ ∧
      ∃ entry ∈ d.pending, entry.date = ⟨2020, 3, 1, by decide⟩ := by
  have hbooks : (Books.read eveFiles eveFiles.nesting ⟨"main", Span.startOf "main", .ledger⟩
      .empty).result.map (fun books => (books.chart.start, books.pending.map (·.date))) =
        .ok (some ⟨2020, 3, 1, by decide⟩, [⟨2020, 3, 1, by decide⟩, ⟨2020, 1, 31, by decide⟩,
          ⟨2020, 6, 1, by decide⟩, ⟨2020, 4, 1, by decide⟩]) := by
    decide +kernel
  obtain ⟨books, hbooks, hboth⟩ := map_eq_ok.1 hbooks
  obtain ⟨hstart, hdates⟩ := Prod.mk.inj hboth
  have hread : (read eveFiles "main").result = .ok (ofBooks "main" books) :=
    result_read_eq_ok.2 ⟨books, hbooks, rfl⟩
  obtain ⟨passages, dates, -, -, -, -, hfinish, -, -, -, hfirst⟩ := read_period hread
  have hmem (date : Date) : (∃ entry ∈ (ofBooks "main" books).pending, entry.date = date) ↔
      date ∈ books.pending.map (·.date) := by
    simp [ofBooks]
  refine ⟨_, hread, hstart, (hfinish _).2 ⟨(hmem _).2 ?_, ?_⟩, (hfirst _ hstart).1⟩
  · rw [hdates]
    decide
  · intro entry hentry
    have hdate := (hmem entry.date).1 ⟨entry, hentry, rfl⟩
    rw [hdates] at hdate
    revert hdate
    generalize entry.date = date
    revert date
    decide

end Draft

end DoubleEntry
