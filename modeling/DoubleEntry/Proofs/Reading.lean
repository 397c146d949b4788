import DoubleEntry.Ledger
import Mathlib.Data.List.Forall2
import Mathlib.Data.List.Nodup

/-! # What reading keeps

A statement does one of six things to what has been read, and reading a file
does its statements one after the other. Whatever each statement keeps, provided
that other files keep it, is kept by every file. A chart that was read therefore
has accounts of distinct names, and none of them has a history yet.
-/

namespace DoubleEntry

theorem bind_eq_ok {α β : Type} {x : Except Fault α} {f : α → Except Fault β} {b : β} :
    x.bind f = .ok b ↔ ∃ a, x = .ok a ∧ f a = .ok b := by
  cases x <;> simp [Except.bind]

theorem map_eq_ok {α β : Type} {x : Except Fault α} {f : α → β} {b : β} :
    x.map f = .ok b ↔ ∃ a, x = .ok a ∧ f a = b := by
  cases x <;> simp [Except.map]

theorem map_eq_error {α β : Type} {x : Except Fault α} {f : α → β} {fault : Fault} :
    x.map f = .error fault ↔ x = .error fault := by
  cases x <;> simp [Except.map]

theorem foldlM_cons_eq_ok {α β : Type} {f : β → α → Except Fault β} {init out : β} {a : α}
    {l : List α} :
    (a :: l).foldlM f init = .ok out ↔ ∃ mid, f init a = .ok mid ∧ l.foldlM f mid = .ok out :=
  bind_eq_ok

theorem foldlM_keeps {α β : Type} {R : β → β → Prop} {f : β → α → Except Fault β} {l : List α}
    {init out : β} (refl : ∀ b, R b b) (trans : ∀ {a b c}, R a b → R b c → R a c)
    (step : ∀ {b a c}, a ∈ l → f b a = .ok c → R b c) (h : l.foldlM f init = .ok out) :
    R init out := by
  induction l generalizing init with
  | nil => cases h; exact refl _
  | cons a l ih =>
      obtain ⟨mid, hmid, hrest⟩ := foldlM_cons_eq_ok.1 h
      exact trans (step List.mem_cons_self hmid)
        (ih (fun ha => step (List.mem_cons_of_mem _ ha)) hrest)

theorem exists_of_foldlM_eq_error {α β : Type} {f : β → α → Except Fault β} {l : List α} {init : β}
    {fault : Fault} (h : l.foldlM f init = .error fault) : ∃ b, ∃ a ∈ l, f b a = .error fault := by
  induction l generalizing init with
  | nil => cases h
  | cons a l ih =>
      cases hmid : f init a with
      | error other =>
          rw [List.foldlM_cons, hmid] at h
          cases h
          exact ⟨init, a, List.mem_cons_self, hmid⟩
      | ok mid =>
          rw [List.foldlM_cons, hmid] at h
          obtain ⟨b, x, hx, hfault⟩ := ih h
          exact ⟨b, x, List.mem_cons_of_mem _ hx, hfault⟩

theorem exists_of_mapM_eq_error {α β : Type} {f : α → Except Fault β} {l : List α} {fault : Fault}
    (h : l.mapM f = .error fault) : ∃ a ∈ l, f a = .error fault := by
  induction l with
  | nil => cases h
  | cons a l ih =>
      cases ha : f a with
      | error other =>
          rw [List.mapM_cons, ha] at h
          cases h
          exact ⟨a, List.mem_cons_self, ha⟩
      | ok b =>
          rw [List.mapM_cons, ha] at h
          cases hl : l.mapM f with
          | error other =>
              rw [hl] at h
              cases h
              obtain ⟨x, hx, hfault⟩ := ih hl
              exact ⟨x, List.mem_cons_of_mem _ hx, hfault⟩
          | ok bs =>
              rw [hl] at h
              cases h

theorem exists_of_forall₂ {α β : Type} {R : α → β → Prop} {as : List α} {bs : List β}
    (h : List.Forall₂ R as bs) : ∀ b ∈ bs, ∃ a ∈ as, R a b := by
  induction h with
  | nil => exact List.forall_mem_nil _
  | cons hab _ ih =>
      refine List.forall_mem_cons.2 ⟨⟨_, List.mem_cons_self, hab⟩, ?_⟩
      intro b hb
      obtain ⟨a, ha, hr⟩ := ih b hb
      exact ⟨a, List.mem_cons_of_mem _ ha, hr⟩

namespace Progress

theorem await_eq_ok {p q : Progress} {text : List Char} {span : Span} :
    p.await text span = .ok q ↔ p.awaiting = none ∧ ∃ date, Date.ofText? text = some date ∧
      { p with
        awaiting := some (date, span.start)
        books := { p.books with chart := p.books.chart.note date } } = q := by
  unfold await
  cases p.awaiting with
  | some waiting => simp
  | none => cases Date.ofText? text <;> simp

theorem enter_eq_map {p : Progress} {first : Span} {legs : List Leg} {start stop : Position}
    {date : Date} (h : p.awaiting = some (date, start)) :
    p.enter first legs stop =
      ((entries p.contra date legs ⟨first.file, start, stop⟩).foldlM Entry.append
        p.books.pending).map fun pending =>
          { p with awaiting := none, books := { p.books with pending := pending } } := by
  unfold enter awaited
  rw [h]
  rfl

theorem enter_eq_ok {p q : Progress} {first : Span} {legs : List Leg} {stop : Position} :
    p.enter first legs stop = .ok q ↔ ∃ date start, p.awaiting = some (date, start) ∧
      ∃ pending, (entries p.contra date legs ⟨first.file, start, stop⟩).foldlM Entry.append
        p.books.pending = .ok pending ∧
        { p with awaiting := none, books := { p.books with pending := pending } } = q := by
  cases hwait : p.awaiting with
  | none =>
      unfold enter awaited
      rw [hwait]
      simp [bind, Except.bind]
  | some waiting =>
      obtain ⟨date, start⟩ := waiting
      rw [enter_eq_map hwait, map_eq_ok]
      constructor
      · intro hrun
        exact ⟨date, start, rfl, hrun⟩
      · intro hrun
        obtain ⟨_, _, hsame, hrun⟩ := hrun
        cases hsame
        exact hrun

theorem openChart_eq_ok {p q : Progress} {scope : Scope} {keyword : Span} {legs : List Leg}
    {stop : Position} :
    p.openChart scope keyword legs stop = .ok q ↔ p.mayOpen scope keyword = .ok () ∧
      ∃ chart, legs.foldlM Chart.openAccount p.books.chart = .ok chart ∧
        { p with books := { p.books with
          chart := { chart with span := some (keyword.upTo stop) } } } = q := by
  unfold openChart
  cases p.mayOpen scope keyword with
  | error fault => simp [bind, Except.bind]
  | ok =>
      cases legs.foldlM Chart.openAccount p.books.chart <;>
        simp [bind, Except.bind, pure, Except.pure]

theorem finish_eq_ok {p : Progress} {file : String} {lastEnd : Position} {books : Books} :
    p.finish file lastEnd = .ok books ↔ p.awaiting = none ∧ p.books = books := by
  unfold finish
  cases p.awaiting <;> simp

end Progress

namespace Statement

section Results

variable (read : Visit → Books → Traced Books) (file : String) (scope : Scope) (p : Progress)

@[simp] theorem result_run_date (text : List Char) (span : Span) :
    (run read file scope p (.date text span)).result = p.await text span := rfl

@[simp] theorem result_run_postings (first : Span) (legs : List Leg) (stop : Position) :
    (run read file scope p (.postings first legs stop)).result = p.enter first legs stop := rfl

@[simp] theorem result_run_openLedger (keyword : Span) (legs : List Leg) (stop : Position) :
    (run read file scope p (.openLedger keyword legs stop)).result =
      p.openChart scope keyword legs stop := by
  simp only [run, Traced.result_bind, Traced.result_ofExcept, Traced.result_announce,
    Traced.result_pure]
  cases p.openChart scope keyword legs stop <;> rfl

@[simp] theorem result_run_useAccount (account : String) (span : Span) :
    (run read file scope p (.useAccount account span)).result =
      .ok { p with contra := some (account, span) } := rfl

@[simp] theorem result_run_inclusion (path : String) (span : Span) :
    (run read file scope p (.inclusion path span)).result =
      (read ⟨Path.resolve file path, span, scope⟩ p.books).result.map
        fun books => { p with books := books } := by
  simp only [run, Traced.result_bind, Traced.result_pure]
  cases (read ⟨Path.resolve file path, span, scope⟩ p.books).result <;> rfl

@[simp] theorem result_run_journal (path : String) (span : Span) :
    (run read file scope p (.journal path span)).result =
      (read ⟨Path.resolve file path, span, .journal⟩ { p.books with pending := [] }).result.map
        fun inner =>
          { p with books := { inner with pending := p.books.pending ++ inner.pending } } := by
  simp only [run, Traced.result_bind, Traced.result_announce, Traced.result_pure]
  cases (read ⟨Path.resolve file path, span, .journal⟩ { p.books with pending := [] }).result <;>
    rfl

end Results

/-- What a statement without fault makes of what has been read. `Reads` says
    what the files it asks for make of the books. -/
inductive Does (Reads : Visit → Books → Books → Prop) (file : String) (scope : Scope)
    (p : Progress) : Statement → Progress → Prop where
  | date {text span q} (h : p.await text span = .ok q) : Does Reads file scope p (.date text span) q
  | postings {first legs stop q} (h : p.enter first legs stop = .ok q) :
      Does Reads file scope p (.postings first legs stop) q
  | openLedger {keyword legs stop q} (h : p.openChart scope keyword legs stop = .ok q) :
      Does Reads file scope p (.openLedger keyword legs stop) q
  | useAccount {account span} :
      Does Reads file scope p (.useAccount account span) { p with contra := some (account, span) }
  | inclusion {path span books} (h : Reads ⟨Path.resolve file path, span, scope⟩ p.books books) :
      Does Reads file scope p (.inclusion path span) { p with books := books }
  | journal {path span inner}
      (h : Reads ⟨Path.resolve file path, span, .journal⟩ { p.books with pending := [] } inner) :
      Does Reads file scope p (.journal path span)
        { p with books := { inner with pending := p.books.pending ++ inner.pending } }

theorem does_of_run {read : Visit → Books → Traced Books} {Reads : Visit → Books → Books → Prop}
    {file : String} {scope : Scope} {p q : Progress} {s : Statement}
    (sound : ∀ visit books after, (read visit books).result = .ok after → Reads visit books after)
    (h : (run read file scope p s).result = .ok q) : s.Does Reads file scope p q := by
  cases s with
  | date text span => exact .date (by simpa using h)
  | postings first legs stop => exact .postings (by simpa using h)
  | openLedger keyword legs stop => exact .openLedger (by simpa using h)
  | useAccount account span =>
      rw [result_run_useAccount] at h
      cases h
      exact .useAccount
  | inclusion path span =>
      rw [result_run_inclusion, map_eq_ok] at h
      obtain ⟨books, hread, rfl⟩ := h
      exact .inclusion (sound _ _ _ hread)
  | journal path span =>
      rw [result_run_journal, map_eq_ok] at h
      obtain ⟨inner, hread, rfl⟩ := h
      exact .journal (sound _ _ _ hread)

end Statement

theorem Script.result_run (script : Script) (read : Visit → Books → Traced Books) (file : String)
    (scope : Scope) (books : Books) :
    (script.run read file scope books).result =
      (script.statements.foldlM (fun p s => (Statement.run read file scope p s).result)
        (Progress.begin books)).bind fun p =>
          match script.ending with
          | .error flaw => .error (p.faultOf scope flaw)
          | .ok lastEnd => p.finish file lastEnd := by
  simp only [run, Traced.result_bind, Traced.result_foldlM]
  congr 1
  funext p
  cases script.ending <;> rfl

theorem Books.result_read_succ (files : Files) (depth : Nat) (visit : Visit) (books : Books) :
    (read files (depth + 1) visit books).result =
      match files.read visit.path with
      | .error reason => .error ⟨.unreadable visit.path reason, visit.asker⟩
      | .ok text =>
        ((Script.ofText visit.path text).run (read files depth) visit.path visit.scope
          books).result := by
  simp only [read, Traced.result_bind, Traced.result_announce]
  cases files.read visit.path <;> rfl

/-- Induction along the reading of files. `S` is kept from one statement of a file
    to the next and `F` from before a file to behind it. -/
theorem Books.read_induction {files : Files} {S : Scope → Progress → Progress → Prop}
    {F : Scope → Books → Books → Prop}
    (refl : ∀ {scope p}, S scope p p)
    (trans : ∀ {scope p q r}, S scope p q → S scope q r → S scope p r)
    (step : ∀ {file text scope p s q}, s ∈ (Script.ofText file text).statements →
      Statement.Does (fun visit => F visit.scope) file scope p s q → S scope p q)
    (file : ∀ {scope books p}, S scope (Progress.begin books) p → p.awaiting = none →
      F scope books p.books)
    {depth : Nat} {visit : Visit} {books after : Books}
    (h : (read files depth visit books).result = .ok after) : F visit.scope books after := by
  induction depth generalizing visit books after with
  | zero => cases h
  | succ depth ih =>
      rw [result_read_succ] at h
      split at h
      · cases h
      · next text htext =>
        rw [Script.result_run, bind_eq_ok] at h
        obtain ⟨p, hrun, hend⟩ := h
        have hstep : S visit.scope (Progress.begin books) p :=
          foldlM_keeps (fun _ => refl) trans
            (fun hs hdoes => step hs (Statement.does_of_run (fun _ _ _ hread => ih hread) hdoes)) hrun
        split at hend
        · cases hend
        · obtain ⟨hwait, rfl⟩ := Progress.finish_eq_ok.1 hend
          exact file hstep hwait

/-! ## The chart -/

/-- The account that a leg opens. -/
def Leg.Opens (leg : Leg) (a : Account) : Prop :=
  ∃ category, Category.ofAccount? leg.account = some category ∧
    a = .opened leg.account category leg.amount leg.span

namespace Chart

theorem openAccount_eq_ok {chart after : Chart} {leg : Leg} :
    chart.openAccount leg = .ok after ↔
      leg.account ∉ chart.accounts.map (·.name) ∧ ∃ a, leg.Opens a ∧
        after = { chart with accounts := chart.accounts ++ [a] } := by
  have hfind : chart.find? leg.account = none ↔ leg.account ∉ chart.accounts.map (·.name) := by
    simp [find?, List.find?_eq_none]
  unfold openAccount Leg.Opens
  cases hcategory : Category.ofAccount? leg.account with
  | none => simp
  | some category =>
      rw [← hfind]
      cases chart.find? leg.account <;> simp [eq_comm]

theorem openAll_eq_ok {chart after : Chart} {legs : List Leg} :
    legs.foldlM openAccount chart = .ok after ↔
      (∀ leg ∈ legs, leg.account ∉ chart.accounts.map (·.name)) ∧
      (legs.map (·.account)).Nodup ∧ ∃ new, List.Forall₂ Leg.Opens legs new ∧
        after = { chart with accounts := chart.accounts ++ new } := by
  induction legs generalizing chart with
  | nil =>
      constructor
      · intro h
        cases h
        exact ⟨List.forall_mem_nil _, List.nodup_nil, [], .nil, by rw [List.append_nil]⟩
      · rintro ⟨-, -, new, hnew, rfl⟩
        cases hnew
        rw [List.append_nil]
        rfl
  | cons leg legs ih =>
      have fresh_iff {a : Account} (ha : leg.Opens a) :
          (∀ other ∈ legs, other.account ∉ (chart.accounts ++ [a]).map (·.name)) ↔
            (∀ other ∈ legs, other.account ∉ chart.accounts.map (·.name)) ∧
              leg.account ∉ legs.map (·.account) := by
        obtain ⟨category, -, rfl⟩ := ha
        simp only [List.map_append, List.mem_append, not_or, forall_and,
          List.map_cons, List.map_nil, List.mem_singleton, List.mem_map, not_exists, not_and,
          Account.opened]
      rw [foldlM_cons_eq_ok, List.forall_mem_cons, List.map_cons, List.nodup_cons]
      constructor
      · rintro ⟨mid, hmid, hrest⟩
        obtain ⟨hfresh, a, ha, rfl⟩ := openAccount_eq_ok.1 hmid
        obtain ⟨hothers, hdistinct, new, hnew, rfl⟩ := ih.1 hrest
        obtain ⟨hothers, hleg⟩ := (fresh_iff ha).1 hothers
        refine ⟨⟨hfresh, hothers⟩, ⟨hleg, hdistinct⟩, a :: new, .cons ha hnew, ?_⟩
        rw [List.append_assoc]
        rfl
      · rintro ⟨⟨hfresh, hothers⟩, ⟨hleg, hdistinct⟩, new, hnew, rfl⟩
        cases hnew with
        | cons ha hnew =>
            refine ⟨_, openAccount_eq_ok.2 ⟨hfresh, _, ha, rfl⟩, ih.2 ⟨(fresh_iff ha).2
              ⟨hothers, hleg⟩, hdistinct, _, hnew, ?_⟩⟩
            rw [List.append_assoc]
            rfl

end Chart

/-- Accounts of distinct names to which nothing has been posted. -/
structure Chart.Unposted (chart : Chart) : Prop where
  distinct : (chart.accounts.map (·.name)).Nodup
  blank : ∀ a ∈ chart.accounts, a.history = []

namespace Chart

theorem unposted_empty : empty.Unposted := ⟨List.nodup_nil, fun a ha => by cases ha⟩

theorem Unposted.openAccount {chart after : Chart} {leg : Leg} (h : chart.Unposted)
    (ho : chart.openAccount leg = .ok after) : after.Unposted := by
  obtain ⟨hfresh, a, ⟨category, -, rfl⟩, rfl⟩ := openAccount_eq_ok.1 ho
  constructor
  · rw [List.map_append, List.nodup_append]
    refine ⟨h.distinct, List.nodup_singleton _, ?_⟩
    rintro name hname other hother rfl
    rw [List.mem_singleton.1 hother] at hname
    exact hfresh hname
  · refine List.forall_mem_append.2 ⟨h.blank, ?_⟩
    exact List.forall_mem_singleton.2 rfl

theorem Unposted.openAccounts {chart after : Chart} {legs : List Leg} (h : chart.Unposted)
    (ho : legs.foldlM Chart.openAccount chart = .ok after) : after.Unposted :=
  foldlM_keeps (R := fun chart after => chart.Unposted → after.Unposted) (fun _ => id)
    (fun hab hbc ha => hbc (hab ha)) (fun _ hleg hchart => hchart.openAccount hleg) ho h

end Chart

namespace Statement

/-- No statement posts anything or opens an account twice. -/
theorem Does.unposted {Reads : Visit → Books → Books → Prop} {file : String} {scope : Scope}
    {p q : Progress} {s : Statement}
    (reads : ∀ visit books after, Reads visit books after → books.chart.Unposted →
      after.chart.Unposted)
    (h : s.Does Reads file scope p q) (hp : p.books.chart.Unposted) : q.books.chart.Unposted := by
  cases h with
  | date h =>
      obtain ⟨-, date, -, rfl⟩ := Progress.await_eq_ok.1 h
      exact ⟨hp.distinct, hp.blank⟩
  | postings h =>
      obtain ⟨date, start, -, pending, -, rfl⟩ := Progress.enter_eq_ok.1 h
      exact hp
  | openLedger h =>
      obtain ⟨-, chart, hopen, rfl⟩ := Progress.openChart_eq_ok.1 h
      have hchart := hp.openAccounts hopen
      exact ⟨hchart.distinct, hchart.blank⟩
  | useAccount => exact hp
  | inclusion h => exact reads _ _ _ h hp
  | journal h =>
      have hinner := reads _ _ _ h
      exact hinner hp

end Statement

theorem Books.read_unposted {files : Files} {depth : Nat} {visit : Visit} {books after : Books}
    (h : (read files depth visit books).result = .ok after) (hbooks : books.chart.Unposted) :
    after.chart.Unposted :=
  read_induction (S := fun _ p q => p.books.chart.Unposted → q.books.chart.Unposted)
    (F := fun _ books after => books.chart.Unposted → after.chart.Unposted)
    id (fun hpq hqr hp => hqr (hpq hp)) (fun _ hdoes => hdoes.unposted fun _ _ _ hread => hread)
    (fun hstep _ => hstep) h hbooks

theorem Entry.date_trans (a b c : Entry) (hab : decide (a.date ≤ b.date))
    (hbc : decide (b.date ≤ c.date)) : decide (a.date ≤ c.date) :=
  decide_eq_true (Date.le_trans (of_decide_eq_true hab) (of_decide_eq_true hbc))

theorem Entry.date_total (a b : Entry) :
    decide (a.date ≤ b.date) || decide (b.date ≤ a.date) := by
  simpa using Date.le_total a.date b.date

namespace Draft

theorem result_read (files : Files) (root : String) :
    (read files root).result =
      (Books.read files files.nesting ⟨root, Span.startOf root, .ledger⟩ .empty).result.map
        (ofBooks root) := by
  simp only [read, Traced.result_bind, Traced.result_pure]
  cases (Books.read files files.nesting ⟨root, Span.startOf root, .ledger⟩ .empty).result <;> rfl

theorem result_read_eq_ok {files : Files} {root : String} {d : Draft} :
    (read files root).result = .ok d ↔
      ∃ books, (Books.read files files.nesting ⟨root, Span.startOf root, .ledger⟩ .empty).result =
        .ok books ∧ ofBooks root books = d := by
  rw [result_read, map_eq_ok]

theorem ofBooks_of_sorted {books : Books} (file : String)
    (sorted : books.pending.Pairwise fun a b => a.date ≤ b.date) :
    ofBooks file books =
      ⟨file, books.chart, books.pending, books.pending.getLast?.map (·.date)⟩ := by
  have hsame : books.pending.mergeSort (fun a b => a.date ≤ b.date) = books.pending :=
    List.mergeSort_of_pairwise (sorted.imp decide_eq_true)
  rw [ofBooks, hsame]

theorem read_unposted {files : Files} {root : String} {d : Draft}
    (h : (read files root).result = .ok d) : d.chart.Unposted := by
  rw [result_read] at h
  obtain ⟨books, hbooks, rfl⟩ := map_eq_ok.1 h
  exact Books.read_unposted hbooks Chart.unposted_empty

theorem read_sorted {files : Files} {root : String} {d : Draft}
    (h : (read files root).result = .ok d) : d.pending.Pairwise fun a b => a.date ≤ b.date := by
  rw [result_read] at h
  obtain ⟨books, -, rfl⟩ := map_eq_ok.1 h
  exact (List.pairwise_mergeSort Entry.date_trans Entry.date_total books.pending).imp
    of_decide_eq_true

end Draft

namespace Ledger

theorem result_read (files : Files) (root : String) :
    (read files root).result = (Draft.read files root).result.bind Draft.check := by
  simp only [read, ofDraft, Traced.result_bind, Traced.result_ofExcept, Traced.result_announce,
    Traced.result_pure]
  congr 1
  funext d
  cases d.check <;> rfl

theorem read_eq_ok {files : Files} {root : String} {ledger : Ledger} :
    (read files root).result = .ok ledger ↔
      ∃ d, (Draft.read files root).result = .ok d ∧ d.check = .ok ledger := by
  rw [result_read, bind_eq_ok]

/-- Entries that were read in the order of their dates are checked as they are. -/
theorem result_read_of_sorted {files : Files} {root : String} {books : Books}
    (h : (Books.read files files.nesting ⟨root, Span.startOf root, .ledger⟩ .empty).result =
      .ok books)
    (sorted : books.pending.Pairwise fun a b => a.date ≤ b.date) (ledger : Ledger) :
    (read files root).result = .ok ledger ↔
      Draft.check ⟨root, books.chart, books.pending, books.pending.getLast?.map (·.date)⟩ =
        .ok ledger := by
  rw [read_eq_ok, Draft.result_read, h, Except.map, Draft.ofBooks_of_sorted root sorted]
  simp only [Except.ok.injEq, exists_eq_left']

end Ledger

end DoubleEntry
