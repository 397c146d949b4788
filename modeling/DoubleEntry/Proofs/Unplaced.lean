import DoubleEntry.Proofs.Tree

/-! # Reading without regard to places

Everything that is read shows where it was read, but no place ever decides what
is done. Two runs that begin with the same books, save for their places, and do
the same statements therefore end with the same books, or with faults of one
kind.
-/

namespace DoubleEntry

/-- Two results that belong together, or two faults of one kind. -/
inductive Agree {α β : Type} (R : α → β → Prop) : Except Fault α → Except Fault β → Prop where
  | ok {a b} (h : R a b) : Agree R (.ok a) (.ok b)
  | error {fault fault'} (h : fault.cause.kind = fault'.cause.kind) :
      Agree R (.error fault) (.error fault')

namespace Agree

variable {α α' β β' : Type} {R : α → α' → Prop} {S : β → β' → Prop}

theorem exists_ok {x : Except Fault α} {y : Except Fault α'} {a : α} (h : Agree R x y)
    (hx : x = .ok a) : ∃ b, y = .ok b ∧ R a b := by
  cases h with
  | ok h =>
      cases hx
      exact ⟨_, rfl, h⟩
  | error => cases hx

theorem bind {x : Except Fault α} {y : Except Fault α'} {f : α → Except Fault β}
    {g : α' → Except Fault β'} (h : Agree R x y) (hstep : ∀ a b, R a b → Agree S (f a) (g b)) :
    Agree S (x.bind f) (y.bind g) := by
  cases h with
  | ok h => exact hstep _ _ h
  | error h => exact .error h

theorem map {x : Except Fault α} {y : Except Fault α'} {f : α → β} {g : α' → β'}
    (h : Agree R x y) (hstep : ∀ a b, R a b → S (f a) (g b)) : Agree S (x.map f) (y.map g) := by
  cases h with
  | ok h => exact .ok (hstep _ _ h)
  | error h => exact .error h

theorem imp {S : α → α' → Prop} {x : Except Fault α} {y : Except Fault α'} (h : Agree R x y)
    (himp : ∀ a b, R a b → S a b) : Agree S x y := by
  cases h with
  | ok h => exact .ok (himp _ _ h)
  | error h => exact .error h

theorem foldlM {T : β → β' → Prop} {f : α → β → Except Fault α} {g : α' → β' → Except Fault α'}
    {l : List β} {l' : List β'} {a : α} {b : α'} (hl : List.Forall₂ T l l') (h : R a b)
    (hstep : ∀ {a b x y}, R a b → T x y → Agree R (f a x) (g b y)) :
    Agree R (l.foldlM f a) (l'.foldlM g b) := by
  induction hl generalizing a b with
  | nil => exact .ok h
  | cons hxy _ ih => exact (hstep h hxy).bind fun c d hcd => ih hcd

end Agree

/-! ## Forgetting places -/

/-- The place of what has been taken out of its file. -/
def Span.nowhere : Span := .startOf ""

def Leg.unplaced (leg : Leg) : Leg := { leg with span := .nowhere }

def Entry.unplaced (entry : Entry) : Entry :=
  { entry with legs := entry.legs.map Leg.unplaced, span := .nowhere }

def Account.unplaced (a : Account) : Account :=
  { a with history := a.history.map Entry.unplaced, span := .nowhere }

/-- Whether the chart has a place still shows. -/
def Chart.unplaced (chart : Chart) : Chart :=
  { chart with
    accounts := chart.accounts.map Account.unplaced
    span := chart.span.map fun _ => .nowhere }

def Books.unplaced (books : Books) : Books :=
  ⟨books.chart.unplaced, books.pending.map Entry.unplaced⟩

def Draft.unplaced (d : Draft) : Draft :=
  { d with chart := d.chart.unplaced, pending := d.pending.map Entry.unplaced }

/-- The same has been read and is kept in mind, wherever it stands. -/
structure Progress.Alike (p p' : Progress) : Prop where
  books : p.books.unplaced = p'.books.unplaced
  date : p.awaiting.map (·.1) = p'.awaiting.map (·.1)
  account : p.contra.map (·.1) = p'.contra.map (·.1)

/-- Statements that say the same, each in its own place. -/
inductive Statement.Alike : Statement → Statement → Prop where
  | date {text span span'} : Alike (.date text span) (.date text span')
  | postings {first first' legs legs' stop stop'}
      (h : legs.map Leg.unplaced = legs'.map Leg.unplaced) :
      Alike (.postings first legs stop) (.postings first' legs' stop')
  | openLedger {keyword keyword' legs legs' stop stop'}
      (h : legs.map Leg.unplaced = legs'.map Leg.unplaced) :
      Alike (.openLedger keyword legs stop) (.openLedger keyword' legs' stop')
  | useAccount {account span span'} : Alike (.useAccount account span) (.useAccount account span')
  | inclusion {path span span'} : Alike (.inclusion path span) (.inclusion path span')
  | journal {path span span'} : Alike (.journal path span) (.journal path span')

theorem Statement.Alike.refl (s : Statement) : s.Alike s := by
  cases s with
  | date => exact .date
  | postings => exact .postings rfl
  | openLedger => exact .openLedger rfl
  | useAccount => exact .useAccount
  | inclusion => exact .inclusion
  | journal => exact .journal

/-- Flaws in the same part of a statement that amount to faults of one kind. -/
inductive Flaw.Alike : Flaw → Flaw → Prop where
  | plain {fault fault'} (h : fault.cause.kind = fault'.cause.kind) :
      Alike (.plain fault) (.plain fault')
  | inPostings {first first' fault fault'} (h : fault.cause.kind = fault'.cause.kind) :
      Alike (.inPostings first fault) (.inPostings first' fault')
  | inOpening {keyword keyword' fault fault'} (h : fault.cause.kind = fault'.cause.kind) :
      Alike (.inOpening keyword fault) (.inOpening keyword' fault')

theorem Flaw.Alike.refl (flaw : Flaw) : flaw.Alike flaw := by
  cases flaw with
  | plain => exact .plain rfl
  | inPostings => exact .inPostings rfl
  | inOpening => exact .inOpening rfl

/-- Results of reading a text, or flaws that are alike. -/
inductive Flaw.Agree {α β : Type} (R : α → β → Prop) : Except Flaw α → Except Flaw β → Prop where
  | ok {a b} (h : R a b) : Agree R (.ok a) (.ok b)
  | error {flaw flaw'} (h : flaw.Alike flaw') : Agree R (.error flaw) (.error flaw')

/-- Scripts of the same statements that end in the same way. -/
structure Script.Alike (script script' : Script) : Prop where
  statements : List.Forall₂ Statement.Alike script.statements script'.statements
  ending : Flaw.Agree (fun _ _ => True) script.ending script'.ending

theorem Script.Alike.refl (script : Script) : script.Alike script where
  statements := List.forall₂_same.2 fun s _ => .refl s
  ending := by
    cases script.ending with
    | ok => exact .ok trivial
    | error flaw => exact .error (.refl flaw)

/-- Files of which the same can be read, and whose scripts are alike. -/
structure Files.Alike (files others : Files) : Prop where
  found : ∀ path text, files.read path = .ok text →
    ∃ text', others.read path = .ok text' ∧
      (Script.ofText path text).Alike (Script.ofText path text')
  missing : ∀ path reason, files.read path = .error reason →
    ∃ other, others.read path = .error other

theorem Files.Alike.refl (files : Files) : files.Alike files where
  found _ text h := ⟨text, h, .refl _⟩
  missing _ reason h := ⟨reason, h⟩

theorem Books.unplaced_eq {books books' : Books} :
    books.unplaced = books'.unplaced ↔ books.chart.unplaced = books'.chart.unplaced ∧
      books.pending.map Entry.unplaced = books'.pending.map Entry.unplaced := by
  simp only [unplaced, Books.mk.injEq]

theorem forall₂_of_map_eq {α β : Type} {view : α → β} {l l' : List α}
    (h : l.map view = l'.map view) : List.Forall₂ (fun a b => view a = view b) l l' := by
  have hsame : List.Forall₂ Eq (l.map view) (l'.map view) := List.forall₂_eq_eq_eq ▸ h
  rwa [List.forall₂_map_left_iff, List.forall₂_map_right_iff] at hsame

/-! ## Entries and charts -/

namespace Entry

theorem date_of_unplaced {entry entry' : Entry} (h : entry.unplaced = entry'.unplaced) :
    entry.date = entry'.date := by
  have hdate := congrArg Entry.date h
  exact hdate

theorem append_agrees {pending pending' : List Entry} {entry entry' : Entry}
    (hpending : pending.map unplaced = pending'.map unplaced)
    (hentry : entry.unplaced = entry'.unplaced) :
    Agree (fun l l' => l.map unplaced = l'.map unplaced) (append pending entry)
      (append pending' entry') := by
  have hlast := congrArg List.getLast? hpending
  rw [List.getLast?_map, List.getLast?_map] at hlast
  unfold append
  cases hfound : pending.getLast? with
  | none =>
      rw [hfound] at hlast
      rw [Option.map_eq_none_iff.1 hlast.symm]
      exact .ok (congrArg (fun e => [e]) hentry)
  | some last =>
      rw [hfound] at hlast
      obtain ⟨last', hfound', hsame⟩ := Option.map_eq_some_iff.1 hlast.symm
      rw [hfound']
      dsimp only
      rw [← date_of_unplaced hsame, ← date_of_unplaced hentry]
      split
      · refine .ok ?_
        rw [List.map_append, List.map_append, hpending, List.map_singleton, List.map_singleton,
          hentry]
      · exact .error rfl

end Entry

namespace Chart

theorem isOpened_unplaced (chart : Chart) : chart.unplaced.isOpened = chart.isOpened := by
  unfold isOpened unplaced
  cases chart.span <;> cases chart.accounts <;> rfl

theorem find?_unplaced (chart : Chart) (name : String) :
    chart.unplaced.find? name = (chart.find? name).map Account.unplaced := by
  unfold find? unplaced
  rw [List.find?_map]
  rfl

theorem openAccount_agrees {chart chart' : Chart} {leg leg' : Leg}
    (hchart : chart.unplaced = chart'.unplaced) (hleg : leg.unplaced = leg'.unplaced) :
    Agree (fun c c' => c.unplaced = c'.unplaced) (chart.openAccount leg)
      (chart'.openAccount leg') := by
  obtain ⟨account, amount, span⟩ := leg
  obtain ⟨account', amount', span'⟩ := leg'
  simp only [Leg.unplaced, Leg.mk.injEq, and_true] at hleg
  obtain ⟨rfl, rfl⟩ := hleg
  have hfind : (chart.find? account).map Account.unplaced =
      (chart'.find? account).map Account.unplaced := by
    rw [← find?_unplaced, ← find?_unplaced, hchart]
  unfold openAccount
  dsimp only
  cases Category.ofAccount? account with
  | none => exact .error rfl
  | some category =>
      dsimp only
      cases hfound : chart.find? account with
      | some existing =>
          rw [hfound] at hfind
          obtain ⟨existing', hfound', -⟩ := Option.map_eq_some_iff.1 hfind.symm
          rw [hfound']
          exact .error rfl
      | none =>
          rw [hfound] at hfind
          rw [Option.map_eq_none_iff.1 hfind.symm]
          refine .ok ?_
          simp only [unplaced, Chart.mk.injEq, List.map_append] at hchart ⊢
          rw [hchart.1]
          exact ⟨rfl, hchart.2⟩

end Chart

/-! ## Statements -/

namespace Progress

variable {p p' : Progress}

theorem Alike.chart (h : p.Alike p') : p.books.chart.unplaced = p'.books.chart.unplaced :=
  (Books.unplaced_eq.1 h.books).1

theorem Alike.pending (h : p.Alike p') :
    p.books.pending.map Entry.unplaced = p'.books.pending.map Entry.unplaced :=
  (Books.unplaced_eq.1 h.books).2

theorem await_agrees (h : p.Alike p') (text : List Char) (span span' : Span) :
    Agree Alike (p.await text span) (p'.await text span') := by
  have hdate := h.date
  unfold await
  cases hwait : p.awaiting with
  | some waiting =>
      rw [hwait] at hdate
      obtain ⟨waiting', hwait', -⟩ := Option.map_eq_some_iff.1 hdate.symm
      rw [hwait']
      exact .error rfl
  | none =>
      rw [hwait] at hdate
      rw [Option.map_eq_none_iff.1 hdate.symm]
      cases Date.ofText? text with
      | none => exact .error rfl
      | some date =>
          refine .ok ⟨Books.unplaced_eq.2 ⟨?_, h.pending⟩, rfl, h.account⟩
          exact congrArg (Chart.note · date) h.chart

theorem unplaced_entries {contra contra' : Option (String × Span)} {legs legs' : List Leg}
    (hcontra : contra.map (·.1) = contra'.map (·.1))
    (hlegs : legs.map Leg.unplaced = legs'.map Leg.unplaced) (date : Date) (span span' : Span) :
    (entries contra date legs span).map Entry.unplaced =
      (entries contra' date legs' span').map Entry.unplaced := by
  cases contra with
  | none =>
      rw [Option.map_eq_none_iff.1 hcontra.symm]
      exact congrArg (fun legs => [Entry.mk date legs .nowhere]) hlegs
  | some account =>
      obtain ⟨account', rfl, hname⟩ := Option.map_eq_some_iff.1 hcontra.symm
      have hentries (account : String × Span) (legs : List Leg) (span : Span) :
          (entries (some account) date legs span).map Entry.unplaced =
            (legs.map Leg.unplaced).map fun leg =>
              ⟨date, [leg, ⟨account.1, leg.amount.opposite, .nowhere⟩], .nowhere⟩ := by
        simp only [entries, List.map_map]
        rfl
      rw [hentries, hentries, hlegs, hname]

theorem enter_agrees (h : p.Alike p') {legs legs' : List Leg}
    (hlegs : legs.map Leg.unplaced = legs'.map Leg.unplaced) (first first' : Span)
    (stop stop' : Position) :
    Agree Alike (p.enter first legs stop) (p'.enter first' legs' stop') := by
  have hdate := h.date
  cases hwait : p.awaiting with
  | none =>
      rw [hwait] at hdate
      unfold enter awaited
      rw [hwait, Option.map_eq_none_iff.1 hdate.symm]
      exact .error rfl
  | some waiting =>
      obtain ⟨date, start⟩ := waiting
      rw [hwait] at hdate
      obtain ⟨⟨date', start'⟩, hwait', hsame⟩ := Option.map_eq_some_iff.1 hdate.symm
      obtain rfl : date' = date := hsame
      rw [enter_eq_map hwait, enter_eq_map hwait']
      have hnew := forall₂_of_map_eq (unplaced_entries h.account hlegs date'
        ⟨first.file, start, stop⟩ ⟨first'.file, start', stop'⟩)
      refine (Agree.foldlM (R := fun l l' => l.map Entry.unplaced = l'.map Entry.unplaced) hnew
        h.pending Entry.append_agrees).map ?_
      intro pending pending' hpending
      exact ⟨Books.unplaced_eq.2 ⟨h.chart, hpending⟩, rfl, h.account⟩

theorem mayOpen_agrees (h : p.Alike p') (scope : Scope) (keyword keyword' : Span) :
    Agree Eq (p.mayOpen scope keyword) (p'.mayOpen scope keyword') := by
  have hopened : p.books.chart.isOpened = p'.books.chart.isOpened := by
    rw [← Chart.isOpened_unplaced, h.chart, Chart.isOpened_unplaced]
  unfold mayOpen
  rw [← hopened]
  split
  · exact .error rfl
  · split
    · exact .error rfl
    · exact .ok rfl

theorem openChart_agrees (h : p.Alike p') {legs legs' : List Leg}
    (hlegs : legs.map Leg.unplaced = legs'.map Leg.unplaced) (scope : Scope)
    (keyword keyword' : Span) (stop stop' : Position) :
    Agree Alike (p.openChart scope keyword legs stop)
      (p'.openChart scope keyword' legs' stop') := by
  unfold openChart
  refine (mayOpen_agrees h scope keyword keyword').bind fun _ _ _ => ?_
  refine (Agree.foldlM (R := fun c c' => c.unplaced = c'.unplaced) (forall₂_of_map_eq hlegs)
    h.chart Chart.openAccount_agrees).bind ?_
  intro chart chart' hchart
  refine .ok ⟨Books.unplaced_eq.2 ⟨?_, h.pending⟩, h.date, h.account⟩
  exact congrArg (fun c : Chart => { c with span := some Span.nowhere }) hchart

theorem kind_faultOf (h : p.Alike p') (scope : Scope) {flaw flaw' : Flaw}
    (hflaw : flaw.Alike flaw') :
    (p.faultOf scope flaw).cause.kind = (p'.faultOf scope flaw').cause.kind := by
  cases hflaw with
  | plain hkind => exact hkind
  | inPostings hkind =>
      have hdate := h.date
      unfold faultOf awaited
      cases hwait : p.awaiting with
      | none =>
          rw [hwait] at hdate
          rw [Option.map_eq_none_iff.1 hdate.symm]
      | some waiting =>
          rw [hwait] at hdate
          obtain ⟨waiting', hwait', -⟩ := Option.map_eq_some_iff.1 hdate.symm
          rw [hwait']
          exact hkind
  | @inOpening keyword keyword' _ _ hkind =>
      have hopen := mayOpen_agrees h scope keyword keyword'
      unfold faultOf
      dsimp only
      generalize p.mayOpen scope keyword = x at hopen
      generalize p'.mayOpen scope keyword' = y at hopen
      cases hopen with
      | ok => exact hkind
      | error hearlier => exact hearlier

theorem finish_agrees (h : p.Alike p') (file : String) (lastEnd lastEnd' : Position) :
    Agree (fun b b' => b.unplaced = b'.unplaced) (p.finish file lastEnd)
      (p'.finish file lastEnd') := by
  have hdate := h.date
  unfold finish
  cases hwait : p.awaiting with
  | none =>
      rw [hwait] at hdate
      rw [Option.map_eq_none_iff.1 hdate.symm]
      exact .ok h.books
  | some waiting =>
      rw [hwait] at hdate
      obtain ⟨waiting', hwait', -⟩ := Option.map_eq_some_iff.1 hdate.symm
      rw [hwait']
      exact .error rfl

end Progress

/-- Two ways to read files that make the same of the same books, wherever the files
    are asked for. -/
def ReadsAlike (read read' : Visit → Books → Traced Books) : Prop :=
  ∀ path scope asker asker' books books', books.unplaced = books'.unplaced →
    Agree (fun b b' => b.unplaced = b'.unplaced) (read ⟨path, asker, scope⟩ books).result
      (read' ⟨path, asker', scope⟩ books').result

section Run

variable {read read' : Visit → Books → Traced Books} {file file' : String} {scope : Scope}
  {p p' : Progress}

theorem Statement.run_agrees {s s' : Statement} (reads : ReadsAlike read read')
    (hfile : ∀ path, Path.resolve file path = Path.resolve file' path)
    (hs : s.Alike s') (h : p.Alike p') :
    Agree Progress.Alike (run read file scope p s).result (run read' file' scope p' s').result := by
  cases hs with
  | date => exact Progress.await_agrees h _ _ _
  | postings hlegs => exact Progress.enter_agrees h hlegs _ _ _ _
  | openLedger hlegs =>
      rw [result_run_openLedger, result_run_openLedger]
      exact Progress.openChart_agrees h hlegs _ _ _ _ _
  | useAccount => exact .ok ⟨h.books, h.date, rfl⟩
  | inclusion =>
      rw [result_run_inclusion, result_run_inclusion, hfile]
      refine (reads _ _ _ _ _ _ h.books).map ?_
      intro books books' hbooks
      exact ⟨hbooks, h.date, h.account⟩
  | journal =>
      rw [result_run_journal, result_run_journal, hfile]
      have hempty :
          { p.books with pending := [] }.unplaced = { p'.books with pending := [] }.unplaced :=
        Books.unplaced_eq.2 ⟨h.chart, rfl⟩
      refine (reads _ _ _ _ _ _ hempty).map ?_
      intro inner inner' hinner
      obtain ⟨hchart, hpending⟩ := Books.unplaced_eq.1 hinner
      refine ⟨Books.unplaced_eq.2 ⟨hchart, ?_⟩, h.date, h.account⟩
      rw [List.map_append, List.map_append, h.pending, hpending]

theorem Script.run_agrees (reads : ReadsAlike read read') {script script' : Script}
    (hscript : script.Alike script') (file : String) {books books' : Books}
    (h : books.unplaced = books'.unplaced) :
    Agree (fun b b' => b.unplaced = b'.unplaced) (script.run read file scope books).result
      (script'.run read' file scope books').result := by
  have hbegin : (Progress.begin books).Alike (Progress.begin books') := ⟨h, rfl, rfl⟩
  have hending := hscript.ending
  rw [result_run, result_run]
  refine (Agree.foldlM hscript.statements hbegin fun hp hs =>
    Statement.run_agrees reads (fun _ => rfl) hs hp).bind ?_
  intro p p' hp
  generalize script.ending = ending at hending
  generalize script'.ending = ending' at hending
  cases hending with
  | error hflaw => exact .error (Progress.kind_faultOf hp scope hflaw)
  | ok => exact Progress.finish_agrees hp file _ _

end Run

/-- Reading a file makes the same of the same books, wherever it is asked for and
    wherever its statements stand. -/
theorem Books.read_agrees {files others : Files} (h : files.Alike others) (depth : Nat) :
    ReadsAlike (read files depth) (read others depth) := by
  induction depth with
  | zero =>
      intro path scope asker asker' books books' hbooks
      exact .error rfl
  | succ depth ih =>
      intro path scope asker asker' books books' hbooks
      rw [result_read_succ, result_read_succ]
      cases hfile : files.read path with
      | error reason =>
          obtain ⟨other, hother⟩ := h.missing path reason hfile
          rw [hother]
          exact .error rfl
      | ok text =>
          obtain ⟨text', hother, hscript⟩ := h.found path text hfile
          rw [hother]
          exact Script.run_agrees ih hscript path hbooks

theorem Books.read_alike (files : Files) (depth : Nat) :
    ReadsAlike (read files depth) (read files depth) :=
  read_agrees (.refl files) depth

/-- Sorting by date does not look at places. -/
theorem Draft.unplaced_ofBooks {books books' : Books} (file : String)
    (h : books.unplaced = books'.unplaced) :
    (ofBooks file books).unplaced = (ofBooks file books').unplaced := by
  obtain ⟨hchart, hpending⟩ := Books.unplaced_eq.1 h
  have hsort (entries : List Entry) :
      (entries.mergeSort fun a b => a.date ≤ b.date).map Entry.unplaced =
        (entries.map Entry.unplaced).mergeSort fun a b => a.date ≤ b.date :=
    List.map_mergeSort fun _ _ _ _ => rfl
  have hlast (entries : List Entry) :
      entries.getLast?.map (·.date) = (entries.map Entry.unplaced).getLast?.map (·.date) := by
    rw [List.getLast?_map, Option.map_map]
    rfl
  unfold ofBooks unplaced
  dsimp only
  rw [hlast, hlast (books'.pending.mergeSort _), hsort, hsort, hpending, hchart]

end DoubleEntry
