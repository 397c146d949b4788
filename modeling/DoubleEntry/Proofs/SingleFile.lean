import DoubleEntry.Proofs.Items
import DoubleEntry.Proofs.Sequence

/-! # A single file

A file that asks for no other file can be read exactly if it is written in items
of which dates and postings follow each other in turn, the dates exist and do not
go back, all numbers fit, and the chart is opened at most once, with accounts of
known categories and distinct names. The accounts are then those of the chart.
-/

namespace DoubleEntry

/-! ## What a single file has to be like -/

namespace Item

/-- The kind of token that a date or postings begin with. -/
def mark? : Item → Option Lexeme.Kind
  | date .. => some .date
  | postings .. => some .number
  | _ => none

/-- The pairs that open the chart. -/
def chart? : Item → Option (List Pair)
  | openLedger _ _ pairs => some pairs
  | _ => none

end Item

/-- Every date is followed by its postings, and there are no others. -/
def InTurn (marks : List Lexeme.Kind) : Prop :=
  ∃ n, marks = (List.replicate n [.date, .number]).flatten

/-- The names tell their categories, and no two of them are the same. -/
structure Pair.Openable (pairs : List Pair) : Prop where
  known : ∀ p ∈ pairs, (Category.ofAccount? p.name).isSome
  distinct : (pairs.map Pair.name).Nodup

structure Acceptable (items : List Item) : Prop where
  inTurn : InTurn (items.filterMap Item.mark?)
  dated : ∃ days : List Date, days.IsChain (· ≤ ·) ∧
    List.Forall₂ (fun date day => date.SpelledBy day.text) days (items.filterMap Item.day?)
  fits : ∀ item ∈ items, item.Fits
  once : (items.filterMap Item.chart?).length ≤ 1
  openable : ∀ pairs ∈ items.filterMap Item.chart?, Pair.Openable pairs

/-! ## Dates and postings -/

theorem inTurn_nil : InTurn [] := ⟨0, rfl⟩

theorem inTurn_date {marks : List Lexeme.Kind} :
    InTurn (.date :: marks) ↔ ∃ rest, marks = .number :: rest ∧ InTurn rest := by
  constructor
  · rintro ⟨n, h⟩
    cases n with
    | zero => cases h
    | succ n =>
        cases h
        exact ⟨_, rfl, n, rfl⟩
  · rintro ⟨rest, rfl, n, rfl⟩
    exact ⟨n + 1, rfl⟩

theorem not_inTurn_number {marks : List Lexeme.Kind} : ¬ InTurn (.number :: marks) := by
  rintro ⟨n, h⟩
  cases n <;> cases h

/-- The dates and postings that are still to be read go with a date that waits and
    with the date of the last entry. -/
structure Timely (waiting last : Option Date) (items : List Item) : Prop where
  inTurn : InTurn ((waiting.map fun _ => .date).toList ++ items.filterMap Item.mark?)
  dated : ∃ days : List Date, (last.toList ++ waiting.toList ++ days).IsChain (· ≤ ·) ∧
    List.Forall₂ (fun date day => date.SpelledBy day.text) days (items.filterMap Item.day?)

namespace Timely

variable {waiting last : Option Date} {item : Item} {items : List Item}

theorem nil_iff : Timely waiting last [] ↔ waiting = none := by
  constructor
  · intro h
    cases waiting with
    | none => rfl
    | some date =>
        obtain ⟨rest, hrest, -⟩ := inTurn_date.1 h.inTurn
        cases hrest
  · rintro rfl
    refine ⟨inTurn_nil, [], ?_, .nil⟩
    cases last <;> simp

theorem skip (hmark : item.mark? = none) (hday : item.day? = none) :
    Timely waiting last (item :: items) ↔ Timely waiting last items := by
  constructor
  · rintro ⟨hturn, hdated⟩
    rw [List.filterMap_cons_none hmark] at hturn
    rw [List.filterMap_cons_none hday] at hdated
    exact ⟨hturn, hdated⟩
  · rintro ⟨hturn, hdated⟩
    constructor
    · rwa [List.filterMap_cons_none hmark]
    · rwa [List.filterMap_cons_none hday]

theorem date_iff {day : Token} {hday : day.kind = .date} :
    Timely waiting last (.date day hday :: items) ↔
      waiting = none ∧ ∃ date : Date, date.SpelledBy day.text ∧ Timely (some date) last items := by
  constructor
  · rintro ⟨hturn, days, hchain, hdays⟩
    cases waiting with
    | some other =>
        obtain ⟨rest, hrest, -⟩ := inTurn_date.1 hturn
        cases hrest
    | none =>
        cases hdays with
        | cons hdate hdays =>
            refine ⟨rfl, _, hdate, hturn, _, ?_, hdays⟩
            simpa using hchain
  · rintro ⟨rfl, date, hdate, hturn, days, hchain, hdays⟩
    refine ⟨hturn, date :: days, ?_, .cons hdate hdays⟩
    simpa using hchain

theorem postings_iff {first : Pair} {others : List Pair} :
    Timely waiting last (.postings first others :: items) ↔
      ∃ date, waiting = some date ∧ (∀ l ∈ last, l ≤ date) ∧ Timely none (some date) items := by
  have chain_iff (date : Date) (days : List Date) :
      (last.toList ++ [date] ++ days).IsChain (· ≤ ·) ↔
        (∀ l ∈ last, l ≤ date) ∧ (date :: days).IsChain (· ≤ ·) := by
    cases last <;> simp
  constructor
  · rintro ⟨hturn, days, hchain, hdays⟩
    cases waiting with
    | none => exact absurd hturn not_inTurn_number
    | some date =>
        obtain ⟨rest, hrest, hturn⟩ := inTurn_date.1 hturn
        cases hrest
        obtain ⟨hlast, hchain⟩ := (chain_iff date days).1 hchain
        exact ⟨date, rfl, hlast, hturn, days, hchain, hdays⟩
  · rintro ⟨date, rfl, hlast, hturn, days, hchain, hdays⟩
    exact ⟨inTurn_date.2 ⟨_, rfl, hturn⟩, days, (chain_iff date days).2 ⟨hlast, hchain⟩, hdays⟩

end Timely

/-! ## The chart -/

/-- The items that are still to be read open the chart at most once, and only if
    it has not been opened yet. -/
structure OpensOnce (opened : Bool) (items : List Item) : Prop where
  once : opened.toNat + (items.filterMap Item.chart?).length ≤ 1
  openable : ∀ pairs ∈ items.filterMap Item.chart?, Pair.Openable pairs

namespace OpensOnce

variable {opened : Bool} {item : Item} {items : List Item}

theorem skip (hchart : item.chart? = none) :
    OpensOnce opened (item :: items) ↔ OpensOnce opened items := by
  constructor
  · rintro ⟨honce, hopenable⟩
    rw [List.filterMap_cons_none hchart] at honce hopenable
    exact ⟨honce, hopenable⟩
  · rintro ⟨honce, hopenable⟩
    constructor <;> rwa [List.filterMap_cons_none hchart]

theorem openLedger_iff {keyword : Token} {h : keyword.Says "open ledger"} {pairs : List Pair} :
    OpensOnce opened (.openLedger keyword h pairs :: items) ↔
      opened = false ∧ Pair.Openable pairs ∧ OpensOnce true items := by
  have hcharts : (Item.openLedger keyword h pairs :: items).filterMap Item.chart? =
      pairs :: items.filterMap Item.chart? := rfl
  constructor
  · rintro ⟨honce, hopenable⟩
    rw [hcharts] at honce hopenable
    rw [List.length_cons] at honce
    obtain ⟨hpairs, hothers⟩ := List.forall_mem_cons.1 hopenable
    have hclosed : opened.toNat = 0 := by omega
    refine ⟨Bool.toNat_eq_zero.1 hclosed, hpairs, ?_, hothers⟩
    rw [Bool.toNat_true]
    omega
  · rintro ⟨rfl, hpairs, honce, hothers⟩
    rw [Bool.toNat_true] at honce
    refine ⟨?_, ?_⟩
    · rw [hcharts, List.length_cons, Bool.toNat_false]
      omega
    · rw [hcharts]
      exact List.forall_mem_cons.2 ⟨hpairs, hothers⟩

end OpensOnce

theorem acceptable_iff {items : List Item} :
    Acceptable items ↔
      (∀ item ∈ items, item.Fits) ∧ Timely none none items ∧ OpensOnce false items := by
  constructor
  · intro h
    refine ⟨h.fits, ⟨h.inTurn, h.dated⟩, ?_, h.openable⟩
    rw [Bool.toNat_false, Nat.zero_add]
    exact h.once
  · rintro ⟨hfits, ⟨hturn, hdated⟩, honce, hopenable⟩
    rw [Bool.toNat_false, Nat.zero_add] at honce
    exact ⟨hturn, hdated, hfits, honce, hopenable⟩

/-! ## Opening the chart -/

/-- The account that a pair opens: its number, entered on the side where the
    account grows, is the opening balance. -/
def Pair.Opens (file : String) (p : Pair) (a : Account) : Prop :=
  ∃ category, Category.ofAccount? p.name = some category ∧
    a = { name := p.name, category,
          opening := .entered p.value category.naturalSide,
          closing := .entered p.value category.naturalSide,
          history := [], span := ⟨file, p.number.start, p.account.stop⟩ }

theorem Pair.opens_leg {file : String} {p : Pair} {a : Account} :
    (p.leg file).Opens a ↔ p.Opens file a := by
  refine exists_congr fun category => and_congr_right fun hcategory => ?_
  have hside : Category.sideOf p.name = category.naturalSide := by
    change Category.ofAccount? p.name = some category at hcategory
    rw [Category.sideOf, hcategory]
    rfl
  rw [Account.opened, Pair.leg, hside, Amount.toSide_entered]

theorem Pair.openAll_eq_ok {file : String} {chart after : Chart} {pairs : List Pair}
    (hempty : chart.accounts = []) :
    (pairs.map (·.leg file)).foldlM Chart.openAccount chart = .ok after ↔
      (pairs.map Pair.name).Nodup ∧ ∃ new, List.Forall₂ (Pair.Opens file) pairs new ∧
        after = { chart with accounts := new } := by
  have hnames : (pairs.map (·.leg file)).map (·.account) = pairs.map Pair.name :=
    List.map_map
  rw [Chart.openAll_eq_ok, hempty, hnames]
  simp only [List.forall₂_map_left_iff, Pair.opens_leg, List.nil_append]
  exact and_iff_right fun _ _ => List.not_mem_nil

theorem Pair.exists_opens {file : String} {pairs : List Pair} :
    (∃ new, List.Forall₂ (Pair.Opens file) pairs new) ↔
      ∀ p ∈ pairs, (Category.ofAccount? p.name).isSome := by
  induction pairs with
  | nil => exact ⟨fun _ => List.forall_mem_nil _, fun _ => ⟨[], .nil⟩⟩
  | cons p pairs ih =>
      rw [List.forall_mem_cons, ← ih, Option.isSome_iff_exists]
      constructor
      · rintro ⟨_, h⟩
        cases h with
        | cons ha hrest =>
            obtain ⟨category, hcategory, -⟩ := ha
            exact ⟨⟨category, hcategory⟩, _, hrest⟩
      · rintro ⟨⟨category, hcategory⟩, new, hrest⟩
        exact ⟨_, .cons ⟨category, hcategory, rfl⟩ hrest⟩

/-! ## Reading the items -/

theorem Progress.mayOpen_ledger {p : Progress} {keyword : Span} :
    p.mayOpen .ledger keyword = .ok () ↔ p.books.chart.isOpened = false := by
  unfold mayOpen
  cases p.books.chart.isOpened <;> simp

theorem Chart.accounts_of_not_isOpened {chart : Chart} (h : chart.isOpened = false) :
    chart.accounts = [] := by
  unfold isOpened at h
  simpa using (Bool.or_eq_false_iff.1 h).2

/-- What has been read admits these items behind it. -/
def Progress.Admits (p : Progress) (items : List Item) : Prop :=
  Timely (p.awaiting.map (·.1)) (Entry.lastDate p.books.pending) items ∧
    OpensOnce p.books.chart.isOpened items

section Run

variable {read : Visit → Books → Traced Books} {file : String} {p : Progress} {items : List Item}

/-- The next item can be read and admits the others behind it exactly if all of
    them are admitted. -/
theorem Item.run_iff {item : Item} (formed : item.Formed) (alone : item.path? = none) :
    (∃ q, (Statement.run read file .ledger p (item.statement file)).result = .ok q ∧
      q.Admits items) ↔ p.Admits (item :: items) := by
  cases item with
  | date day hkind =>
      have shaped : Lexeme.isDate day.text := (formed day List.mem_cons_self).date hkind
      simp only [Item.statement, Statement.result_run_date, Progress.Admits]
      rw [Timely.date_iff, OpensOnce.skip rfl]
      constructor
      · rintro ⟨q, hq, htimely, honce⟩
        obtain ⟨hnone, date, hdate, rfl⟩ := Progress.await_eq_ok.1 hq
        exact ⟨⟨Option.map_eq_none_iff.2 hnone, date, (Date.ofText?_eq_some shaped).1 hdate,
          htimely⟩, honce⟩
      · rintro ⟨⟨hnone, date, hdate, htimely⟩, honce⟩
        exact ⟨_, Progress.await_eq_ok.2 ⟨Option.map_eq_none_iff.1 hnone, date,
          (Date.ofText?_eq_some shaped).2 hdate, rfl⟩, htimely, honce⟩
  | postings first others =>
      have hnew {date : Date} {span : Span} :
          Progress.entries p.contra date ((first :: others).map (·.leg file)) span ≠ [] :=
        Progress.entries_ne_nil (List.cons_ne_nil _ _)
      have hlast {date : Date} {span : Span} : Entry.lastDate (p.books.pending ++
          Progress.entries p.contra date ((first :: others).map (·.leg file)) span) = some date := by
        rw [Entry.lastDate_append, Entry.lastDate_eq_some hnew Progress.date_of_mem_entries]
        rfl
      simp only [Item.statement, Statement.result_run_postings, Progress.Admits]
      rw [Timely.postings_iff, OpensOnce.skip rfl]
      constructor
      · rintro ⟨q, hq, htimely, honce⟩
        obtain ⟨date, start, hwait, pending, hpending, rfl⟩ := Progress.enter_eq_ok.1 hq
        obtain ⟨hle, rfl⟩ := (Entry.appendAll_eq_ok hnew Progress.date_of_mem_entries).1 hpending
        rw [hlast] at htimely
        exact ⟨⟨date, by rw [hwait]; rfl, hle, htimely⟩, honce⟩
      · rintro ⟨⟨date, hwaiting, hle, htimely⟩, honce⟩
        obtain ⟨⟨_, start⟩, hwait, rfl⟩ := Option.map_eq_some_iff.1 hwaiting
        refine ⟨_, Progress.enter_eq_ok.2 ⟨_, start, hwait, _,
          (Entry.appendAll_eq_ok hnew Progress.date_of_mem_entries).2 ⟨hle, rfl⟩, rfl⟩, ?_, honce⟩
        rw [hlast]
        exact htimely
  | openLedger keyword hkeyword pairs =>
      simp only [Item.statement, Statement.result_run_openLedger, Progress.Admits]
      rw [Timely.skip rfl rfl, OpensOnce.openLedger_iff]
      constructor
      · rintro ⟨q, hq, htimely, honce⟩
        obtain ⟨hmay, chart, hopen, rfl⟩ := Progress.openChart_eq_ok.1 hq
        have hclosed := Progress.mayOpen_ledger.1 hmay
        obtain ⟨hdistinct, new, hnew, rfl⟩ :=
          (Pair.openAll_eq_ok (Chart.accounts_of_not_isOpened hclosed)).1 hopen
        exact ⟨htimely, hclosed, ⟨Pair.exists_opens.1 ⟨new, hnew⟩, hdistinct⟩, honce⟩
      · rintro ⟨htimely, hclosed, ⟨hknown, hdistinct⟩, honce⟩
        obtain ⟨new, hnew⟩ := Pair.exists_opens.2 hknown
        exact ⟨_, Progress.openChart_eq_ok.2 ⟨Progress.mayOpen_ledger.2 hclosed, _,
          (Pair.openAll_eq_ok (Chart.accounts_of_not_isOpened hclosed)).2
            ⟨hdistinct, new, hnew, rfl⟩, rfl⟩, htimely, honce⟩
  | useAccount keyword hkeyword account haccount =>
      simp only [Item.statement, Statement.result_run_useAccount, Progress.Admits]
      rw [Timely.skip rfl rfl, OpensOnce.skip rfl]
      simp only [Except.ok.injEq, exists_eq_left']
  | inclusion => cases alone
  | journal => cases alone

theorem Item.runAll_iff (read : Visit → Books → Traced Books) (file : String)
    (formed : ∀ item ∈ items, item.Formed) (alone : ∀ item ∈ items, item.path? = none) :
    (∃ q, (items.map (·.statement file)).foldlM
      (fun p s => (Statement.run read file .ledger p s).result) p = .ok q ∧ q.awaiting = none) ↔
        p.Admits items := by
  induction items generalizing p with
  | nil =>
      have honce : OpensOnce p.books.chart.isOpened [] :=
        ⟨Bool.toNat_le _, fun _ h => by cases h⟩
      rw [Progress.Admits, Timely.nil_iff, and_iff_left honce, Option.map_eq_none_iff]
      constructor
      · rintro ⟨q, hq, hnone⟩
        cases hq
        exact hnone
      · intro hnone
        exact ⟨p, rfl, hnone⟩
  | cons item items ih =>
      obtain ⟨hitem, hitems⟩ := List.forall_mem_cons.1 formed
      obtain ⟨hpath, hpaths⟩ := List.forall_mem_cons.1 alone
      rw [← run_iff hitem hpath, List.map_cons]
      simp only [foldlM_cons_eq_ok, ← ih hitems hpaths]
      constructor
      · rintro ⟨q, ⟨mid, hmid, hrest⟩, hnone⟩
        exact ⟨mid, hmid, q, hrest, hnone⟩
      · rintro ⟨mid, hmid, q, hrest, hnone⟩
        exact ⟨q, ⟨mid, hmid, hrest⟩, hnone⟩

theorem Item.run_opens {item : Item} {q : Progress} (alone : item.path? = none)
    (h : (Statement.run read file .ledger p (item.statement file)).result = .ok q) :
    ∃ new, List.Forall₂ (Pair.Opens file) (item.chart?.getD []) new ∧
      q.books.chart.accounts = p.books.chart.accounts ++ new := by
  have same : p.books.chart.accounts = p.books.chart.accounts ++ [] := (List.append_nil _).symm
  cases item with
  | date =>
      obtain ⟨-, date, -, rfl⟩ := Progress.await_eq_ok.1 h
      exact ⟨[], .nil, same⟩
  | postings =>
      obtain ⟨date, start, -, pending, -, rfl⟩ := Progress.enter_eq_ok.1 h
      exact ⟨[], .nil, same⟩
  | openLedger keyword hkeyword pairs =>
      simp only [Item.statement, Statement.result_run_openLedger] at h
      obtain ⟨hmay, chart, hopen, rfl⟩ := Progress.openChart_eq_ok.1 h
      have hempty := Chart.accounts_of_not_isOpened (Progress.mayOpen_ledger.1 hmay)
      obtain ⟨-, new, hnew, rfl⟩ := (Pair.openAll_eq_ok hempty).1 hopen
      exact ⟨new, hnew, by rw [hempty]; rfl⟩
  | useAccount =>
      cases h
      exact ⟨[], .nil, same⟩
  | inclusion => cases alone
  | journal => cases alone

theorem Item.runAll_opens {q : Progress} (alone : ∀ item ∈ items, item.path? = none)
    (h : (items.map (·.statement file)).foldlM
      (fun p s => (Statement.run read file .ledger p s).result) p = .ok q) :
    ∃ new, List.Forall₂ (Pair.Opens file) (items.filterMap Item.chart?).flatten new ∧
      q.books.chart.accounts = p.books.chart.accounts ++ new := by
  induction items generalizing p with
  | nil =>
      cases h
      exact ⟨[], .nil, (List.append_nil _).symm⟩
  | cons item items ih =>
      obtain ⟨hpath, hpaths⟩ := List.forall_mem_cons.1 alone
      obtain ⟨mid, hmid, hrest⟩ := foldlM_cons_eq_ok.1 h
      obtain ⟨new, hnew, haccounts⟩ := run_opens hpath hmid
      obtain ⟨others, hothers, hafter⟩ := ih hpaths hrest
      have hcharts : ((item :: items).filterMap Item.chart?).flatten =
          item.chart?.getD [] ++ (items.filterMap Item.chart?).flatten := by
        cases hchart : item.chart? with
        | none => rw [List.filterMap_cons_none hchart]; rfl
        | some pairs => rw [List.filterMap_cons_some hchart]; rfl
      refine ⟨new ++ others, ?_, ?_⟩
      · rw [hcharts]
        exact List.rel_append hnew hothers
      · rw [hafter, haccounts, List.append_assoc]

end Run

/-! ## Reading the file -/

/-- No token asks for another file. -/
def Token.Alone (tokens : List Token) : Prop :=
  ∀ t ∈ tokens, ¬ t.Says "include" ∧ ¬ t.Says "journal"

instance (tokens : List Token) : Decidable (Token.Alone tokens) :=
  inferInstanceAs (Decidable (∀ t ∈ tokens, _))

theorem Spells.path?_eq_none {items : List Item} {tokens : List Token} (h : Spells items tokens)
    (alone : Token.Alone tokens) : ∀ item ∈ items, item.path? = none := by
  intro item hitem
  have hmem : ∀ t ∈ item.tokens, t ∈ tokens := by
    intro t ht
    rw [h.whole]
    exact List.mem_flatMap.2 ⟨item, hitem, ht⟩
  cases item with
  | inclusion keyword hkeyword => exact absurd hkeyword (alone _ (hmem _ List.mem_cons_self)).1
  | journal keyword hkeyword => exact absurd hkeyword (alone _ (hmem _ List.mem_cons_self)).2
  | _ => rfl

namespace Draft

variable {files : Files} {root text : String}

theorem read_eq_ok {depth : Nat} {d : Draft} (htext : files.read root = .ok text)
    (hdepth : files.nesting = depth + 1) :
    (read files root).result = .ok d ↔ ∃ lastEnd p,
      (Script.ofText root text).ending = .ok lastEnd ∧
      (Script.ofText root text).statements.foldlM
        (fun p s => (Statement.run (Books.read files depth) root .ledger p s).result)
        (Progress.begin .empty) = .ok p ∧
      p.awaiting = none ∧ ofBooks root p.books = d := by
  rw [result_read, hdepth, Books.result_read_succ, htext]
  simp only [Script.result_run, map_eq_ok, bind_eq_ok]
  cases (Script.ofText root text).ending with
  | error flaw => simp
  | ok lastEnd =>
      simp only [Progress.finish_eq_ok, Except.ok.injEq]
      constructor
      · rintro ⟨books, ⟨p, hrun, hnone, rfl⟩, hd⟩
        exact ⟨lastEnd, p, rfl, hrun, hnone, hd⟩
      · rintro ⟨-, p, -, hrun, hnone, hd⟩
        exact ⟨p.books, ⟨p, hrun, hnone, rfl⟩, hd⟩

/-- A file that asks for no other file can be read exactly if it is written in
    acceptable items, and the accounts are then those that its chart opens. -/
theorem read_single (htext : files.read root = .ok text) (hnesting : 0 < files.nesting)
    (alone : Token.Alone (Token.ofString text)) :
    ((∃ d, (read files root).result = .ok d) ↔
      ∃ items, Spells items (Token.ofString text) ∧ Acceptable items) ∧
    ∀ d items, (read files root).result = .ok d → Spells items (Token.ofString text) →
      List.Forall₂ (Pair.Opens root) (items.filterMap Item.chart?).flatten d.chart.accounts := by
  obtain ⟨depth, hdepth⟩ := Nat.exists_eq_succ_of_ne_zero (Nat.ne_of_gt hnesting)
  simp only [read_eq_ok htext hdepth]
  refine ⟨⟨?_, ?_⟩, ?_⟩
  · rintro ⟨d, lastEnd, p, hending, hrun, hnone, -⟩
    obtain ⟨items, hitems, hfits, hstatements⟩ := Script.exists_items hending
    rw [hstatements] at hrun
    exact ⟨items, hitems, acceptable_iff.2 ⟨hfits,
      (Item.runAll_iff _ _ hitems.formed (hitems.path?_eq_none alone)).1 ⟨p, hrun, hnone⟩⟩⟩
  · rintro ⟨items, hitems, hacceptable⟩
    obtain ⟨hfits, htimely, honce⟩ := acceptable_iff.1 hacceptable
    have hadmits : (Progress.begin .empty).Admits items := ⟨htimely, honce⟩
    obtain ⟨hstatements, lastEnd, hending⟩ := Script.ofText_of_spells root hitems hfits
    obtain ⟨p, hrun, hnone⟩ := (Item.runAll_iff (Books.read files depth) root hitems.formed
      (hitems.path?_eq_none alone)).2 hadmits
    exact ⟨_, lastEnd, p, hending, by rw [hstatements]; exact hrun, hnone, rfl⟩
  · rintro d items ⟨lastEnd, p, hending, hrun, -, rfl⟩ hitems
    obtain ⟨others, hothers, -, hstatements⟩ := Script.exists_items hending
    obtain rfl := hitems.unique hothers
    rw [hstatements] at hrun
    obtain ⟨new, hnew, haccounts⟩ := Item.runAll_opens (hitems.path?_eq_none alone) hrun
    rw [show (ofBooks root p.books).chart.accounts = new from haccounts]
    exact hnew

/-- Books that open the chart between a date and its postings. -/
def cashBook : String :=
  "2020-03-01 open ledger 10 ASSETS/Cash -3 ASSETS/Bank 7 CAPITAL/Own\n" ++
    "use account ASSETS/Bank 2.50 ASSETS/Cash -1 ASSETS/Cash\n2020-03-01 1 ASSETS/Cash\n"

theorem read_single_cashBook :
    ∃ d items, (read (.inMemory [("main", cashBook)]) "main").result = .ok d ∧
      Spells items (Token.ofString cashBook) ∧ Acceptable items ∧
      List.Forall₂ (Pair.Opens "main") (items.filterMap Item.chart?).flatten
        d.chart.accounts := by
  have hok : (read (.inMemory [("main", cashBook)]) "main").result.isOk := by decide +kernel
  have htext : (Files.inMemory [("main", cashBook)]).read "main" = .ok cashBook := by
    decide +kernel
  obtain ⟨hiff, haccounts⟩ := read_single htext (by decide) (by decide +kernel)
  cases hread : (read (.inMemory [("main", cashBook)]) "main").result with
  | error fault =>
      rw [hread] at hok
      cases hok
  | ok d =>
      obtain ⟨items, hitems, hacceptable⟩ := hiff.1 ⟨d, hread⟩
      exact ⟨d, items, rfl, hitems, hacceptable, haccounts d items hread hitems⟩

end Draft

end DoubleEntry
