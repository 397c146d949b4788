import DoubleEntry.Proofs.Checking
import DoubleEntry.Proofs.Tree

/-! # What is true of all books

Whatever the files say, a draft that was read has accounts of distinct names, each
in the category that its name tells and with an opening balance on the side where
it grows. Its entries have legs, its amounts are not negative and can be held, and
only one directive in all its files has opened the chart. Checking keeps this and
gives each account a closing balance of the same kind.
-/

namespace DoubleEntry

/-- The value is one that an amount can hold, and not negative. -/
def Amount.Within (a : Amount) : Prop := 0 ≤ a.value ∧ a.value ≤ Money.limit

/-- The amount is expressed on the side where a category grows, as far as it can be. -/
def Amount.NaturalTo (category : Category) (a : Amount) : Prop :=
  a.toSide category.naturalSide = a

/-- The category is told by the name, and the account starts from a fair balance. -/
structure Account.Proper (a : Account) : Prop where
  category : Category.ofAccount? a.name = some a.category
  natural : a.opening.NaturalTo a.category
  within : a.opening.Within

structure Entry.Proper (entry : Entry) : Prop where
  nonempty : entry.legs ≠ []
  within : ∀ leg ∈ entry.legs, leg.amount.Within

/-- Books before anything has been posted. -/
structure Books.Proper (books : Books) : Prop where
  accounts : ∀ a ∈ books.chart.accounts, a.Proper ∧ a.closing = a.opening
  opened : books.chart.accounts ≠ [] → books.chart.span.isSome
  entries : ∀ entry ∈ books.pending, entry.Proper

structure Draft.Proper (d : Draft) : Prop where
  distinct : (d.chart.accounts.map (·.name)).Nodup
  accounts : ∀ a ∈ d.chart.accounts, a.Proper
  unposted : ∀ a ∈ d.chart.accounts, a.closing = a.opening ∧ a.history = []
  opened : d.chart.accounts ≠ [] → d.chart.span.isSome
  entries : ∀ entry ∈ d.pending, entry.Proper

structure Ledger.Proper (ledger : Ledger) : Prop where
  distinct : (ledger.accounts.map (·.name)).Nodup
  accounts : ∀ a ∈ ledger.accounts, a.Proper
  closings : ∀ a ∈ ledger.accounts, a.closing.NaturalTo a.category ∧ a.closing.Within
  entries : ∀ a ∈ ledger.accounts, ∀ entry ∈ a.history, entry.Proper

/-! ## Amounts -/

namespace Amount

theorem within_entered {number : Int} (h : number.natAbs ≤ Money.limit) (side : Side) :
    (entered number side).Within :=
  ⟨Int.natCast_nonneg _, Int.ofNat_le.2 h⟩

theorem Within.opposite {a : Amount} (h : a.Within) : a.opposite.Within := h

theorem within_toSide {a : Amount} (h : a.signed.natAbs ≤ Money.limit) (side : Side) :
    (a.toSide side).Within := by
  have hsame : (a.toSide side).value.natAbs = a.signed.natAbs := by
    rw [← natAbs_signed, signed_toSide]
  have hnonneg := value_toSide_nonneg a side
  exact ⟨hnonneg, by omega⟩

theorem Within.toSide {a : Amount} (h : a.Within) (side : Side) : (a.toSide side).Within := by
  obtain ⟨hnonneg, hle⟩ := h
  refine within_toSide ?_ side
  rw [natAbs_signed]
  omega

end Amount

theorem Pair.within_leg {p : Pair} (h : p.Fits) (file : String) : (p.leg file).amount.Within :=
  Amount.within_entered h _

theorem Leg.Opens.proper {leg : Leg} {a : Account} (h : leg.Opens a) (hleg : leg.amount.Within) :
    a.Proper ∧ a.closing = a.opening := by
  obtain ⟨category, hcategory, rfl⟩ := h
  exact ⟨⟨hcategory, Amount.toSide_toSide _ _, hleg.toSide _⟩, rfl⟩

theorem Progress.entries_proper {contra : Option (String × Span)} {date : Date} {legs : List Leg}
    {span : Span} (nonempty : legs ≠ []) (within : ∀ leg ∈ legs, leg.amount.Within) :
    ∀ entry ∈ entries contra date legs span, entry.Proper := by
  intro entry hentry
  cases contra with
  | none =>
      obtain rfl := List.mem_singleton.1 hentry
      exact ⟨nonempty, within⟩
  | some account =>
      obtain ⟨leg, hleg, rfl⟩ := List.mem_map.1 hentry
      refine ⟨List.cons_ne_nil _ _, List.forall_mem_cons.2 ⟨within leg hleg, ?_⟩⟩
      exact List.forall_mem_singleton.2 (within leg hleg).opposite

/-! ## Reading -/

theorem Books.proper_empty : empty.Proper :=
  ⟨List.forall_mem_nil _, fun h => absurd rfl h, List.forall_mem_nil _⟩

theorem Item.does_proper {item : Item} {file : String} {scope : Scope} {p q : Progress}
    (fits : item.Fits)
    (h : (item.statement file).Does (fun _ books after => books.Proper → after.Proper)
      file scope p q) (hp : p.books.Proper) : q.books.Proper := by
  have within {pairs : List Pair} (hpairs : ∀ pair ∈ pairs, pair.Fits) :
      ∀ leg ∈ pairs.map (·.leg file), leg.amount.Within :=
    List.forall_mem_map.2 fun pair hpair => pair.within_leg (hpairs pair hpair) file
  cases item with
  | date day hkind =>
      cases h with
      | date h =>
          obtain ⟨-, date, -, rfl⟩ := Progress.await_eq_ok.1 h
          exact ⟨hp.accounts, hp.opened, hp.entries⟩
  | postings first others =>
      cases h with
      | postings h =>
          obtain ⟨date, start, -, pending, hpending, rfl⟩ := Progress.enter_eq_ok.1 h
          obtain ⟨-, rfl⟩ := (Entry.appendAll_eq_ok
            (Progress.entries_ne_nil (List.cons_ne_nil _ _)) Progress.date_of_mem_entries).1 hpending
          refine ⟨hp.accounts, hp.opened, List.forall_mem_append.2 ⟨hp.entries, ?_⟩⟩
          exact Progress.entries_proper (List.cons_ne_nil _ _) (within fits)
  | openLedger keyword hkeyword pairs =>
      cases h with
      | openLedger h =>
          obtain ⟨-, chart, hopen, rfl⟩ := Progress.openChart_eq_ok.1 h
          obtain ⟨-, -, new, hnew, rfl⟩ := Chart.openAll_eq_ok.1 hopen
          refine ⟨List.forall_mem_append.2 ⟨hp.accounts, ?_⟩, fun _ => rfl, hp.entries⟩
          intro a ha
          obtain ⟨leg, hleg, hopens⟩ := exists_of_forall₂ hnew a ha
          exact hopens.proper (within fits leg hleg)
  | useAccount keyword hkeyword account haccount =>
      cases h with
      | useAccount => exact hp
  | inclusion keyword hkeyword path hpath =>
      cases h with
      | inclusion h => exact h hp
  | journal keyword hkeyword path hpath =>
      cases h with
      | journal h =>
          have hinner := h ⟨hp.accounts, hp.opened, List.forall_mem_nil _⟩
          exact ⟨hinner.accounts, hinner.opened,
            List.forall_mem_append.2 ⟨hp.entries, hinner.entries⟩⟩

theorem Books.read_keeps_proper {files : Files} {depth : Nat} {visit : Visit} {books after : Books}
    (h : (read files depth visit books).result = .ok after) (hbooks : books.Proper) :
    after.Proper := by
  refine read_induction (S := fun _ p q => p.books.Proper → q.books.Proper)
    (F := fun _ books after => books.Proper → after.Proper)
    id (fun hpq hqr hp => hqr (hpq hp)) ?_ (fun hstep _ => hstep) h hbooks
  intro file text scope p s q hs hdoes
  obtain ⟨item, -, hfits, rfl⟩ := Script.exists_item_of_mem (Cursor.formed_ofText file _) hs
  exact Item.does_proper hfits hdoes

/-! ## Opening the chart once -/

def Passage.opensChart (p : Passage) : Bool := p.item.chart?.isSome

/-- How often the chart has been opened: once if it shows where. -/
def Books.openings (books : Books) : Nat := books.chart.span.isSome.toNat

theorem Progress.openings_of_openChart {p q : Progress} {scope : Scope} {keyword : Span}
    {legs : List Leg} {stop : Position} (h : p.openChart scope keyword legs stop = .ok q) :
    p.books.openings = 0 ∧ q.books.openings = 1 := by
  obtain ⟨hopen, chart, -, rfl⟩ := openChart_eq_ok.1 h
  have hnone := (Bool.or_eq_false_iff.1 (isOpened_of_mayOpen hopen)).1
  exact ⟨congrArg Bool.toNat hnone, rfl⟩

theorem Item.run_openings {files : Files} {read : Visit → Books → Traced Books} {file : String}
    {scope : Scope} {p q : Progress} {before : List Item} {item : Item} {inner : List Passage}
    (reads : ∀ {visit books after passages}, (read visit books).result = .ok after →
      Walks files visit.path passages →
      after.openings = books.openings + passages.countP Passage.opensChart)
    (hinner : Asks files file item inner)
    (h : (Statement.run read file scope p (item.statement file)).result = .ok q) :
    q.books.openings =
      p.books.openings + (⟨file, before, item⟩ :: inner).countP Passage.opensChart := by
  cases item with
  | date day hday =>
      obtain rfl := hinner
      obtain ⟨-, date, -, rfl⟩ := Progress.await_eq_ok.1 h
      rfl
  | postings first others =>
      obtain rfl := hinner
      obtain ⟨date, start, -, pending, -, rfl⟩ := Progress.enter_eq_ok.1 h
      rfl
  | openLedger keyword hkeyword pairs =>
      obtain rfl := hinner
      rw [statement, Statement.result_run_openLedger] at h
      obtain ⟨hnone, hone⟩ := Progress.openings_of_openChart h
      rw [hnone, hone]
      rfl
  | useAccount keyword hkeyword account haccount =>
      obtain rfl := hinner
      cases h
      rfl
  | inclusion keyword hkeyword path hpath =>
      rw [statement, Statement.result_run_inclusion, map_eq_ok] at h
      obtain ⟨books, hread, rfl⟩ := h
      have hcount := reads hread hinner
      exact hcount
  | journal keyword hkeyword path hpath =>
      rw [statement, Statement.result_run_journal, map_eq_ok] at h
      obtain ⟨books, hread, rfl⟩ := h
      have hcount := reads hread hinner
      exact hcount

theorem Item.runAll_openings {files : Files} {read : Visit → Books → Traced Books} {file : String}
    {scope : Scope} {p q : Progress} {before items : List Item} {passages : List Passage}
    (reads : ∀ {visit books after passages}, (read visit books).result = .ok after →
      Walks files visit.path passages →
      after.openings = books.openings + passages.countP Passage.opensChart)
    (hwalk : Walk files file before items passages) (h : runAll read file scope p items = .ok q) :
    q.books.openings = p.books.openings + passages.countP Passage.opensChart := by
  induction items generalizing before p passages with
  | nil =>
      cases hwalk
      cases h
      rfl
  | cons item items ih =>
      obtain ⟨inner, others, hinner, hrest, rfl⟩ := hwalk.exists_of_cons
      obtain ⟨mid, hmid, h⟩ := runAll_cons_eq_ok.1 h
      rw [ih hrest h, Item.run_openings reads hinner hmid, ← List.cons_append, List.countP_append,
        Nat.add_assoc]

/-- Every directive on the way that opens the chart opens it once more. -/
theorem Books.read_openings {files : Files} {depth : Nat} {visit : Visit} {books after : Books}
    {passages : List Passage} (h : (read files depth visit books).result = .ok after)
    (hwalks : Walks files visit.path passages) :
    after.openings = books.openings + passages.countP Passage.opensChart := by
  induction depth generalizing visit books after passages with
  | zero => cases h
  | succ depth ih =>
      obtain ⟨text, items, p, htext, hitems, -, hrun, -, rfl⟩ := read_succ_eq_ok.1 h
      obtain ⟨found, others, hfound, hothers, hwalk⟩ := hwalks
      cases htext.symm.trans hfound
      cases hitems.unique hothers
      exact Item.runAll_openings ih hwalk hrun

theorem Books.openings_le_one (books : Books) : books.openings ≤ 1 := Bool.toNat_le _

/-! ## Checking -/

theorem Account.Closes.proper {a b : Account} (h : a.Closes b) (ha : a.Proper) :
    b.Proper ∧ b.closing.NaturalTo b.category ∧ b.closing.Within := by
  obtain ⟨amount, hamount, rfl⟩ := h
  obtain ⟨hlimit, hsigned⟩ := Amount.ofSigned?_eq_some hamount
  exact ⟨⟨ha.category, ha.natural, ha.within⟩, Amount.toSide_toSide _ _,
    Amount.within_toSide (hsigned ▸ hlimit) _⟩

theorem Draft.Proper.check {d : Draft} {ledger : Ledger} (h : d.Proper)
    (hcheck : d.check = .ok ledger) : ledger.Proper := by
  have unposted : d.chart.Unposted := ⟨h.distinct, fun a ha => (h.unposted a ha).2⟩
  have hsettles := settles_of_check unposted hcheck
  have hnames := Account.names_of_settles hsettles
  have hhistories := Account.histories_of_settles hsettles
  obtain ⟨-, -, closed, hclosed, rfl⟩ := (check_eq_ok unposted).1 hcheck
  have fair : ∀ b ∈ closed, b.Proper ∧ b.closing.NaturalTo b.category ∧ b.closing.Within := by
    intro b hb
    obtain ⟨posted, hposted, hcloses⟩ := exists_of_forall₂ hclosed b hb
    obtain ⟨a, ha, rfl⟩ := List.mem_map.1 hposted
    obtain ⟨hcategory, hnatural, hwithin⟩ := h.accounts a ha
    exact hcloses.proper ⟨hcategory, hnatural, hwithin⟩
  constructor
  case distinct =>
    change (Account.names closed).Nodup
    rw [hnames]
    exact h.distinct
  case accounts => exact fun b hb => (fair b hb).1
  case closings => exact fun b hb => (fair b hb).2
  case entries =>
    intro b hb entry hentry
    rw [hhistories b hb] at hentry
    exact h.entries entry (List.mem_of_mem_filter hentry)

namespace Draft

/-- What is true of every draft that was read and of the ledger that it makes, and
    how often the chart is opened on the way through all its files. -/
theorem read_proper {files : Files} {root : String} {d : Draft}
    (h : (read files root).result = .ok d) :
    d.Proper ∧
    (∃ passages, (∀ others, Walks files root others ↔ others = passages) ∧
      passages.countP Passage.opensChart ≤ 1) ∧
    ∀ ledger, d.check = .ok ledger → ledger.Proper := by
  have unposted := read_unposted h
  obtain ⟨books, hbooks, rfl⟩ := result_read_eq_ok.1 h
  obtain ⟨haccounts, hopened, hentries⟩ := Books.read_keeps_proper hbooks Books.proper_empty
  have hproper : (ofBooks root books).Proper := by
    refine ⟨unposted.distinct, fun a ha => (haccounts a ha).1,
      fun a ha => ⟨(haccounts a ha).2, unposted.blank a ha⟩, hopened, ?_⟩
    intro entry hentry
    exact hentries entry (List.mem_mergeSort.1 hentry)
  obtain ⟨passages, -, hwalks, -⟩ := Books.read_adds hbooks
  have hcount := Books.read_openings hbooks hwalks
  have hle := books.openings_le_one
  refine ⟨hproper, ⟨passages, ?_, ?_⟩, fun ledger hcheck => hproper.check hcheck⟩
  · exact fun others => ⟨fun hothers => hothers.unique hwalks, fun hothers => hothers ▸ hwalks⟩
  · exact Nat.le_trans (Nat.le_add_left _ _) (hcount ▸ hle)

/-- Books that open the chart in an included file, between two journals. -/
def soundFiles : Files := .inMemory [
  ("main", "journal \"club\"\ninclude \"chart\"\njournal \"club\"\n"),
  ("chart", "open ledger -5 ASSETS/Cash 2 ASSETS/Bank -3 CAPITAL/Own\n"),
  ("club", "use account ASSETS/Cash 2020-05-01 -1 ASSETS/Bank 4 CAPITAL/Own\n")]

theorem read_proper_soundFiles :
    ∃ d ledger, (read soundFiles "main").result = .ok d ∧ d.check = .ok ledger ∧
      ledger.accounts.length = 3 ∧ d.Proper ∧ ledger.Proper ∧
      ∃ passages, Walks soundFiles "main" passages ∧
        passages.countP Passage.opensChart ≤ 1 := by
  have hresult : (Books.read soundFiles soundFiles.nesting
      ⟨"main", Span.startOf "main", .ledger⟩ .empty).result.map (fun books =>
        (decide (books.pending.Pairwise fun a b => a.date ≤ b.date),
          (check ⟨"main", books.chart, books.pending,
            books.pending.getLast?.map (·.date)⟩).map (·.accounts.length))) =
        .ok (true, .ok 3) := by
    decide +kernel
  obtain ⟨books, hbooks, hboth⟩ := map_eq_ok.1 hresult
  obtain ⟨hsorted, hchecked⟩ := Prod.mk.inj hboth
  obtain ⟨ledger, hcheck, hlength⟩ := map_eq_ok.1 hchecked
  rw [← ofBooks_of_sorted "main" (of_decide_eq_true hsorted)] at hcheck
  have hread : (read soundFiles "main").result = .ok (ofBooks "main" books) :=
    result_read_eq_ok.2 ⟨books, hbooks, rfl⟩
  obtain ⟨hproper, ⟨passages, hwalks, hone⟩, hkeeps⟩ := read_proper hread
  exact ⟨_, ledger, hread, hcheck, hlength, hproper, hkeeps ledger hcheck, passages,
    (hwalks passages).2 rfl, hone⟩

end Draft

end DoubleEntry
