import DoubleEntry.Proofs.Matching
import DoubleEntry.Proofs.Report.Row
import DoubleEntry.Report.Balances
import DoubleEntry.Report.Months
import DoubleEntry.Report.TrialBalance
import Mathlib.Data.List.Perm.Basic

/-! # Reports and the order of the books

The reports list accounts by their names and months by their dates, and all that
they show of an account is a balance or a sum. So it does not matter in which
order the accounts were opened, nor in which order entries stand in a history.
-/

namespace DoubleEntry

/-- Two accounts that are the same but for the order of their histories. -/
structure Account.Reordered (a b : Account) : Prop where
  name : a.name = b.name
  category : a.category = b.category
  opening : a.opening = b.opening
  closing : a.closing = b.closing
  span : a.span = b.span
  history : a.history.Perm b.history

/-- Two ledgers that are the same but for the order of their accounts and of the
    histories of these. -/
structure Ledger.Reordered (x y : Ledger) : Prop where
  start : x.start = y.start
  finish : x.finish = y.finish
  accounts : ∃ accounts, x.accounts.Perm accounts ∧
    List.Forall₂ Account.Reordered accounts y.accounts

/-! ## Accounts in another order -/

theorem Row.ofLegs_perm (account : String) {legs others : List Leg} (h : legs.Perm others) :
    ofLegs account legs = ofLegs account others := by
  unfold ofLegs
  rw [(h.map _).sum_eq, (h.map fun leg => creditOf leg.amount.signed).sum_eq]

theorem flatMap_perm_of_forall₂ {α β : Type} {R : α → α → Prop} {f : α → List β}
    {items others : List α} (h : List.Forall₂ R items others)
    (hsame : ∀ a b, R a b → (f a).Perm (f b)) : (items.flatMap f).Perm (others.flatMap f) := by
  induction h with
  | nil => exact .nil
  | cons hab _ ih =>
      rw [List.flatMap_cons, List.flatMap_cons]
      exact (hsame _ _ hab).append ih

namespace Account.Reordered

variable {a b : Account}

theorem legsIn (h : a.Reordered b) : a.legsIn = b.legsIn := by
  funext entry
  rw [Account.legsIn, Account.legsIn, h.name]

theorem ownLegs (h : a.Reordered b) : a.ownLegs.Perm b.ownLegs := by
  rw [Account.ownLegs, Account.ownLegs, h.legsIn]
  exact h.history.flatMap_right b.legsIn

theorem openingRow (h : a.Reordered b) : a.openingRow = b.openingRow := by
  rw [Account.openingRow, Account.openingRow, h.name, h.opening]

theorem transactionRow (h : a.Reordered b) : a.transactionRow = b.transactionRow := by
  rw [Account.transactionRow, Account.transactionRow, h.name, Row.ofLegs_perm _ h.ownLegs]

theorem closingRow (h : a.Reordered b) : a.closingRow = b.closingRow := by
  rw [Account.closingRow, Account.closingRow, h.name, h.closing]

theorem movements (h : a.Reordered b) :
    (Movement.ofAccount a).Perm (Movement.ofAccount b) := by
  unfold Movement.ofAccount
  rw [h.name, h.legsIn]
  exact h.history.flatMap_right _

end Account.Reordered

/-! ## The order of the reports -/

theorem Movement.rows_perm {movements others : List Movement} (h : movements.Perm others) :
    rows movements = rows others := by
  unfold rows
  rw [Ascending.ofList_perm (h.map _)]
  refine List.map_congr_left fun name _ => ?_
  exact Row.ofLegs_perm name ((h.filter _).map _)

theorem TrialBalance.row_of_mem_columns {ledger : Ledger} {kind : TrialBalance} {column : Column}
    (h : column ∈ kind.columns ledger) :
    column.row = Account.openingRow ∨ column.row = Account.transactionRow ∨
      column.row = Account.closingRow := by
  cases kind <;> simp only [columns, List.mem_cons, List.not_mem_nil, or_false] at h
  case opening => exact .inl (h ▸ rfl)
  case closing => exact .inr (.inr (h ▸ rfl))
  case openingClosing =>
    rcases h with rfl | rfl
    · exact .inl rfl
    · exact .inr (.inr rfl)
  case full =>
    rcases h with rfl | rfl | rfl
    · exact .inl rfl
    · exact .inr (.inl rfl)
    · exact .inr (.inr rfl)

namespace Ledger

variable {x y : Ledger}

theorem Reordered.names (h : x.Reordered y) :
    (Account.names x.accounts).Perm (Account.names y.accounts) := by
  obtain ⟨accounts, hperm, hsame⟩ := h.accounts
  have hnames : Account.names accounts = Account.names y.accounts :=
    map_eq_of_forall₂ hsame fun _ _ => Account.Reordered.name
  exact hnames ▸ hperm.map Account.name

/-- Sorted by their names, the accounts of two such ledgers correspond. There is only
    one way to sort accounts of distinct names. -/
theorem Reordered.sorted (distinct : (Account.names x.accounts).Nodup) (h : x.Reordered y) :
    List.Forall₂ Account.Reordered x.sorted y.sorted := by
  obtain ⟨accounts, hperm, hsame⟩ := h.accounts
  obtain ⟨others, hothers, hperm'⟩ :=
    List.perm_comp_forall₂ (x.sorted_perm.trans hperm) hsame
  have hnames : Account.names x.sorted = Account.names others :=
    map_eq_of_forall₂ hothers fun _ _ => Account.Reordered.name
  have hother : (Account.names others).Pairwise fun a b => Bytes.ofText a < Bytes.ofText b :=
    hnames ▸ ascending_sorted distinct
  have hsorted : (Account.names y.sorted).Pairwise fun a b => Bytes.ofText a < Bytes.ofText b :=
    ascending_sorted (h.names.nodup_iff.1 distinct)
  rw [Account.names, List.pairwise_map] at hother hsorted
  have hone : others = y.sorted :=
    (hperm'.trans y.sorted_perm.symm).eq_of_pairwise
      (fun _ _ _ _ hab hba => absurd hba (List.lt_asymm hab)) hother hsorted
  exact hone ▸ hothers

theorem Reordered.movements (h : x.Reordered y) : x.movements.Perm y.movements := by
  obtain ⟨accounts, hperm, hsame⟩ := h.accounts
  exact (hperm.flatMap_right Movement.ofAccount).trans
    (flatMap_perm_of_forall₂ hsame fun _ _ => Account.Reordered.movements)

theorem Reordered.map_sorted {α : Type} {shown : Account → α}
    (distinct : (Account.names x.accounts).Nodup) (h : x.Reordered y)
    (hsame : ∀ a b : Account, a.Reordered b → shown a = shown b) :
    x.sorted.map shown = y.sorted.map shown :=
  map_eq_of_forall₂ (h.sorted distinct) hsame

theorem Reordered.balances (distinct : (Account.names x.accounts).Nodup) (h : x.Reordered y) :
    x.balances = y.balances := by
  have htexts : x.balanceTexts = y.balanceTexts :=
    h.map_sorted distinct fun a b hab => by rw [hab.name, hab.closing]
  rw [Ledger.balances, Ledger.balances, htexts]

theorem Reordered.trialBalance (distinct : (Account.names x.accounts).Nodup) (h : x.Reordered y)
    (kind : TrialBalance) : x.trialBalance kind = y.trialBalance kind := by
  have hcolumns : kind.columns x = kind.columns y := by
    cases kind <;> simp only [TrialBalance.columns, h.start, h.finish]
  have hrow {column : TrialBalance.Column} (hcolumn : column ∈ kind.columns y) (a b : Account)
      (hab : a.Reordered b) : column.row a = column.row b := by
    rcases TrialBalance.row_of_mem_columns hcolumn with hrow | hrow | hrow
    · rw [hrow, hab.openingRow]
    · rw [hrow, hab.transactionRow]
    · rw [hrow, hab.closingRow]
  have hlines : x.sorted.map (fun a => a.name :: (kind.columns y).flatMap (·.cell a)) =
      y.sorted.map fun a => a.name :: (kind.columns y).flatMap (·.cell a) := by
    refine h.map_sorted distinct fun a b hab => ?_
    rw [hab.name]
    refine congrArg (b.name :: ·) (List.flatMap_congr fun column hcolumn => ?_)
    rw [TrialBalance.Column.cell, hrow hcolumn a b hab]
    rfl
  have htotals : (kind.columns y).flatMap (·.totals x.sorted) =
      (kind.columns y).flatMap (·.totals y.sorted) := by
    refine List.flatMap_congr fun column hcolumn => ?_
    rw [TrialBalance.Column.totals, h.map_sorted distinct (hrow hcolumn)]
    rfl
  have htable : kind.table x = kind.table y := by
    unfold TrialBalance.table
    dsimp only
    rw [hcolumns, hlines, htotals]
  rw [Ledger.trialBalance, Ledger.trialBalance, htable]

theorem Reordered.months (h : x.Reordered y) : x.months = y.months := by
  have hrows : x.monthRows = y.monthRows := by
    unfold monthRows
    dsimp only
    rw [Ascending.ofList_perm (h.movements.map (·.month))]
    refine List.map_congr_left fun month _ => ?_
    have hmonth : (Movement.inMonth month x.movements).Perm (Movement.inMonth month y.movements) :=
      h.movements.filter _
    rw [Movement.rows_perm hmonth]
  rw [Ledger.months, Ledger.months, hrows]

/-- The reports of two ledgers are the same if nothing but the order of their accounts
    and of the entries in the histories differs. -/
theorem reports_of_reordered (distinct : (Account.names x.accounts).Nodup) (h : x.Reordered y) :
    x.openingRows = y.openingRows ∧ x.transactionRows = y.transactionRows ∧
      x.closingRows = y.closingRows ∧ x.balances = y.balances ∧
      (∀ kind, x.trialBalance kind = y.trialBalance kind) ∧ x.months = y.months := by
  refine ⟨?_, ?_, ?_, h.balances distinct, h.trialBalance distinct, h.months⟩
  · exact h.map_sorted distinct fun _ _ => Account.Reordered.openingRow
  · exact h.map_sorted distinct fun _ _ => Account.Reordered.transactionRow
  · exact h.map_sorted distinct fun _ _ => Account.Reordered.closingRow

/-- The ledger with its accounts and all their histories from last to first. -/
def reversed (ledger : Ledger) : Ledger :=
  { ledger with
    accounts := (ledger.accounts.map fun a => { a with history := a.history.reverse }).reverse }

theorem reordered_reversed (ledger : Ledger) : ledger.Reordered ledger.reversed := by
  refine ⟨rfl, rfl, ledger.accounts.reverse, (List.reverse_perm _).symm, ?_⟩
  rw [reversed, ← List.map_reverse, List.forall₂_map_right_iff, List.forall₂_same]
  exact fun a _ => ⟨rfl, rfl, rfl, rfl, rfl, (List.reverse_perm _).symm⟩

/-- Two accounts that do not stand in the order of their names, and entries in two
    months. -/
def twoMonths : Ledger :=
  let span := Span.startOf "main.ledger"
  let sale : Entry := ⟨⟨2020, 1, 31, by decide⟩,
    [⟨"ASSETS/Cash", ⟨10, .debit⟩, span⟩, ⟨"INCOMES/Sales", ⟨10, .credit⟩, span⟩], span⟩
  let refund : Entry := ⟨⟨2020, 2, 1, by decide⟩,
    [⟨"INCOMES/Sales", ⟨3, .debit⟩, span⟩, ⟨"ASSETS/Cash", ⟨3, .credit⟩, span⟩], span⟩
  { start := some ⟨2020, 1, 31, by decide⟩
    finish := some ⟨2020, 2, 1, by decide⟩
    accounts :=
      [⟨"INCOMES/Sales", .incomes, ⟨0, .credit⟩, ⟨7, .credit⟩, [sale, refund], span⟩,
       ⟨"ASSETS/Cash", .assets, ⟨0, .debit⟩, ⟨7, .debit⟩, [sale, refund], span⟩] }

theorem reports_of_reordered_twoMonths :
    (Account.names twoMonths.accounts).Nodup ∧ twoMonths.Reordered twoMonths.reversed ∧
      twoMonths.accounts ≠ twoMonths.reversed.accounts ∧
      twoMonths.openingRows = twoMonths.reversed.openingRows ∧
      twoMonths.transactionRows = twoMonths.reversed.transactionRows ∧
      twoMonths.closingRows = twoMonths.reversed.closingRows ∧
      twoMonths.balances = twoMonths.reversed.balances ∧
      (∀ kind, twoMonths.trialBalance kind = twoMonths.reversed.trialBalance kind) ∧
      twoMonths.months = twoMonths.reversed.months :=
  ⟨by decide, reordered_reversed twoMonths, by decide,
    reports_of_reordered (by decide) (reordered_reversed twoMonths)⟩

end Ledger

/-! ## Drafts in another order -/

/-- Two drafts that are the same but for the order of the accounts and of the entries. -/
structure Draft.Reordered (d e : Draft) : Prop where
  start : d.chart.start = e.chart.start
  finish : d.finish = e.finish
  accounts : d.chart.accounts.Perm e.chart.accounts
  pending : d.pending.Perm e.pending

namespace Account

variable {a b c : Account}

theorem reordered_posted (a : Account) {pending others : List Entry} (h : pending.Perm others) :
    (a.posted pending).Reordered (a.posted others) :=
  ⟨rfl, rfl, rfl, rfl, rfl, (h.filter _).append_left a.history⟩

theorem Reordered.balance (h : a.Reordered b) : a.balance = b.balance := by
  have hsum : Leg.sum a.ownLegs = Leg.sum b.ownLegs := (h.ownLegs.map _).sum_eq
  rw [Account.balance, Account.balance, h.opening, hsum]

theorem Closes.reordered (h : a.Closes c) (hab : a.Reordered b) :
    ∃ d, b.Closes d ∧ c.Reordered d := by
  obtain ⟨amount, hamount, rfl⟩ := h
  refine ⟨_, ⟨amount, hab.balance ▸ hamount, rfl⟩, ?_⟩
  exact ⟨hab.name, hab.category, hab.opening, by rw [hab.category], hab.span, hab.history⟩

theorem closes_reordered {accounts others closed : List Account}
    (h : List.Forall₂ Closes accounts closed) (hsame : List.Forall₂ Reordered accounts others) :
    ∃ out, List.Forall₂ Closes others out ∧ List.Forall₂ Reordered closed out := by
  induction h generalizing others with
  | nil =>
      cases hsame
      exact ⟨[], .nil, .nil⟩
  | cons hclose _ ih =>
      cases hsame with
      | cons hab hrest =>
          obtain ⟨d, hd, hcd⟩ := hclose.reordered hab
          obtain ⟨out, hout, hsame⟩ := ih hrest
          exact ⟨d :: out, .cons hd hout, .cons hcd hsame⟩

end Account

/-- A check does not depend on the order either, but for the order of its result. -/
theorem Draft.Reordered.check {d e : Draft} {ledger : Ledger} (unposted : d.chart.Unposted)
    (h : d.Reordered e) (hok : d.check = .ok ledger) :
    ∃ other, e.check = .ok other ∧ ledger.Reordered other := by
  have hnames : (Account.names d.chart.accounts).Perm (Account.names e.chart.accounts) :=
    h.accounts.map Account.name
  have unposted' : e.chart.Unposted := by
    refine ⟨hnames.nodup_iff.1 unposted.distinct, fun a ha => ?_⟩
    exact unposted.blank a (h.accounts.mem_iff.2 ha)
  obtain ⟨level, sound, closed, hclosed, rfl⟩ := (check_eq_ok unposted).1 hok
  have level' : Account.total (·.opening) e.chart.accounts = 0 :=
    (h.accounts.map _).sum_eq.symm.trans level
  have sound' : ∀ entry ∈ e.pending, entry.Sound (Account.names e.chart.accounts) := by
    intro entry hentry
    obtain ⟨known, balanced⟩ := sound entry (h.pending.mem_iff.2 hentry)
    exact ⟨fun leg hleg => hnames.mem_iff.1 (known leg hleg), balanced⟩
  obtain ⟨shuffled, hshuffled, hperm⟩ :=
    List.perm_comp_forall₂ (h.accounts.symm.map (Account.posted d.pending)) hclosed
  have hposted : List.Forall₂ Account.Reordered (e.chart.accounts.map (Account.posted d.pending))
      (e.chart.accounts.map (Account.posted e.pending)) := by
    rw [List.forall₂_map_left_iff, List.forall₂_map_right_iff, List.forall₂_same]
    exact fun a _ => a.reordered_posted h.pending
  obtain ⟨out, hout, hsame⟩ := Account.closes_reordered hshuffled hposted
  refine ⟨⟨e.chart.start, e.finish, out⟩, ?_, h.start, h.finish, shuffled, hperm.symm, hsame⟩
  exact (check_eq_ok unposted').2 ⟨level', sound', out, hout, rfl⟩

end DoubleEntry
