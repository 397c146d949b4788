import DoubleEntry.Proofs.Month
import DoubleEntry.Proofs.Report.Layout
import DoubleEntry.Proofs.Report.Row
import DoubleEntry.Proofs.Written
import DoubleEntry.Report.Months

/-! # The months of a ledger

Every leg of a ledger stands in the history of its account, under the month of
its entry. The report of months groups the legs by month and by account. Within
a month debits and credits come to the same, since an entry belongs to one month
as a whole, and over all months each account comes to the sums of its row of
transactions.
-/

namespace DoubleEntry

namespace Account

/-- The legs on the account in the entries of a month. -/
def legsOf (a : Account) (m : Month) : List Leg :=
  (a.history.filter fun entry => Month.ofDate entry.date = m).flatMap a.legsIn

/-- The account has a leg in an entry of the month. -/
def MovesIn (a : Account) (m : Month) : Prop :=
  ∃ entry ∈ a.history, Month.ofDate entry.date = m ∧ ∃ leg ∈ entry.legs, leg.account = a.name

instance (a : Account) (m : Month) : Decidable (a.MovesIn m) :=
  inferInstanceAs (Decidable (∃ entry ∈ a.history, _))

end Account

theorem sum_flatMap {α : Type} (f : α → List Int) (items : List α) :
    (items.flatMap f).sum = (items.map fun item => (f item).sum).sum := by
  rw [List.flatMap_def, List.sum_flatten, List.map_map]
  rfl

theorem Leg.sum_flatMap {α : Type} (f : α → List Leg) (items : List α) :
    sum (items.flatMap f) = (items.map fun item => sum (f item)).sum := by
  rw [sum, List.map_flatMap, DoubleEntry.sum_flatMap]
  rfl

namespace Row

/-- What is shown of a row of legs adds up what each leg contributes. -/
def Shows (shown : Row → Int) (part : Leg → Int) : Prop :=
  ∀ name legs, shown (.ofLegs name legs) = (legs.map part).sum

theorem shows_debit : Shows debit fun leg => debitOf leg.amount.signed := fun _ _ => rfl

theorem shows_credit : Shows credit fun leg => creditOf leg.amount.signed := fun _ _ => rfl

end Row

/-! ## Movements by month and by account -/

namespace Movement

theorem legs_ofAccount (a : Account) (p : String → Bool) :
    ((ofAccount a).filter fun movement => p movement.month).map (·.leg) =
      (a.history.filter fun entry => p entry.date.monthText).flatMap a.legsIn := by
  unfold ofAccount
  induction a.history with
  | nil => rfl
  | cons entry rest ih =>
      rw [List.flatMap_cons, List.filter_append, List.map_append, ih, List.filter_cons,
        List.filter_map]
      split
      · next h => simp [h, Function.comp_def]
      · next h => simp [h, Function.comp_def]

theorem mem_ofAccount {a : Account} {movement : Movement} :
    movement ∈ ofAccount a ↔ ∃ entry ∈ a.history, ∃ leg ∈ entry.legs, leg.account = a.name ∧
      ⟨entry.date.monthText, a.name, leg⟩ = movement := by
  simp only [ofAccount, Account.legsIn, List.mem_flatMap, List.mem_map, List.mem_filter,
    decide_eq_true_eq, and_assoc]

/-- Among accounts of distinct names, the movements under a name are those of its
    account. -/
theorem filter_account {accounts : List Account} (distinct : (Account.names accounts).Nodup)
    {a : Account} (ha : a ∈ accounts) :
    (accounts.flatMap ofAccount).filter (·.account = a.name) = ofAccount a := by
  have named {b : Account} {movement : Movement} (h : movement ∈ ofAccount b) :
      movement.account = b.name := by
    obtain ⟨entry, -, leg, -, -, rfl⟩ := mem_ofAccount.1 h
    rfl
  have others {b : Account} (h : b.name ≠ a.name) :
      (ofAccount b).filter (·.account = a.name) = [] :=
    List.filter_eq_nil_iff.2 fun movement hmovement => by simp [named hmovement, h]
  have own : (ofAccount a).filter (·.account = a.name) = ofAccount a :=
    List.filter_eq_self.2 fun movement hmovement => by simp [named hmovement]
  rw [List.filter_flatMap]
  induction accounts with
  | nil => cases ha
  | cons b rest ih =>
      obtain ⟨hb, hrest⟩ := List.nodup_cons.1 distinct
      rw [List.flatMap_cons]
      rcases List.mem_cons.1 ha with rfl | ha
      · have hnone : rest.flatMap (fun b => (ofAccount b).filter (·.account = a.name)) = [] :=
          List.flatMap_eq_nil_iff.2 fun c hc => others fun hsame =>
            hb (List.mem_map.2 ⟨c, hc, hsame⟩)
        rw [own, hnone, List.append_nil]
      · have hne : b.name ≠ a.name := fun hsame => hb (List.mem_map.2 ⟨a, ha, hsame.symm⟩)
        rw [others hne, List.nil_append, ih hrest ha]

/-! ## The rows of some movements -/

theorem accounts_rows (movements : List Movement) :
    (rows movements).map (·.account) = Ascending.ofList (movements.map (·.account)) := by
  rw [rows, List.map_map]
  exact List.map_id _

theorem forall_account_mem (movements : List Movement) :
    ∀ movement ∈ movements, movement.account ∈ Ascending.ofList (movements.map (·.account)) :=
  fun _ h => Ascending.mem_ofList.2 (List.mem_map_of_mem h)

theorem even_rows {movements : List Movement} (h : Leg.sum (movements.map (·.leg)) = 0) :
    Row.Even (rows movements) := by
  have hkeys := sum_by_key Movement.account (fun movement => movement.leg.amount.signed)
    (Ascending.nodup_ofList (movements.map (·.account))) (forall_account_mem movements)
  rw [Row.even_iff, rows, List.map_map, ← h, Leg.sum, List.map_map]
  refine Eq.trans (congrArg List.sum (List.map_congr_left fun name _ => ?_)) hkeys
  rw [Function.comp_apply, Row.net_ofLegs, Leg.sum, List.map_map]
  rfl

theorem sum_rows {shown : Row → Int} {part : Leg → Int} (shows : Row.Shows shown part)
    (movements : List Movement) (name : String) :
    (((rows movements).filter (·.account = name)).map shown).sum =
      ((movements.filter (·.account = name)).map (part ·.leg)).sum := by
  let names := Ascending.ofList (movements.map (·.account))
  have hrows : (rows movements).filter (·.account = name) =
      (names.filter (· = name)).map fun name =>
        .ofLegs name ((movements.filter (·.account = name)).map (·.leg)) := by
    rw [rows, List.filter_map]
    rfl
  rw [hrows]
  by_cases hname : name ∈ names
  · have hone : names.filter (· = name) = [name] := by
      rw [List.filter_eq, List.count_eq_one_of_mem (Ascending.nodup_ofList _) hname]
      rfl
    rw [hone, List.map_singleton, List.map_singleton, shows, List.map_map]
    exact Int.add_zero _
  · have hnone : names.filter (· = name) = [] :=
      List.filter_eq_nil_iff.2 fun other hother hsame => hname (of_decide_eq_true hsame ▸ hother)
    have hmovements : movements.filter (·.account = name) = [] :=
      List.filter_eq_nil_iff.2 fun movement hmovement hsame =>
        hname (of_decide_eq_true hsame ▸ forall_account_mem movements movement hmovement)
    rw [hnone, hmovements]
    rfl

end Movement

/-! ## The sections of the report -/

namespace Ledger

variable {ledger : Ledger} {pending : List Entry}

theorem legs_inMonth (h : ledger.Holds pending) {a : Account} (ha : a ∈ ledger.accounts)
    (month : String) :
    ((Movement.inMonth month ledger.movements).filter (·.account = a.name)).map (·.leg) =
      (a.history.filter fun entry => entry.date.monthText = month).flatMap a.legsIn := by
  rw [Movement.inMonth, List.filter_comm, movements, Movement.filter_account h.distinct ha]
  exact Movement.legs_ofAccount a fun text => text = month

theorem sum_inMonth (h : ledger.Holds pending) (month : String) :
    Leg.sum ((Movement.inMonth month ledger.movements).map (·.leg)) = 0 := by
  have hzero := h.sum_movement fun entry => entry.date.monthText = month
  rw [Movement.inMonth, movements, List.filter_flatMap, List.map_flatMap, Leg.sum_flatMap, ← hzero]
  refine congrArg List.sum (List.map_congr_left fun a _ => congrArg Leg.sum ?_)
  exact Movement.legs_ofAccount a fun text => text = month

theorem mem_movements {movement : Movement} :
    movement ∈ ledger.movements ↔
      ∃ a ∈ ledger.accounts, ∃ entry ∈ a.history, ∃ leg ∈ entry.legs, leg.account = a.name ∧
        ⟨entry.date.monthText, a.name, leg⟩ = movement := by
  simp only [movements, List.mem_flatMap, Movement.mem_ofAccount]

/-- What is shown of an account over all months comes to what its legs come to. -/
theorem sum_monthRows {shown : Row → Int} {part : Leg → Int} (shows : Row.Shows shown part)
    (h : ledger.Holds pending) {a : Account} (ha : a ∈ ledger.accounts) :
    (((ledger.monthRows.flatMap (·.2)).filter (·.account = a.name)).map shown).sum =
      (a.ownLegs.map part).sum := by
  have hown : ledger.movements.filter (·.account = a.name) = Movement.ofAccount a :=
    Movement.filter_account h.distinct ha
  have known : ∀ movement ∈ Movement.ofAccount a,
      movement.month ∈ Ascending.ofList (ledger.movements.map (·.month)) := by
    intro movement hmovement
    rw [← hown] at hmovement
    exact Ascending.mem_ofList.2 (List.mem_map_of_mem (List.mem_of_mem_filter hmovement))
  have hmonths := sum_by_key Movement.month (fun movement => part movement.leg)
    (Ascending.nodup_ofList (ledger.movements.map (·.month))) known
  calc
    _ = ((Ascending.ofList (ledger.movements.map (·.month))).map fun month =>
          (((Movement.ofAccount a).filter (·.month = month)).map (part ·.leg)).sum).sum := by
      rw [monthRows, List.flatMap_map, List.filter_flatMap, List.map_flatMap, sum_flatMap]
      refine congrArg List.sum (List.map_congr_left fun month _ => ?_)
      rw [Movement.sum_rows shows, Movement.inMonth, List.filter_comm, hown]
    _ = ((Movement.ofAccount a).map (part ·.leg)).sum := hmonths
    _ = (a.ownLegs.map part).sum := by
      have hlegs := Movement.legs_ofAccount a fun _ => true
      rw [List.filter_true, List.filter_true] at hlegs
      rw [Account.ownLegs, ← hlegs, List.map_map]
      rfl

/-! ## Months of the calendar -/

/-- The entries in the histories of the ledger have years of four digits. -/
def Dated (ledger : Ledger) : Prop :=
  ∀ a ∈ ledger.accounts, ∀ entry ∈ a.history, (Month.ofDate entry.date).Short

theorem monthText_eq_iff (dated : ledger.Dated) {a : Account} (ha : a ∈ ledger.accounts)
    {m : Month} (hm : m.Short) {entry : Entry} (hentry : entry ∈ a.history) :
    entry.date.monthText = m.text ↔ Month.ofDate entry.date = m :=
  Month.text_inj (dated a ha entry hentry) hm

theorem legsOf_eq (dated : ledger.Dated) {a : Account} (ha : a ∈ ledger.accounts) {m : Month}
    (hm : m.Short) :
    (a.history.filter fun entry => entry.date.monthText = m.text).flatMap a.legsIn =
      a.legsOf m :=
  congrArg (List.flatMap a.legsIn) (List.filter_congr fun _ hentry =>
    decide_eq_decide.2 (monthText_eq_iff dated ha hm hentry))

theorem exists_movement_iff (dated : ledger.Dated) {m : Month} (hm : m.Short) {name : String} :
    (∃ movement ∈ ledger.movements, movement.month = m.text ∧ movement.account = name) ↔
      ∃ a ∈ ledger.accounts, a.name = name ∧ a.MovesIn m := by
  constructor
  · rintro ⟨movement, hmem, hmonth, rfl⟩
    obtain ⟨a, ha, entry, hentry, leg, hleg, haccount, rfl⟩ := mem_movements.1 hmem
    have hdate := (monthText_eq_iff dated ha hm hentry).1 hmonth
    exact ⟨a, ha, rfl, entry, hentry, hdate, leg, hleg, haccount⟩
  · rintro ⟨a, ha, rfl, entry, hentry, hdate, leg, hleg, haccount⟩
    have hmem := mem_movements.2 ⟨a, ha, entry, hentry, leg, hleg, haccount, rfl⟩
    exact ⟨_, hmem, (monthText_eq_iff dated ha hm hentry).2 hdate, rfl⟩

/-- What the section of a month shows: a row for each account that moves in it, in
    the order of their names, with the debits and credits of the month. -/
structure Section (ledger : Ledger) (m : Month) (rows : List Row) : Prop where
  ascending : (rows.map (·.account)).Pairwise fun a b => Bytes.ofText a < Bytes.ofText b
  accounts : ∀ name, name ∈ rows.map (·.account) ↔
    ∃ a ∈ ledger.accounts, a.name = name ∧ a.MovesIn m
  sums : ∀ row ∈ rows, ∀ a ∈ ledger.accounts, a.name = row.account →
    row = .ofLegs a.name (a.legsOf m)
  even : Row.Even rows

theorem section_of_short (h : ledger.Holds pending) (dated : ledger.Dated) {m : Month}
    (hm : m.Short) :
    ledger.Section m (Movement.rows (Movement.inMonth m.text ledger.movements)) where
  ascending := by
    rw [Movement.accounts_rows]
    exact (Ascending.pairwise_ofList _).imp Bytes.ofText_lt.2
  accounts name := by
    rw [Movement.accounts_rows, Ascending.mem_ofList, ← exists_movement_iff dated hm]
    simp only [Movement.inMonth, List.mem_map, List.mem_filter, decide_eq_true_eq, and_assoc]
  sums row hrow a ha hname := by
    obtain ⟨name, -, rfl⟩ := List.mem_map.1 hrow
    obtain rfl : a.name = name := hname
    rw [legs_inMonth h ha, legsOf_eq dated ha hm]
  even := Movement.even_rows (sum_inMonth h m.text)

theorem exists_texts (dated : ledger.Dated) : ∃ months : List Month,
    months.map Month.text = Ascending.ofList (ledger.movements.map (·.month)) ∧
      ∀ m ∈ months, m.Short := by
  have written : ∀ text ∈ Ascending.ofList (ledger.movements.map (·.month)),
      ∃ m : Month, m.text = text ∧ m.Short := by
    intro text htext
    obtain ⟨movement, hmovement, rfl⟩ := List.mem_map.1 (Ascending.mem_ofList.1 htext)
    obtain ⟨a, ha, entry, hentry, leg, -, -, rfl⟩ := mem_movements.1 hmovement
    exact ⟨Month.ofDate entry.date, rfl, dated a ha entry hentry⟩
  have : Nonempty Month := ⟨⟨0, 0⟩⟩
  choose! month hmonth using written
  refine ⟨(Ascending.ofList (ledger.movements.map (·.month))).map month, ?_, ?_⟩
  · rw [List.map_map]
    exact (List.map_congr_left fun text htext => (hmonth text htext).1).trans (List.map_id _)
  · exact List.forall_mem_map.2 fun text htext => (hmonth text htext).2

theorem mem_months_iff (dated : ledger.Dated) {m : Month} (hm : m.Short) :
    m.text ∈ ledger.movements.map (·.month) ↔ ∃ a ∈ ledger.accounts, a.MovesIn m := by
  constructor
  · intro htext
    obtain ⟨movement, hmem, hmonth⟩ := List.mem_map.1 htext
    obtain ⟨a, ha, -, hmoves⟩ := (exists_movement_iff dated hm).1 ⟨movement, hmem, hmonth, rfl⟩
    exact ⟨a, ha, hmoves⟩
  · rintro ⟨a, ha, hmoves⟩
    obtain ⟨movement, hmem, hmonth, -⟩ := (exists_movement_iff dated hm).2 ⟨a, ha, rfl, hmoves⟩
    exact List.mem_map.2 ⟨movement, hmem, hmonth⟩

theorem table_months (named : ∀ a ∈ ledger.accounts, Layout.Plain a.name) :
    Layout.table ledger.months =
      ledger.monthRows.flatMap fun (month, rows) => monthLines month rows := by
  have hlines : ∀ line ∈ ledger.monthRows.flatMap fun (month, rows) => monthLines month rows,
      line ≠ [] ∧ ∀ f ∈ line, Layout.Plain f := by
    intro line hline
    obtain ⟨_, hsection, hline⟩ := List.mem_flatMap.1 hline
    obtain ⟨text, htext, rfl⟩ := List.mem_map.1 hsection
    rcases List.mem_cons.1 hline with rfl | hline
    · obtain ⟨movement, hmovement, rfl⟩ := List.mem_map.1 (Ascending.mem_ofList.1 htext)
      obtain ⟨a, -, entry, -, leg, -, -, rfl⟩ := mem_movements.1 hmovement
      refine ⟨List.cons_ne_nil _ _, List.forall_mem_cons.2 ⟨Layout.plain_monthText _, ?_⟩⟩
      decide
    · obtain ⟨row, hrow, rfl⟩ := List.mem_map.1 hline
      refine ⟨List.cons_ne_nil _ _, List.forall_mem_cons.2 ⟨?_, Layout.plain_money _ _⟩⟩
      have hname : row.account ∈ (Movement.rows (Movement.inMonth text ledger.movements)).map
          (·.account) := List.mem_map_of_mem hrow
      rw [Movement.accounts_rows, Ascending.mem_ofList] at hname
      obtain ⟨movement, hmovement, hsame⟩ := List.mem_map.1 hname
      obtain ⟨a, ha, entry, -, leg, -, -, rfl⟩ :=
        mem_movements.1 (List.mem_of_mem_filter hmovement)
      exact hsame ▸ named a ha
  exact Layout.table_lines (fun line hline => (hlines line hline).1) fun line hline =>
    (hlines line hline).2

theorem dated_of_read {files : Files} {root : String} (h : (read files root).result = .ok ledger) :
    ledger.Dated := by
  intro a ha entry hentry
  exact ((read_isWritten h a ha).2 entry hentry).month_short

/-- The months in which accounts move, as the report has them. -/
theorem exists_months (dated : ledger.Dated) : ∃ months : List Month,
    months.map Month.text = Ascending.ofList (ledger.movements.map (·.month)) ∧
      (∀ m ∈ months, m.Short) ∧ months.Pairwise Month.Before ∧
      ∀ m, m ∈ months ↔ ∃ a ∈ ledger.accounts, a.MovesIn m := by
  obtain ⟨months, htexts, hshort⟩ := exists_texts dated
  have hmem (text : String) :
      text ∈ months.map Month.text ↔ text ∈ ledger.movements.map (·.month) := by
    rw [htexts, Ascending.mem_ofList]
  refine ⟨months, htexts, hshort, ?_, fun m => ⟨?_, ?_⟩⟩
  · have hascending : (months.map Month.text).Pairwise (· < ·) :=
      htexts ▸ Ascending.pairwise_ofList _
    exact (List.pairwise_map.1 hascending).imp_of_mem fun hm hn hlt =>
      (Month.text_lt_text (hshort _ hm) (hshort _ hn)).1 hlt
  · intro hm
    exact (mem_months_iff dated (hshort m hm)).1 ((hmem _).1 (List.mem_map_of_mem hm))
  · intro hmoves
    obtain ⟨a, ha, entry, hentry, rfl, -⟩ := id hmoves
    have hdate := dated a ha entry hentry
    obtain ⟨m, hm, hsame⟩ := List.mem_map.1 ((hmem _).2 ((mem_months_iff dated hdate).2 hmoves))
    rwa [← (Month.text_inj (hshort m hm) hdate).1 hsame]

/-- Books of two months. -/
def winterFiles : Files := .inMemory [("main",
  "open ledger 100 ASSETS/Cash 100 CAPITAL/Own 0 EXPENSES/Rent\n" ++
    "2020-01-31 5 EXPENSES/Rent -5 ASSETS/Cash\n2020-02-01 -2 EXPENSES/Rent 2 ASSETS/Cash\n")]

end Ledger

end DoubleEntry
