import DoubleEntry.Proofs.Bytes
import DoubleEntry.Proofs.Checking
import DoubleEntry.Report.Row

/-! # Rows that add up

What a row holds as a debit and as a credit differs by what moves its account. A
column of rows is therefore even exactly if the movements of all accounts add up
to zero, in whatever order the rows stand.
-/

namespace DoubleEntry

namespace Row

/-- The debits of the rows add up to as much as the credits. -/
def Even (rows : List Row) : Prop := debits rows = credits rows

/-- What the debit of a row has over its credit. -/
def net (row : Row) : Int := row.debit - row.credit

theorem debitOf_sub_creditOf (signed : Int) : debitOf signed - creditOf signed = signed := by
  unfold debitOf creditOf
  omega

theorem net_ofBalance (account : String) (signed : Int) : (ofBalance account signed).net = signed :=
  debitOf_sub_creditOf signed

theorem net_ofLegs (account : String) (legs : List Leg) : (ofLegs account legs).net = Leg.sum legs := by
  unfold net ofLegs
  induction legs with
  | nil => rfl
  | cons leg legs ih =>
      have hleg := debitOf_sub_creditOf leg.amount.signed
      simp only [List.map_cons, List.sum_cons, Leg.sum_cons] at ih ⊢
      omega

theorem even_iff {rows : List Row} : Even rows ↔ (rows.map net).sum = 0 := by
  have hnet : (rows.map net).sum = debits rows - credits rows := by
    unfold debits credits net
    induction rows with
    | nil => rfl
    | cons row rows ih =>
        simp only [List.map_cons, List.sum_cons, ih]
        omega
  rw [hnet, Even]
  omega

end Row

namespace Ledger

theorem sorted_perm (ledger : Ledger) : ledger.sorted.Perm ledger.accounts :=
  List.mergeSort_perm _ _

theorem ascending_sorted {ledger : Ledger} (distinct : (Account.names ledger.accounts).Nodup) :
    (Account.names ledger.sorted).Pairwise fun a b => Bytes.ofText a < Bytes.ofText b := by
  have htrans : ∀ a b c : Account, decide (a.name ≤ b.name) → decide (b.name ≤ c.name) →
      decide (a.name ≤ c.name) := fun a b c hab hbc =>
    decide_eq_true (String.le_trans (of_decide_eq_true hab) (of_decide_eq_true hbc))
  have htotal : ∀ a b : Account, decide (a.name ≤ b.name) || decide (b.name ≤ a.name) := by
    intro a b
    simpa using String.le_total a.name b.name
  have hle : (Account.names ledger.sorted).Pairwise (· ≤ ·) :=
    List.pairwise_map.2 ((List.pairwise_mergeSort htrans htotal ledger.accounts).imp
      of_decide_eq_true)
  have hne : (Account.names ledger.sorted).Nodup :=
    (ledger.sorted_perm.map Account.name).nodup_iff.2 distinct
  refine (hle.and hne).imp fun hab => Bytes.ofText_lt.2 ?_
  exact String.not_le.1 fun hba => hab.2 (String.le_antisymm hab.1 hba)

/-- A column that shows `value` of each account is even if the values of all
    accounts add up to zero. -/
theorem even_map_sorted {ledger : Ledger} {row : Account → Row} {value : Account → Int}
    (net : ∀ a ∈ ledger.accounts, (row a).net = value a)
    (h : (ledger.accounts.map value).sum = 0) : Row.Even (ledger.sorted.map row) := by
  rw [Row.even_iff, List.map_map, (ledger.sorted_perm.map _).sum_eq, ← h]
  exact congrArg List.sum (List.map_congr_left net)

end Ledger

/-! ## Where legs stand in a ledger -/

/-- The accounts have distinct names, and each has in its history the entries with
    a leg on it, which add up to zero. -/
structure Ledger.Holds (ledger : Ledger) (pending : List Entry) : Prop where
  distinct : (Account.names ledger.accounts).Nodup
  sound : ∀ entry ∈ pending, entry.Sound (Account.names ledger.accounts)
  history : ∀ a ∈ ledger.accounts,
    a.history = pending.filter fun entry => ∃ leg ∈ entry.legs, leg.account = a.name

theorem Draft.holds_of_check {d : Draft} {ledger : Ledger} (unposted : d.chart.Unposted)
    (h : d.check = .ok ledger) : ledger.Holds d.pending := by
  obtain ⟨-, sound, -⟩ := (check_eq_ok unposted).1 h
  have hsettles := settles_of_check unposted h
  have hnames := Account.names_of_settles hsettles
  exact ⟨hnames ▸ unposted.distinct, hnames ▸ sound, Account.histories_of_settles hsettles⟩

namespace Ledger.Holds

variable {ledger : Ledger} {pending : List Entry}

/-- The legs on an account in some of the entries are found in its history. -/
theorem legsIn_filter (h : ledger.Holds pending) {a : Account} (ha : a ∈ ledger.accounts)
    (p : Entry → Bool) :
    (a.history.filter p).flatMap a.legsIn =
      ((pending.filter p).flatMap (·.legs)).filter (·.account = a.name) := by
  have htouches : (fun entry : Entry => decide (∃ leg ∈ entry.legs, leg.account = a.name)) =
      (·.touches a.name) := by
    funext entry
    simp [Entry.touches, List.any_eq]
  rw [h.history a ha, htouches, List.filter_comm, ← Account.flatMap_legs_touching]
  rfl

theorem sum_movement (h : ledger.Holds pending) (p : Entry → Bool) :
    (ledger.accounts.map fun a => Leg.sum ((a.history.filter p).flatMap a.legsIn)).sum = 0 := by
  have sound : ∀ entry ∈ pending.filter p, entry.Sound (Account.names ledger.accounts) :=
    fun entry hentry => h.sound entry (List.mem_of_mem_filter hentry)
  have hzero := Entry.sum_movement h.distinct sound
  rw [Account.names, List.map_map] at hzero
  rw [← hzero]
  refine congrArg List.sum (List.map_congr_left fun a ha => ?_)
  rw [h.legsIn_filter ha p]
  rfl

end Ledger.Holds

/-! ## The columns of a ledger -/

theorem Account.total_opening_of_settles {pending : List Entry} {before after : List Account}
    (h : List.Forall₂ (Settles pending) before after) :
    total (·.opening) after = total (·.opening) before := by
  unfold total
  induction h with
  | nil => rfl
  | cons hab _ ih => simp only [List.map_cons, List.sum_cons, hab.opening, ih]

namespace Draft

variable {d : Draft} {ledger : Ledger}

theorem even_openingRows (unposted : d.chart.Unposted) (h : d.check = .ok ledger) :
    Row.Even ledger.openingRows := by
  obtain ⟨level, -, -⟩ := (check_eq_ok unposted).1 h
  have hopening := Account.total_opening_of_settles (settles_of_check unposted h)
  exact Ledger.even_map_sorted (fun _ _ => Row.net_ofBalance _ _) (hopening.trans level)

theorem even_transactionRows (unposted : d.chart.Unposted) (h : d.check = .ok ledger) :
    Row.Even ledger.transactionRows := by
  have hzero := (holds_of_check unposted h).sum_movement fun _ => true
  simp only [List.filter_true] at hzero
  exact Ledger.even_map_sorted (fun _ _ => Row.net_ofLegs _ _) hzero

theorem even_closingRows (unposted : d.chart.Unposted) (h : d.check = .ok ledger) :
    Row.Even ledger.closingRows :=
  Ledger.even_map_sorted (fun _ _ => Row.net_ofBalance _ _) (total_closing_eq_zero unposted h)

end Draft

end DoubleEntry
