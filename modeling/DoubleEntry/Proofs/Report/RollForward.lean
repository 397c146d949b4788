import DoubleEntry.Proofs.Report.Row
import DoubleEntry.Report.Balances
import Mathlib.Algebra.Order.BigOperators.Group.List

/-! # Rolling balances forward

In a ledger that has passed its check, the movements of every account lead from its
opening balance to its closing balance. The rows show this: the lists of opening
balances, of transactions and of closing balances have the same accounts in the
same places, and what a closing row has as a debit over its credit is what the
opening row and the row of transactions have together.
-/

namespace DoubleEntry

/-! ## Rows of one account -/

namespace Row

theorem debitOf_nonneg (signed : Int) : 0 ≤ debitOf signed := Int.le_max_right _ _

theorem creditOf_nonneg (signed : Int) : 0 ≤ creditOf signed := Int.le_max_right _ _

theorem ofBalance_nonneg (account : String) (signed : Int) :
    0 ≤ (ofBalance account signed).debit ∧ 0 ≤ (ofBalance account signed).credit :=
  ⟨debitOf_nonneg signed, creditOf_nonneg signed⟩

theorem ofBalance_oneSided (account : String) (signed : Int) :
    (ofBalance account signed).debit = 0 ∨ (ofBalance account signed).credit = 0 := by
  simp only [ofBalance, debitOf, creditOf]
  omega

theorem ofLegs_nonneg (account : String) (legs : List Leg) :
    0 ≤ (ofLegs account legs).debit ∧ 0 ≤ (ofLegs account legs).credit :=
  ⟨List.sum_nonneg (List.forall_mem_map.2 fun _ _ => debitOf_nonneg _),
    List.sum_nonneg (List.forall_mem_map.2 fun _ _ => creditOf_nonneg _)⟩

end Row

/-- An account with its rows in the three columns. -/
structure RollForward where
  account : Account
  opening : Row
  moved : Row
  closing : Row

namespace RollForward

def ofAccount (a : Account) : RollForward := ⟨a, a.openingRow, a.transactionRow, a.closingRow⟩

/-- The rows are those of the account. Nothing in them is negative, a balance stands
    on one side only, and what was moved leads from the opening balance to the
    closing balance. -/
structure Sound (r : RollForward) : Prop where
  names : ∀ row ∈ [r.opening, r.moved, r.closing], row.account = r.account.name
  nonneg : ∀ row ∈ [r.opening, r.moved, r.closing], 0 ≤ row.debit ∧ 0 ≤ row.credit
  oneSided : ∀ row ∈ [r.opening, r.closing], row.debit = 0 ∨ row.credit = 0
  opens : r.opening.debit - r.opening.credit = r.account.opening.signed
  leads : r.closing.debit - r.closing.credit =
    (r.opening.debit - r.opening.credit) + (r.moved.debit - r.moved.credit)
  closes : r.closing.debit - r.closing.credit = r.account.closing.signed

end RollForward

theorem RollForward.sound_ofAccount {a : Account} (h : a.closing.signed = a.balance) :
    (ofAccount a).Sound := by
  have hopening : a.openingRow.net = a.opening.signed := Row.net_ofBalance _ _
  have hmoved : a.transactionRow.net = Leg.sum a.ownLegs := Row.net_ofLegs _ _
  have hclosing : a.closingRow.net = a.closing.signed := Row.net_ofBalance _ _
  refine ⟨?_, ?_, ?_, hopening, ?_, hclosing⟩
  · simp [ofAccount, Account.openingRow, Account.transactionRow, Account.closingRow,
      Row.ofBalance, Row.ofLegs]
  · refine List.forall_mem_cons.2 ⟨Row.ofBalance_nonneg _ _, List.forall_mem_cons.2
      ⟨Row.ofLegs_nonneg _ _, List.forall_mem_singleton.2 (Row.ofBalance_nonneg _ _)⟩⟩
  · exact List.forall_mem_cons.2 ⟨Row.ofBalance_oneSided _ _,
      List.forall_mem_singleton.2 (Row.ofBalance_oneSided _ _)⟩
  · calc
      a.closingRow.net = a.balance := hclosing.trans h
      _ = a.openingRow.net + a.transactionRow.net := by rw [hopening, hmoved]; rfl

/-! ## The rows of a ledger -/

theorem Ledger.balances_eq_lines (ledger : Ledger) : ledger.balances =
    Layout.lines (ledger.sorted.map fun a =>
      balanceLine (widest (ledger.balanceTexts.map (·.1.utf8ByteSize)))
        (widest (ledger.balanceTexts.map (·.2.length))) a.name
        (Money.format a.closing.signed)) := by
  rw [balances, balanceTexts, List.map_map]
  rfl

theorem Ledger.balances_eq (ledger : Ledger) : ∃ nameWidth valueWidth, ledger.balances =
    Layout.lines (ledger.sorted.map fun a =>
      balanceLine nameWidth valueWidth a.name (Money.format a.closing.signed)) :=
  ⟨_, _, ledger.balances_eq_lines⟩

theorem Draft.signed_closing_of_check {d : Draft} {ledger : Ledger} (unposted : d.chart.Unposted)
    (h : d.check = .ok ledger) : ∀ a ∈ ledger.accounts, a.closing.signed = a.balance := by
  obtain ⟨-, -, closed, hclosed, rfl⟩ := (check_eq_ok unposted).1 h
  intro a ha
  obtain ⟨posted, -, hcloses⟩ := exists_of_forall₂ hclosed a ha
  exact hcloses.signed_closing.trans hcloses.balance_eq.symm

/-- In a ledger that passed its check the three lists of rows have the same accounts in
    the same places, in the order of their names, and each account rolls forward to the
    balance that is printed for it. -/
theorem Draft.check_rollsForward {d : Draft} {ledger : Ledger} (unposted : d.chart.Unposted)
    (h : d.check = .ok ledger) :
    ∃ rows : List RollForward, (rows.map (·.account)).Perm ledger.accounts ∧
      (rows.map (·.account.name)).Pairwise (fun a b => Bytes.ofText a < Bytes.ofText b) ∧
      ledger.openingRows = rows.map (·.opening) ∧ ledger.transactionRows = rows.map (·.moved) ∧
      ledger.closingRows = rows.map (·.closing) ∧ (∀ r ∈ rows, r.Sound) ∧
      ∃ nameWidth valueWidth, ledger.balances = Layout.lines (rows.map fun r =>
        Ledger.balanceLine nameWidth valueWidth r.account.name
          (Money.format (r.closing.debit - r.closing.credit))) := by
  refine ⟨ledger.sorted.map RollForward.ofAccount, ?_, ?_, ?_, ?_, ?_, ?_, ?_⟩
  · have haccounts : (ledger.sorted.map RollForward.ofAccount).map (·.account) = ledger.sorted := by
      rw [List.map_map]
      exact List.map_id _
    rw [haccounts]
    exact ledger.sorted_perm
  · rw [List.map_map]
    exact Ledger.ascending_sorted (holds_of_check unposted h).distinct
  · rw [List.map_map]
    rfl
  · rw [List.map_map]
    rfl
  · rw [List.map_map]
    rfl
  · intro r hr
    obtain ⟨a, ha, rfl⟩ := List.mem_map.1 hr
    apply RollForward.sound_ofAccount
    exact signed_closing_of_check unposted h a (ledger.sorted_perm.mem_iff.1 ha)
  · obtain ⟨nameWidth, valueWidth, hbalances⟩ := ledger.balances_eq
    refine ⟨nameWidth, valueWidth, hbalances.trans ?_⟩
    rw [List.map_map]
    refine congrArg Layout.lines (List.map_congr_left fun a _ => ?_)
    have hnet : a.closingRow.net = a.closing.signed := Row.net_ofBalance _ _
    rw [← hnet]
    rfl

theorem Draft.check_rollsForward_twoLegsOnCash :
    twoLegsOnCash.chart.Unposted ∧ ∃ ledger, twoLegsOnCash.check = .ok ledger ∧
      ∃ rows : List RollForward, (rows.map (·.account)).Perm ledger.accounts ∧
        ledger.openingRows = rows.map (·.opening) ∧ ledger.transactionRows = rows.map (·.moved) ∧
        ledger.closingRows = rows.map (·.closing) ∧ ∀ r ∈ rows, r.Sound := by
  obtain ⟨rows, hperm, -, hopening, hmoved, hclosing, hsound, -⟩ :=
    check_rollsForward unposted_twoLegsOnCash rfl
  exact ⟨unposted_twoLegsOnCash, _, rfl, rows, hperm, hopening, hmoved, hclosing, hsound⟩

end DoubleEntry
