import DoubleEntry.Proofs.Amounts
import DoubleEntry.Proofs.Report.RollForward
import DoubleEntry.Proofs.Written
import Mathlib.Data.List.DropRight

/-! # Reading balances back

The columns of the report are as wide as its longest name in bytes and its longest
balance. A name has no more characters than bytes, so no line runs over, and all
lines are equally long. Neither names nor balances hold blanks: the first blank of a
line ends the name and the last one stands before the balance. The report can
therefore be read back.
-/

namespace DoubleEntry

namespace Ledger

/-! ## Lines -/

theorem le_foldl_max (widths : List Nat) (start : Nat) :
    start ≤ widths.foldl max start ∧ ∀ width ∈ widths, width ≤ widths.foldl max start := by
  induction widths generalizing start with
  | nil => simp
  | cons first widths ih =>
      obtain ⟨hstart, hwidths⟩ := ih (max start first)
      rw [List.foldl_cons, List.forall_mem_cons]
      exact ⟨by omega, by omega, hwidths⟩

theorem le_widest {widths : List Nat} {width : Nat} (h : width ∈ widths) :
    width ≤ widest widths :=
  (le_foldl_max widths 0).2 width h

theorem toList_balanceLine (nameWidth valueWidth : Nat) (name value : String) :
    (balanceLine nameWidth valueWidth name value).toList = name.toList ++
      (List.replicate (nameWidth - name.length + (valueWidth - value.length) + 2) ' ' ++
        value.toList) := by
  have hgap (m n : Nat) : List.replicate (m + n + 2) ' ' =
      List.replicate m ' ' ++ ' ' :: ' ' :: List.replicate n ' ' := by
    rw [Nat.add_assoc, ← List.replicate_append_replicate]
    rfl
  simp [balanceLine, List.rightpad, List.leftpad, hgap, String.length_toList]

theorem newLine_not_mem_balanceLine {nameWidth valueWidth : Nat} {name value : String}
    (hname : '\n' ∉ name.toList) (hvalue : '\n' ∉ value.toList) :
    '\n' ∉ (balanceLine nameWidth valueWidth name value).toList := by
  simp [toList_balanceLine, hname, hvalue]

theorem takeWhile_blank {first rest : List Char} (h : ' ' ∉ first) :
    (first ++ ' ' :: rest).takeWhile (· ≠ ' ') = first :=
  (cut_at h (.inr rfl)).1

theorem rtakeWhile_blank {rest last : List Char} (h : ' ' ∉ last) :
    (rest ++ ' ' :: last).rtakeWhile (· ≠ ' ') = last := by
  have hreverse : (rest ++ ' ' :: last).reverse = last.reverse ++ ' ' :: rest.reverse := by simp
  rw [List.rtakeWhile, hreverse, takeWhile_blank (mt List.mem_reverse.1 h), List.reverse_reverse]

end Ledger

/-- The account is printed on a line that is `width` characters long: its name stands
    before the first blank, and its signed closing balance behind the last one. -/
structure Account.PrintedOn (width : Nat) (a : Account) (line : List Char) : Prop where
  length : line.length = width
  blanks : ∃ gap, line = a.name.toList ++ (List.replicate (gap + 2) ' ' ++
    (Money.format a.closing.signed).toList)
  name : line.takeWhile (· ≠ ' ') = a.name.toList
  balance : line.rtakeWhile (· ≠ ' ') = (Money.format a.closing.signed).toList

theorem Account.IsWritten.printedOn {a : Account} (h : a.IsWritten) {nameWidth valueWidth : Nat}
    (hname : a.name.length ≤ nameWidth)
    (hvalue : (Money.format a.closing.signed).length ≤ valueWidth) :
    a.PrintedOn (nameWidth + 2 + valueWidth)
      (Ledger.balanceLine nameWidth valueWidth a.name (Money.format a.closing.signed)).toList := by
  have hblank : ' ' ∉ a.name.toList := by
    intro hmem
    exact absurd (h _ hmem) (by decide)
  have hblank' : ' ' ∉ (Money.format a.closing.signed).toList := by
    intro hmem
    exact absurd (Layout.isNumeral_of_mem_format hmem) (by decide)
  rw [Ledger.toList_balanceLine]
  generalize hgap : nameWidth - a.name.length +
    (valueWidth - (Money.format a.closing.signed).length) = gap
  refine ⟨?_, ⟨gap, rfl⟩, ?_, ?_⟩
  · simp only [List.length_append, List.length_replicate, String.length_toList]
    omega
  · exact Ledger.takeWhile_blank hblank
  · rw [List.replicate_succ', List.append_assoc, ← List.append_assoc]
    exact Ledger.rtakeWhile_blank hblank'

namespace Ledger

/-- The accounts with their signed closing balances, in the order of their names. -/
def closings (ledger : Ledger) : List (String × Int) :=
  ledger.sorted.map fun a => (a.name, a.closing.signed)

/-- The names and balances that a report of balances shows. -/
def closingsIn (report : String) : List (String × Int) :=
  (report.toList.splitOn '\n').dropLast.map fun line =>
    (String.ofList (line.takeWhile (· ≠ ' ')), Money.spelled (line.rtakeWhile (· ≠ ' ')))

theorem balances_congr {ledger other : Ledger} (h : other.closings = ledger.closings) :
    other.balances = ledger.balances := by
  have htexts (ledger : Ledger) : ledger.balanceTexts =
      ledger.closings.map fun (name, signed) => (name, Money.format signed) := by
    rw [balanceTexts, closings, List.map_map]
    rfl
  rw [balances, balances, htexts, htexts, h]

section Written

variable {ledger : Ledger} (written : ∀ a ∈ ledger.accounts, a.IsWritten)

include written

/-- Every account is printed on a line of its own, and the lines are equally long. -/
theorem printedOn_balances : ∃ width lines,
    ledger.balances.toList.splitOn '\n' = lines ++ [[]] ∧
      List.Forall₂ (Account.PrintedOn width) ledger.sorted lines := by
  have hmem {a : Account} (ha : a ∈ ledger.sorted) :
      (a.name, Money.format a.closing.signed) ∈ ledger.balanceTexts :=
    List.mem_map_of_mem ha
  rw [balances_eq_lines]
  generalize hname : widest (ledger.balanceTexts.map (·.1.utf8ByteSize)) = nameWidth
  generalize hvalue : widest (ledger.balanceTexts.map (·.2.length)) = valueWidth
  have hprinted : ∀ a ∈ ledger.sorted, a.PrintedOn (nameWidth + 2 + valueWidth)
      (balanceLine nameWidth valueWidth a.name (Money.format a.closing.signed)).toList := by
    intro a ha
    apply (written a (ledger.sorted_perm.mem_iff.1 ha)).printedOn
    · have hbytes := le_widest (List.mem_map_of_mem (f := (·.1.utf8ByteSize)) (hmem ha))
      exact Nat.le_trans (Bytes.length_le a.name) (hname ▸ hbytes)
    · have hlength := le_widest (List.mem_map_of_mem (f := (·.2.length)) (hmem ha))
      exact hvalue ▸ hlength
  have hlines : ∀ text ∈ ledger.sorted.map fun a =>
      balanceLine nameWidth valueWidth a.name (Money.format a.closing.signed),
      '\n' ∉ text.toList := by
    refine List.forall_mem_map.2 fun a ha => ?_
    apply newLine_not_mem_balanceLine _ (Layout.plain_format _).2
    intro hmem
    exact absurd (written a (ledger.sorted_perm.mem_iff.1 ha) _ hmem) (by decide)
  refine ⟨nameWidth + 2 + valueWidth, _, Layout.splitOn_lines hlines, ?_⟩
  rw [List.map_map, List.forall₂_map_right_iff, List.forall₂_same]
  exact hprinted

theorem closingsIn_balances : closingsIn ledger.balances = ledger.closings := by
  obtain ⟨width, lines, hlines, hprinted⟩ := printedOn_balances written
  rw [closingsIn, hlines, List.dropLast_concat, closings]
  clear hlines
  generalize ledger.sorted = accounts at hprinted
  induction hprinted with
  | nil => rfl
  | cons hline _ ih =>
      rw [List.map_cons, List.map_cons, ih, hline.name, hline.balance, Money.spelled_format,
        String.ofList_toList]

end Written

/-- In a ledger that was read the report of balances has one line for each account, in
    the order of the bytes of their names. The lines are equally long, and show as much
    as the list of all names and signed closing balances. -/
theorem balances_readBack {files : Files} {root : String} {ledger : Ledger}
    (h : (read files root).result = .ok ledger) :
    ledger.sorted.Perm ledger.accounts ∧
    (Account.names ledger.sorted).Pairwise (fun a b => Bytes.ofText a < Bytes.ofText b) ∧
    (∃ width lines, ledger.balances.toList.splitOn '\n' = lines ++ [[]] ∧
      List.Forall₂ (Account.PrintedOn width) ledger.sorted lines) ∧
    closingsIn ledger.balances = ledger.closings ∧
    ∀ files' root' other, (read files' root').result = .ok other →
      (other.balances = ledger.balances ↔ other.closings = ledger.closings) := by
  have hwritten {files : Files} {root : String} {ledger : Ledger}
      (h : (read files root).result = .ok ledger) : ∀ a ∈ ledger.accounts, a.IsWritten :=
    fun a ha => (read_isWritten h a ha).1
  obtain ⟨d, hread, hcheck⟩ := read_eq_ok.1 h
  have hholds := Draft.holds_of_check (Draft.read_unposted hread) hcheck
  refine ⟨ledger.sorted_perm, ascending_sorted hholds.distinct, printedOn_balances (hwritten h),
    closingsIn_balances (hwritten h), ?_⟩
  intro files' root' other hother
  constructor
  · intro hsame
    calc
      other.closings = closingsIn other.balances := (closingsIn_balances (hwritten hother)).symm
      _ = closingsIn ledger.balances := by rw [hsame]
      _ = ledger.closings := closingsIn_balances (hwritten h)
  · exact balances_congr

/-- Accounts whose names have more bytes than characters. -/
def accentFiles : Files := .inMemory [
  ("main", "open ledger 5 ASSETS/Café 5 CAPITAL/東京 0 INCOMES/Sales\n" ++
    "2020-03-01 2.50 ASSETS/Café 2.50 INCOMES/Sales\n")]

theorem balances_readBack_accentFiles :
    ∃ ledger, (read accentFiles "main").result = .ok ledger ∧
      (closingsIn ledger.balances).Perm
        [("ASSETS/Café", 750), ("CAPITAL/東京", -500), ("INCOMES/Sales", -250)] := by
  have hresult : (Books.read accentFiles accentFiles.nesting
      ⟨"main", Span.startOf "main", .ledger⟩ .empty).result.map (fun books =>
        (decide (books.pending.Pairwise fun a b => a.date ≤ b.date),
          (Draft.check ⟨"main", books.chart, books.pending,
            books.pending.getLast?.map (·.date)⟩).map fun ledger =>
              ledger.accounts.map fun a => (a.name, a.closing.signed))) =
        .ok (true, .ok [("ASSETS/Café", 750), ("CAPITAL/東京", -500),
          ("INCOMES/Sales", -250)]) := by
    decide +kernel
  obtain ⟨books, hbooks, hboth⟩ := map_eq_ok.1 hresult
  obtain ⟨hsorted, hchecked⟩ := Prod.mk.inj hboth
  obtain ⟨ledger, hcheck, hclosings⟩ := map_eq_ok.1 hchecked
  have hread := (result_read_of_sorted hbooks (of_decide_eq_true hsorted) ledger).2 hcheck
  obtain ⟨hperm, -, -, hshown, -⟩ := balances_readBack hread
  refine ⟨ledger, hread, ?_⟩
  rw [hshown, ← hclosings]
  exact hperm.map _

end Ledger

end DoubleEntry
