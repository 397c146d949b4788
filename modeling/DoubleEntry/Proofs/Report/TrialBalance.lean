import DoubleEntry.Proofs.Report.Layout
import DoubleEntry.Proofs.Report.Row
import DoubleEntry.Proofs.Written
import DoubleEntry.Report.TrialBalance

/-! # The trial balance of sound books

In the trial balance of a ledger that has passed its check, debits and credits
come to the same in every column, and the last line shows these sums. Names that
stay within one field make the text a table: two headings, the accounts in the
order of their names, and the sums, all with as many fields.
-/

namespace DoubleEntry

namespace TrialBalance

/-- The rows of each column that is shown. -/
def rows (ledger : Ledger) : TrialBalance → List (List Row)
  | opening => [ledger.openingRows]
  | closing => [ledger.closingRows]
  | openingClosing => [ledger.openingRows, ledger.closingRows]
  | full => [ledger.openingRows, ledger.transactionRows, ledger.closingRows]

/-- The line with the sums of all columns. -/
def totals (ledger : Ledger) (kind : TrialBalance) : List String :=
  "Totals" :: (kind.rows ledger).flatMap fun rows =>
    Layout.money (Row.debits rows) (Row.credits rows)

/-- The headings of the columns, and those of their halves. -/
def headings (ledger : Ledger) (kind : TrialBalance) : List (List String) :=
  [("Account" :: (kind.columns ledger).flatMap fun column => [column.heading, ""]),
   ("" :: (kind.columns ledger).flatMap fun _ => ["Debit", "Credit"])]

def accountLine (ledger : Ledger) (kind : TrialBalance) (a : Account) : List String :=
  a.name :: (kind.columns ledger).flatMap (·.cell a)

variable {ledger : Ledger} {kind : TrialBalance}

theorem map_columns : (kind.columns ledger).map (fun column => ledger.sorted.map column.row) =
    kind.rows ledger := by
  cases kind <;> rfl

theorem table_eq : kind.table ledger =
    kind.headings ledger ++ ledger.sorted.map (kind.accountLine ledger) ++ [kind.totals ledger] := by
  have hsums : (kind.columns ledger).flatMap (·.totals ledger.sorted) =
      (kind.rows ledger).flatMap fun rows => Layout.money (Row.debits rows) (Row.credits rows) := by
    rw [← map_columns, List.flatMap_map]
    rfl
  rw [table, hsums]
  rfl

/-! ## Lines of as many fields -/

theorem length_of_halves {α : Type} {first : String} {columns : List α}
    {halves : α → List String} (h : ∀ column, (halves column).length = 2) :
    (first :: columns.flatMap halves).length = 1 + 2 * columns.length := by
  induction columns with
  | nil => rfl
  | cons column columns ih =>
      simp only [List.flatMap_cons, List.length_cons, List.length_append, h] at ih ⊢
      omega

theorem length_of_mem_table (ledger : Ledger) (kind : TrialBalance) :
    ∀ line ∈ kind.table ledger, line.length = 1 + 2 * (kind.rows ledger).length := by
  have hcolumns : (kind.columns ledger).length = (kind.rows ledger).length := by
    rw [← map_columns, List.length_map]
  rw [table_eq, headings]
  simp only [List.forall_mem_append, List.forall_mem_cons, List.forall_mem_map]
  refine ⟨⟨⟨?_, ?_, List.forall_mem_nil _⟩, fun a _ => ?_⟩, ?_, List.forall_mem_nil _⟩
  · exact hcolumns ▸ length_of_halves fun _ => rfl
  · exact hcolumns ▸ length_of_halves fun _ => rfl
  · exact hcolumns ▸ length_of_halves fun _ => rfl
  · exact length_of_halves fun _ => rfl

/-! ## Lines of plain fields -/

theorem plain_heading (date : Option Date) : Layout.Plain (heading date) := by
  cases date with
  | none => exact ⟨List.not_mem_nil, List.not_mem_nil⟩
  | some d => exact Layout.plain_text d

theorem plain_of_mem_columns : ∀ column ∈ kind.columns ledger, Layout.Plain column.heading := by
  have htransactions : Layout.Plain "Transactions" := by decide
  cases kind <;> simp [columns, plain_heading, htransactions]

theorem plain_halves {α : Type} {first : String} {columns : List α} {halves : α → List String}
    (hfirst : Layout.Plain first)
    (h : ∀ column ∈ columns, ∀ f ∈ halves column, Layout.Plain f) :
    ∀ f ∈ first :: columns.flatMap halves, Layout.Plain f := by
  refine List.forall_mem_cons.2 ⟨hfirst, fun f hf => ?_⟩
  obtain ⟨column, hcolumn, hf⟩ := List.mem_flatMap.1 hf
  exact h column hcolumn f hf

theorem plain_of_mem_headings : ∀ line ∈ kind.headings ledger, ∀ f ∈ line, Layout.Plain f := by
  have hempty : Layout.Plain "" := by decide
  have haccount : Layout.Plain "Account" := by decide
  have hhalves : ∀ f ∈ ["Debit", "Credit"], Layout.Plain f := by decide
  refine List.forall_mem_cons.2 ⟨?_, List.forall_mem_singleton.2 ?_⟩
  · exact plain_halves haccount fun column hcolumn => List.forall_mem_cons.2
      ⟨plain_of_mem_columns column hcolumn, List.forall_mem_singleton.2 hempty⟩
  · exact plain_halves hempty fun _ _ => hhalves

theorem plain_of_mem_table (named : ∀ a ∈ ledger.accounts, Layout.Plain a.name) :
    ∀ line ∈ kind.table ledger, ∀ f ∈ line, Layout.Plain f := by
  have htotals : Layout.Plain "Totals" := by decide
  rw [table_eq]
  refine List.forall_mem_append.2 ⟨List.forall_mem_append.2 ⟨plain_of_mem_headings, ?_⟩,
    List.forall_mem_singleton.2 (plain_halves htotals fun _ _ => Layout.plain_money _ _)⟩
  refine List.forall_mem_map.2 fun a ha => ?_
  exact plain_halves (named a (ledger.sorted_perm.mem_iff.1 ha)) fun _ _ => Layout.plain_money _ _

end TrialBalance

namespace Ledger

variable {ledger : Ledger}

theorem table_trialBalance (kind : TrialBalance)
    (named : ∀ a ∈ ledger.accounts, Layout.Plain a.name) :
    Layout.table (ledger.trialBalance kind) = ["Trial Balance"] :: kind.table ledger := by
  have htext : ledger.trialBalance kind =
      Layout.lines ((["Trial Balance"] :: kind.table ledger).map Layout.fields) := rfl
  rw [htext]
  refine Layout.table_lines (List.forall_mem_cons.2 ⟨List.cons_ne_nil _ _, fun line hline => ?_⟩)
    (List.forall_mem_cons.2 ⟨by decide, TrialBalance.plain_of_mem_table named⟩)
  rintro rfl
  have hlength := TrialBalance.length_of_mem_table ledger kind _ hline
  rw [List.length_nil] at hlength
  omega

end Ledger

end DoubleEntry
