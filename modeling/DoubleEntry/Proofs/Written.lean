import DoubleEntry.Proofs.Checking
import DoubleEntry.Proofs.Items
import DoubleEntry.Proofs.Month
import DoubleEntry.Proofs.Report.Layout
import DoubleEntry.Proofs.Sequence

/-! # What can be written in a file

Not every text can be written as the name of an account, and not every date as
that of an entry. The names that are read hold no blanks, and the years have at
most four digits.
-/

namespace DoubleEntry

/-- The name of the account is written without blanks. -/
def Account.IsWritten (a : Account) : Prop := ∀ c ∈ a.name.toList, Lexeme.isAccount c

namespace Date

/-- The year is written in four digits. -/
def IsWritten (d : Date) : Prop := 0 ≤ d.year ∧ d.year ≤ 9999

theorem IsWritten.month_short {d : Date} (h : d.IsWritten) : (Month.ofDate d).Short :=
  ⟨h.1, h.2, Nat.le_trans d.month_bounds.2 (by decide)⟩

theorem SpelledBy.isWritten {d : Date} {text : List Char} (shaped : Lexeme.isDate text)
    (h : d.SpelledBy text) : d.IsWritten := by
  have digit (c : Char) (hc : c.isDigit) : c.toNat - '0'.toNat ≤ 9 := by
    obtain ⟨-, hle⟩ := Char.isDigit_iff_toNat.1 hc
    exact Nat.sub_le_of_le_add hle
  have hyear := h.year
  unfold Lexeme.isDate at shaped
  split at shaped
  · next y₁ y₂ y₃ y₄ m₁ m₂ d₁ d₂ =>
    simp only [List.all_cons, Bool.and_eq_true] at shaped
    obtain ⟨h₁, h₂, h₃, h₄, -⟩ := shaped
    have := digit y₁ h₁
    have := digit y₂ h₂
    have := digit y₃ h₃
    have := digit y₄ h₄
    simp only [List.take_succ_cons, List.take_zero, Nat.ofDigitChars_cons,
      Nat.ofDigitChars_nil] at hyear
    unfold IsWritten
    omega
  · cases shaped

end Date

structure Books.IsWritten (books : Books) : Prop where
  accounts : ∀ a ∈ books.chart.accounts, a.IsWritten
  entries : ∀ entry ∈ books.pending, entry.date.IsWritten

structure Progress.IsWritten (p : Progress) : Prop where
  books : p.books.IsWritten
  awaiting : ∀ waiting ∈ p.awaiting, waiting.1.IsWritten

theorem Item.isAccount_name {item : Item} {p : Pair} (formed : item.Formed)
    (h : p.account ∈ item.tokens) : ∀ c ∈ p.name.toList, Lexeme.isAccount c := by
  rw [Pair.name, String.toList_ofList]
  exact (formed _ h).account p.account_kind

theorem Account.isWritten_of_opens {legs : List Leg} {new : List Account}
    (h : List.Forall₂ Leg.Opens legs new)
    (named : ∀ leg ∈ legs, ∀ c ∈ leg.account.toList, Lexeme.isAccount c) :
    ∀ a ∈ new, a.IsWritten := by
  induction h with
  | nil => exact List.forall_mem_nil _
  | cons hleg _ ih =>
      obtain ⟨hname, hnames⟩ := List.forall_mem_cons.1 named
      obtain ⟨category, -, rfl⟩ := hleg
      exact List.forall_mem_cons.2 ⟨hname, ih hnames⟩

/-- The statement of an item leaves what is written as it is, and what it adds is
    written too. -/
theorem Item.does_isWritten {item : Item} {file : String} {scope : Scope} {p q : Progress}
    (formed : item.Formed)
    (h : (item.statement file).Does (fun _ books after => books.IsWritten → after.IsWritten)
      file scope p q) (hp : p.IsWritten) : q.IsWritten := by
  obtain ⟨⟨haccounts, hentries⟩, hawaiting⟩ := hp
  cases item with
  | date day hkind =>
      cases h with
      | date h =>
          obtain ⟨-, date, hdate, rfl⟩ := Progress.await_eq_ok.1 h
          have shaped : Lexeme.isDate day.text := (formed day List.mem_cons_self).date hkind
          refine ⟨⟨haccounts, hentries⟩, fun waiting hwaiting => ?_⟩
          cases hwaiting
          exact ((Date.ofText?_eq_some shaped).1 hdate).isWritten shaped
  | postings first others =>
      cases h with
      | postings h =>
          obtain ⟨date, start, hwait, pending, hpending, rfl⟩ := Progress.enter_eq_ok.1 h
          obtain ⟨-, rfl⟩ := (Entry.appendAll_eq_ok
            (Progress.entries_ne_nil (List.cons_ne_nil _ _)) Progress.date_of_mem_entries).1 hpending
          refine ⟨⟨haccounts, List.forall_mem_append.2 ⟨hentries, fun entry hentry => ?_⟩⟩, nofun⟩
          rw [Progress.date_of_mem_entries entry hentry]
          exact hawaiting _ hwait
  | openLedger keyword hkeyword pairs =>
      cases h with
      | openLedger h =>
          obtain ⟨-, chart, hopen, rfl⟩ := Progress.openChart_eq_ok.1 h
          obtain ⟨-, -, new, hnew, rfl⟩ := Chart.openAll_eq_ok.1 hopen
          have named : ∀ leg ∈ pairs.map (·.leg file), ∀ c ∈ leg.account.toList,
              Lexeme.isAccount c := by
            refine List.forall_mem_map.2 fun pair hpair => ?_
            refine isAccount_name formed (List.mem_cons_of_mem _ ?_)
            exact List.mem_flatMap.2 ⟨pair, hpair, List.mem_cons_of_mem _ List.mem_cons_self⟩
          exact ⟨⟨List.forall_mem_append.2 ⟨haccounts, Account.isWritten_of_opens hnew named⟩,
            hentries⟩, hawaiting⟩
  | useAccount keyword hkeyword account haccount =>
      cases h with
      | useAccount => exact ⟨⟨haccounts, hentries⟩, hawaiting⟩
  | inclusion keyword hkeyword path hpath =>
      cases h with
      | inclusion h => exact ⟨h ⟨haccounts, hentries⟩, hawaiting⟩
  | journal keyword hkeyword path hpath =>
      cases h with
      | journal h =>
          obtain ⟨hinner, hnew⟩ := h ⟨haccounts, List.forall_mem_nil _⟩
          exact ⟨⟨hinner, List.forall_mem_append.2 ⟨hentries, hnew⟩⟩, hawaiting⟩

theorem Books.read_isWritten {files : Files} {depth : Nat} {visit : Visit} {books after : Books}
    (h : (read files depth visit books).result = .ok after) (hbooks : books.IsWritten) :
    after.IsWritten := by
  refine read_induction (S := fun _ p q => p.IsWritten → q.IsWritten)
    (F := fun _ books after => books.IsWritten → after.IsWritten)
    id (fun hpq hqr hp => hqr (hpq hp)) ?_ ?_ h hbooks
  · intro file text scope p s q hs hdoes
    obtain ⟨item, formed, -, rfl⟩ := Script.exists_item_of_mem (Cursor.formed_ofText file _) hs
    exact Item.does_isWritten formed hdoes
  · intro scope books p hstep _ hbooks
    exact (hstep ⟨hbooks, nofun⟩).books

namespace Ledger

theorem read_isWritten {files : Files} {root : String} {ledger : Ledger}
    (h : (read files root).result = .ok ledger) :
    ∀ a ∈ ledger.accounts, a.IsWritten ∧ ∀ entry ∈ a.history, entry.date.IsWritten := by
  obtain ⟨d, hread, hcheck⟩ := read_eq_ok.1 h
  have hsettles := Draft.settles_of_check (Draft.read_unposted hread) hcheck
  have hhistory := Account.histories_of_settles hsettles
  rw [Draft.result_read] at hread
  obtain ⟨books, hbooks, rfl⟩ := map_eq_ok.1 hread
  obtain ⟨haccounts, hentries⟩ :=
    Books.read_isWritten hbooks ⟨List.forall_mem_nil _, List.forall_mem_nil _⟩
  intro a ha
  constructor
  · have hname : a.name ∈ Account.names (Draft.ofBooks root books).chart.accounts := by
      rw [← Account.names_of_settles hsettles]
      exact List.mem_map_of_mem ha
    obtain ⟨b, hb, hsame⟩ := List.mem_map.1 hname
    rw [Account.IsWritten, ← hsame]
    exact haccounts b hb
  · intro entry hentry
    rw [hhistory a ha] at hentry
    exact hentries entry (List.mem_mergeSort.1 (List.mem_of_mem_filter hentry))

theorem plain_of_read {files : Files} {root : String} {ledger : Ledger}
    (h : (read files root).result = .ok ledger) :
    ∀ a ∈ ledger.accounts, Layout.Plain a.name := by
  intro a ha
  obtain ⟨hname, -⟩ := read_isWritten h a ha
  exact ⟨fun hmem => absurd (hname _ hmem) (by decide),
    fun hmem => absurd (hname _ hmem) (by decide)⟩

end Ledger

end DoubleEntry
