import DoubleEntry.Proofs.Matching
import DoubleEntry.Proofs.Respelling
import DoubleEntry.Proofs.SingleFile

/-! # Postings that are balanced by hand

A contra account saves its writer the second half of every entry. What is written with
it can be written without it: each pair then becomes a block of its own, under the same
date and with a second pair on the account that balances it. The number of that pair is
counted on the side of its own account, so it is negated where both accounts grow on
the same side.
-/

namespace DoubleEntry

open Lexeme

/-! ## The second pair of an entry -/

theorem Amount.signed_entered (number : Int) (side : Side) :
    (entered number side).signed = side.sign * number := by
  rw [← toSide_eq_entered, signed_toSide]
  rfl

namespace Pair

/-- The number that balances a pair on an account. -/
def counterpart (p : Pair) (account : String) : Int :=
  if Category.sideOf p.name = Category.sideOf account then -p.value else p.value

/-- A pair on an account that balances `p`. -/
structure Balances (account : Token) (p balance : Pair) : Prop where
  named : balance.account.text = account.text
  value : balance.value = p.counterpart (String.ofList account.text)

theorem Balances.matches {account : Token} {p balance : Pair} (h : p.Balances account balance)
    (file file' : String) (place : Span) :
    (⟨String.ofList account.text, (p.leg file).amount.opposite, place⟩ : Leg).Matches
      (balance.leg file') := by
  have hname : balance.name = String.ofList account.text := congrArg String.ofList h.named
  refine ⟨hname.symm, ?_⟩
  simp only [leg, Amount.signed_opposite, Amount.signed_entered, h.value, hname, counterpart]
  cases Category.sideOf p.name <;> cases Category.sideOf (String.ofList account.text) <;>
    simp [Side.sign]

theorem Balances.fits {account : Token} {p balance : Pair} (h : p.Balances account balance)
    (hp : p.Fits) : balance.Fits := by
  unfold Fits at hp ⊢
  rw [h.value, counterpart]
  split
  · rwa [Int.natAbs_neg]
  · exact hp

theorem Alike.matches {p q : Pair} (h : p.Alike q) (file file' : String) :
    (p.leg file).Matches (q.leg file') := by
  have hleg := h.unplaced_leg file file'
  simp only [Leg.unplaced, Leg.mk.injEq] at hleg
  exact ⟨hleg.1, by rw [hleg.2.1]⟩

end Pair

/-! ## Longhand -/

/-- Some pairs as blocks of their own under the date `day`, each of them with a second
    pair on `account` that balances it. -/
inductive Item.Balanced (day account : Token) : List Pair → List Item → Prop where
  | nil : Balanced day account [] []
  | cons {p q balance ps day' items} (hkind : day'.kind = .date) (hday : day'.text = day.text)
      (hpair : p.Alike q) (hbalance : p.Balances account balance)
      (hrest : Balanced day account ps items) :
      Balanced day account (p :: ps) (.date day' hkind :: .postings q [balance] :: items)

/-- Items and what they are without contra accounts, where `day` is the latest date and
    `contra` the latest contra account before them. Every date is moved to its postings. -/
inductive Longhand : Option Token → Option Token → List Item → List Item → Prop where
  | nil {day contra} : Longhand day contra [] []
  | date {day contra next items others} (hkind : next.kind = .date)
      (hrest : Longhand (some next) contra items others) :
      Longhand day contra (.date next hkind :: items) others
  | useAccount {day contra keyword account items others} (hkeyword : keyword.Says "use account")
      (hkind : account.kind = .account) (hrest : Longhand day (some account) items others) :
      Longhand day contra (.useAccount keyword hkeyword account hkind :: items) others
  | openLedger {day contra keyword keyword' pairs pairs' items others}
      (hkeyword : keyword.Says "open ledger") (hkeyword' : keyword'.Says "open ledger")
      (hpairs : List.Forall₂ Pair.Alike pairs pairs') (hrest : Longhand day contra items others) :
      Longhand day contra (.openLedger keyword hkeyword pairs :: items)
        (.openLedger keyword' hkeyword' pairs' :: others)
  | joint {day day' first pairs first' pairs' items others} (hkind : day'.kind = .date)
      (hday : day'.text = day.text)
      (hpairs : List.Forall₂ Pair.Alike (first :: pairs) (first' :: pairs'))
      (hrest : Longhand (some day) none items others) :
      Longhand (some day) none (.postings first pairs :: items)
        (.date day' hkind :: .postings first' pairs' :: others)
  | balanced {day account first pairs blocks items others}
      (hblocks : Item.Balanced day account (first :: pairs) blocks)
      (hrest : Longhand (some day) (some account) items others) :
      Longhand (some day) (some account) (.postings first pairs :: items) (blocks ++ others)

/-- One text says in longhand what another says with contra accounts. -/
def Longhand.Writes (text longhand : String) : Prop :=
  ∃ items others, Spells items (Token.ofString text) ∧ Spells others (Token.ofString longhand) ∧
    Longhand none none items others

theorem Pair.fits_of_alike {ps qs : List Pair} (h : List.Forall₂ Alike ps qs)
    (hps : ∀ p ∈ ps, p.Fits) : ∀ q ∈ qs, q.Fits := by
  intro q hq
  obtain ⟨p, hp, hpq⟩ := exists_of_forall₂ h q hq
  exact hpq.fits (hps p hp)

theorem Item.Balanced.fits {day account : Token} {ps : List Pair} {items : List Item}
    (h : Balanced day account ps items) (hps : ∀ p ∈ ps, p.Fits) : ∀ item ∈ items, item.Fits := by
  induction h with
  | nil => exact List.forall_mem_nil _
  | cons _ _ hpair hbalance _ ih =>
      obtain ⟨hp, hrest⟩ := List.forall_mem_cons.1 hps
      refine List.forall_mem_cons.2 ⟨List.forall_mem_nil _, List.forall_mem_cons.2 ⟨?_, ih hrest⟩⟩
      exact List.forall_mem_cons.2 ⟨hpair.fits hp,
        List.forall_mem_singleton.2 (hbalance.fits hp)⟩

/-- The numbers of the longhand fit wherever those of the shorthand do. -/
theorem Longhand.fits {day contra : Option Token} {items others : List Item}
    (h : Longhand day contra items others) (hitems : ∀ item ∈ items, item.Fits) :
    ∀ item ∈ others, item.Fits := by
  induction h with
  | nil => exact List.forall_mem_nil _
  | date _ _ ih => exact ih (List.forall_mem_cons.1 hitems).2
  | useAccount _ _ _ ih => exact ih (List.forall_mem_cons.1 hitems).2
  | openLedger _ _ hpairs _ ih =>
      obtain ⟨hitem, hrest⟩ := List.forall_mem_cons.1 hitems
      exact List.forall_mem_cons.2 ⟨Pair.fits_of_alike hpairs hitem, ih hrest⟩
  | joint _ _ hpairs _ ih =>
      obtain ⟨hitem, hrest⟩ := List.forall_mem_cons.1 hitems
      exact List.forall_mem_cons.2 ⟨List.forall_mem_nil _,
        List.forall_mem_cons.2 ⟨Pair.fits_of_alike hpairs hitem, ih hrest⟩⟩
  | balanced hblocks _ ih =>
      obtain ⟨hitem, hrest⟩ := List.forall_mem_cons.1 hitems
      exact List.forall_mem_append.2 ⟨hblocks.fits hitem, ih hrest⟩

/-! ## Reading the longhand -/

theorem Entry.lastDate_of_matches {entries others : List Entry}
    (h : List.Forall₂ Matches entries others) : lastDate entries = lastDate others := by
  have hdates := map_eq_of_forall₂ h fun _ _ => Matches.date
  rw [lastDate, lastDate, ← List.getLast?_map, ← List.getLast?_map, hdates]

@[simp] theorem Chart.note_note (chart : Chart) (date : Date) :
    (chart.note date).note date = chart.note date := rfl

section Run

variable (read : Visit → Books → Traced Books) (file : String) (scope : Scope) {books : Books}

theorem Item.runAll_block {day : Token} (hday : day.kind = .date) (first : Pair)
    (others : List Pair) {date : Date} (hdate : Date.ofText? day.text = some date)
    (hlast : ∀ last ∈ Entry.lastDate books.pending, last ≤ date) :
    ∃ entry, entry.date = date ∧ entry.legs = (first :: others).map (·.leg file) ∧
      runAll read file scope (.begin books) [.date day hday, .postings first others] =
        .ok (.begin ⟨books.chart.note date, books.pending ++ [entry]⟩) := by
  have hawait : (Progress.begin books).await day.text (day.span file) =
      .ok ⟨⟨books.chart.note date, books.pending⟩, some (date, day.start), none⟩ :=
    Progress.await_eq_ok.2 ⟨rfl, date, hdate, rfl⟩
  refine ⟨⟨date, (first :: others).map (·.leg file), file, day.start, (postings first others).stop⟩,
    rfl, rfl, runAll_cons_eq_ok.2 ⟨_, hawait, runAll_cons_eq_ok.2 ⟨_, ?_, rfl⟩⟩⟩
  refine Progress.enter_eq_ok.2 ⟨date, day.start, rfl, _, ?_, rfl⟩
  exact (Entry.appendAll_eq_ok (List.cons_ne_nil _ _) (by simp)).2 ⟨hlast, rfl⟩

/-- Pairs that are balanced by hand put behind the others what their contra account
    would have put there. -/
theorem Item.Balanced.runAll {day account : Token} {ps : List Pair} {items : List Item}
    (h : Balanced day account ps items) {date : Date} (hdate : Date.ofText? day.text = some date)
    (hlast : ∀ last ∈ Entry.lastDate books.pending, last ≤ date) (place span : Span) :
    ∃ new, Item.runAll read file scope (.begin books) items =
        .ok (.begin ⟨if ps = [] then books.chart else books.chart.note date,
          books.pending ++ new⟩) ∧
      List.Forall₂ Entry.Matches (Progress.entries (some (String.ofList account.text, place)) date
        (ps.map (·.leg file)) span) new := by
  induction h generalizing books with
  | nil =>
      refine ⟨[], ?_, .nil⟩
      rw [List.append_nil]
      rfl
  | @cons p q balance ps day' items hkind hday hpair hbalance hrest ih =>
      obtain ⟨entry, hentry, hlegs, hblock⟩ :=
        runAll_block read file scope hkind q [balance] (hday ▸ hdate) hlast
      have hbehind : ∀ last ∈ Entry.lastDate
          (Books.mk (books.chart.note date) (books.pending ++ [entry])).pending, last ≤ date := by
        simp [Entry.lastDate, hentry, Date.le_refl]
      obtain ⟨new, hrun, hnew⟩ := ih hbehind
      refine ⟨entry :: new, runAll_append_eq_ok.2 ⟨_, hblock, ?_⟩, .cons ⟨hentry.symm, ?_⟩ hnew⟩
      · simpa using hrun
      · rw [hlegs]
        exact .cons (hpair.matches file file) (.cons (hbalance.matches file file place) .nil)

/-- What has been read with contra accounts, and the books that the longhand up to there
    has come to: a date that waits has not been written yet. -/
structure Progress.Shortens (day contra : Option Token) (p : Progress) (books : Books) : Prop where
  accounts : List.Forall₂ (Account.Matches Entry.Matches) p.books.chart.accounts
    books.chart.accounts
  opened : p.books.chart.isOpened = books.chart.isOpened
  start : p.books.chart.start = books.chart.start.or (p.awaiting.map (·.1))
  pending : List.Forall₂ Entry.Matches p.books.pending books.pending
  day : ∀ waiting ∈ p.awaiting, ∃ token, day = some token ∧ Date.ofText? token.text = some waiting.1
  contra : p.contra.map (·.1) = contra.map fun token => String.ofList token.text

theorem Progress.shortens_empty : Shortens none none (begin .empty) .empty :=
  ⟨.nil, rfl, rfl, .nil, nofun, rfl⟩

variable {read file} {p q : Progress} {day contra : Option Token}

theorem Progress.Shortens.postings (hp : p.Shortens day contra books)
    {first : Span} {legs : List Leg}
    {stop : Position} (hlegs : legs ≠ []) (h : p.enter first legs stop = .ok q) :
    ∃ token date span, day = some token ∧ Date.ofText? token.text = some date ∧
      (∀ last ∈ Entry.lastDate books.pending, last ≤ date) ∧ ∀ new,
        List.Forall₂ Entry.Matches (entries p.contra date legs span) new →
          q.Shortens day contra ⟨books.chart.note date, books.pending ++ new⟩ := by
  obtain ⟨date, start, hwait, pending, hpending, rfl⟩ := enter_eq_ok.1 h
  obtain ⟨token, hday, hdate⟩ := hp.day _ hwait
  obtain ⟨hlast, rfl⟩ :=
    (Entry.appendAll_eq_ok (entries_ne_nil hlegs) date_of_mem_entries).1 hpending
  rw [Entry.lastDate_of_matches hp.pending] at hlast
  refine ⟨token, date, ⟨first.file, start, stop⟩, hday, hdate, hlast, ?_⟩
  intro new hnew
  refine ⟨hp.accounts, hp.opened, ?_, List.rel_append hp.pending hnew, nofun, hp.contra⟩
  rw [hp.start, hwait]
  cases hbooks : books.chart.start <;> simp [Chart.note, hbooks]

theorem Pair.Alike.opens {p q : Pair} (h : p.Alike q) {a : Account} (ha : p.Opens file a) :
    ∃ b, q.Opens file b ∧ a.Matches Entry.Matches b := by
  obtain ⟨category, hcategory, rfl⟩ := ha
  have hname : p.name = q.name := congrArg String.ofList h.account
  have hvalue : p.value = q.value := congrArg Money.spelled h.number
  refine ⟨_, ⟨category, hname ▸ hcategory, rfl⟩, hname, rfl, ?_, ?_, .nil⟩
  · rw [hvalue]
  · rw [hvalue]

theorem Pair.exists_opens_of_alike {ps qs : List Pair} (h : List.Forall₂ Alike ps qs)
    {accounts : List Account} (hps : List.Forall₂ (Opens file) ps accounts) :
    ∃ others, List.Forall₂ (Opens file) qs others ∧
      List.Forall₂ (Account.Matches Entry.Matches) accounts others := by
  induction h generalizing accounts with
  | nil =>
      cases hps
      exact ⟨[], .nil, .nil⟩
  | cons hpq _ ih =>
      cases hps with
      | cons ha hrest =>
          obtain ⟨b, hb, hab⟩ := hpq.opens ha
          obtain ⟨others, hothers, hsame⟩ := ih hrest
          exact ⟨b :: others, .cons hb hothers, .cons hab hsame⟩

theorem Progress.Shortens.openLedger (hp : p.Shortens day contra books) {ps qs : List Pair}
    (hpairs : List.Forall₂ Pair.Alike ps qs) {keyword : Span} {stop : Position}
    (h : p.openChart .ledger keyword (ps.map (·.leg file)) stop = .ok q) (keyword' : Span)
    (stop' : Position) :
    ∃ after,
      (begin books).openChart .ledger keyword' (qs.map (·.leg file)) stop' = .ok (begin after) ∧
      q.Shortens day contra after := by
  obtain ⟨hmay, chart, hchart, rfl⟩ := openChart_eq_ok.1 h
  have hclosed := mayOpen_ledger.1 hmay
  have hclosed' : books.chart.isOpened = false := hp.opened ▸ hclosed
  obtain ⟨hdistinct, accounts, haccounts, rfl⟩ :=
    (Pair.openAll_eq_ok (Chart.accounts_of_not_isOpened hclosed)).1 hchart
  obtain ⟨others, hothers, hsame⟩ := Pair.exists_opens_of_alike hpairs haccounts
  have hnames : ps.map Pair.name = qs.map Pair.name :=
    map_eq_of_forall₂ hpairs fun _ _ hpq => congrArg String.ofList hpq.account
  refine ⟨_, openChart_eq_ok.2 ⟨mayOpen_ledger.2 hclosed', _, (Pair.openAll_eq_ok
    (Chart.accounts_of_not_isOpened hclosed')).2 ⟨hnames ▸ hdistinct, others, hothers, rfl⟩,
    rfl⟩, ?_⟩
  exact ⟨hsame, rfl, hp.start, hp.pending, hp.day, hp.contra⟩

theorem Progress.Shortens.date (hp : p.Shortens day contra books) {token : Token} {span : Span}
    (h : p.await token.text span = .ok q) : q.Shortens (some token) contra books := by
  obtain ⟨hwait, date, hdate, rfl⟩ := await_eq_ok.1 h
  have hstart := hp.start
  rw [hwait] at hstart
  constructor
  case accounts => exact hp.accounts
  case opened => exact hp.opened
  case start => cases hbooks : books.chart.start <;> simp [Chart.note, hstart, hbooks]
  case pending => exact hp.pending
  case day =>
    rintro waiting ⟨⟩
    exact ⟨token, rfl, hdate⟩
  case contra => exact hp.contra

theorem Progress.Shortens.useAccount (hp : p.Shortens day contra books) (token : Token)
    (place : Span) :
    ({ p with contra := some (String.ofList token.text, place) } : Progress).Shortens
      day (some token) books :=
  ⟨hp.accounts, hp.opened, hp.start, hp.pending, hp.day, rfl⟩

/-- The longhand can be read up to wherever the shorthand can, and comes to books that
    match. By induction along the items: a date is written when its postings are. -/
theorem Longhand.runAll {items others : List Item} (h : Longhand day contra items others)
    (hp : p.Shortens day contra books) (hrun : Item.runAll read file .ledger p items = .ok q)
    (read' : Visit → Books → Traced Books) :
    ∃ day' contra' after,
      Item.runAll read' file .ledger (.begin books) others = .ok (.begin after) ∧
      q.Shortens day' contra' after := by
  induction h generalizing p books with
  | @nil day contra =>
      cases hrun
      exact ⟨day, contra, books, rfl, hp⟩
  | date _ _ ih =>
      obtain ⟨mid, hmid, hrun⟩ := Item.runAll_cons_eq_ok.1 hrun
      exact ih (hp.date hmid) hrun
  | useAccount _ _ _ ih =>
      obtain ⟨mid, hmid, hrun⟩ := Item.runAll_cons_eq_ok.1 hrun
      cases hmid
      exact ih (hp.useAccount _ _) hrun
  | @openLedger day contra keyword keyword' pairs pairs' items others _ hkeyword' hpairs _ ih =>
      obtain ⟨mid, hmid, hrun⟩ := Item.runAll_cons_eq_ok.1 hrun
      rw [Item.statement, Statement.result_run_openLedger] at hmid
      obtain ⟨after, hopen, hmid⟩ := hp.openLedger hpairs hmid (keyword'.span file)
        (Item.openLedger keyword' hkeyword' pairs').stop
      obtain ⟨day', contra', last, hothers, hq⟩ := ih hmid hrun
      refine ⟨day', contra', last, Item.runAll_cons_eq_ok.2 ⟨_, ?_, hothers⟩, hq⟩
      rw [Item.statement, Statement.result_run_openLedger]
      exact hopen
  | @joint day day' first pairs first' pairs' items others hkind hday hpairs _ ih =>
      obtain ⟨mid, hmid, hrun⟩ := Item.runAll_cons_eq_ok.1 hrun
      obtain ⟨token, date, span, hsame, hdate, hlast, hmid⟩ :=
        hp.postings (List.cons_ne_nil _ _) hmid
      cases hsame
      obtain ⟨entry, hentry, hlegs, hblock⟩ :=
        Item.runAll_block read' file .ledger hkind first' pairs' (hday ▸ hdate) hlast
      have hnone : p.contra = none := by simpa using hp.contra
      have hnew : List.Forall₂ Entry.Matches (Progress.entries p.contra date
          ((first :: pairs).map (·.leg file)) span) [entry] := by
        rw [hnone]
        refine .cons ⟨hentry.symm, ?_⟩ .nil
        rw [hlegs]
        exact List.rel_map (fun _ _ hpq => hpq.matches file file) hpairs
      obtain ⟨day', contra', after, hothers, hq⟩ := ih (hmid _ hnew) hrun
      exact ⟨day', contra', after, Item.runAll_append_eq_ok.2 ⟨_, hblock, hothers⟩, hq⟩
  | balanced hblocks _ ih =>
      obtain ⟨mid, hmid, hrun⟩ := Item.runAll_cons_eq_ok.1 hrun
      obtain ⟨token, date, span, hsame, hdate, hlast, hmid⟩ :=
        hp.postings (List.cons_ne_nil _ _) hmid
      cases hsame
      obtain ⟨⟨account, place⟩, hcontra, rfl⟩ := Option.map_eq_some_iff.1 hp.contra
      obtain ⟨new, hblock, hnew⟩ := hblocks.runAll read' file .ledger hdate hlast place span
      obtain ⟨day', contra', after, hothers, hq⟩ := ih (hmid new (hcontra ▸ hnew)) hrun
      exact ⟨day', contra', after, Item.runAll_append_eq_ok.2 ⟨_, hblock, hothers⟩, hq⟩

end Run

end DoubleEntry
