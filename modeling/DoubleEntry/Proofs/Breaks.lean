import DoubleEntry.Proofs.Tree

/-! # Where the order of dates breaks

An entry is compared with the last one of those that it is put behind, and a
journal begins with none. The entries that have been read are therefore in the
order of their dates, except that the first entry of a journal may be earlier
than the one before it. Without a journal they stay as they were read.
-/

namespace DoubleEntry

/-- The path that an item asks for as that of a journal. -/
def Item.journal? : Item → Option String
  | journal _ _ path _ => some (String.ofList (Quoted.unquote path.text))
  | _ => none

/-- One of the passages asks for a journal, which puts the entries `new` behind the
    entries `earlier` of the passages before it. -/
def JournalPuts (files : Files) (passages : List Passage) (earlier new : List Entry) : Prop :=
  ∃ before p inner after path, passages = before ++ p :: (inner ++ after) ∧
    p.item.journal? = some path ∧ Walks files (Path.resolve p.file path) inner ∧
    Contribute before earlier ∧ Contribute inner new

/-- Entries that passages put behind `pending` are not earlier than those before
    them, except where a journal begins. -/
def OrderedBut (files : Files) (pending : List Entry) (passages : List Passage)
    (new : List Entry) : Prop :=
  ∀ first x y second, pending ++ new = first ++ x :: y :: second →
    pending.length < first.length + 2 →
    x.date ≤ y.date ∨
      ∃ earlier more, pending ++ earlier = first ++ [x] ∧
        JournalPuts files passages earlier (y :: more)

theorem Passage.contribute_quiet {p : Passage} (h : ¬ p.item.isPostings) : Contribute [p] [] :=
  .cons (.nothing h) .nil

namespace JournalPuts

variable {files : Files} {passages others : List Passage} {earlier new entries : List Entry}

theorem left (h : JournalPuts files passages earlier new) (others : List Passage) :
    JournalPuts files (passages ++ others) earlier new := by
  obtain ⟨before, p, inner, after, path, rfl, hrest⟩ := h
  refine ⟨before, p, inner, after ++ others, path, ?_, hrest⟩
  simp only [List.append_assoc, List.cons_append]

theorem right (h : JournalPuts files others earlier new) (hentries : Contribute passages entries) :
    JournalPuts files (passages ++ others) (entries ++ earlier) new := by
  obtain ⟨before, p, inner, after, path, rfl, hitem, hwalks, hbefore, hinner⟩ := h
  refine ⟨passages ++ before, p, inner, after, path, ?_, hitem, hwalks,
    hentries.append hbefore, hinner⟩
  rw [List.append_assoc]

end JournalPuts

theorem Entry.split_behind {pending new first second : List Entry} {x y : Entry}
    (h : pending ++ new = first ++ x :: y :: second) (hlength : pending.length < first.length + 2) :
    ∃ left, first ++ [x] = pending ++ left ∧ new = left ++ y :: second := by
  have hwhole : pending ++ new = (first ++ [x]) ++ y :: second := by
    rw [h, List.append_assoc, List.singleton_append]
  have hprefix : pending <+: first ++ [x] := by
    refine List.prefix_of_prefix_length_le (List.prefix_append pending new) ?_ ?_
    · rw [hwhole]
      exact List.prefix_append _ _
    · rw [List.length_append, List.length_singleton]
      omega
  obtain ⟨left, hleft⟩ := hprefix
  refine ⟨left, hleft.symm, ?_⟩
  rw [← hleft, List.append_assoc] at hwhole
  exact List.append_cancel_left hwhole

namespace OrderedBut

variable {files : Files} {pending new other : List Entry} {passages others : List Passage}

theorem nil : OrderedBut files pending passages [] := by
  intro first x y second h hlength
  obtain ⟨left, -, hleft⟩ := Entry.split_behind h hlength
  exact absurd hleft (List.append_ne_nil_of_right_ne_nil _ (List.cons_ne_nil _ _)).symm

theorem append (h : OrderedBut files pending passages new) (hnew : Contribute passages new)
    (h' : OrderedBut files (pending ++ new) others other) :
    OrderedBut files pending (passages ++ others) (new ++ other) := by
  intro first x y second hsplit hlength
  rw [← List.append_assoc] at hsplit
  by_cases hbehind : (pending ++ new).length < first.length + 2
  · refine (h' first x y second hsplit hbehind).imp_right ?_
    intro hputs
    obtain ⟨earlier, more, heq, hputs⟩ := hputs
    exact ⟨new ++ earlier, more, by rw [← List.append_assoc, heq], hputs.right hnew⟩
  · -- Both entries were there before the other passages came.
    have hprefix : first ++ [x, y] <+: pending ++ new := by
      refine List.prefix_of_prefix_length_le ?_ (List.prefix_append (pending ++ new) other) ?_
      · exact ⟨second, by rw [hsplit, List.append_assoc]; rfl⟩
      · rw [List.length_append]
        exact Nat.le_of_not_lt hbehind
    obtain ⟨between, hbetween⟩ := hprefix
    rw [List.append_assoc] at hbetween
    refine (h first x y between hbetween.symm hlength).imp_right ?_
    intro hputs
    obtain ⟨earlier, more, heq, hputs⟩ := hputs
    exact ⟨earlier, more, heq, hputs.left others⟩

theorem postings {date : Date} (hlast : ∀ last ∈ Entry.lastDate pending, last ≤ date)
    (dated : ∀ entry ∈ new, entry.date = date) : OrderedBut files pending passages new := by
  intro first x y second hsplit hlength
  obtain ⟨left, hleft, rfl⟩ := Entry.split_behind hsplit hlength
  rw [dated y (by simp)]
  left
  cases left using List.reverseRecOn with
  | nil =>
      rw [List.append_nil] at hleft
      refine hlast _ ?_
      rw [← hleft, Entry.lastDate_append]
      rfl
  | append_singleton left z =>
      rw [← List.append_assoc] at hleft
      obtain ⟨-, hsame⟩ := List.append_inj' hleft rfl
      obtain rfl := List.singleton_inj.1 hsame
      rw [dated x (by simp)]
      exact Date.le_refl date

theorem inclusion {p : Passage} (hitem : ¬ p.item.isPostings)
    (h : OrderedBut files pending passages new) : OrderedBut files pending (p :: passages) new := by
  intro first x y second hsplit hlength
  refine (h first x y second hsplit hlength).imp_right ?_
  intro hputs
  obtain ⟨earlier, more, heq, hputs⟩ := hputs
  exact ⟨earlier, more, heq, hputs.right (Passage.contribute_quiet hitem)⟩

theorem journal {p : Passage} {path : String} (hitem : p.item.journal? = some path)
    (hwalks : Walks files (Path.resolve p.file path) passages) (hnew : Contribute passages new)
    (h : OrderedBut files [] passages new) : OrderedBut files pending (p :: passages) new := by
  have quiet : ¬ p.item.isPostings := by
    intro hpostings
    cases hkind : p.item <;> rw [hkind] at hpostings hitem <;> cases hpostings
    cases hitem
  intro first x y second hsplit hlength
  obtain ⟨left, hleft, rfl⟩ := Entry.split_behind hsplit hlength
  cases left using List.reverseRecOn with
  | nil =>
      right
      refine ⟨[], second, hleft.symm, [], p, passages, [], path, ?_, hitem, hwalks, .nil, hnew⟩
      rw [List.append_nil]
      rfl
  | append_singleton left z =>
      rw [← List.append_assoc] at hleft
      obtain ⟨rfl, hsame⟩ := List.append_inj' hleft rfl
      obtain rfl := List.singleton_inj.1 hsame
      rw [List.append_assoc] at h
      refine (h left x y second rfl (Nat.succ_pos _)).imp_right ?_
      intro hputs
      obtain ⟨earlier, more, heq, hputs⟩ := hputs
      refine ⟨earlier, more, ?_, hputs.right (Passage.contribute_quiet quiet)⟩
      rw [List.append_assoc, ← heq]
      rfl

end OrderedBut

/-! ## Reading -/

theorem Asks.unique {files : Files} {file : String} {item : Item} {inner other : List Passage}
    (h : Asks files file item inner) (h' : Asks files file item other) : inner = other := by
  unfold Asks at h h'
  split at h
  · next hpath =>
    rw [hpath] at h'
    exact h.trans h'.symm
  · next hpath =>
    rw [hpath] at h'
    exact h.unique h'

/-- Every file that is read puts its entries behind others in this order. -/
def ReadsOrdered (files : Files) (depth : Nat) : Prop :=
  ∀ {visit books after passages new}, (Books.read files depth visit books).result = .ok after →
    Walks files visit.path passages → after.pending = books.pending ++ new →
    OrderedBut files books.pending passages new

section Run

variable {files : Files} {depth : Nat} {file : String} {scope : Scope} {before : List Item}
  {p q : Progress} {new : List Entry}

theorem Item.run_ordered {item : Item} {inner : List Passage} (reads : ReadsOrdered files depth)
    (hinner : Asks files file item inner)
    (h : (Statement.run (Books.read files depth) file scope p (item.statement file)).result = .ok q)
    (hnew : q.books.pending = p.books.pending ++ new) :
    OrderedBut files p.books.pending (⟨file, before, item⟩ :: inner) new := by
  have quiet (hsame : q.books.pending = p.books.pending) :
      OrderedBut files p.books.pending (⟨file, before, item⟩ :: inner) new := by
    rw [hsame] at hnew
    rw [List.self_eq_append_right.1 hnew]
    exact .nil
  cases item with
  | date day hday =>
      obtain ⟨-, date, -, rfl⟩ := Progress.await_eq_ok.1 h
      exact quiet rfl
  | postings first others =>
      obtain ⟨date, start, -, pending, hpending, rfl⟩ := Progress.enter_eq_ok.1 h
      obtain ⟨hlast, rfl⟩ := (Entry.appendAll_eq_ok
        (Progress.entries_ne_nil (List.cons_ne_nil _ _)) Progress.date_of_mem_entries).1 hpending
      rw [← List.append_cancel_left hnew]
      exact .postings hlast Progress.date_of_mem_entries
  | openLedger keyword hkeyword pairs =>
      rw [statement, Statement.result_run_openLedger] at h
      obtain ⟨-, chart, -, rfl⟩ := Progress.openChart_eq_ok.1 h
      exact quiet rfl
  | useAccount keyword hkeyword account haccount =>
      cases h
      exact quiet rfl
  | inclusion keyword hkeyword path hpath =>
      rw [statement, Statement.result_run_inclusion, map_eq_ok] at h
      obtain ⟨books, hread, rfl⟩ := h
      exact .inclusion Bool.false_ne_true (reads hread hinner hnew)
  | journal keyword hkeyword path hpath =>
      rw [statement, Statement.result_run_journal, map_eq_ok] at h
      obtain ⟨books, hread, rfl⟩ := h
      obtain ⟨passages, entries, hwalks, hentries, hbooks⟩ := Books.read_adds hread
      obtain rfl := hwalks.unique hinner
      have hsame : entries = new := by
        rw [← List.append_cancel_left hnew, hbooks]
        rfl
      subst hsame
      exact .journal rfl hwalks hentries (reads hread hwalks hbooks)

theorem Item.runAll_ordered {items : List Item} {passages : List Passage}
    (reads : ReadsOrdered files depth) (formed : ∀ item ∈ items, item.Formed)
    (follows : p.Follows file before) (hwalk : Walk files file before items passages)
    (h : runAll (Books.read files depth) file scope p items = .ok q)
    (hnew : q.books.pending = p.books.pending ++ new) :
    OrderedBut files p.books.pending passages new := by
  have adds : ∀ visit books after, (Books.read files depth visit books).result = .ok after →
      Adds files visit.path books.pending after.pending := fun _ _ _ hread => Books.read_adds hread
  induction items generalizing before p passages new with
  | nil =>
      cases h
      rw [List.self_eq_append_right.1 hnew]
      exact .nil
  | cons item items ih =>
      obtain ⟨hitem, hitems⟩ := List.forall_mem_cons.1 formed
      obtain ⟨inner, others, hinner, hrest, rfl⟩ := hwalk.exists_of_cons
      obtain ⟨mid, hmid, h⟩ := runAll_cons_eq_ok.1 h
      have hdoes := Statement.does_of_run adds hmid
      have hfollows := Item.follows hitem follows hdoes
      obtain ⟨asked, own, hasked, hown, hmidPending⟩ := Item.contributes follows hdoes
      obtain rfl := hasked.unique hinner
      obtain ⟨_, rest, -, -, hlater⟩ :=
        Item.contributesAll hitems hfollows adds (runAll_eq_foldlM items ▸ h)
      have hboth : new = own ++ rest := by
        rw [hlater, hmidPending, List.append_assoc] at hnew
        exact (List.append_cancel_left hnew).symm
      have hstep : OrderedBut files p.books.pending (⟨file, before, item⟩ :: asked) own :=
        Item.run_ordered reads hinner hmid hmidPending
      have hothers := ih hitems hfollows hrest h hlater
      rw [hmidPending] at hothers
      rw [hboth, ← List.cons_append]
      exact hstep.append hown hothers

end Run

theorem Books.read_ordered (files : Files) (depth : Nat) : ReadsOrdered files depth := by
  induction depth with
  | zero =>
      intro visit books after passages new h
      cases h
  | succ depth ih =>
      intro visit books after passages new h hwalks hnew
      obtain ⟨text, items, p, htext, hitems, -, hrun, -, rfl⟩ := read_succ_eq_ok.1 h
      obtain ⟨found, others, hfound, hothers, hwalk⟩ := hwalks
      cases htext.symm.trans hfound
      cases hitems.unique hothers
      exact Item.runAll_ordered ih hitems.formed (Progress.follows_begin books visit.path) hwalk
        hrun hnew

namespace Draft

/-- The entries of a draft before they are sorted are those that its walk contributes.
    An entry that is earlier than the one before it is the first that some journal
    puts there. Without a journal the entries are sorted as they were read. -/
theorem read_breaks {files : Files} {root : String} {d : Draft}
    (h : (read files root).result = .ok d) :
    ∃ books passages,
      (Books.read files files.nesting ⟨root, Span.startOf root, .ledger⟩ .empty).result =
        .ok books ∧ d = ofBooks root books ∧
      (∀ others, Walks files root others ↔ others = passages) ∧
      Contribute passages books.pending ∧
      (∀ first x y second, books.pending = first ++ x :: y :: second →
        x.date ≤ y.date ∨ ∃ new, JournalPuts files passages (first ++ [x]) (y :: new)) ∧
      ((∀ p ∈ passages, p.item.journal? = none) →
        books.pending.Pairwise (fun a b => a.date ≤ b.date) ∧ d.pending = books.pending) := by
  obtain ⟨books, hbooks, rfl⟩ := result_read_eq_ok.1 h
  obtain ⟨passages, entries, hwalks, hentries, hpending⟩ := Books.read_adds hbooks
  replace hpending : books.pending = entries := hpending
  have hordered : ∀ first x y second, books.pending = first ++ x :: y :: second →
      x.date ≤ y.date ∨ ∃ new, JournalPuts files passages (first ++ [x]) (y :: new) := by
    intro first x y second hsplit
    refine (Books.read_ordered files _ hbooks hwalks rfl first x y second hsplit
      (Nat.succ_pos _)).imp_right ?_
    intro hputs
    obtain ⟨earlier, more, heq, hputs⟩ := hputs
    exact ⟨more, heq ▸ hputs⟩
  refine ⟨books, passages, hbooks, rfl, ?_, hpending ▸ hentries, hordered, ?_⟩
  · exact fun others => ⟨fun hothers => hothers.unique hwalks, fun hothers => hothers ▸ hwalks⟩
  · intro hnone
    have hsorted : books.pending.Pairwise fun a b => a.date ≤ b.date := by
      have : IsTrans Entry fun a b => a.date ≤ b.date := ⟨fun _ _ _ => Date.le_trans⟩
      refine List.isChain_iff_pairwise.1 (List.isChain_iff_forall_rel_of_append_cons_cons.2 ?_)
      intro x y first second hsplit
      refine (hordered first x y second hsplit).resolve_right ?_
      intro hputs
      obtain ⟨new, before, p, inner, after, path, rfl, hitem, -⟩ := hputs
      cases hitem.symm.trans (hnone p (by simp))
    exact ⟨hsorted, by rw [ofBooks_of_sorted root hsorted]⟩

theorem read_breaks_maskedFiles :
    ∃ d passages x y others new, (read maskedFiles "main").result = .ok d ∧
      (Books.read maskedFiles maskedFiles.nesting ⟨"main", Span.startOf "main", .ledger⟩
        .empty).result.map (·.pending) = .ok (x :: y :: others) ∧
      ¬ x.date ≤ y.date ∧ JournalPuts maskedFiles passages [x] (y :: new) := by
  have hdates : (Books.read maskedFiles maskedFiles.nesting
      ⟨"main", Span.startOf "main", .ledger⟩ .empty).result.map (·.pending.map (·.date)) =
        .ok [⟨2020, 3, 9, by decide⟩, ⟨2020, 1, 31, by decide⟩, ⟨2020, 3, 5, by decide⟩] := by
    decide +kernel
  obtain ⟨books, hbooks, hpending⟩ := map_eq_ok.1 hdates
  obtain ⟨x, behind, hpending, hx, hbehind⟩ := List.map_eq_cons_iff.1 hpending
  obtain ⟨y, others, rfl, hy, -⟩ := List.map_eq_cons_iff.1 hbehind
  have hread : (read maskedFiles "main").result = .ok (ofBooks "main" books) :=
    result_read_eq_ok.2 ⟨books, hbooks, rfl⟩
  obtain ⟨found, passages, hfound, -, -, -, hordered, -⟩ := read_breaks hread
  cases hbooks.symm.trans hfound
  have hearlier : ¬ x.date ≤ y.date := by
    rw [hx, hy]
    decide
  obtain ⟨new, hputs⟩ := (hordered [] x y others hpending).resolve_left hearlier
  refine ⟨_, passages, x, y, others, new, hread, ?_, hearlier, hputs⟩
  rw [hbooks, ← hpending]
  rfl

end Draft

end DoubleEntry
