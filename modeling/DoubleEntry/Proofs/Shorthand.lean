import DoubleEntry.Proofs.Inlining
import DoubleEntry.Proofs.Longhand

/-! # Contra accounts are a shorthand

Whatever can be read with contra accounts can be written out in longhand, and every
text that says the same in longhand comes to books that match: the same accounts and
dates, and the same movements in the same order. Entries that a contra account
balances always add up to zero, so no check complains that they do not.
-/

namespace DoubleEntry

open Lexeme

/-! ## Every shorthand has a longhand -/

/-- Each token of the item is what its own text falls apart into. -/
def Item.Whole (item : Item) : Prop := ∀ t ∈ item.tokens, t.toLexeme.Whole

namespace Pair

theorem Alike.refl (p : Pair) : p.Alike p := ⟨rfl, rfl⟩

theorem Alike.symm {p q : Pair} (h : p.Alike q) : q.Alike p := ⟨h.number.symm, h.account.symm⟩

theorem Alike.trans {p q r : Pair} (h : p.Alike q) (h' : q.Alike r) : p.Alike r :=
  ⟨h.number.trans h'.number, h.account.trans h'.account⟩

theorem alikeAll {ps qs ps' qs' : List Pair} (h : List.Forall₂ Alike ps qs)
    (hps : List.Forall₂ Alike ps ps') (hqs : List.Forall₂ Alike qs qs') :
    List.Forall₂ Alike ps' qs' := by
  induction h generalizing ps' qs' with
  | nil =>
      cases hps
      cases hqs
      exact .nil
  | cons hpq _ ih =>
      obtain ⟨_, _, hp, hrest, rfl⟩ := List.forall₂_cons_left_iff.1 hps
      obtain ⟨_, _, hq, hothers, rfl⟩ := List.forall₂_cons_left_iff.1 hqs
      exact .cons (hp.symm.trans (hpq.trans hq)) (ih hrest hothers)

theorem Balances.alike {account account' : Token} {p p' balance balance' : Pair}
    (h : p.Balances account balance) (haccount : account.text = account'.text) (hp : p.Alike p')
    (hbalance : balance.Alike balance') : p'.Balances account' balance' where
  named := by rw [← hbalance.account, h.named, haccount]
  value := by
    have hvalue := h.value
    simp only [Pair.value, counterpart, name, hbalance.number, hp.number, hp.account,
      haccount] at hvalue ⊢
    exact hvalue

/-- The pair that balances `p` on an account, its number written with two decimals. -/
def balancing (p : Pair) (account : Token) (haccount : account.kind = .account) : Pair where
  number := { p.number with text := Money.formatChars (p.counterpart (String.ofList account.text)) }
  account := account
  number_kind := p.number_kind
  account_kind := haccount

theorem balances_balancing (p : Pair) {account : Token} (haccount : account.kind = .account) :
    p.Balances account (p.balancing account haccount) :=
  ⟨rfl, (Money.spelled_formatChars _).2⟩

theorem whole_balancing (p : Pair) {account : Token} (haccount : account.kind = .account)
    (hwhole : account.toLexeme.Whole) :
    ∀ t ∈ (p.balancing account haccount).tokens, t.toLexeme.Whole := by
  intro t ht
  simp only [tokens, balancing, List.mem_cons, List.not_mem_nil, or_false] at ht
  rcases ht with rfl | rfl
  · dsimp only
    rw [p.number_kind]
    exact whole_formatChars _
  · exact hwhole

end Pair

theorem Item.exists_balanced {day account : Token} (hday : day.kind = .date)
    (haccount : account.kind = .account) (hwhole : day.toLexeme.Whole ∧ account.toLexeme.Whole)
    {ps : List Pair} (hps : ∀ t ∈ ps.flatMap Pair.tokens, t.toLexeme.Whole) :
    ∃ items, Balanced day account ps items ∧ ∀ item ∈ items, item.Whole := by
  induction ps with
  | nil => exact ⟨[], .nil, List.forall_mem_nil _⟩
  | cons p ps ih =>
      obtain ⟨hp, hrest⟩ := List.forall_mem_append.1 hps
      obtain ⟨items, hitems, hothers⟩ := ih hrest
      refine ⟨_, .cons hday rfl (.refl p) (p.balances_balancing haccount) hitems, ?_⟩
      refine List.forall_mem_cons.2 ⟨List.forall_mem_singleton.2 hwhole.1,
        List.forall_mem_cons.2 ⟨?_, hothers⟩⟩
      refine List.forall_mem_append.2 ⟨hp, ?_⟩
      simpa using p.whole_balancing haccount hwhole.2

/-- A token of one kind that is what its own text falls apart into. -/
def Token.Writable (kind : Kind) (t : Token) : Prop := t.kind = kind ∧ t.toLexeme.Whole

/-- What can be read can be written in longhand. -/
theorem exists_longhand {read : Visit → Books → Traced Books} {file : String} {scope : Scope}
    {p q : Progress} {day contra : Option Token} {items : List Item}
    (alone : ∀ item ∈ items, item.path? = none) (whole : ∀ item ∈ items, item.Whole)
    (hday : p.awaiting.isSome → ∃ token ∈ day, token.Writable .date)
    (hcontra : ∀ token ∈ contra, token.Writable .account)
    (h : Item.runAll read file scope p items = .ok q) :
    ∃ others, Longhand day contra items others ∧ ∀ item ∈ others, item.Whole := by
  induction items generalizing p day contra with
  | nil => exact ⟨[], .nil, List.forall_mem_nil _⟩
  | cons item items ih =>
      obtain ⟨hitem, hitems⟩ := List.forall_mem_cons.1 whole
      obtain ⟨hpath, hpaths⟩ := List.forall_mem_cons.1 alone
      obtain ⟨mid, hmid, hrest⟩ := Item.runAll_cons_eq_ok.1 h
      cases item with
      | date token htoken =>
          have hnext : ∃ t ∈ some token, t.Writable .date :=
            ⟨token, rfl, htoken, hitem token List.mem_cons_self⟩
          obtain ⟨others, hothers, hall⟩ := ih hpaths hitems (fun _ => hnext) hcontra hrest
          exact ⟨others, .date htoken hothers, hall⟩
      | postings first pairs =>
          obtain ⟨date, start, hwait, pending, -, hmid⟩ := Progress.enter_eq_ok.1 hmid
          have hlatest := hday (by rw [hwait]; rfl)
          obtain ⟨others, hothers, hall⟩ := ih hpaths hitems (fun _ => hlatest) hcontra hrest
          obtain ⟨token, rfl, htoken, hwhole⟩ := hlatest
          cases contra with
          | none =>
              refine ⟨_, .joint htoken rfl (List.forall₂_same.2 fun p _ => .refl p) hothers, ?_⟩
              exact List.forall_mem_cons.2 ⟨List.forall_mem_singleton.2 hwhole,
                List.forall_mem_cons.2 ⟨hitem, hall⟩⟩
          | some account =>
              obtain ⟨haccount, hown⟩ := hcontra account rfl
              obtain ⟨blocks, hblocks, hbalanced⟩ :=
                Item.exists_balanced htoken haccount ⟨hwhole, hown⟩ hitem
              exact ⟨_, .balanced hblocks hothers, List.forall_mem_append.2 ⟨hbalanced, hall⟩⟩
      | openLedger keyword hkeyword pairs =>
          rw [Item.statement, Statement.result_run_openLedger] at hmid
          obtain ⟨-, chart, -, hmid⟩ := Progress.openChart_eq_ok.1 hmid
          have hsame : mid.awaiting = p.awaiting := by rw [← hmid]
          obtain ⟨others, hothers, hall⟩ := ih hpaths hitems (hsame ▸ hday) hcontra hrest
          refine ⟨_, .openLedger hkeyword hkeyword
            (List.forall₂_same.2 fun p _ => .refl p) hothers, ?_⟩
          exact List.forall_mem_cons.2 ⟨hitem, hall⟩
      | useAccount keyword hkeyword account haccount =>
          have hsame : mid.awaiting = p.awaiting := by
            cases hmid
            rfl
          have hnext : ∀ token ∈ some account, token.Writable .account := by
            rintro token ⟨⟩
            exact ⟨haccount, hitem account (List.mem_cons_of_mem _ List.mem_cons_self)⟩
          obtain ⟨others, hothers, hall⟩ := ih hpaths hitems (hsame ▸ hday) hnext hrest
          exact ⟨others, .useAccount hkeyword haccount hothers, hall⟩
      | inclusion | journal => cases hpath

/-! ## The longhand as a text -/

/-- A row of items that others can be written before: it does not begin with postings,
    and no postings follow directly behind other pairs. -/
structure Item.Separate (items : List Item) : Prop where
  begins : ∀ item ∈ items.head?, ¬ item.isPostings
  maximal : items.IsChain fun item next => item.endsInPairs → ¬ next.isPostings

namespace Item

variable {items : List Item}

theorem separate_block {day : Token} (hday : day.kind = .date) (first : Pair) (pairs : List Pair)
    (h : Separate items) : Separate (.date day hday :: .postings first pairs :: items) where
  begins := by simp [isPostings]
  maximal := by
    refine List.isChain_cons.2 ⟨by simp [endsInPairs], List.isChain_cons.2 ⟨?_, h.maximal⟩⟩
    exact fun next hnext _ => h.begins next hnext

theorem Balanced.separate {day account : Token} {ps : List Pair} {blocks : List Item}
    (h : Balanced day account ps blocks) (hitems : Separate items) :
    Separate (blocks ++ items) := by
  induction h with
  | nil => exact hitems
  | cons _ _ _ _ _ ih => exact separate_block _ _ _ ih

theorem exists_block_of_alike {day : Token} {hday : day.kind = .date} {first : Pair}
    {pairs : List Pair} {others : List Item}
    (h : List.Forall₂ Alike (.date day hday :: .postings first pairs :: items) others) :
    ∃ day' hday' first' pairs' rest, others = .date day' hday' :: .postings first' pairs' :: rest ∧
      day.text = day'.text ∧ List.Forall₂ Pair.Alike (first :: pairs) (first' :: pairs') ∧
      List.Forall₂ Alike items rest := by
  obtain ⟨_, _, hdate, hbehind, rfl⟩ := List.forall₂_cons_left_iff.1 h
  obtain ⟨_, _, hpostings, hrest, rfl⟩ := List.forall₂_cons_left_iff.1 hbehind
  cases hdate with
  | date hsame =>
      cases hpostings with
      | postings hpairs => exact ⟨_, _, _, _, _, rfl, hsame, hpairs, hrest⟩

theorem Balanced.alike {day day' account account' : Token} {ps ps' : List Pair}
    {blocks blocks' : List Item} (h : Balanced day account ps blocks) (hday : day.text = day'.text)
    (haccount : account.text = account'.text) (hps : List.Forall₂ Pair.Alike ps ps')
    (hblocks : List.Forall₂ Alike blocks blocks') : Balanced day' account' ps' blocks' := by
  induction h generalizing ps' blocks' with
  | nil =>
      cases hps
      cases hblocks
      exact .nil
  | cons _ hown hpair hbalance _ ih =>
      obtain ⟨own, hkind, first, pairs, rest, rfl, hsame, hpairs, hrest⟩ :=
        exists_block_of_alike hblocks
      obtain ⟨_, _, hp, hbehind, rfl⟩ := List.forall₂_cons_left_iff.1 hps
      obtain ⟨hq, hothers⟩ := List.forall₂_cons.1 hpairs
      obtain ⟨balance', _, hr, hnil, rfl⟩ := List.forall₂_cons_left_iff.1 hothers
      cases hnil
      exact .cons hkind (hsame.symm.trans (hown.trans hday))
        (hp.symm.trans (hpair.trans hq)) (hbalance.alike haccount hp hr) (ih hbehind hrest)

end Item

namespace Longhand

variable {day contra : Option Token} {items others : List Item}

theorem separate (h : Longhand day contra items others) : Item.Separate others := by
  induction h with
  | nil => exact ⟨nofun, .nil⟩
  | date _ _ ih => exact ih
  | useAccount _ _ _ ih => exact ih
  | openLedger _ _ _ _ ih =>
      refine ⟨by simp [Item.isPostings], List.isChain_cons.2 ⟨?_, ih.maximal⟩⟩
      exact fun next hnext _ => ih.begins next hnext
  | joint _ _ _ _ ih => exact Item.separate_block _ _ _ ih
  | balanced hblocks _ ih => exact hblocks.separate ih

theorem alike {day' contra' : Option Token} {items' others' : List Item}
    (h : Longhand day contra items others) (hday : Option.Rel (·.text = ·.text) day day')
    (hcontra : Option.Rel (·.text = ·.text) contra contra')
    (hitems : List.Forall₂ Item.Alike items items')
    (hothers : List.Forall₂ Item.Alike others others') : Longhand day' contra' items' others' := by
  induction h generalizing day' contra' items' others' with
  | nil =>
      cases hitems
      cases hothers
      exact .nil
  | date _ _ ih =>
      obtain ⟨_, _, hitem, hleft, rfl⟩ := List.forall₂_cons_left_iff.1 hitems
      cases hitem with
      | date hsame => exact .date _ (ih (.some hsame) hcontra hleft hothers)
  | useAccount _ _ _ ih =>
      obtain ⟨_, _, hitem, hleft, rfl⟩ := List.forall₂_cons_left_iff.1 hitems
      cases hitem with
      | useAccount hsame => exact .useAccount _ _ (ih hday (.some hsame) hleft hothers)
  | openLedger _ _ hpairs _ ih =>
      obtain ⟨_, _, hitem, hleft, rfl⟩ := List.forall₂_cons_left_iff.1 hitems
      obtain ⟨_, _, hother, hright, rfl⟩ := List.forall₂_cons_left_iff.1 hothers
      cases hitem with
      | openLedger hfirst =>
          cases hother with
          | openLedger hsecond =>
              exact .openLedger _ _ (Pair.alikeAll hpairs hfirst hsecond)
                (ih hday hcontra hleft hright)
  | joint _ hown hpairs _ ih =>
      obtain ⟨own, hkind, first, pairs, rest, rfl, hsame, hfirst, hrest⟩ :=
        Item.exists_block_of_alike hothers
      obtain ⟨_, _, hitem, hleft, rfl⟩ := List.forall₂_cons_left_iff.1 hitems
      cases hcontra
      cases hday with
      | some hday =>
          cases hitem with
          | postings hblock =>
              exact .joint hkind (hsame.symm.trans (hown.trans hday))
                (Pair.alikeAll hpairs hblock hfirst) (ih (.some hday) .none hleft hrest)
  | balanced hblocks _ ih =>
      obtain ⟨blocks', rest, rfl, hsame, hrest⟩ := exists_of_forall₂_append hothers
      obtain ⟨_, _, hitem, hleft, rfl⟩ := List.forall₂_cons_left_iff.1 hitems
      cases hday with
      | some hday =>
          cases hcontra with
          | some haccount =>
              cases hitem with
              | postings hblock =>
                  exact .balanced (hblocks.alike hday haccount hblock hsame)
                    (ih (.some hday) (.some haccount) hleft hrest)

end Longhand

theorem Longhand.writes_of_said {items others : List Item} {text longhand : String}
    (h : Longhand none none items others)
    (hitems : items.IsChain fun item next => item.endsInPairs → ¬ next.isPostings)
    (htext : Token.said (Token.ofString text) = Token.said (items.flatMap Item.tokens))
    (hlonghand : Token.said (Token.ofString longhand) = Token.said (others.flatMap Item.tokens)) :
    Writes text longhand := by
  have hspells : Spells items (items.flatMap Item.tokens) := ⟨rfl, hitems⟩
  have hwritten : Spells others (others.flatMap Item.tokens) := ⟨rfl, h.separate.maximal⟩
  obtain ⟨items', hitems', hleft⟩ := hspells.exists_alike htext
  obtain ⟨others', hothers', hright⟩ := hwritten.exists_alike hlonghand
  exact ⟨items', others', hitems', hothers', h.alike .none .none hleft hright⟩

/-- What can be read of a single file can be written in longhand, each token on a line. -/
theorem Longhand.exists_writes {read : Visit → Books → Traced Books} {file text : String}
    {scope : Scope} {q : Progress} {items : List Item} (hitems : Spells items (Token.ofString text))
    (alone : ∀ item ∈ items, item.path? = none)
    (h : Item.runAll read file scope (.begin .empty) items = .ok q) :
    ∃ longhand, Writes text longhand := by
  have hwhole : ∀ item ∈ items, item.Whole := by
    intro item hitem t ht
    have hmem : t ∈ Token.ofString text := by
      rw [hitems.whole]
      exact List.mem_flatMap.2 ⟨item, hitem, ht⟩
    exact Token.whole_of_mem hmem
  have hidle : (Progress.begin .empty).awaiting.isSome →
      ∃ token ∈ (none : Option Token), token.Writable .date := by
    simp [Progress.begin]
  have hnone : ∀ token ∈ (none : Option Token), token.Writable .account := nofun
  obtain ⟨others, hothers, hall⟩ := exists_longhand alone hwhole hidle hnone h
  have htokens : ∀ t ∈ others.flatMap Item.tokens, t.toLexeme.Whole := by
    intro t ht
    obtain ⟨item, hitem, ht⟩ := List.mem_flatMap.1 ht
    exact hall item hitem t ht
  exact ⟨_, writes_of_said hothers hitems.maximal (congrArg Token.said hitems.whole)
    (Token.said_ofString_lines htokens)⟩

/-! ## What contra accounts balance -/

theorem Passage.Contributes.sum_eq_zero {p : Passage} {new : List Entry} (h : p.Contributes new)
    (hcontra : p.contra? ≠ none) : ∀ entry ∈ new, Leg.sum entry.legs = 0 := by
  cases h with
  | joint _ _ _ hnone => exact absurd hnone hcontra
  | balanced =>
      refine List.forall_mem_map.2 fun pair _ => ?_
      simp [Leg.sum, contraLeg]
  | nothing => exact List.forall_mem_nil _

theorem Passage.Contributes.eq_singleton {p : Passage} {new : List Entry} (h : p.Contributes new)
    (hcontra : p.contra? = none) {entry : Entry} (hentry : entry ∈ new) : new = [entry] := by
  cases h with
  | joint =>
      rw [List.mem_singleton.1 hentry]
  | balanced _ _ _ hsome => exact absurd (hcontra.symm.trans hsome) nofun
  | nothing => cases hentry

theorem Contribute.mem_iff {passages : List Passage} {entries : List Entry}
    (h : Contribute passages entries) {entry : Entry} :
    entry ∈ entries ↔ ∃ p ∈ passages, ∃ new, Passage.Contributes p new ∧ entry ∈ new := by
  induction h with
  | nil => simp
  | @cons p passages new entries hp _ ih =>
      have hown : (∃ other, Passage.Contributes p other ∧ entry ∈ other) ↔ entry ∈ new := by
        constructor
        · rintro ⟨other, hother, hentry⟩
          rwa [hp.unique hother]
        · exact fun hentry => ⟨new, hp, hentry⟩
      simp only [List.mem_append, List.mem_cons, exists_eq_or_imp, hown, ih]

/-! ## Drafts of both -/

/-- Lists that correspond still do so when both are sorted by what corresponds. -/
theorem forall₂_mergeSort {α β : Type} {R : α → β → Prop} {r : α → α → Bool} {s : β → β → Bool}
    {l : List α} {l' : List β} (h : List.Forall₂ R l l')
    (hsame : ∀ {a a' b b'}, R a a' → R b b' → r a b = s a' b') :
    List.Forall₂ R (l.mergeSort r) (l'.mergeSort s) := by
  obtain ⟨hlength, hzip⟩ := List.forall₂_iff_zip.1 h
  have hleft : l.mergeSort r = ((l.zip l').mergeSort fun x y => r x.1 y.1).map Prod.fst := by
    rw [List.map_mergeSort (s := r) fun _ _ _ _ => rfl, List.map_fst_zip (Nat.le_of_eq hlength)]
  have hright : l'.mergeSort s = ((l.zip l').mergeSort fun x y => r x.1 y.1).map Prod.snd := by
    rw [List.map_mergeSort (s := s) fun x hx y hy => hsame (hzip hx) (hzip hy),
      List.map_snd_zip (Nat.le_of_eq hlength.symm)]
  rw [hleft, hright, List.forall₂_map_left_iff, List.forall₂_map_right_iff, List.forall₂_same]
  intro x hx
  exact hzip (List.mem_mergeSort.1 hx)

namespace Draft

theorem matches_of_shortens {day contra : Option Token} {p : Progress} {books : Books}
    (file : String) (h : p.Shortens day contra books) (hwait : p.awaiting = none) :
    (ofBooks file p.books).Matches Entry.Matches (ofBooks file books) := by
  have hpending : List.Forall₂ Entry.Matches (ofBooks file p.books).pending
      (ofBooks file books).pending :=
    forall₂_mergeSort h.pending fun ha hb => by rw [ha.date, hb.date]
  refine ⟨h.accounts, hpending, ?_, Entry.lastDate_of_matches hpending⟩
  have hstart := h.start
  rwa [hwait, Option.map_none, Option.or_none] at hstart

/-- Postings with a contra account are a shorthand. A single file that can be read can be
    written in longhand, and every such longhand is read to a draft of the same accounts
    and dates, with the same movements in the same order. Both or neither can be checked,
    with the same balances. Entries that the contra account balances add up to zero, so
    whenever an entry is found not to add up, it comes from a block without one. -/
theorem read_longhand {files : Files} {root text : String} {d : Draft}
    (htext : files.read root = .ok text) (alone : Token.Alone (Token.ofString text))
    (h : (read files root).result = .ok d) :
    (∃ longhand, Longhand.Writes text longhand) ∧
    (∀ (others : Files) longhand, others.read root = .ok longhand → 0 < others.nesting →
      Longhand.Writes text longhand → ∃ d', (read others root).result = .ok d' ∧
        d.Matches Entry.Matches d' ∧ Agree (Ledger.Matches Entry.Matches) d.check d'.check) ∧
    ∃ passages, Walks files root passages ∧
      (∀ p ∈ passages, p.contra? ≠ none → ∀ new, p.Contributes new →
        ∀ entry ∈ new, entry ∈ d.pending ∧ Leg.sum entry.legs = 0) ∧
      ∀ fault, d.check = .error fault → fault.cause.kind = .notBalanced →
        ∃ p ∈ passages, p.contra? = none ∧ ∃ entry ∈ d.pending, p.Contributes [entry] ∧
          Leg.sum entry.legs ≠ 0 ∧
          fault = ⟨.unbalanced entry.date (Leg.sum entry.legs), entry.span⟩ := by
  obtain ⟨books, hbooks, rfl⟩ := result_read_eq_ok.1 h
  obtain ⟨passages, entries, hwalks, hentries, hpending⟩ := Books.read_adds hbooks
  obtain rfl : books.pending = entries := hpending
  have hmem {entry : Entry} : entry ∈ (ofBooks root books).pending ↔ entry ∈ books.pending :=
    List.mem_mergeSort
  cases hnesting : files.nesting with
  | zero =>
      rw [hnesting] at hbooks
      cases hbooks
  | succ depth =>
      rw [hnesting, Books.read_succ_eq_ok] at hbooks
      obtain ⟨same, items, p, hsame, hitems, hfits, hrun, hwait, rfl⟩ := hbooks
      cases htext.symm.trans hsame
      refine ⟨Longhand.exists_writes hitems (hitems.path?_eq_none alone) hrun, ?_, passages, hwalks,
        ?_, ?_⟩
      · intro others longhand hlonghand hdepth hwrites
        obtain ⟨items', others', hitems', hothers', hlong⟩ := hwrites
        obtain rfl := hitems.unique hitems'
        obtain ⟨depth', hdepth'⟩ := Nat.exists_eq_succ_of_ne_zero (Nat.ne_of_gt hdepth)
        obtain ⟨day, contra, after, hafter, hshortens⟩ :=
          hlong.runAll Progress.shortens_empty hrun (Books.read others depth')
        have hread : (read others root).result = .ok (ofBooks root after) := by
          refine result_read_eq_ok.2 ⟨after, ?_, rfl⟩
          rw [hdepth', Books.read_succ_eq_ok]
          exact ⟨longhand, others', _, hlonghand, hothers', hlong.fits hfits, hafter, rfl, rfl⟩
        have hmatches := matches_of_shortens root hshortens hwait
        exact ⟨_, hread, hmatches, check_agrees (fun _ _ => id) hmatches⟩
      · intro p hp hcontra new hnew entry hentry
        exact ⟨hmem.2 (hentries.mem_iff.2 ⟨p, hp, new, hnew, hentry⟩),
          hnew.sum_eq_zero hcontra entry hentry⟩
      · intro fault hfault hkind
        obtain ⟨entry, hentry, hsum, hfault⟩ := exists_unbalanced (read_unposted h) hfault hkind
        obtain ⟨p, hp, new, hnew, hin⟩ := hentries.mem_iff.1 (hmem.1 hentry)
        have hcontra : p.contra? = none := by
          by_contra hcontra
          exact hsum (hnew.sum_eq_zero hcontra entry hin)
        obtain rfl := hnew.eq_singleton hcontra hin
        exact ⟨p, hp, hcontra, entry, hentry, hnew, hsum, hfault⟩

end Draft

/-- A block without a contra account, and one with it on accounts of all kinds. -/
def marketText : String :=
  "2020-05-01 1 ASSETS/Cash 1 CAPITAL/Own\n2020-05-02 use account ASSETS/Cash\n" ++
    " -5 EXPENSES/Food 3.50 CAPITAL/Own 2 Gift\n"

def marketLonghand : String :=
  "2020-05-01 1 ASSETS/Cash 1 CAPITAL/Own\n2020-05-02 -5 EXPENSES/Food 5 ASSETS/Cash\n" ++
    "2020-05-02 3.50 CAPITAL/Own 3.50 ASSETS/Cash\n2020-05-02 2 Gift -2.00 ASSETS/Cash\n"

def Token.bare (kind : Kind) (text : String) : Token := ⟨⟨kind, text.toList⟩, .first, []⟩

def Pair.bare (number account : String) : Pair :=
  ⟨.bare .number number, .bare .account account, rfl, rfl⟩

theorem Token.says_useAccount : (bare .directive "use account").Says "use account" := by
  decide +kernel

theorem Longhand.writes_marketText : Writes marketText marketLonghand := by
  have hblocks : Item.Balanced (.bare .date "2020-05-02") (.bare .account "ASSETS/Cash")
      [.bare "-5" "EXPENSES/Food", .bare "3.50" "CAPITAL/Own", .bare "2" "Gift"]
      [.date (.bare .date "2020-05-02") rfl,
        .postings (.bare "-5" "EXPENSES/Food") [.bare "5" "ASSETS/Cash"],
        .date (.bare .date "2020-05-02") rfl,
        .postings (.bare "3.50" "CAPITAL/Own") [.bare "3.50" "ASSETS/Cash"],
        .date (.bare .date "2020-05-02") rfl,
        .postings (.bare "2" "Gift") [.bare "-2.00" "ASSETS/Cash"]] := by
    refine .cons rfl rfl (.refl _) ⟨rfl, ?_⟩ (.cons rfl rfl (.refl _) ⟨rfl, ?_⟩
      (.cons rfl rfl (.refl _) ⟨rfl, ?_⟩ .nil))
    all_goals decide +kernel
  have hjoint : Longhand (some (.bare .date "2020-05-01")) none
      (.postings (.bare "1" "ASSETS/Cash") [.bare "1" "CAPITAL/Own"] :: _)
      (.date (.bare .date "2020-05-01") rfl ::
        .postings (.bare "1" "ASSETS/Cash") [.bare "1" "CAPITAL/Own"] :: _) :=
    .joint rfl rfl (List.forall₂_same.2 fun p _ => .refl p)
      (.date rfl (.useAccount Token.says_useAccount rfl (.balanced hblocks .nil)))
  refine Longhand.writes_of_said (.date rfl hjoint) ?_ ?_ ?_
  · simp [Item.endsInPairs, Item.isPostings]
  · decide +kernel
  · decide +kernel

namespace Draft

theorem read_longhand_marketText :
    ∃ d d', (read (.inMemory [("main", marketText)]) "main").result = .ok d ∧
      (read (.inMemory [("main", marketLonghand)]) "main").result = .ok d' ∧
      d.Matches Entry.Matches d' ∧ Agree (Ledger.Matches Entry.Matches) d.check d'.check := by
  have hok : (read (.inMemory [("main", marketText)]) "main").result.isOk := by decide +kernel
  have htext : (Files.inMemory [("main", marketText)]).read "main" = .ok marketText := by
    decide +kernel
  have hlonghand :
      (Files.inMemory [("main", marketLonghand)]).read "main" = .ok marketLonghand := by
    decide +kernel
  cases hread : (read (.inMemory [("main", marketText)]) "main").result with
  | error fault =>
      rw [hread] at hok
      cases hok
  | ok d =>
      obtain ⟨-, hall, -⟩ := read_longhand htext (by decide +kernel) hread
      obtain ⟨d', hread', hmatches, hcheck⟩ := hall _ _ hlonghand (by decide)
        Longhand.writes_marketText
      exact ⟨d, d', rfl, hread', hmatches, hcheck⟩

end Draft

end DoubleEntry
