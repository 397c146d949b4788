import DoubleEntry.Proofs.Alike
import DoubleEntry.Proofs.Beside
import DoubleEntry.Proofs.Seams

/-! # Including a file and writing it out

An inclusion can be replaced by the text of the file that it asks for, if it
stands where no date waits for its postings and where neither that file nor
anything before it names a contra account. A block of postings cannot go on across
the seams, since what follows a seam never begins with a number.
-/

namespace DoubleEntry

/-! ## Reading with other files -/

theorem Files.Tree.trans {files : Files} {root path other : String} (h : files.Tree root path)
    (h' : files.Tree path other) : files.Tree root other := by
  induction h' with
  | root => exact h
  | asked _ htext hasks ih => exact .asked ih htext hasks

/-- A file is not to be found below what it or a file below it asks for. -/
theorem Files.Reads.ne_of_tree {files : Files} {depth : Nat} {scope : Scope} {span : Span}
    {text : List Char} {root path other : String} (h : files.Reads depth scope root)
    (hfile : files.Tree root span.file) (htext : files.Holds span.file text)
    (hasks : span.Asks text path) (htree : files.Tree path other) : other ≠ root := by
  cases htree with
  | root => exact h.ne_of_asks hfile htext hasks
  | asked hbelow hother hnext =>
      exact h.ne_of_asks (Files.Tree.trans (.asked hfile htext hasks) hbelow) hother hnext

section Refines

variable {read read' : Visit → Books → Traced Books} {file : String} {scope : Scope}
  {p q : Progress} {items : List Item}

theorem Item.run_refines {item : Item}
    (reads : ∀ name, item.path? = some name → ∀ asker inner books after,
      (read ⟨Path.resolve file name, asker, inner⟩ books).result = .ok after →
      (read' ⟨Path.resolve file name, asker, inner⟩ books).result = .ok after)
    (h : (Statement.run read file scope p (item.statement file)).result = .ok q) :
    (Statement.run read' file scope p (item.statement file)).result = .ok q := by
  cases item with
  | inclusion keyword hkeyword path hpath =>
      rw [statement, Statement.result_run_inclusion, map_eq_ok] at h ⊢
      obtain ⟨after, hread, hq⟩ := h
      exact ⟨after, reads _ rfl _ _ _ _ hread, hq⟩
  | journal keyword hkeyword path hpath =>
      rw [statement, Statement.result_run_journal, map_eq_ok] at h ⊢
      obtain ⟨after, hread, hq⟩ := h
      exact ⟨after, reads _ rfl _ _ _ _ hread, hq⟩
  | date | postings | openLedger | useAccount => exact h

theorem Item.runAll_refines
    (reads : ∀ item ∈ items, ∀ name, item.path? = some name → ∀ asker inner books after,
      (read ⟨Path.resolve file name, asker, inner⟩ books).result = .ok after →
      (read' ⟨Path.resolve file name, asker, inner⟩ books).result = .ok after)
    (h : runAll read file scope p items = .ok q) : runAll read' file scope p items = .ok q := by
  induction items generalizing p with
  | nil => exact h
  | cons item items ih =>
      obtain ⟨hitem, hitems⟩ := List.forall_mem_cons.1 reads
      obtain ⟨mid, hmid, hrest⟩ := runAll_cons_eq_ok.1 h
      exact runAll_cons_eq_ok.2 ⟨mid, run_refines hitem hmid, ih hitems hrest⟩

end Refines

/-- A file is read as before if all files below it are as they were, also where more
    of them may be open at once. -/
theorem Books.read_refines {files others : Files} {depth depth' : Nat} {visit : Visit}
    {books after : Books} (hdepth : depth ≤ depth')
    (same : ∀ path, files.Tree visit.path path → others.read path = files.read path)
    (h : (read files depth visit books).result = .ok after) :
    (read others depth' visit books).result = .ok after := by
  induction depth generalizing depth' visit books after with
  | zero => cases h
  | succ depth ih =>
      obtain ⟨deeper, rfl⟩ :=
        Nat.exists_eq_add_of_le' (Nat.le_trans (Nat.succ_pos depth) hdepth)
      obtain ⟨text, items, p, htext, hitems, hfits, hrun, hend⟩ := read_succ_eq_ok.1 h
      have hsame := (same _ .root).trans htext
      refine read_succ_eq_ok.2 ⟨text, items, p, hsame, hitems, hfits, ?_, hend⟩
      refine Item.runAll_refines ?_ hrun
      intro item hitem name hname asker inner before behind hread
      refine ih (Nat.le_of_succ_le_succ hdepth) ?_ hread
      intro other hother
      obtain ⟨span, hspan, hasks⟩ := Item.exists_asks hitems hitem hname visit.path
      have hfile : files.Tree visit.path span.file := hspan ▸ .root
      have htext : files.Holds span.file (Lines.unify text.toList) := hspan ▸ ⟨text, htext, rfl⟩
      exact same other (Files.Tree.trans (.asked hfile htext hasks) hother)

theorem exists_of_forall₂_append {α β : Type} {R : α → β → Prop} {first second : List α}
    {l : List β} (h : List.Forall₂ R (first ++ second) l) :
    ∃ first' second', l = first' ++ second' ∧ List.Forall₂ R first first' ∧
      List.Forall₂ R second second' := by
  induction first generalizing l with
  | nil => exact ⟨[], l, rfl, .nil, h⟩
  | cons a first ih =>
      cases h with
      | cons hhead htail =>
          obtain ⟨first', second', rfl, hfirst, hsecond⟩ := ih htail
          exact ⟨_ :: first', second', rfl, .cons hhead hfirst, hsecond⟩

theorem Spells.append {items others : List Item} {tokens tokens' : List Token}
    (h : Spells items tokens) (h' : Spells others tokens')
    (hhead : ∀ item ∈ others.head?, ¬ item.isPostings) :
    Spells (items ++ others) (tokens ++ tokens') where
  whole := by rw [h.whole, h'.whole, List.flatMap_append]
  maximal := List.isChain_append.2 ⟨h.maximal, h'.maximal, fun _ _ next hnext _ => hhead next hnext⟩

/-! ## What is kept in mind between items -/

theorem Progress.eq_begin {p : Progress} (hawaiting : p.awaiting = none) (hcontra : p.contra = none) :
    p = begin p.books := by
  obtain ⟨books, awaiting, contra⟩ := p
  cases hawaiting
  cases hcontra
  rfl

namespace Item

section Mind

variable {read : Visit → Books → Traced Books} {file : String} {scope : Scope} {p q : Progress}
  {items : List Item}

theorem awaiting_of_runAll (h : runAll read file scope p items = .ok q) :
    q.awaiting = (items.map (·.statement file)).foldl Statement.awaiting p.awaiting := by
  induction items generalizing p with
  | nil =>
      cases h
      rfl
  | cons item items ih =>
      obtain ⟨mid, hmid, hrest⟩ := runAll_cons_eq_ok.1 h
      rw [ih hrest, (Statement.run_leaves hmid).1]
      rfl

theorem contra_of_runAll (hcontra : ∀ item ∈ items, (item.statement file).contra none = none)
    (hp : p.contra = none) (h : runAll read file scope p items = .ok q) : q.contra = none := by
  induction items generalizing p with
  | nil =>
      cases h
      exact hp
  | cons item items ih =>
      obtain ⟨hitem, hitems⟩ := List.forall_mem_cons.1 hcontra
      obtain ⟨mid, hmid, hrest⟩ := runAll_cons_eq_ok.1 h
      refine ih hitems ?_ hrest
      rw [(Statement.run_leaves hmid).2, hp, hitem]

theorem not_isPostings_of_runAll (hp : p.awaiting = none)
    (h : runAll read file scope p items = .ok q) : ∀ item ∈ items.head?, ¬ item.isPostings := by
  intro item hitem hpostings
  obtain ⟨rest, rfl⟩ := List.head?_eq_some_iff.1 hitem
  obtain ⟨mid, hmid, -⟩ := runAll_cons_eq_ok.1 h
  cases item with
  | postings first others =>
      obtain ⟨date, start, hwait, -⟩ := Progress.enter_eq_ok.1 hmid
      rw [hp] at hwait
      cases hwait
  | _ => cases hpostings

end Mind

end Item

/-! ## Writing out an inclusion -/

/-- The date that waits behind the statements of a script. -/
def Script.awaiting (script : Script) : Option (Date × Position) :=
  script.statements.foldl Statement.awaiting none

/-- No statement of a script names a contra account. -/
def Script.NamesNone (script : Script) : Prop := ∀ s ∈ script.statements, s.contra none = none

instance (script : Script) : Decidable script.NamesNone :=
  inferInstanceAs (Decidable (∀ s ∈ script.statements, _))

/-- The text of `root` holds a directive that includes the file `name`, and `others`
    holds for it the text of that file between two line ends. -/
structure Inlining (files others : Files) (root name before directive behind inner : String) :
    Prop where
  text : files.read root = .ok (before ++ directive ++ behind)
  /-- The directive is made of lexemes of its own. -/
  apart : ∃ first own last,
    Lexeme.scan (Lines.unify (before ++ directive ++ behind).toList) = first ++ own ++ last ∧
      Lexeme.texts first = Lines.unify before.toList ∧
      Lexeme.texts own = Lines.unify directive.toList ∧
      Lexeme.texts last = Lines.unify behind.toList
  asks : ∃ keyword path, Token.ofString directive = [keyword, path] ∧ keyword.Says "include" ∧
    path.kind = .string ∧ String.ofList (Quoted.unquote path.text) = name
  plain : Path.IsPlain name
  /-- No date waits for its postings where the directive stands. -/
  settled : (Script.ofText root before).awaiting = none
  before_namesNone : (Script.ofText root before).NamesNone
  inner_text : files.read (Path.resolve root name) = .ok inner
  inner_namesNone : (Script.ofText (Path.resolve root name) inner).NamesNone
  inlined : others.read root = .ok (before ++ "\n" ++ inner ++ "\n" ++ behind)
  /-- No other file that is read has been changed. -/
  same : ∀ path, files.Tree root path → path ≠ root → others.read path = files.read path
  nesting : files.nesting ≤ others.nesting

namespace Inlining

variable {files others : Files} {root name before directive behind inner : String}

theorem said_text (h : Inlining files others root name before directive behind inner) :
    Token.said (Token.ofString (before ++ directive ++ behind)) =
      Token.said (Token.ofString before) ++
        (Token.said (Token.ofString directive) ++ Token.said (Token.ofString behind)) := by
  obtain ⟨first, own, last, hscan, hfirst, hown, hlast⟩ := h.apart
  have hslice : Lexeme.scan (Lexeme.texts own) = own := Lexeme.scan_texts_slice hscan
  have hbehind : Lexeme.scan (Lexeme.texts last) = last := Lexeme.scan_texts_behind hscan
  have hbefore : Lexeme.scan (Lexeme.texts first) = first := by
    rw [List.append_assoc, ← List.nil_append first] at hscan
    exact Lexeme.scan_texts_slice hscan
  simp only [Token.ofString, Token.said_ofText, Lexeme.meaningful, ← hfirst, ← hown, ← hlast,
    hbefore, hslice, hbehind, hscan, Lexeme.meaning_append, List.map_append, List.append_assoc]

theorem said_inlined (before inner behind : String) :
    Token.said (Token.ofString (before ++ "\n" ++ inner ++ "\n" ++ behind)) =
      Token.said (Token.ofString before) ++ Token.said (Token.ofString inner) ++
        Token.said (Token.ofString behind) := by
  have htext : (before ++ "\n" ++ inner ++ "\n" ++ behind).toList =
      (before.toList ++ '\n' :: inner.toList) ++ '\n' :: behind.toList := by
    simp only [String.toList_append, List.append_assoc]
    rfl
  simp only [Token.ofString, Token.said_ofText, htext, Lexeme.meaningful_unify_append,
    List.map_append]

theorem exists_split (h : Inlining files others root name before directive behind inner)
    {items : List Item} (hitems : Spells items (Token.ofString (before ++ directive ++ behind))) :
    ∃ left item right span, items = left ++ item :: right ∧ item.path? = some name ∧
      item.statement root = .inclusion name span ∧
      Token.said (left.flatMap Item.tokens) = Token.said (Token.ofString before) ∧
      Token.said (right.flatMap Item.tokens) = Token.said (Token.ofString behind) := by
  obtain ⟨keyword, path, hdirective, hkeyword, hpath, hname⟩ := h.asks
  have hsaid := h.said_text
  rw [hdirective] at hsaid
  obtain ⟨first, rest, htokens, hfirst, hrest⟩ := List.map_eq_append_iff.1 hsaid
  obtain ⟨t, rest, rfl, ht, hrest⟩ := List.map_eq_cons_iff.1 hrest
  obtain ⟨u, last, rfl, hu, hlast⟩ := List.map_eq_cons_iff.1 hrest
  have hsays : t.Says "include" := hkeyword.of_said ht.symm
  have htext : path.text = u.text := by
    refine Token.text_of_said hu.symm ?_
    rw [hpath]
    exact Lexeme.Kind.noConfusion
  obtain ⟨left, item, right, rfl, hleft, hitem⟩ :=
    Item.split_at_directive (hitems.whole.symm.trans htokens) hsays.1
  have hopening := Item.opening_of_tokens hitem hsays
  cases item with
  | inclusion keyword' hkeyword' path' hpath' =>
      cases hitem
      rw [htext] at hname
      subst hname hleft
      exact ⟨left, _, right, _, rfl, rfl, rfl, hfirst, hlast⟩
  | _ => exact absurd hopening (by simp [Item.opening])

theorem runAll_others (h : Inlining files others root name before directive behind inner)
    {depth below below' : Nat} {outer scope : Scope} (hreads : files.Reads depth outer root)
    {file content : String} (hfile : files.Tree root file) (hcontent : files.read file = .ok content)
    {items part : List Item} (hitems : Spells items (Token.ofString content))
    (hpart : ∀ item ∈ part, item ∈ items) {p q : Progress} (hbelow : below ≤ below')
    (hrun : Item.runAll (Books.read files below) file scope p part = .ok q) :
    Item.runAll (Books.read others below') file scope p part = .ok q := by
  refine Item.runAll_refines ?_ hrun
  intro item hitem asked hname asker inner books after hread
  refine Books.read_refines hbelow ?_ hread
  intro other hother
  obtain ⟨span, rfl, hasks⟩ := Item.exists_asks hitems (hpart item hitem) hname file
  have htext : files.Holds span.file (Lines.unify content.toList) := ⟨content, hcontent, rfl⟩
  exact h.same other (Files.Tree.trans (.asked hfile htext hasks) hother)
    (hreads.ne_of_tree hfile htext hasks hother)

/-- Nothing is kept in mind where the directive stands. -/
theorem begins (h : Inlining files others root name before directive behind inner)
    {depth : Nat} {scope : Scope} {left : List Item} {books : Books} {p : Progress}
    (hleft : Spells left (left.flatMap Item.tokens)) (hfits : ∀ item ∈ left, item.Fits)
    (hsaid : Token.said (left.flatMap Item.tokens) = Token.said (Token.ofString before))
    (hrun : Item.runAll (Books.read files depth) root scope (.begin books) left = .ok p) :
    p = .begin p.books := by
  obtain ⟨alone, halone, halike⟩ := hleft.exists_alike hsaid.symm
  obtain ⟨hstatements, -⟩ := Script.ofText_of_spells root halone (Item.fits_of_alike halike hfits)
  have hbegin : (Progress.begin books).Alike (.begin books) := ⟨rfl, rfl, rfl⟩
  obtain ⟨q, hq, hp⟩ := (Item.runAll_agrees (Books.read_alike files depth) (fun _ => rfl) halike
    hbegin).exists_ok hrun
  have hawaiting : q.awaiting = none := by
    rw [Item.awaiting_of_runAll hq, ← hstatements]
    exact h.settled
  have hcontra : q.contra = none := by
    refine Item.contra_of_runAll ?_ rfl hq
    intro item hitem
    refine h.before_namesNone _ ?_
    rw [hstatements]
    exact List.mem_map_of_mem hitem
  have hdate := hp.date
  have haccount := hp.account
  rw [hawaiting] at hdate
  rw [hcontra] at haccount
  exact Progress.eq_begin (Option.map_eq_none_iff.1 hdate) (Option.map_eq_none_iff.1 haccount)

/-- The items of the other file. Nothing is kept in mind behind them either. -/
theorem exists_own (h : Inlining files others root name before directive behind inner)
    {depth : Nat} {asker : Span} {scope : Scope} {books after : Books}
    (hread : (Books.read files depth ⟨Path.resolve root name, asker, scope⟩ books).result =
      .ok after) :
    ∃ own below, depth = below + 1 ∧ Spells own (Token.ofString inner) ∧
      (∀ item ∈ own, item.Fits) ∧
      Item.runAll (Books.read files below) (Path.resolve root name) scope (.begin books) own =
        .ok (.begin after) := by
  cases depth with
  | zero => cases hread
  | succ below =>
      obtain ⟨content, own, p, hcontent, hown, hfits, hrun, hwait, rfl⟩ :=
        Books.read_succ_eq_ok.1 hread
      obtain rfl := Except.ok.inj (h.inner_text.symm.trans hcontent)
      have hbegin : p = .begin p.books := by
        refine Progress.eq_begin hwait (Item.contra_of_runAll ?_ rfl hrun)
        intro item hitem
        refine h.inner_namesNone _ ?_
        rw [(Script.ofText_of_spells _ hown hfits).1]
        exact List.mem_map_of_mem hitem
      rw [hbegin] at hrun
      exact ⟨own, below, rfl, hown, hfits, hrun⟩

theorem exists_runs (h : Inlining files others root name before directive behind inner)
    {depth depth' : Nat} {asker : Span} {scope : Scope} {books after : Books}
    (hread : (Books.read files (depth + 1) ⟨root, asker, scope⟩ books).result = .ok after)
    (hdepth : depth ≤ depth') :
    ∃ left own right tokens first second p,
      Spells (left ++ own ++ right) tokens ∧
      Token.said tokens =
        Token.said (Token.ofString (before ++ "\n" ++ inner ++ "\n" ++ behind)) ∧
      (∀ item ∈ left ++ own ++ right, item.Fits) ∧
      Item.runAll (Books.read others depth') root scope (.begin books) left = .ok (.begin first) ∧
      Item.runAll (Books.read others depth') (Path.resolve root name) scope (.begin first) own =
        .ok (.begin second) ∧
      Item.runAll (Books.read others depth') root scope (.begin second) right = .ok p ∧
      p.awaiting = none ∧ p.books = after := by
  have hreads : files.Reads (depth + 1) scope root := ⟨asker, books, after, hread⟩
  obtain ⟨text, items, p, htext, hitems, hfits, hrun, hend⟩ := Books.read_succ_eq_ok.1 hread
  obtain rfl := Except.ok.inj (h.text.symm.trans htext)
  obtain ⟨left, item, right, span, rfl, hname, hitem, hbefore, hbehind⟩ := h.exists_split hitems
  obtain ⟨hleftfits, hrestfits⟩ := List.forall_mem_append.1 hfits
  obtain ⟨hmaximal, hrest, -⟩ := List.isChain_append.1 hitems.maximal
  have hleft : Spells left (left.flatMap Item.tokens) := ⟨rfl, hmaximal⟩
  have hright : Spells right (right.flatMap Item.tokens) := ⟨rfl, hrest.tail⟩
  obtain ⟨first, hfirst, hrun⟩ := Item.runAll_append_eq_ok.1 hrun
  obtain ⟨second, hsecond, hlast⟩ := Item.runAll_cons_eq_ok.1 hrun
  have hbegin : first = .begin first.books := h.begins hleft hleftfits hbefore hfirst
  rw [hitem, Statement.result_run_inclusion, map_eq_ok] at hsecond
  obtain ⟨found, hfound, rfl⟩ := hsecond
  rw [hbegin] at hfirst hfound hlast
  obtain ⟨own, below, rfl, hown, hownfits, hownrun⟩ := h.exists_own hfound
  have hmem : item ∈ left ++ item :: right := List.mem_append_right _ List.mem_cons_self
  have hasked : files.Tree root (Path.resolve root name) := by
    obtain ⟨span, rfl, hasks⟩ := Item.exists_asks hitems hmem hname root
    exact .asked .root ⟨_, htext, rfl⟩ hasks
  refine ⟨left, own, right, _, first.books, found, p,
    (hleft.append hown (Item.not_isPostings_of_runAll rfl hownrun)).append hright
      (Item.not_isPostings_of_runAll rfl hlast), ?_, ?_, ?_, ?_, ?_, hend⟩
  · rw [said_inlined, Token.said_append, Token.said_append, hbefore, hbehind]
  · exact List.forall_mem_append.2 ⟨List.forall_mem_append.2 ⟨hleftfits, hownfits⟩,
      List.forall_mem_of_forall_mem_cons hrestfits⟩
  · refine h.runAll_others hreads .root htext hitems ?_ hdepth hfirst
    exact fun other hother => List.mem_append_left _ hother
  · exact h.runAll_others hreads hasked h.inner_text hown (fun _ => id)
      (Nat.le_trans (Nat.le_succ below) hdepth) hownrun
  · refine h.runAll_others hreads .root htext hitems ?_ hdepth hlast
    exact fun other hother => List.mem_append_right _ (List.mem_cons_of_mem _ hother)

theorem read_books (h : Inlining files others root name before directive behind inner)
    {asker : Span} {scope : Scope} {books after : Books}
    (hread : (Books.read files files.nesting ⟨root, asker, scope⟩ books).result = .ok after) :
    ∃ after', (Books.read others others.nesting ⟨root, asker, scope⟩ books).result = .ok after' ∧
      after.unplaced = after'.unplaced := by
  have hnesting := h.nesting
  cases hfiles : files.nesting with
  | zero =>
      rw [hfiles] at hread
      cases hread
  | succ depth =>
      rw [hfiles] at hread hnesting
      obtain ⟨depth', hothers⟩ :=
        Nat.exists_eq_add_of_le' (Nat.le_trans (Nat.succ_pos depth) hnesting)
      rw [hothers] at hnesting ⊢
      obtain ⟨left, own, right, tokens, first, second, p, hitems, hsaid, hfits, hleft, hown, hright,
        hwait, rfl⟩ := h.exists_runs hread (Nat.le_of_succ_le_succ hnesting)
      obtain ⟨items, hspells, halike⟩ := hitems.exists_alike hsaid.symm
      obtain ⟨both, right', rfl, hboth, hright'⟩ := exists_of_forall₂_append halike
      obtain ⟨left', own', rfl, hleft', hown'⟩ := exists_of_forall₂_append hboth
      have reads := Books.read_alike others depth'
      have hbegin : (Progress.begin books).Alike (.begin books) := ⟨rfl, rfl, rfl⟩
      obtain ⟨p', hp', hfirst⟩ :=
        (Item.runAll_agrees reads (fun _ => rfl) hleft' hbegin).exists_ok hleft
      obtain ⟨q', hq', hsecond⟩ :=
        (Item.runAll_agrees reads (Path.resolve_resolve h.plain root) hown' hfirst).exists_ok hown
      obtain ⟨r', hr', hlast⟩ :=
        (Item.runAll_agrees reads (fun _ => rfl) hright' hsecond).exists_ok hright
      have hdate := hlast.date
      rw [hwait] at hdate
      refine ⟨r'.books, Books.read_succ_eq_ok.2 ⟨_, _, r', h.inlined, hspells,
        Item.fits_of_alike halike hfits, ?_, Option.map_eq_none_iff.1 hdate.symm, rfl⟩, hlast.books⟩
      exact Item.runAll_append_eq_ok.2 ⟨q', Item.runAll_append_eq_ok.2 ⟨p', hp', hq'⟩, hr'⟩

end Inlining

namespace Draft

/-- Including a file is writing its text out between two line ends: if the books can
    be read, then so can the books with the text in the place of the directive, and
    all but the places is the same. -/
theorem read_inlined {files others : Files} {root name before directive behind inner : String}
    (h : Inlining files others root name before directive behind inner) {d : Draft}
    (hread : (read files root).result = .ok d) :
    ∃ d', (read others root).result = .ok d' ∧ d'.unplaced = d.unplaced := by
  obtain ⟨books, hbooks, rfl⟩ := result_read_eq_ok.1 hread
  obtain ⟨books', hbooks', hsame⟩ := h.read_books hbooks
  exact ⟨ofBooks root books', result_read_eq_ok.2 ⟨books', hbooks', rfl⟩,
    (unplaced_ofBooks root hsame).symm⟩

/-- Books that are read on in another file, which asks for one more, and the same
    books with that file written out. -/
def shopStart : String := "2020-05-01 3 ASSETS/Cash\n"

def shopMay : String := "2020-05-02 2 ASSETS/Cash include \"stall\" ; far"

def shopEnd : String := " ; then\n2020-05-04 4 ASSETS/Cash"

def shopFiles (main : String) : Files where
  read path :=
    if path = "books/main" then .ok main
    else
      (Files.inMemory [
        ("books/may", shopMay),
        ("books/stall", "open ledger 5 ASSETS/Cash")]).read path
  nesting := 3

def includingShop : Files := shopFiles (shopStart ++ "include \"may\"" ++ shopEnd)

def inlinedShop : Files := shopFiles (shopStart ++ "\n" ++ shopMay ++ "\n" ++ shopEnd)

theorem read_inlined_shopFiles :
    ∃ d d', (read includingShop "books/main").result = .ok d ∧
      (read inlinedShop "books/main").result = .ok d' ∧ d'.unplaced = d.unplaced := by
  have hinlining : Inlining includingShop inlinedShop "books/main" "may" shopStart
      "include \"may\"" shopEnd shopMay :=
    { text := rfl
      apart := ⟨Lexeme.scan (Lines.unify shopStart.toList),
        Lexeme.scan (Lines.unify "include \"may\"".toList),
        Lexeme.scan (Lines.unify shopEnd.toList),
        by decide +kernel, Lexeme.texts_scan _, Lexeme.texts_scan _, Lexeme.texts_scan _⟩
      asks := ⟨⟨⟨.directive, "include ".toList⟩, ⟨1, 1⟩, "include \"may\"".toList⟩,
        ⟨⟨.string, "\"may\"".toList⟩, ⟨1, 9⟩, "\"may\"".toList⟩,
        by decide +kernel, by decide, rfl, by decide +kernel⟩
      plain := by decide +kernel
      settled := by decide +kernel
      before_namesNone := by decide +kernel
      inner_text := by decide +kernel
      inner_namesNone := by decide +kernel
      inlined := rfl
      same := fun path _ hpath => (if_neg hpath).trans (if_neg hpath).symm
      nesting := Nat.le_refl _ }
  have hok : (read includingShop "books/main").result.isOk := by decide +kernel
  cases hread : (read includingShop "books/main").result with
  | error fault =>
      rw [hread] at hok
      cases hok
  | ok d =>
      obtain ⟨d', hread', hsame⟩ := read_inlined hinlining hread
      exact ⟨d, d', rfl, hread', hsame⟩

end Draft

end DoubleEntry
