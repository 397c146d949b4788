import DoubleEntry.Proofs.Sources

/-! # The files below a file

A file is read without fault if its tokens are those of a row of items whose
statements can be run one after the other. Every file that it asks for is then
read without fault as well, with fewer files open at once, so no file lies below
itself. What lies below a journal is read as a part of that journal, and may not
open the chart.
-/

namespace DoubleEntry

theorem exists_of_foldlM_eq_ok {α β : Type} {f : β → α → Except Fault β} {l : List α}
    {init out : β} (h : l.foldlM f init = .ok out) : ∀ a ∈ l, ∃ before after, f before a = .ok after := by
  induction l generalizing init with
  | nil => exact List.forall_mem_nil _
  | cons a l ih =>
      obtain ⟨mid, hmid, hrest⟩ := foldlM_cons_eq_ok.1 h
      exact List.forall_mem_cons.2 ⟨⟨init, mid, hmid⟩, ih hrest⟩

namespace Item

/-! ## Running items -/

/-- Run the statements of some items, one behind the other. -/
def runAll (read : Visit → Books → Traced Books) (file : String) (scope : Scope) (p : Progress)
    (items : List Item) : Except Fault Progress :=
  items.foldlM (fun p item => (Statement.run read file scope p (item.statement file)).result) p

section Run

variable {read : Visit → Books → Traced Books} {file : String} {scope : Scope} {p q : Progress}

theorem runAll_eq_foldlM (items : List Item) :
    runAll read file scope p items = (items.map (·.statement file)).foldlM
      (fun p s => (Statement.run read file scope p s).result) p := by
  rw [List.foldlM_map]
  rfl

theorem runAll_cons_eq_ok {item : Item} {items : List Item} :
    runAll read file scope p (item :: items) = .ok q ↔
      ∃ mid, (Statement.run read file scope p (item.statement file)).result = .ok mid ∧
        runAll read file scope mid items = .ok q :=
  foldlM_cons_eq_ok

theorem runAll_append_eq_ok {items others : List Item} :
    runAll read file scope p (items ++ others) = .ok q ↔
      ∃ mid, runAll read file scope p items = .ok mid ∧ runAll read file scope mid others = .ok q := by
  unfold runAll
  rw [List.foldlM_append]
  exact bind_eq_ok

end Run

/-- As what the file that an item asks for is read: as a part of a journal if the
    item says so, and else as what the item is a part of. -/
def scope (outer : Scope) : Item → Scope
  | journal .. => .journal
  | _ => outer

theorem scope_journal (item : Item) : item.scope .journal = .journal := by
  cases item <;> rfl

theorem exists_read_of_run {read : Visit → Books → Traced Books} {file : String} {outer : Scope}
    {p q : Progress} {item : Item} {name : String}
    (h : (Statement.run read file outer p (item.statement file)).result = .ok q)
    (hname : item.path? = some name) :
    ∃ asker books after,
      (read ⟨Path.resolve file name, asker, item.scope outer⟩ books).result = .ok after := by
  cases item with
  | inclusion keyword hkeyword path hpath =>
      cases hname
      rw [statement, Statement.result_run_inclusion, map_eq_ok] at h
      obtain ⟨after, hread, -⟩ := h
      exact ⟨_, _, after, hread⟩
  | journal keyword hkeyword path hpath =>
      cases hname
      rw [statement, Statement.result_run_journal, map_eq_ok] at h
      obtain ⟨after, hread, -⟩ := h
      exact ⟨_, _, after, hread⟩
  | _ => cases hname

end Item

/-- A file that is read without fault is a row of items that are run without fault,
    and no date is left waiting. -/
theorem Books.read_succ_eq_ok {files : Files} {depth : Nat} {visit : Visit} {books after : Books} :
    (read files (depth + 1) visit books).result = .ok after ↔
      ∃ text items p, files.read visit.path = .ok text ∧ Spells items (Token.ofString text) ∧
        (∀ item ∈ items, item.Fits) ∧
        Item.runAll (read files depth) visit.path visit.scope (Progress.begin books) items = .ok p ∧
        p.awaiting = none ∧ p.books = after := by
  rw [result_read_succ]
  constructor
  · intro h
    split at h
    · cases h
    · next text htext =>
      rw [Script.result_run, bind_eq_ok] at h
      obtain ⟨p, hrun, hend⟩ := h
      split at hend
      · cases hend
      · next lastEnd hending =>
        obtain ⟨items, hitems, hfits, hstatements⟩ := Script.exists_items hending
        rw [hstatements, ← Item.runAll_eq_foldlM] at hrun
        obtain ⟨hwait, hbooks⟩ := Progress.finish_eq_ok.1 hend
        exact ⟨text, items, p, htext, hitems, hfits, hrun, hwait, hbooks⟩
  · intro h
    obtain ⟨text, items, p, htext, hitems, hfits, hrun, hwait, hbooks⟩ := h
    obtain ⟨hstatements, lastEnd, hending⟩ := Script.ofText_of_spells visit.path hitems hfits
    simp only [htext]
    rw [Script.result_run, hstatements, ← Item.runAll_eq_foldlM, bind_eq_ok]
    refine ⟨p, hrun, ?_⟩
    simp only [hending]
    exact Progress.finish_eq_ok.2 ⟨hwait, hbooks⟩

/-! ## Directives among the tokens -/

theorem Pair.kind_of_mem {ps : List Pair} {t : Token} (h : t ∈ ps.flatMap tokens) :
    t.kind ≠ .directive := by
  obtain ⟨p, -, ht⟩ := List.mem_flatMap.1 h
  rcases List.mem_pair.1 ht with rfl | rfl
  · rw [p.number_kind]
    exact Lexeme.Kind.noConfusion
  · rw [p.account_kind]
    exact Lexeme.Kind.noConfusion

namespace Item

theorem kind_of_mem_tail {item : Item} {t : Token} (h : t ∈ item.tokens.tail) :
    t.kind ≠ .directive := by
  cases item with
  | date => cases h
  | postings first others =>
      have hmem : t ∈ (first :: others).flatMap Pair.tokens := List.mem_of_mem_tail h
      exact Pair.kind_of_mem hmem
  | openLedger keyword hkeyword pairs => exact Pair.kind_of_mem h
  | useAccount keyword hkeyword account haccount =>
      rw [List.mem_singleton.1 h, haccount]
      exact Lexeme.Kind.noConfusion
  | inclusion keyword hkeyword path hpath | journal keyword hkeyword path hpath =>
      rw [List.mem_singleton.1 h, hpath]
      exact Lexeme.Kind.noConfusion

/-- A directive begins an item. -/
theorem split_at_directive {items : List Item} {before rest : List Token} {t : Token}
    (h : items.flatMap tokens = before ++ t :: rest) (ht : t.kind = .directive) :
    ∃ left item right, items = left ++ item :: right ∧ left.flatMap tokens = before ∧
      item.tokens ++ right.flatMap tokens = t :: rest := by
  induction items generalizing before with
  | nil => exact absurd h (List.append_ne_nil_of_right_ne_nil _ (List.cons_ne_nil _ _)).symm
  | cons item items ih =>
      have later (left : List Token) (hcut : items.flatMap tokens = left ++ t :: rest)
          (hbefore : before = item.tokens ++ left) :
          ∃ left other right, item :: items = left ++ other :: right ∧
            left.flatMap tokens = before ∧ other.tokens ++ right.flatMap tokens = t :: rest := by
        obtain ⟨left, other, right, rfl, rfl, hother⟩ := ih hcut
        exact ⟨item :: left, other, right, rfl, hbefore.symm, hother⟩
      rcases List.append_eq_append_iff.1 h with ⟨left, hbefore, hcut⟩ | ⟨own, hown, hcut⟩
      · exact later left hcut hbefore
      · cases before with
        | nil =>
            exact ⟨[], item, items, rfl, rfl, h⟩
        | cons first before =>
            cases own with
            | nil =>
                rw [List.append_nil] at hown
                exact later [] hcut.symm (by rw [hown, List.append_nil])
            | cons u own =>
                obtain ⟨rfl, -⟩ := List.cons.inj hcut
                have hmem : t ∈ item.tokens.tail := by
                  rw [hown]
                  exact List.mem_append_right _ List.mem_cons_self
                exact absurd ht (kind_of_mem_tail hmem)

theorem opening_of_tokens {item : Item} {t : Token} {words : String} {rest behind : List Token}
    (h : item.tokens ++ behind = t :: rest) (ht : t.Says words) :
    item.opening = (.directive, words) := by
  have hopening := item.head?_tokens_append behind
  rw [h] at hopening
  rw [← Option.some.inj hopening, Token.opening, if_pos ht.1, ht.1, ht.2]

theorem path?_of_tokens {item : Item} {t u : Token} {rest behind : List Token}
    (h : item.tokens ++ behind = t :: u :: rest) (ht : t.Says "include" ∨ t.Says "journal") :
    item.path? = some (String.ofList (Quoted.unquote u.text)) := by
  have hopening : item.opening = (.directive, "include") ∨ item.opening = (.directive, "journal") :=
    ht.imp (opening_of_tokens h) (opening_of_tokens h)
  cases item with
  | inclusion | journal =>
      cases h
      rfl
  | _ => exact absurd hopening (by simp [opening])

theorem scope_of_tokens {item : Item} {t : Token} {rest behind : List Token} (outer : Scope)
    (h : item.tokens ++ behind = t :: rest) (ht : t.Says "journal") :
    item.scope outer = .journal := by
  have hopening := opening_of_tokens h ht
  cases item with
  | journal => rfl
  | _ => exact absurd hopening (by simp [opening])

end Item

/-! ## Asking for files -/

theorem Span.Shows.exists_tokens {span : Span} {text : List Char} {k n : Lexeme}
    (h : span.Shows text [k, n]) :
    ∃ before t u rest, Token.ofText text = before ++ t :: u :: rest ∧ t.toLexeme = k ∧
      u.toLexeme = n := by
  obtain ⟨before, slice, behind, hscan, -, -, -, -, -, hslice⟩ := h.slice
  have hlexemes := Token.map_toLexeme_ofText text
  rw [Lexeme.meaningful, hscan, Lexeme.meaning_append, Lexeme.meaning_append, hslice,
    List.append_assoc] at hlexemes
  obtain ⟨before, rest, htokens, -, hrest⟩ := List.map_eq_append_iff.1 hlexemes
  obtain ⟨t, others, rfl, ht, hothers⟩ := List.map_eq_cons_iff.1 hrest
  obtain ⟨u, rest, rfl, hu, -⟩ := List.map_eq_cons_iff.1 hothers
  exact ⟨before, t, u, rest, htokens, ht, hu⟩

section Asking

variable {files : Files} {file path : String} {text : List Char} {items : List Item}

theorem Span.Asks.exists_item {span : Span} (h : span.Asks text path)
    (hitems : Spells items (Token.ofText text)) :
    ∃ item ∈ items, ∃ name, item.path? = some name ∧ path = Path.resolve span.file name := by
  obtain ⟨keyword, name, hkeyword, -, hshows, rfl⟩ := h
  obtain ⟨before, t, u, rest, htokens, ht, hu⟩ := hshows.exists_tokens
  have hsays {words : String} (hwords : keyword.Says words) : t.Says words := by
    unfold Token.Says
    rw [ht]
    exact hwords
  have hdirective : t.kind = .directive := by
    rw [ht]
    exact hkeyword.elim And.left And.left
  obtain ⟨left, item, right, rfl, -, hitem⟩ :=
    Item.split_at_directive (hitems.whole.symm.trans htokens) hdirective
  refine ⟨item, by simp, _, Item.path?_of_tokens hitem (hkeyword.imp hsays hsays), ?_⟩
  rw [hu]

theorem Item.exists_asks {item : Item} {name : String} (hitems : Spells items (Token.ofText text))
    (hitem : item ∈ items) (hname : item.path? = some name) (file : String) :
    ∃ span : Span, span.file = file ∧ span.Asks text (Path.resolve file name) := by
  obtain ⟨left, right, hsplit⟩ := Item.tokens_of_mem hitem
  have htokens := hitems.whole.trans hsplit
  cases item with
  | inclusion keyword hkeyword path hpath =>
      cases hname
      exact ⟨_, rfl, keyword, path, .inl hkeyword, hpath, Token.shows_two htokens file, rfl⟩
  | journal keyword hkeyword path hpath =>
      cases hname
      exact ⟨_, rfl, keyword, path, .inr hkeyword, hpath, Token.shows_two htokens file, rfl⟩
  | _ => cases hname

/-- A directive in a file asks for a journal. -/
def Files.AsksJournal (files : Files) (file path : String) : Prop :=
  ∃ text before keyword name rest, files.Holds file text ∧
    Token.ofText text = before ++ keyword :: name :: rest ∧ keyword.Says "journal" ∧
    name.kind = .string ∧ path = Path.resolve file (String.ofList (Quoted.unquote name.text))

/-- No directive in a file opens the chart. -/
def Files.Closed (files : Files) (file : String) : Prop :=
  ∀ text, files.Holds file text → ∀ t ∈ Token.ofText text, ¬ t.Says "open ledger"

end Asking

namespace Files

/-- The file can be read as a part of `scope` while at most `depth` files are open,
    behind some other books. -/
def Reads (files : Files) (depth : Nat) (scope : Scope) (path : String) : Prop :=
  ∃ asker books after, (Books.read files depth ⟨path, asker, scope⟩ books).result = .ok after

variable {files : Files} {depth : Nat} {scope : Scope} {file path other : String}
  {text : List Char}

theorem Reads.exists_items (h : files.Reads depth scope file) (htext : files.Holds file text) :
    ∃ items, Spells items (Token.ofText text) ∧
      (∀ item ∈ items, ∃ below before after,
        (Statement.run (Books.read files below) file scope before (item.statement file)).result =
          .ok after ∧ below < depth) := by
  obtain ⟨asker, books, after, hread⟩ := h
  obtain ⟨content, hcontent, rfl⟩ := htext
  cases depth with
  | zero => cases hread
  | succ depth =>
      obtain ⟨found, items, p, hfound, hitems, -, hrun, -⟩ := Books.read_succ_eq_ok.1 hread
      cases hcontent.symm.trans hfound
      refine ⟨items, hitems, fun item hitem => ?_⟩
      obtain ⟨before, after, hstep⟩ := exists_of_foldlM_eq_ok hrun item hitem
      exact ⟨depth, before, after, hstep, Nat.lt_succ_self depth⟩

theorem Reads.asked {span : Span} (h : files.Reads depth scope span.file)
    (htext : files.Holds span.file text) (hasks : span.Asks text path) :
    ∃ below < depth, ∃ inner, files.Reads below inner path ∧
      (scope = .journal → inner = .journal) := by
  obtain ⟨items, hitems, hsteps⟩ := h.exists_items htext
  obtain ⟨item, hitem, name, hname, rfl⟩ := hasks.exists_item hitems
  obtain ⟨below, before, after, hstep, hbelow⟩ := hsteps item hitem
  obtain ⟨asker, books, found, hread⟩ := Item.exists_read_of_run hstep hname
  refine ⟨below, hbelow, _, ⟨asker, books, found, hread⟩, ?_⟩
  rintro rfl
  exact item.scope_journal

theorem Reads.journal (h : files.Reads depth scope file) (hasks : files.AsksJournal file path) :
    ∃ below < depth, files.Reads below .journal path := by
  obtain ⟨text, before, keyword, name, rest, htext, htokens, hkeyword, -, rfl⟩ := hasks
  obtain ⟨items, hitems, hsteps⟩ := h.exists_items htext
  obtain ⟨left, item, right, rfl, -, hitem⟩ :=
    Item.split_at_directive (hitems.whole.symm.trans htokens) hkeyword.1
  obtain ⟨below, before, after, hstep, hbelow⟩ := hsteps item (by simp)
  obtain ⟨asker, books, found, hread⟩ :=
    Item.exists_read_of_run hstep (Item.path?_of_tokens hitem (.inr hkeyword))
  rw [Item.scope_of_tokens scope hitem hkeyword] at hread
  exact ⟨below, hbelow, asker, books, found, hread⟩

/-- Every file below a file that is read is read as well. -/
theorem Reads.tree (h : files.Reads depth scope path) (htree : files.Tree path other) :
    ∃ below ≤ depth, ∃ inner, files.Reads below inner other ∧
      (scope = .journal → inner = .journal) := by
  induction htree with
  | root => exact ⟨depth, Nat.le_refl depth, scope, h, id⟩
  | asked _ htext hasks ih =>
      obtain ⟨below, hbelow, inner, hread, hscope⟩ := ih
      obtain ⟨least, hleast, innermost, hasked, hinherits⟩ := hread.asked htext hasks
      exact ⟨least, Nat.le_trans (Nat.le_of_lt hleast) hbelow, innermost, hasked,
        hinherits ∘ hscope⟩

/-- No file below a file that is read asks for that file again. -/
theorem Reads.ne_of_asks {span : Span} (h : files.Reads depth scope path)
    (htree : files.Tree path span.file) (htext : files.Holds span.file text)
    (hasks : span.Asks text other) : other ≠ path := by
  rintro rfl
  induction depth using Nat.strongRecOn generalizing scope with
  | ind depth ih =>
      obtain ⟨below, hbelow, inner, hread, -⟩ := h.tree htree
      obtain ⟨least, hleast, innermost, hasked, -⟩ := hread.asked htext hasks
      exact ih least (Nat.lt_of_lt_of_le hleast hbelow) hasked

theorem Reads.closed (h : files.Reads depth .journal file) : files.Closed file := by
  intro text htext t ht hsays
  obtain ⟨items, hitems, hsteps⟩ := h.exists_items htext
  obtain ⟨before, rest, htokens⟩ := List.append_of_mem ht
  obtain ⟨left, item, right, rfl, -, hitem⟩ :=
    Item.split_at_directive (hitems.whole.symm.trans htokens) hsays.1
  obtain ⟨below, p, q, hstep, -⟩ := hsteps item (by simp)
  have hopening := Item.opening_of_tokens hitem hsays
  cases item with
  | openLedger keyword hkeyword pairs =>
      rw [Item.statement, Statement.result_run_openLedger, Progress.openChart_eq_ok] at hstep
      obtain ⟨hopen, -⟩ := hstep
      cases hopen
  | _ => exact absurd hopening (by simp [Item.opening])

end Files

end DoubleEntry
