import DoubleEntry.Proofs.Grammar
import DoubleEntry.Script

/-! # Reading items

Reading a file statement by statement follows its grammar. It comes to the end of
the file exactly if the tokens are those of a row of items whose numbers all fit,
and the statements are then those of the items.
-/

namespace DoubleEntry

namespace Token

/-- Where the last of some tokens ends, or `p` if there is none. -/
def lastStop (p : Position) (tokens : List Token) : Position :=
  (tokens.getLast?.map Token.stop).getD p

theorem lastStop_append (p : Position) (first second : List Token) :
    lastStop p (first ++ second) = lastStop (lastStop p first) second := by
  unfold lastStop
  rw [List.getLast?_append]
  cases second.getLast? <;> rfl

theorem lastStop_of_ne_nil {tokens : List Token} (h : tokens ≠ []) (p q : Position) :
    lastStop p tokens = lastStop q tokens := by
  unfold lastStop
  rw [List.getLast?_eq_some_getLast h]
  rfl

end Token

namespace Cursor

/-- The cursor `behind` stands where `c` comes to once it has passed some tokens. -/
structure Passes (c : Cursor) (passed : List Token) (behind : Cursor) : Prop where
  tokens : c.tokens = passed ++ behind.tokens
  file : behind.file = c.file
  lastEnd : behind.lastEnd = Token.lastStop c.lastEnd passed
  finish : behind.finish = c.finish

namespace Passes

variable {c d e : Cursor} {first second : List Token}

theorem refl (c : Cursor) : c.Passes [] c := ⟨rfl, rfl, rfl, rfl⟩

theorem trans (h : c.Passes first d) (h' : d.Passes second e) : c.Passes (first ++ second) e where
  tokens := by rw [h.tokens, h'.tokens, List.append_assoc]
  file := h'.file.trans h.file
  lastEnd := by rw [Token.lastStop_append, ← h.lastEnd, h'.lastEnd]
  finish := h'.finish.trans h.finish

theorem split (first : List Token) (h : c.Passes (first ++ second) e) :
    ∃ d, c.Passes first d ∧ d.Passes second e := by
  refine ⟨⟨c.file, second ++ e.tokens, Token.lastStop c.lastEnd first, c.finish⟩, ?_, ?_⟩
  · exact ⟨by rw [h.tokens, List.append_assoc], rfl, rfl, rfl⟩
  · exact ⟨rfl, h.file, by rw [h.lastEnd, Token.lastStop_append], h.finish⟩

theorem exists_of_append {passed rest : List Token} (h : c.tokens = passed ++ rest) :
    ∃ d, c.Passes passed d ∧ d.tokens = rest :=
  ⟨⟨c.file, rest, Token.lastStop c.lastEnd passed, c.finish⟩, ⟨h, rfl, rfl, rfl⟩, rfl⟩

theorem unique (h : c.Passes first d) (h' : c.Passes first e) : d = e := by
  obtain ⟨file, tokens, lastEnd, finish⟩ := d
  obtain ⟨file', tokens', lastEnd', finish'⟩ := e
  obtain ⟨hfile, hend, hfinish⟩ := (⟨h.file.trans h'.file.symm, h.lastEnd.trans h'.lastEnd.symm,
    h.finish.trans h'.finish.symm⟩ : file = file' ∧ lastEnd = lastEnd' ∧ finish = finish')
  have htokens := List.append_cancel_left (h.tokens.symm.trans h'.tokens)
  dsimp only at htokens
  rw [hfile, htokens, hend, hfinish]

end Passes

theorem peek_eq_ok {c : Cursor} {token : Token} :
    c.peek = .ok token ↔ token.kind ≠ .error ∧ ∃ rest, c.tokens = token :: rest := by
  unfold peek
  cases c.tokens with
  | nil => simp
  | cons found rest =>
      dsimp only
      split
      · next herror =>
        constructor
        · intro h
          cases h
        · rintro ⟨hkind, _, h⟩
          cases h
          exact absurd herror hkind
      · next hkind =>
        constructor
        · intro h
          cases h
          exact ⟨hkind, rest, rfl⟩
        · rintro ⟨-, _, h⟩
          cases h
          rfl

theorem passes_consume {c : Cursor} {token : Token} {rest : List Token}
    (h : c.tokens = token :: rest) : c.Passes [token] c.consume := by
  unfold consume
  rw [h]
  exact ⟨h, rfl, rfl, rfl⟩

theorem take_eq_ok {c c' : Cursor} {kind : Lexeme.Kind} {token : Token} (hkind : kind ≠ .error) :
    c.take kind = .ok (token, c') ↔ token.kind = kind ∧ c.Passes [token] c' := by
  unfold take
  constructor
  · intro h
    split at h
    · cases h
    · next found hpeek =>
      obtain ⟨-, rest, htokens⟩ := peek_eq_ok.1 hpeek
      split at h
      · next hfound =>
        cases h
        exact ⟨hfound, passes_consume htokens⟩
      · cases h
  · rintro ⟨rfl, hpasses⟩
    rw [peek_eq_ok.2 ⟨hkind, _, hpasses.tokens⟩]
    simp only [if_true, hpasses.unique (passes_consume hpasses.tokens)]

/-- All tokens from here on have the shapes of their kinds. -/
def Formed (c : Cursor) : Prop := ∀ t ∈ c.tokens, t.toLexeme.Formed

theorem formed_ofText (file : String) (text : List Char) : (ofText file text).Formed :=
  fun _ => Token.formed_of_mem

theorem Formed.passes {c d : Cursor} {passed : List Token} (h : c.Formed)
    (hpasses : c.Passes passed d) : d.Formed := by
  intro t ht
  refine h t ?_
  rw [hpasses.tokens]
  exact List.mem_append_right _ ht

end Cursor

/-! ## Pairs -/

theorem Money.readAt_eq_ok {text : List Char} {span : Span} {value : Int} :
    readAt text span = .ok value ↔ ofText text = .ok value := by
  unfold readAt
  cases ofText text with
  | ok found => simp
  | error refusal => cases refusal <;> simp

namespace Leg

theorem read_eq_ok {c c' : Cursor} {leg : Leg} (formed : c.Formed) :
    read c = .ok (leg, c') ↔
      ∃ p : Pair, p.Fits ∧ leg = p.leg c.file ∧ c.Passes p.tokens c' := by
  have shaped (number : Token) (d : Cursor) (hkind : number.kind = .number)
      (h : c.Passes [number] d) : Lexeme.isNumber number.text :=
    (formed number (h.tokens ▸ List.mem_append_left _ List.mem_cons_self)).number hkind
  unfold read
  constructor
  · intro h
    split at h
    · cases h
    · next number afterNumber hnumber =>
      obtain ⟨hkind, hpasses⟩ := (Cursor.take_eq_ok Lexeme.Kind.noConfusion).1 hnumber
      split at h
      · cases h
      · next value hvalue =>
        rw [Money.readAt_eq_ok, Money.ofText_eq_ok (shaped number _ hkind hpasses)] at hvalue
        obtain ⟨rfl, hfits⟩ := hvalue
        split at h
        · cases h
        · next name behind hname =>
          obtain ⟨hkind', hpasses'⟩ := (Cursor.take_eq_ok Lexeme.Kind.noConfusion).1 hname
          cases h
          refine ⟨⟨number, name, hkind, hkind'⟩, hfits, ?_, hpasses.trans hpasses'⟩
          rw [Amount.onSide_eq_entered hfits]
          rfl
  · rintro ⟨p, hfits, rfl, hpasses⟩
    obtain ⟨d, hnumber, haccount⟩ := Cursor.Passes.split [p.number] hpasses
    have hvalue : Money.ofText p.number.text = .ok p.value :=
      (Money.ofText_eq_ok (shaped _ _ p.number_kind hnumber)).2 ⟨rfl, hfits⟩
    rw [(Cursor.take_eq_ok Lexeme.Kind.noConfusion).2 ⟨p.number_kind, hnumber⟩]
    simp only [Money.readAt_eq_ok.2 hvalue]
    rw [(Cursor.take_eq_ok Lexeme.Kind.noConfusion).2 ⟨p.account_kind, haccount⟩]
    simp only [Amount.onSide_eq_entered hfits]
    rfl

theorem lookahead_eq_number {c : Cursor} :
    c.lookahead = some .number ↔ Token.NumberNext c.tokens := Iff.rfl

theorem readRun_eq_ok {c c' : Cursor} {legs : List Leg} (formed : c.Formed) :
    readRun c = .ok (legs, c') ↔
      ∃ ps : List Pair, (∀ p ∈ ps, p.Fits) ∧ legs = ps.map (·.leg c.file) ∧
        c.Passes (ps.flatMap Pair.tokens) c' ∧ ¬ Token.NumberNext c'.tokens := by
  constructor
  · intro h
    fun_induction readRun c generalizing legs c' with
    | case1 => cases h
    | case2 => cases h
    | case3 c hnext leg rest hread legs' behind hrun ih =>
        cases h
        obtain ⟨p, hfits, rfl, hpasses⟩ := (read_eq_ok formed).1 hread
        obtain ⟨ps, hall, rfl, hbehind, hends⟩ := ih (formed.passes hpasses) hrun
        refine ⟨p :: ps, List.forall_mem_cons.2 ⟨hfits, hall⟩, ?_, hpasses.trans hbehind, hends⟩
        rw [List.map_cons, hpasses.file]
    | case4 c hnext =>
        cases h
        exact ⟨[], List.forall_mem_nil _, rfl, .refl _, hnext⟩
  · rintro ⟨ps, hall, rfl, hpasses, hends⟩
    induction ps generalizing c with
    | nil =>
        cases (Cursor.Passes.refl c).unique hpasses
        rw [readRun, if_neg (mt lookahead_eq_number.1 hends)]
        rfl
    | cons p ps ih =>
        obtain ⟨hfits, hps⟩ := List.forall_mem_cons.1 hall
        obtain ⟨d, hhead, htail⟩ := Cursor.Passes.split p.tokens hpasses
        have hnext : c.lookahead = some .number := by
          rw [lookahead_eq_number, hpasses.tokens]
          exact Pair.numberNext_run.2 (.inl (List.cons_ne_nil p ps))
        rw [readRun, if_pos hnext]
        split
        · next fault hread =>
          rw [(read_eq_ok formed).2 ⟨p, hfits, rfl, hhead⟩] at hread
          cases hread
        · next leg rest hread =>
          rw [(read_eq_ok formed).2 ⟨p, hfits, rfl, hhead⟩] at hread
          cases hread
          rw [ih (formed.passes hhead) hps htail, hhead.file]
          rfl

end Leg

/-! ## Items -/

namespace Item

/-- Where the last token of the item ends. -/
def stop (item : Item) : Position := Token.lastStop .first item.tokens

/-- The statement that an item is read as. -/
def statement (file : String) (item : Item) : Statement :=
  match item with
  | date day _ => .date day.text (day.span file)
  | postings first others =>
    .postings (first.number.span file) ((first :: others).map (·.leg file)) item.stop
  | openLedger keyword _ pairs =>
    .openLedger (keyword.span file) (pairs.map (·.leg file)) item.stop
  | useAccount keyword _ account _ =>
    .useAccount (String.ofList account.text) ((keyword.span file).upTo account.stop)
  | inclusion keyword _ path _ =>
    .inclusion (String.ofList (Quoted.unquote path.text)) ((keyword.span file).upTo path.stop)
  | journal keyword _ path _ =>
    .journal (String.ofList (Quoted.unquote path.text)) ((keyword.span file).upTo path.stop)

theorem lastEnd_of_passes (item : Item) {c d : Cursor} (h : c.Passes item.tokens d) :
    d.lastEnd = item.stop :=
  h.lastEnd.trans (Token.lastStop_of_ne_nil item.tokens_ne_nil _ _)

end Item

/-- The words of a directive. -/
def Directive.text : Directive → String
  | openLedger => "open ledger"
  | useAccount => "use account"
  | inclusion => "include"
  | journal => "journal"

theorem Directive.ofText?_eq_some {text : List Char} {directive : Directive} :
    ofText? text = some directive ↔ String.ofList (Blank.trimEnd text) = directive.text := by
  unfold ofText?
  generalize String.ofList (Blank.trimEnd text) = found
  constructor
  · intro h
    obtain ⟨before, after, hwords, -⟩ := List.lookup_eq_some_iff.1 h
    have hmem : (found, directive) ∈ words := by
      rw [hwords]
      exact List.mem_append_right _ List.mem_cons_self
    have htext : ∀ entry ∈ words, entry.1 = entry.2.text := by decide
    exact htext _ hmem
  · rintro rfl
    cases directive <;> decide

namespace Statement

/-- The item that `c` stands before, with the cursor behind it. -/
def IsItem (item : Item) (c c' : Cursor) : Prop :=
  item.Fits ∧ c.Passes item.tokens c' ∧ (item.endsInPairs → ¬ Token.NumberNext c'.tokens)

theorem exists_item_of_readAfter {directive : Directive} {keyword : Token} {c d c' : Cursor}
    {s : Statement} (formed : c.Formed) (hkind : keyword.kind = .directive)
    (hwords : Directive.ofText? keyword.text = some directive) (hpasses : c.Passes [keyword] d)
    (h : readAfter directive (keyword.span c.file) d = .ok (s, c')) :
    ∃ item : Item, IsItem item c c' ∧ s = item.statement c.file := by
  have hopen : keyword.Says directive.text := ⟨hkind, Directive.ofText?_eq_some.1 hwords⟩
  cases directive with
  | openLedger =>
      simp only [readAfter] at h
      split at h
      · cases h
      · next legs behind hrun =>
        cases h
        obtain ⟨ps, hfits, rfl, hpairs, hends⟩ :=
          (Leg.readRun_eq_ok (formed.passes hpasses)).1 hrun
        have hitem := hpasses.trans hpairs
        refine ⟨.openLedger keyword hopen ps, ⟨hfits, hitem, fun _ => hends⟩, ?_⟩
        rw [hpasses.file, hitem.lastEnd]
        rfl
  | useAccount =>
      simp only [readAfter] at h
      split at h
      · cases h
      · next name behind htake =>
        cases h
        obtain ⟨hname, hbehind⟩ := (Cursor.take_eq_ok Lexeme.Kind.noConfusion).1 htake
        exact ⟨.useAccount keyword hopen name hname,
          ⟨List.forall_mem_nil _, hpasses.trans hbehind, (absurd · Bool.false_ne_true)⟩, rfl⟩
  | inclusion =>
      simp only [readAfter] at h
      split at h
      · cases h
      · next path behind htake =>
        cases h
        obtain ⟨hpath, hbehind⟩ := (Cursor.take_eq_ok Lexeme.Kind.noConfusion).1 htake
        exact ⟨.inclusion keyword hopen path hpath,
          ⟨List.forall_mem_nil _, hpasses.trans hbehind, (absurd · Bool.false_ne_true)⟩, rfl⟩
  | journal =>
      simp only [readAfter] at h
      split at h
      · cases h
      · next path behind htake =>
        cases h
        obtain ⟨hpath, hbehind⟩ := (Cursor.take_eq_ok Lexeme.Kind.noConfusion).1 htake
        exact ⟨.journal keyword hopen path hpath,
          ⟨List.forall_mem_nil _, hpasses.trans hbehind, (absurd · Bool.false_ne_true)⟩, rfl⟩

theorem exists_item_of_read {c c' : Cursor} {s : Statement} (formed : c.Formed)
    (h : read c = .ok (s, c')) : ∃ item : Item, IsItem item c c' ∧ s = item.statement c.file := by
  unfold read at h
  split at h
  · cases h
  · next token hpeek =>
    obtain ⟨-, rest, htokens⟩ := Cursor.peek_eq_ok.1 hpeek
    have hpasses := Cursor.passes_consume htokens
    split at h
    · next hkind =>
      cases h
      exact ⟨.date token hkind, ⟨List.forall_mem_nil _, hpasses, (absurd · Bool.false_ne_true)⟩, rfl⟩
    · next hkind =>
      split at h
      · cases h
      · next legs behind hrun =>
        cases h
        obtain ⟨ps, hfits, rfl, hpairs, hends⟩ := (Leg.readRun_eq_ok formed).1 hrun
        cases ps with
        | nil =>
            have hsame := htokens.symm.trans hpairs.tokens
            refine absurd ?_ hends
            rw [← List.nil_append c'.tokens, ← List.flatMap_nil, ← hsame]
            exact congrArg some hkind
        | cons first others =>
            have hfirst : token = first.number := by
              have hsame := htokens.symm.trans hpairs.tokens
              exact (List.cons.inj hsame).1
            refine ⟨.postings first others, ⟨hfits, hpairs, fun _ => hends⟩, ?_⟩
            rw [hfirst, Item.lastEnd_of_passes (.postings first others) hpairs]
            rfl
    · next hkind =>
      split at h
      · cases h
      · next directive hwords => exact exists_item_of_readAfter formed hkind hwords hpasses h
    · cases h

theorem read_of_directive {c : Cursor} {keyword : Token} {rest : List Token}
    (directive : Directive) (htokens : c.tokens = keyword :: rest)
    (hopen : keyword.Says directive.text) :
    read c = readAfter directive (keyword.span c.file) c.consume := by
  have hpeek : c.peek = .ok keyword :=
    Cursor.peek_eq_ok.2 ⟨by rw [hopen.1]; exact Lexeme.Kind.noConfusion, rest, htokens⟩
  unfold read
  rw [hpeek]
  simp only [hopen.1, Directive.ofText?_eq_some.2 hopen.2]

theorem read_of_item {item : Item} {c c' : Cursor} (formed : c.Formed) (h : IsItem item c c') :
    read c = .ok (item.statement c.file, c') := by
  obtain ⟨hfits, hpasses, hends⟩ := h
  cases item with
  | date day hday =>
      have hpeek : c.peek = .ok day :=
        Cursor.peek_eq_ok.2 ⟨by rw [hday]; exact Lexeme.Kind.noConfusion, _, hpasses.tokens⟩
      unfold read
      rw [hpeek]
      simp only [hday, (Cursor.passes_consume hpasses.tokens).unique hpasses]
      rfl
  | postings first others =>
      have hpeek : c.peek = .ok first.number :=
        Cursor.peek_eq_ok.2
          ⟨by rw [first.number_kind]; exact Lexeme.Kind.noConfusion, _, hpasses.tokens⟩
      have hrun := (Leg.readRun_eq_ok formed).2 ⟨_, hfits, rfl, hpasses, hends rfl⟩
      unfold read
      rw [hpeek]
      simp only [first.number_kind, hrun, Item.lastEnd_of_passes _ hpasses]
      rfl
  | openLedger keyword hkeyword pairs =>
      obtain ⟨d, hhead, htail⟩ := Cursor.Passes.split [keyword] hpasses
      have hrun := (Leg.readRun_eq_ok (formed.passes hhead)).2 ⟨_, hfits, rfl, htail, hends rfl⟩
      rw [read_of_directive .openLedger hpasses.tokens hkeyword,
        (Cursor.passes_consume hpasses.tokens).unique hhead]
      simp only [readAfter, hrun, Item.lastEnd_of_passes _ hpasses, hhead.file]
      rfl
  | useAccount keyword hkeyword account haccount =>
      obtain ⟨d, hhead, htail⟩ := Cursor.Passes.split [keyword] hpasses
      rw [read_of_directive .useAccount hpasses.tokens hkeyword,
        (Cursor.passes_consume hpasses.tokens).unique hhead]
      simp only [readAfter, (Cursor.take_eq_ok Lexeme.Kind.noConfusion).2 ⟨haccount, htail⟩]
      rfl
  | inclusion keyword hkeyword path hpath =>
      obtain ⟨d, hhead, htail⟩ := Cursor.Passes.split [keyword] hpasses
      rw [read_of_directive .inclusion hpasses.tokens hkeyword,
        (Cursor.passes_consume hpasses.tokens).unique hhead]
      simp only [readAfter, (Cursor.take_eq_ok Lexeme.Kind.noConfusion).2 ⟨hpath, htail⟩]
      rfl
  | journal keyword hkeyword path hpath =>
      obtain ⟨d, hhead, htail⟩ := Cursor.Passes.split [keyword] hpasses
      rw [read_of_directive .journal hpasses.tokens hkeyword,
        (Cursor.passes_consume hpasses.tokens).unique hhead]
      simp only [readAfter, (Cursor.take_eq_ok Lexeme.Kind.noConfusion).2 ⟨hpath, htail⟩]
      rfl

end Statement

/-! ## Files -/

/-- The tokens of a text whose lines may end in any of the usual ways. -/
def Token.ofString (text : String) : List Token := ofText (Lines.unify text.toList)

/-- All tokens of the item have the shapes of their kinds. -/
def Item.Formed (item : Item) : Prop := ∀ t ∈ item.tokens, t.toLexeme.Formed

theorem Spells.formed {items : List Item} {text : String}
    (h : Spells items (Token.ofString text)) : ∀ item ∈ items, item.Formed := by
  intro item hitem t ht
  apply Token.formed_of_mem
  change t ∈ Token.ofString text
  rw [h.whole]
  exact List.mem_flatMap.2 ⟨item, hitem, ht⟩

namespace Script

theorem read_of_atEnd {c : Cursor} (h : c.tokens = []) : read c = ⟨[], .ok c.lastEnd⟩ := by
  rw [read, if_pos (by rw [Cursor.atEnd, h]; rfl)]

theorem read_of_statement {c rest : Cursor} {s : Statement} (h : Statement.read c = .ok (s, rest)) :
    read c = ⟨s :: (read rest).statements, (read rest).ending⟩ := by
  have hmore : ¬ c.atEnd = true := by
    intro hend
    have hnil : c.tokens = [] := List.isEmpty_iff.1 hend
    have hless := Statement.read_shorter h
    rw [hnil] at hless
    exact Nat.not_lt_zero _ hless
  rw [read, if_neg hmore]
  split
  · next flaw hread =>
    rw [h] at hread
    cases hread
  · next hread =>
    rw [h] at hread
    cases hread
    rfl

/-- The script of a file that is written in items. -/
theorem read_of_spells {items : List Item} {c : Cursor} (formed : c.Formed)
    (h : Spells items c.tokens) (hfits : ∀ item ∈ items, item.Fits) :
    (read c).statements = items.map (·.statement c.file) ∧
      (read c).ending = .ok (Token.lastStop c.lastEnd c.tokens) := by
  induction items generalizing c with
  | nil =>
      rw [read_of_atEnd h.whole, h.whole]
      exact ⟨rfl, rfl⟩
  | cons item items ih =>
      obtain ⟨rest, htokens, hends, hitems⟩ := Spells.cons_iff.1 h
      obtain ⟨hitem, hothers⟩ := List.forall_mem_cons.1 hfits
      obtain ⟨d, hpasses, rfl⟩ := Cursor.Passes.exists_of_append htokens
      obtain ⟨hstatements, hending⟩ := ih (formed.passes hpasses) hitems hothers
      rw [read_of_statement (Statement.read_of_item formed ⟨hitem, hpasses, hends⟩), hstatements,
        hending, hpasses.file, hpasses.lastEnd, htokens, Token.lastStop_append]
      exact ⟨rfl, rfl⟩

/-- A script that comes to the end of a file is written in items. -/
theorem exists_spells {c : Cursor} {lastEnd : Position} (formed : c.Formed)
    (h : (read c).ending = .ok lastEnd) :
    ∃ items, Spells items c.tokens ∧ ∀ item ∈ items, item.Fits := by
  fun_induction read c with
  | case1 c hend =>
      have hnil : c.tokens = [] := List.isEmpty_iff.1 hend
      exact ⟨[], ⟨hnil, .nil⟩, List.forall_mem_nil _⟩
  | case2 => cases h
  | case3 c hmore s rest hread _ ih =>
      obtain ⟨item, ⟨hitem, hpasses, hends⟩, -⟩ := Statement.exists_item_of_read formed hread
      obtain ⟨items, hitems, hfits⟩ := ih (formed.passes hpasses) h
      exact ⟨item :: items, Spells.cons_iff.2 ⟨_, hpasses.tokens, hends, hitems⟩,
        List.forall_mem_cons.2 ⟨hitem, hfits⟩⟩

/-- The statements of a script are those of items, which leave nothing behind them
    or something that is no statement. -/
theorem exists_passes {c : Cursor} (formed : c.Formed) :
    ∃ (items : List Item) (d : Cursor), c.Passes (items.flatMap Item.tokens) d ∧
      (∀ item ∈ items, item.Fits) ∧
      (read c).statements = items.map (·.statement c.file) ∧
      ((d.tokens = [] ∧ (read c).ending = .ok d.lastEnd) ∨
        ∃ flaw, Statement.read d = .error flaw ∧ (read c).ending = .error flaw) := by
  fun_induction read c with
  | case1 c hend =>
      exact ⟨[], c, .refl c, List.forall_mem_nil _, rfl, .inl ⟨List.isEmpty_iff.1 hend, rfl⟩⟩
  | case2 c hmore flaw hread =>
      exact ⟨[], c, .refl c, List.forall_mem_nil _, rfl, .inr ⟨flaw, hread, rfl⟩⟩
  | case3 c hmore s rest hread _ ih =>
      obtain ⟨item, ⟨hfits, hitem, -⟩, rfl⟩ := Statement.exists_item_of_read formed hread
      obtain ⟨items, d, hpasses, hall, hstatements, hend⟩ := ih (formed.passes hitem)
      refine ⟨item :: items, d, hitem.trans hpasses, List.forall_mem_cons.2 ⟨hfits, hall⟩, ?_, hend⟩
      rw [List.map_cons, ← hitem.file, ← hstatements]

theorem exists_item_of_mem {c : Cursor} {s : Statement} (formed : c.Formed)
    (h : s ∈ (read c).statements) :
    ∃ item : Item, item.Formed ∧ item.Fits ∧ s = item.statement c.file := by
  obtain ⟨items, d, hpasses, hfits, hstatements, -⟩ := exists_passes formed
  obtain ⟨item, hitem, rfl⟩ := List.mem_map.1 (hstatements ▸ h)
  refine ⟨item, fun t ht => formed t ?_, hfits item hitem, rfl⟩
  rw [hpasses.tokens]
  exact List.mem_append_left _ (List.mem_flatMap_of_mem hitem ht)

theorem ofText_of_spells {items : List Item} {text : String} (file : String)
    (h : Spells items (Token.ofString text)) (hfits : ∀ item ∈ items, item.Fits) :
    (ofText file text).statements = items.map (·.statement file) ∧
      ∃ lastEnd, (ofText file text).ending = .ok lastEnd := by
  obtain ⟨hstatements, hending⟩ := read_of_spells (Cursor.formed_ofText file _) h hfits
  exact ⟨hstatements, _, hending⟩

theorem exists_items {file text : String} {lastEnd : Position}
    (h : (ofText file text).ending = .ok lastEnd) :
    ∃ items, Spells items (Token.ofString text) ∧ (∀ item ∈ items, item.Fits) ∧
      (ofText file text).statements = items.map (·.statement file) := by
  obtain ⟨items, hitems, hfits⟩ := exists_spells (Cursor.formed_ofText file _) h
  exact ⟨items, hitems, hfits, (ofText_of_spells file hitems hfits).1⟩

end Script

end DoubleEntry
