import DoubleEntry.Proofs.Alike
import DoubleEntry.Proofs.Matching

/-! # Layout does not change the books

What is read from a file depends on its tokens, and of a token on no more than its
kind and its text. Blanks, comments and line ends move the places of what follows
them, and no place decides anything. So files whose tokens say the same are read
as the same books, and they are refused for the same kind of reason.
-/

namespace DoubleEntry

/-! ## Reading tokens that say the same -/

namespace Cursor

/-- The tokens that are still to be read say the same. -/
def Alike (c c' : Cursor) : Prop := Token.said c.tokens = Token.said c'.tokens

variable {c c' : Cursor}

theorem Alike.tokens (h : c.Alike c') :
    c.tokens = [] ∧ c'.tokens = [] ∨ ∃ t rest u rest', c.tokens = t :: rest ∧
      c'.tokens = u :: rest' ∧ t.toLexeme.said = u.toLexeme.said ∧
      Token.said rest = Token.said rest' := by
  unfold Alike at h
  cases htokens : c.tokens with
  | nil =>
      rw [htokens] at h
      exact .inl ⟨rfl, List.map_eq_nil_iff.1 h.symm⟩
  | cons t rest =>
      rw [htokens] at h
      obtain ⟨u, rest', htokens', hsaid, hrest⟩ := List.map_eq_cons_iff.1 h.symm
      exact .inr ⟨t, rest, u, rest', rfl, htokens', hsaid.symm, hrest.symm⟩

theorem Alike.consume (h : c.Alike c') : c.consume.Alike c'.consume := by
  unfold Cursor.consume
  rcases h.tokens with ⟨hnil, hnil'⟩ | ⟨t, rest, u, rest', htokens, htokens', -, hrest⟩
  · rwa [hnil, hnil']
  · rw [htokens, htokens']
    exact hrest

theorem kind_misfit (token : Token) :
    (misfit token).kind = if token.text = [] then .syntactic else .lex := by
  unfold misfit
  split
  · next htext => simp [htext, Cause.kind]
  · next c rest _ htext => split <;> simp [htext, Cause.kind]
  · next htext => simp [htext, Cause.kind]

theorem peek_agrees (h : c.Alike c') :
    Agree (fun t u => t.toLexeme.said = u.toLexeme.said) c.peek c'.peek := by
  unfold peek
  rcases h.tokens with ⟨hnil, hnil'⟩ | ⟨t, rest, u, rest', htokens, htokens', hsaid, -⟩
  · rw [hnil, hnil']
    exact .error rfl
  · rw [htokens, htokens']
    dsimp only
    rw [← Token.kind_of_said hsaid]
    split
    · next herror =>
      have htext : t.text = u.text :=
        Token.text_of_said hsaid (herror ▸ Lexeme.Kind.noConfusion)
      refine .error ?_
      rw [kind_misfit, kind_misfit, htext]
    · exact .ok hsaid

theorem take_agrees (h : c.Alike c') (kind : Lexeme.Kind) (hkind : kind ≠ .directive) :
    Agree (fun x y => x.1.text = y.1.text ∧ x.2.Alike y.2) (c.take kind) (c'.take kind) := by
  have hpeek := peek_agrees h
  unfold take
  generalize c.peek = x at hpeek
  generalize c'.peek = y at hpeek
  cases hpeek with
  | error hkind => exact .error hkind
  | @ok t u hsaid =>
      dsimp only
      rw [← Token.kind_of_said hsaid]
      split
      · next hfound => exact .ok ⟨Token.text_of_said hsaid (hfound ▸ hkind), h.consume⟩
      · exact .error rfl

theorem Alike.lookahead (h : c.Alike c') : c.lookahead = c'.lookahead := by
  unfold Cursor.lookahead
  rcases h.tokens with ⟨hnil, hnil'⟩ | ⟨t, rest, u, rest', htokens, htokens', hsaid, -⟩
  · rw [hnil, hnil']
  · simp [htokens, htokens', Token.kind_of_said hsaid]

theorem Alike.atEnd (h : c.Alike c') : c.atEnd = c'.atEnd := by
  unfold Cursor.atEnd
  rcases h.tokens with ⟨hnil, hnil'⟩ | ⟨t, rest, u, rest', htokens, htokens', -, -⟩
  · rw [hnil, hnil']
  · rw [htokens, htokens', List.isEmpty_cons, List.isEmpty_cons]

end Cursor

theorem Money.readAt_agrees (text : List Char) (span span' : Span) :
    Agree Eq (readAt text span) (readAt text span') := by
  unfold readAt
  cases ofText text with
  | ok value => exact .ok rfl
  | error refusal => cases refusal <;> exact .error rfl

namespace Leg

variable {c c' : Cursor}

theorem read_eq_bind (c : Cursor) :
    read c = (c.take .number).bind fun number =>
      (Money.readAt number.1.text (number.1.span c.file)).bind fun value =>
        (number.2.take .account).map fun name =>
          (⟨String.ofList name.1.text, .onSide value (Category.sideOf (String.ofList name.1.text)),
            c.file, number.1.start, name.1.stop⟩, name.2) := by
  unfold read
  cases c.take .number with
  | error fault => rfl
  | ok number =>
      simp only [Except.bind]
      cases Money.readAt number.1.text (number.1.span c.file) with
      | error fault => rfl
      | ok value => cases number.2.take .account <;> rfl

theorem read_agrees (h : c.Alike c') :
    Agree (fun x y => x.1.unplaced = y.1.unplaced ∧ x.2.Alike y.2) (read c) (read c') := by
  rw [read_eq_bind, read_eq_bind]
  refine (Cursor.take_agrees h .number Lexeme.Kind.noConfusion).bind
    fun number number' hnumber => ?_
  rw [hnumber.1]
  refine (Money.readAt_agrees _ _ _).bind fun value value' hvalue => ?_
  rw [hvalue]
  refine (Cursor.take_agrees hnumber.2 .account Lexeme.Kind.noConfusion).map
    fun name name' hname => ?_
  simp only [unplaced, hname.1, hname.2, and_self]

theorem readRun_eq_bind (c : Cursor) :
    readRun c = if c.lookahead = some .number then
      (read c).bind fun leg => (readRun leg.2).map fun run => (leg.1 :: run.1, run.2)
    else .ok ([], c) := by
  rw [readRun]
  split
  · split
    · next hread => rw [hread]; rfl
    · next hread =>
      rw [hread]
      split
      · next hrun => simp only [Except.bind, hrun, Except.map]
      · next hrun => simp only [Except.bind, hrun, Except.map]
  · rfl

theorem readRun_agrees (h : c.Alike c') :
    Agree (fun x y => x.1.map unplaced = y.1.map unplaced ∧ x.2.Alike y.2)
      (readRun c) (readRun c') := by
  induction hlength : c.tokens.length using Nat.strong_induction_on generalizing c c' with
  | _ length ih =>
      subst hlength
      rw [readRun_eq_bind c, readRun_eq_bind c', h.lookahead]
      split
      · have hleg := read_agrees h
        generalize hread : read c = x at hleg
        generalize read c' = y at hleg
        cases hleg with
        | error hkind => exact .error hkind
        | ok hleg =>
            refine (ih _ (read_shorter hread) hleg.2 rfl).map ?_
            intro run run' hrun
            exact ⟨congrArg₂ List.cons hleg.1 hrun.1, hrun.2⟩
      · exact .ok ⟨rfl, h⟩

end Leg

namespace Statement

variable {c c' : Cursor}

theorem ofTake_agrees (h : c.Alike c') {kind : Lexeme.Kind} (hkind : kind ≠ .directive)
    {s s' : Token → Statement} (hs : ∀ t u : Token, t.text = u.text → (s t).Alike (s' u)) :
    Flaw.Agree (fun x y => x.1.Alike y.1 ∧ x.2.Alike y.2)
      (match c.take kind with
        | .error fault => .error (.plain fault)
        | .ok (token, behind) => .ok (s token, behind))
      (match c'.take kind with
        | .error fault => .error (.plain fault)
        | .ok (token, behind) => .ok (s' token, behind)) := by
  have htoken := Cursor.take_agrees h kind hkind
  generalize c.take kind = x at htoken
  generalize c'.take kind = y at htoken
  cases htoken with
  | error hkind => exact .error (.plain hkind)
  | ok htoken => exact .ok ⟨hs _ _ htoken.1, htoken.2⟩

theorem readAfter_agrees (h : c.Alike c') (directive : Directive) (keyword keyword' : Span) :
    Flaw.Agree (fun x y => x.1.Alike y.1 ∧ x.2.Alike y.2) (readAfter directive keyword c)
      (readAfter directive keyword' c') := by
  cases directive with
  | openLedger =>
      have hlegs := Leg.readRun_agrees h
      simp only [readAfter]
      generalize Leg.readRun c = x at hlegs
      generalize Leg.readRun c' = y at hlegs
      cases hlegs with
      | error hkind => exact .error (.inOpening hkind)
      | ok hlegs => exact .ok ⟨.openLedger hlegs.1, hlegs.2⟩
  | useAccount =>
      refine ofTake_agrees h Lexeme.Kind.noConfusion fun t u htext => ?_
      rw [htext]
      exact .useAccount
  | inclusion =>
      refine ofTake_agrees h Lexeme.Kind.noConfusion fun t u htext => ?_
      rw [htext]
      exact .inclusion
  | journal =>
      refine ofTake_agrees h Lexeme.Kind.noConfusion fun t u htext => ?_
      rw [htext]
      exact .journal

/-- A directive is known by its words alone. -/
theorem ofText?_of_said {t u : Token} (h : t.toLexeme.said = u.toLexeme.said)
    (hkind : t.kind = .directive) : Directive.ofText? t.text = Directive.ofText? u.text := by
  have htext := congrArg Prod.snd h
  have hsame := Token.kind_of_said h
  simp only [Lexeme.said, ← hsame, hkind, if_true] at htext
  rw [Directive.ofText?, htext, ← Directive.ofText?]

theorem read_agrees (h : c.Alike c') :
    Flaw.Agree (fun x y => x.1.Alike y.1 ∧ x.2.Alike y.2) (read c) (read c') := by
  have hpeek := Cursor.peek_agrees h
  unfold read
  generalize c.peek = x at hpeek
  generalize c'.peek = y at hpeek
  cases hpeek with
  | error hkind => exact .error (.plain hkind)
  | @ok t u hsaid =>
      dsimp only
      rw [← Token.kind_of_said hsaid]
      split
      · next hkind =>
        rw [Token.text_of_said hsaid (hkind ▸ Lexeme.Kind.noConfusion)]
        exact .ok ⟨.date, h.consume⟩
      · have hlegs := Leg.readRun_agrees h
        generalize Leg.readRun c = x at hlegs
        generalize Leg.readRun c' = y at hlegs
        cases hlegs with
        | error hkind => exact .error (.inPostings hkind)
        | ok hlegs => exact .ok ⟨.postings hlegs.1, hlegs.2⟩
      · next hkind =>
        rw [← ofText?_of_said hsaid hkind]
        cases Directive.ofText? t.text with
        | none => exact .error (.plain rfl)
        | some directive => exact readAfter_agrees h.consume directive _ _
      · exact .error (.plain rfl)

end Statement

namespace Script

theorem read_of_flaw {c : Cursor} {flaw : Flaw} (hmore : ¬ c.atEnd)
    (h : Statement.read c = .error flaw) : read c = ⟨[], .error flaw⟩ := by
  rw [read, if_neg hmore]
  split
  · next hread =>
    rw [h] at hread
    cases hread
    rfl
  · next hread =>
    rw [h] at hread
    cases hread

/-- By induction on the tokens that are left: a statement takes at least one of them. -/
theorem read_alike {c c' : Cursor} (h : c.Alike c') : (read c).Alike (read c') := by
  induction hlength : c.tokens.length using Nat.strong_induction_on generalizing c c' with
  | _ length ih =>
      subst hlength
      by_cases hend : c.atEnd
      · rw [read_of_atEnd (List.isEmpty_iff.1 hend),
          read_of_atEnd (List.isEmpty_iff.1 (h.atEnd.symm.trans hend))]
        exact ⟨.nil, .ok trivial⟩
      · have hstatement := Statement.read_agrees h
        generalize hread : Statement.read c = x at hstatement
        generalize hread' : Statement.read c' = y at hstatement
        cases hstatement with
        | error hflaw =>
            rw [read_of_flaw hend hread, read_of_flaw (h.atEnd ▸ hend) hread']
            exact ⟨.nil, .error hflaw⟩
        | ok hstatement =>
            obtain ⟨halike, hrest⟩ := hstatement
            obtain ⟨hstatements, hending⟩ := ih _ (Statement.read_shorter hread) hrest rfl
            rw [read_of_statement hread, read_of_statement hread']
            exact ⟨.cons halike hstatements, hending⟩

end Script

/-! ## Files that differ in their layout -/

/-- The same files can be read, and the tokens of each of them say the same. As many of
    them may be open at once. -/
structure Files.SameTokens (files others : Files) : Prop where
  found : ∀ path text, files.read path = .ok text → ∃ text', others.read path = .ok text' ∧
    Token.said (Token.ofString text) = Token.said (Token.ofString text')
  missing : ∀ path reason, files.read path = .error reason →
    ∃ other, others.read path = .error other
  nesting : files.nesting = others.nesting

theorem Files.SameTokens.alike {files others : Files} (h : files.SameTokens others) :
    files.Alike others where
  found path text htext := by
    obtain ⟨text', htext', hsaid⟩ := h.found path text htext
    exact ⟨text', htext', Script.read_alike hsaid⟩
  missing := h.missing

/-- Texts held in memory under the same paths, of which each says the same. -/
theorem Files.sameTokens_inMemory {texts others : List (String × String)}
    (h : List.Forall₂ (fun named other => named.1 = other.1 ∧
      Token.said (Token.ofString named.2) = Token.said (Token.ofString other.2)) texts others) :
    (inMemory texts).SameTokens (inMemory others) := by
  have hfind (path : String) := rel_find?_of_forall₂ (List.forall₂_reverse_iff.2 h)
    (p := fun named => Path.key named.1.toList = Path.key path.toList)
    (q := fun named => Path.key named.1.toList = Path.key path.toList)
    fun named other hsame => by rw [hsame.1]
  constructor
  · intro path text htext
    have hrel := hfind path
    simp only [inMemory, find?] at htext ⊢
    generalize texts.reverse.find? _ = x at hrel htext
    generalize others.reverse.find? _ = y at hrel
    cases hrel with
    | none => cases htext
    | some hsame =>
        cases htext
        exact ⟨_, rfl, hsame.2⟩
  · intro path reason hreason
    have hrel := hfind path
    simp only [inMemory, find?] at hreason ⊢
    generalize texts.reverse.find? _ = x at hrel hreason
    generalize others.reverse.find? _ = y at hrel
    cases hrel with
    | none => exact ⟨_, rfl⟩
    | some => cases hreason
  · simp only [inMemory, h.length_eq]

/-! ## Checking without regard to places -/

/-- What is left of a ledger without its places. -/
def Ledger.unplaced (ledger : Ledger) : Ledger :=
  { ledger with accounts := ledger.accounts.map Account.unplaced }

/-- Two entries that differ in their places alone. -/
def Entry.SameUnplaced (entry other : Entry) : Prop := entry.unplaced = other.unplaced

theorem Entry.SameUnplaced.matches {entry other : Entry} (h : entry.SameUnplaced other) :
    entry.Matches other where
  date := date_of_unplaced h
  legs := by
    have hlegs : entry.legs.map Leg.unplaced = other.legs.map Leg.unplaced := congrArg Entry.legs h
    refine (forall₂_of_map_eq hlegs).imp ?_
    intro leg other hleg
    simp only [Leg.unplaced, Leg.mk.injEq] at hleg
    exact ⟨hleg.1, by rw [hleg.2.1]⟩

theorem Account.unplaced_eq {a b : Account} :
    a.unplaced = b.unplaced ↔ a.Matches Entry.SameUnplaced b := by
  constructor
  · intro h
    simp only [unplaced, Account.mk.injEq] at h
    obtain ⟨hname, hcategory, hopening, hclosing, hhistory, -⟩ := h
    exact ⟨hname, hcategory, hopening, hclosing, forall₂_of_map_eq hhistory⟩
  · intro h
    simp only [unplaced, Account.mk.injEq]
    exact ⟨h.name, h.category, h.opening, h.closing, map_eq_of_forall₂ h.history fun _ _ => id,
      trivial⟩

theorem Draft.matches_of_unplaced {d d' : Draft} (h : d.unplaced = d'.unplaced) :
    d.Matches Entry.SameUnplaced d' := by
  simp only [unplaced, Chart.unplaced, Draft.mk.injEq, Chart.mk.injEq] at h
  obtain ⟨-, ⟨haccounts, hstart, -⟩, hpending, hfinish⟩ := h
  refine ⟨?_, forall₂_of_map_eq hpending, hstart, hfinish⟩
  exact (forall₂_of_map_eq haccounts).imp fun _ _ => Account.unplaced_eq.1

theorem Ledger.Matches.unplaced {ledger other : Ledger}
    (h : ledger.Matches Entry.SameUnplaced other) : ledger.unplaced = other.unplaced := by
  simp only [Ledger.unplaced, Ledger.mk.injEq]
  exact ⟨h.start, h.finish, map_eq_of_forall₂ h.accounts fun _ _ => Account.unplaced_eq.2⟩

/-! ## Books of another layout -/

/-- Layout does not change the books. If the tokens of all files say the same, reading
    them gives the same draft and the same ledger, places aside, or a fault of the same
    kind in both. -/
theorem Draft.read_layout {files others : Files} (h : files.SameTokens others) (root : String) :
    Agree (fun d d' => d.unplaced = d'.unplaced) (read files root).result
        (read others root).result ∧
      Agree (fun ledger ledger' => ledger.unplaced = ledger'.unplaced)
        (Ledger.read files root).result (Ledger.read others root).result := by
  have hread : Agree (fun d d' => d.unplaced = d'.unplaced) (read files root).result
      (read others root).result := by
    rw [result_read, result_read, ← h.nesting]
    refine (Books.read_agrees h.alike _ root .ledger _ _ .empty .empty rfl).map ?_
    intro books books' hbooks
    exact unplaced_ofBooks root hbooks
  refine ⟨hread, ?_⟩
  rw [Ledger.result_read, Ledger.result_read]
  refine hread.bind ?_
  intro d d' hd
  have hcheck := check_agrees (fun _ _ => Entry.SameUnplaced.matches) (matches_of_unplaced hd)
  exact hcheck.imp fun ledger ledger' => Ledger.Matches.unplaced

/-- A chart, an included file and a journal, laid out line by line. -/
def plainTexts : List (String × String) := [
  ("main", "open ledger\n 5 ASSETS/Cash\n 5 CAPITAL/Own\ninclude \"stall\"\njournal \"fair\"\n"),
  ("stall", "2020-05-01 1 ASSETS/Cash 1 CAPITAL/Own\n"),
  ("fair", "2020-05-03\nuse account CAPITAL/Own\n 2 ASSETS/Cash")]

/-- The same with other blanks, comments and line ends. -/
def spreadTexts : List (String × String) := [
  ("main", "open ledger  ; all of it\n5 ASSETS/Cash 5 CAPITAL/Own include\t\"stall\"journal \"fair\""),
  ("stall", "\r\n2020-05-01\r\n  1 ASSETS/Cash ; coins\r\n  1 CAPITAL/Own\r\n"),
  ("fair", "2020-05-03 use account   CAPITAL/Own;\n\n 2\x0bASSETS/Cash ")]

theorem Draft.read_layout_spreadTexts :
    (Files.inMemory plainTexts).SameTokens (.inMemory spreadTexts) ∧
    ∃ ledger ledger', (Ledger.read (.inMemory plainTexts) "main").result = .ok ledger ∧
      (Ledger.read (.inMemory spreadTexts) "main").result = .ok ledger' ∧
      ledger.unplaced = ledger'.unplaced := by
  have hsame : (Files.inMemory plainTexts).SameTokens (.inMemory spreadTexts) := by
    refine Files.sameTokens_inMemory (.cons ⟨rfl, ?_⟩ (.cons ⟨rfl, ?_⟩ (.cons ⟨rfl, ?_⟩ .nil)))
    all_goals decide +kernel
  have hbooks : (Books.read (.inMemory plainTexts) 8 ⟨"main", Span.startOf "main", .ledger⟩
      .empty).result.map (fun books =>
        (decide (books.pending.Pairwise fun a b => a.date ≤ b.date),
          (check ⟨"main", books.chart, books.pending, books.pending.getLast?.map (·.date)⟩).isOk)) =
        .ok (true, true) := by
    decide +kernel
  obtain ⟨books, hbooks, hboth⟩ := map_eq_ok.1 hbooks
  obtain ⟨hsorted, hcheck⟩ := Prod.mk.inj hboth
  have hread : (read (.inMemory plainTexts) "main").result = .ok (ofBooks "main" books) :=
    result_read_eq_ok.2 ⟨books, hbooks, rfl⟩
  rw [← ofBooks_of_sorted "main" (of_decide_eq_true hsorted)] at hcheck
  cases hledger : (ofBooks "main" books).check with
  | error fault =>
      rw [hledger] at hcheck
      cases hcheck
  | ok ledger =>
      have hplain := Ledger.read_eq_ok.2 ⟨_, hread, hledger⟩
      obtain ⟨ledger', hspread, hequal⟩ := (read_layout hsame "main").2.exists_ok hplain
      exact ⟨hsame, ledger, ledger', hplain, hspread, hequal⟩

end DoubleEntry
