import DoubleEntry.Proofs.Spelling
import DoubleEntry.Statement
import Mathlib.Data.List.Chain

/-! # The grammar of a file

A file is a row of items, and its tokens are the tokens of these items, one item
behind the other. An item that ends in pairs of numbers and accounts takes all
the pairs that follow it, so postings never stand directly behind it. A row of
tokens is that of at most one row of items.
-/

namespace DoubleEntry

/-- A directive of these words. The token may have blanks behind them. -/
def Token.Says (t : Token) (words : String) : Prop :=
  t.kind = .directive ∧ String.ofList (Blank.trimEnd t.text) = words

instance (t : Token) (words : String) : Decidable (t.Says words) :=
  inferInstanceAs (Decidable (_ ∧ _))

/-- A number and the account behind it. -/
structure Pair where
  number : Token
  account : Token
  number_kind : number.kind = .number
  account_kind : account.kind = .account

namespace Pair

def tokens (p : Pair) : List Token := [p.number, p.account]

def name (p : Pair) : String := String.ofList p.account.text

/-- The number in minor units. -/
def value (p : Pair) : Int := Money.spelled p.number.text

/-- The number is one that an amount can hold. -/
def Fits (p : Pair) : Prop := p.value.natAbs ≤ Money.limit

/-- The number, entered on the side where the account grows, or on the debit side
    if the account is of no known category. -/
def leg (file : String) (p : Pair) : Leg :=
  ⟨p.name, .entered p.value (Category.sideOf p.name), file, p.number.start, p.account.stop⟩

end Pair

inductive Item where
  | date (day : Token) (h : day.kind = .date)
  | postings (first : Pair) (others : List Pair)
  | openLedger (keyword : Token) (h : keyword.Says "open ledger") (pairs : List Pair)
  | useAccount (keyword : Token) (h : keyword.Says "use account") (account : Token)
      (ha : account.kind = .account)
  | inclusion (keyword : Token) (h : keyword.Says "include") (path : Token)
      (hp : path.kind = .string)
  | journal (keyword : Token) (h : keyword.Says "journal") (path : Token)
      (hp : path.kind = .string)

namespace Item

def pairs : Item → List Pair
  | postings first others => first :: others
  | openLedger _ _ pairs => pairs
  | _ => []

def tokens : Item → List Token
  | date day _ => [day]
  | postings first others => (first :: others).flatMap Pair.tokens
  | openLedger keyword _ pairs => keyword :: pairs.flatMap Pair.tokens
  | useAccount keyword _ account _ => [keyword, account]
  | inclusion keyword _ path _ | journal keyword _ path _ => [keyword, path]

def isPostings : Item → Bool
  | postings .. => true
  | _ => false

/-- The item goes on for as long as there are pairs. -/
def endsInPairs : Item → Bool
  | postings .. | openLedger .. => true
  | _ => false

def day? : Item → Option Token
  | date day _ => some day
  | _ => none

/-- The directive and the account that balance later postings. -/
def contra? : Item → Option (Token × Token)
  | useAccount keyword _ account _ => some (keyword, account)
  | _ => none

/-- The path of the file that is asked for, without its quotes. -/
def path? : Item → Option String
  | inclusion _ _ path _ | journal _ _ path _ => some (String.ofList (Quoted.unquote path.text))
  | _ => none

/-- The pairs that are posted. -/
def posted : Item → List Pair
  | postings first others => first :: others
  | _ => []

theorem posted_eq_nil {item : Item} (h : ¬ item.isPostings) : item.posted = [] := by
  cases item with
  | postings => exact absurd rfl h
  | _ => rfl

/-- All numbers of the item can be held by amounts. -/
def Fits (item : Item) : Prop := ∀ p ∈ item.pairs, p.Fits

end Item

/-- The items are written with these tokens. -/
structure Spells (items : List Item) (tokens : List Token) : Prop where
  whole : tokens = items.flatMap Item.tokens
  maximal : items.IsChain fun item next => item.endsInPairs → ¬ next.isPostings

/-! ## Items and the tokens behind them -/

/-- The next token is a number. -/
def Token.NumberNext (tokens : List Token) : Prop := tokens.head?.map (·.kind) = some .number

theorem Pair.ext_tokens {p q : Pair} (h : p.tokens = q.tokens) : p = q := by
  obtain ⟨number, account, hnumber, haccount⟩ := p
  obtain ⟨number', account', hnumber', haccount'⟩ := q
  cases h
  rfl

theorem Pair.numberNext_run {ps : List Pair} {rest : List Token} :
    Token.NumberNext (ps.flatMap tokens ++ rest) ↔ ps ≠ [] ∨ Token.NumberNext rest := by
  cases ps with
  | nil => simp
  | cons p ps => simp [Token.NumberNext, tokens, p.number_kind]

theorem Pair.run_unique {ps qs : List Pair} {rest rest' : List Token}
    (hrest : ¬ Token.NumberNext rest) (hrest' : ¬ Token.NumberNext rest')
    (h : ps.flatMap tokens ++ rest = qs.flatMap tokens ++ rest') : ps = qs ∧ rest = rest' := by
  induction ps generalizing qs with
  | nil =>
      have hnone : ¬ Token.NumberNext (qs.flatMap tokens ++ rest') := h ▸ hrest
      rw [numberNext_run, not_or, not_not] at hnone
      obtain ⟨rfl, -⟩ := hnone
      exact ⟨rfl, h⟩
  | cons p ps ih =>
      have hsome : Token.NumberNext (qs.flatMap tokens ++ rest') :=
        h ▸ numberNext_run.2 (.inl (List.cons_ne_nil p ps))
      cases qs with
      | nil => exact absurd hsome hrest'
      | cons q qs =>
          simp only [List.flatMap_cons, List.append_assoc] at h
          obtain ⟨hhead, htail⟩ := List.append_inj h rfl
          obtain ⟨rfl, hsame⟩ := ih htail
          exact ⟨congrArg (· :: ps) (ext_tokens hhead), hsame⟩

/-- The kind of a token, and its words if it is a directive. -/
def Token.opening (t : Token) : Lexeme.Kind × String :=
  (t.kind, if t.kind = .directive then String.ofList (Blank.trimEnd t.text) else "")

namespace Item

theorem tokens_ne_nil (item : Item) : item.tokens ≠ [] := by
  cases item <;> exact List.cons_ne_nil _ _

theorem numberNext_tokens {item : Item} {rest : List Token} :
    Token.NumberNext (item.tokens ++ rest) ↔ item.isPostings := by
  cases item with
  | date day h => simp [Token.NumberNext, tokens, isPostings, h]
  | postings first others =>
      simp [Token.NumberNext, tokens, isPostings, Pair.tokens, first.number_kind]
  | openLedger keyword h | useAccount keyword h | inclusion keyword h | journal keyword h =>
      simp [Token.NumberNext, tokens, isPostings, h.1]

/-- What an item can be told by: the kind of its first token, and the words of a
    directive. -/
def opening : Item → Lexeme.Kind × String
  | date .. => (.date, "")
  | postings .. => (.number, "")
  | openLedger .. => (.directive, "open ledger")
  | useAccount .. => (.directive, "use account")
  | inclusion .. => (.directive, "include")
  | journal .. => (.directive, "journal")

theorem head?_tokens_append (item : Item) (rest : List Token) :
    (item.tokens ++ rest).head?.map Token.opening = some item.opening := by
  cases item with
  | date day h => simp [tokens, Token.opening, opening, h]
  | postings first others =>
      simp [tokens, Pair.tokens, Token.opening, opening, first.number_kind]
  | openLedger keyword h | useAccount keyword h | inclusion keyword h | journal keyword h =>
      simp [tokens, Token.opening, opening, h.1, h.2]

theorem unique {item other : Item} {rest rest' : List Token}
    (hrest : item.endsInPairs → ¬ Token.NumberNext rest)
    (hrest' : other.endsInPairs → ¬ Token.NumberNext rest')
    (h : item.tokens ++ rest = other.tokens ++ rest') : item = other ∧ rest = rest' := by
  have hopening : item.opening = other.opening := by
    have hhead := head?_tokens_append item rest
    rw [h, head?_tokens_append other rest'] at hhead
    exact (Option.some.inj hhead).symm
  cases item with
  | date day hday =>
      cases other with
      | date =>
          cases h
          exact ⟨rfl, rfl⟩
      | _ => exact absurd hopening (by simp [opening])
  | postings first others =>
      cases other with
      | postings first' others' =>
          obtain ⟨hpairs, hsame⟩ := Pair.run_unique (hrest rfl) (hrest' rfl) h
          cases hpairs
          exact ⟨rfl, hsame⟩
      | _ => exact absurd hopening (by simp [opening])
  | openLedger keyword hkeyword pairs =>
      cases other with
      | openLedger keyword' hkeyword' pairs' =>
          obtain ⟨hkeyword, hbehind⟩ := List.cons.inj h
          obtain ⟨hpairs, hsame⟩ := Pair.run_unique (hrest rfl) (hrest' rfl) hbehind
          cases hkeyword
          cases hpairs
          exact ⟨rfl, hsame⟩
      | _ => exact absurd hopening (by simp [opening])
  | useAccount keyword hkeyword account haccount =>
      cases other with
      | useAccount =>
          cases h
          exact ⟨rfl, rfl⟩
      | _ => exact absurd hopening (by simp [opening])
  | inclusion keyword hkeyword path hpath =>
      cases other with
      | inclusion =>
          cases h
          exact ⟨rfl, rfl⟩
      | _ => exact absurd hopening (by simp [opening])
  | journal keyword hkeyword path hpath =>
      cases other with
      | journal =>
          cases h
          exact ⟨rfl, rfl⟩
      | _ => exact absurd hopening (by simp [opening])

end Item

namespace Spells

theorem cons_iff {item : Item} {items : List Item} {tokens : List Token} :
    Spells (item :: items) tokens ↔ ∃ rest, tokens = item.tokens ++ rest ∧
      (item.endsInPairs → ¬ Token.NumberNext rest) ∧ Spells items rest := by
  constructor
  · intro h
    refine ⟨items.flatMap Item.tokens, h.whole, ?_, rfl, h.maximal.tail⟩
    intro hends
    cases items with
    | nil => simp [Token.NumberNext]
    | cons next items =>
        rw [List.flatMap_cons, Item.numberNext_tokens]
        exact List.rel_of_isChain_cons_cons h.maximal hends
  · rintro ⟨rest, rfl, hends, h⟩
    obtain rfl := h.whole
    refine ⟨rfl, List.isChain_cons.2 ⟨?_, h.maximal⟩⟩
    intro next hnext hitem
    cases items with
    | nil => cases hnext
    | cons other items =>
        cases hnext
        rw [← Item.numberNext_tokens]
        exact hends hitem

/-- The grammar is unambiguous. -/
theorem unique {items others : List Item} {tokens : List Token} (h : Spells items tokens)
    (h' : Spells others tokens) : items = others := by
  induction items generalizing others tokens with
  | nil =>
      cases others with
      | nil => rfl
      | cons other others =>
          obtain ⟨rest, htokens, -⟩ := cons_iff.1 h'
          have hnil := htokens.symm.trans h.whole
          exact absurd (List.append_eq_nil_iff.1 hnil).1 other.tokens_ne_nil
  | cons item items ih =>
      obtain ⟨rest, rfl, hrest, hitems⟩ := cons_iff.1 h
      cases others with
      | nil => exact absurd (List.append_eq_nil_iff.1 h'.whole).1 item.tokens_ne_nil
      | cons other others =>
          obtain ⟨rest', hsame, hrest', hothers⟩ := cons_iff.1 h'
          obtain ⟨rfl, rfl⟩ := Item.unique hrest hrest' hsame
          exact congrArg (item :: ·) (ih hitems hothers)

end Spells

end DoubleEntry
