import DoubleEntry.Proofs.Unplaced

/-! # Rows of tokens that say the same

Two rows of tokens say the same if their tokens are of the same kinds and have the
same texts, blanks behind directives aside. If one of them is written in items, so
is the other, and the statements of these items are alike.
-/

namespace DoubleEntry

open Lexeme

/-- What a lexeme says. Blanks behind the words of a directive do not count. -/
def Lexeme.said (l : Lexeme) : Kind × List Char :=
  (l.kind, if l.kind = .directive then Blank.trimEnd l.text else l.text)

namespace Token

/-- What a row of tokens says. -/
def said (tokens : List Token) : List (Kind × List Char) := tokens.map (·.toLexeme.said)

theorem said_append (first second : List Token) :
    said (first ++ second) = said first ++ said second := List.map_append

theorem said_ofText (text : List Char) :
    said (ofText text) = (meaningful text).map Lexeme.said := by
  rw [← map_toLexeme_ofText, List.map_map]
  rfl

variable {t u : Token}

theorem kind_of_said (h : t.toLexeme.said = u.toLexeme.said) : t.kind = u.kind :=
  (Prod.mk.inj h).1

theorem text_of_said (h : t.toLexeme.said = u.toLexeme.said) (hkind : t.kind ≠ .directive) :
    t.text = u.text := by
  obtain ⟨hsame, htext⟩ := Prod.mk.inj h
  rwa [if_neg hkind, if_neg (hsame ▸ hkind)] at htext

theorem opening_of_said (h : t.toLexeme.said = u.toLexeme.said) : t.opening = u.opening := by
  obtain ⟨hsame, htext⟩ := Prod.mk.inj h
  unfold opening
  rw [← hsame] at htext ⊢
  by_cases hkind : t.kind = .directive
  · rw [if_pos hkind, if_pos hkind] at htext
    rw [if_pos hkind, if_pos hkind, htext]
  · rw [if_neg hkind, if_neg hkind]

theorem Says.of_said {words : String} (h : t.Says words)
    (hsaid : t.toLexeme.said = u.toLexeme.said) : u.Says words := by
  have hopening := opening_of_said hsaid
  have hkind := kind_of_said hsaid
  unfold opening at hopening
  rw [← hkind, if_pos h.1, if_pos h.1] at hopening
  exact ⟨hkind ▸ h.1, (Prod.mk.inj hopening).2 ▸ h.2⟩

end Token

/-! ## Pairs -/

namespace Pair

/-- Pairs of the same number and the same account. -/
structure Alike (p q : Pair) : Prop where
  number : p.number.text = q.number.text
  account : p.account.text = q.account.text

theorem alike_of_said {p q : Pair} (hnumber : p.number.toLexeme.said = q.number.toLexeme.said)
    (haccount : p.account.toLexeme.said = q.account.toLexeme.said) : p.Alike q := by
  constructor
  · refine Token.text_of_said hnumber ?_
    rw [p.number_kind]
    exact Kind.noConfusion
  · refine Token.text_of_said haccount ?_
    rw [p.account_kind]
    exact Kind.noConfusion

theorem Alike.fits {p q : Pair} (h : p.Alike q) (hp : p.Fits) : q.Fits := by
  unfold Fits value at hp ⊢
  rwa [← h.number]

theorem Alike.unplaced_leg {p q : Pair} (h : p.Alike q) (file file' : String) :
    (p.leg file).unplaced = (q.leg file').unplaced := by
  simp only [leg, name, value, Leg.unplaced, h.number, h.account]

theorem unplaced_legs {ps qs : List Pair} (h : List.Forall₂ Alike ps qs) (file file' : String) :
    (ps.map (·.leg file)).map Leg.unplaced = (qs.map (·.leg file')).map Leg.unplaced := by
  induction h with
  | nil => rfl
  | cons hpq _ ih => exact congrArg₂ List.cons (hpq.unplaced_leg file file') ih

theorem exists_alike {ps : List Pair} {tokens' : List Token}
    (h : Token.said tokens' = Token.said (ps.flatMap tokens)) :
    ∃ qs : List Pair, qs.flatMap tokens = tokens' ∧ List.Forall₂ Alike ps qs := by
  induction ps generalizing tokens' with
  | nil =>
      rw [List.map_eq_nil_iff.1 h]
      exact ⟨[], rfl, .nil⟩
  | cons p ps ih =>
      obtain ⟨number, behind, rfl, hnumber, hbehind⟩ := List.map_eq_cons_iff.1 h
      obtain ⟨account, rest, rfl, haccount, hrest⟩ := List.map_eq_cons_iff.1 hbehind
      obtain ⟨qs, rfl, hqs⟩ := ih hrest
      refine ⟨⟨number, account, ?_, ?_⟩ :: qs, rfl,
        .cons (alike_of_said hnumber.symm haccount.symm) hqs⟩
      · rw [Token.kind_of_said hnumber, p.number_kind]
      · rw [Token.kind_of_said haccount, p.account_kind]

end Pair

/-! ## Items -/

namespace Item

/-- Items of one kind that say the same. -/
inductive Alike : Item → Item → Prop where
  | date {day day' hday hday'} (h : day.text = day'.text) : Alike (.date day hday) (.date day' hday')
  | postings {first first' others others'}
      (h : List.Forall₂ Pair.Alike (first :: others) (first' :: others')) :
      Alike (.postings first others) (.postings first' others')
  | openLedger {keyword keyword' hkeyword hkeyword' pairs pairs'}
      (h : List.Forall₂ Pair.Alike pairs pairs') :
      Alike (.openLedger keyword hkeyword pairs) (.openLedger keyword' hkeyword' pairs')
  | useAccount {keyword keyword' hkeyword hkeyword' account account' haccount haccount'}
      (h : account.text = account'.text) :
      Alike (.useAccount keyword hkeyword account haccount)
        (.useAccount keyword' hkeyword' account' haccount')
  | inclusion {keyword keyword' hkeyword hkeyword' path path' hpath hpath'}
      (h : path.text = path'.text) :
      Alike (.inclusion keyword hkeyword path hpath) (.inclusion keyword' hkeyword' path' hpath')
  | journal {keyword keyword' hkeyword hkeyword' path path' hpath hpath'}
      (h : path.text = path'.text) :
      Alike (.journal keyword hkeyword path hpath) (.journal keyword' hkeyword' path' hpath')

theorem exists_alike {item : Item} {tokens' : List Token}
    (h : Token.said tokens' = Token.said item.tokens) :
    ∃ other : Item, other.tokens = tokens' ∧ item.Alike other := by
  cases item with
  | date day hday =>
      obtain ⟨day', rest, rfl, hsaid, hrest⟩ := List.map_eq_cons_iff.1 h
      obtain rfl := List.map_eq_nil_iff.1 hrest
      have hkind := (Token.kind_of_said hsaid).trans hday
      refine ⟨.date day' hkind, rfl, .date (Token.text_of_said hsaid ?_).symm⟩
      rw [hkind]
      exact Kind.noConfusion
  | postings first others =>
      obtain ⟨qs, rfl, hqs⟩ := Pair.exists_alike h
      cases hqs with
      | cons hfirst hothers => exact ⟨.postings _ _, rfl, .postings (.cons hfirst hothers)⟩
  | openLedger keyword hkeyword pairs =>
      obtain ⟨keyword', rest, rfl, hsaid, hrest⟩ := List.map_eq_cons_iff.1 h
      obtain ⟨pairs', rfl, hpairs⟩ := Pair.exists_alike hrest
      exact ⟨.openLedger keyword' (hkeyword.of_said hsaid.symm) pairs', rfl, .openLedger hpairs⟩
  | useAccount keyword hkeyword account haccount =>
      obtain ⟨keyword', rest, rfl, hsaid, hrest⟩ := List.map_eq_cons_iff.1 h
      obtain ⟨account', rest, rfl, hsame, hrest⟩ := List.map_eq_cons_iff.1 hrest
      obtain rfl := List.map_eq_nil_iff.1 hrest
      have hkind := (Token.kind_of_said hsame).trans haccount
      refine ⟨.useAccount keyword' (hkeyword.of_said hsaid.symm) account' hkind, rfl,
        .useAccount (Token.text_of_said hsame ?_).symm⟩
      rw [hkind]
      exact Kind.noConfusion
  | inclusion keyword hkeyword path hpath =>
      obtain ⟨keyword', rest, rfl, hsaid, hrest⟩ := List.map_eq_cons_iff.1 h
      obtain ⟨path', rest, rfl, hsame, hrest⟩ := List.map_eq_cons_iff.1 hrest
      obtain rfl := List.map_eq_nil_iff.1 hrest
      have hkind := (Token.kind_of_said hsame).trans hpath
      refine ⟨.inclusion keyword' (hkeyword.of_said hsaid.symm) path' hkind, rfl,
        .inclusion (Token.text_of_said hsame ?_).symm⟩
      rw [hkind]
      exact Kind.noConfusion
  | journal keyword hkeyword path hpath =>
      obtain ⟨keyword', rest, rfl, hsaid, hrest⟩ := List.map_eq_cons_iff.1 h
      obtain ⟨path', rest, rfl, hsame, hrest⟩ := List.map_eq_cons_iff.1 hrest
      obtain rfl := List.map_eq_nil_iff.1 hrest
      have hkind := (Token.kind_of_said hsame).trans hpath
      refine ⟨.journal keyword' (hkeyword.of_said hsaid.symm) path' hkind, rfl,
        .journal (Token.text_of_said hsame ?_).symm⟩
      rw [hkind]
      exact Kind.noConfusion

namespace Alike

variable {item other : Item}

theorem endsInPairs (h : item.Alike other) : other.endsInPairs = item.endsInPairs := by
  cases h <;> rfl

theorem fits (h : item.Alike other) (hitem : item.Fits) : other.Fits := by
  have pairs {ps qs : List Pair} (hpairs : List.Forall₂ Pair.Alike ps qs)
      (hps : ∀ p ∈ ps, p.Fits) : ∀ q ∈ qs, q.Fits := by
    intro q hq
    obtain ⟨p, hp, hpq⟩ := exists_of_forall₂ hpairs q hq
    exact hpq.fits (hps p hp)
  cases h with
  | postings h => exact pairs h hitem
  | openLedger h => exact pairs h hitem
  | date | useAccount | inclusion | journal => exact List.forall_mem_nil _

theorem statement (h : item.Alike other) (file file' : String) :
    (item.statement file).Alike (other.statement file') := by
  cases h with
  | date h =>
      simp only [Item.statement, h]
      exact .date
  | postings h => exact .postings (Pair.unplaced_legs h file file')
  | openLedger h => exact .openLedger (Pair.unplaced_legs h file file')
  | useAccount h =>
      simp only [Item.statement, h]
      exact .useAccount
  | inclusion h =>
      simp only [Item.statement, h]
      exact .inclusion
  | journal h =>
      simp only [Item.statement, h]
      exact .journal

end Alike

theorem fits_of_alike {items others : List Item} (h : List.Forall₂ Alike items others)
    (hfits : ∀ item ∈ items, item.Fits) : ∀ item ∈ others, item.Fits := by
  intro other hother
  obtain ⟨item, hitem, hsame⟩ := exists_of_forall₂ h other hother
  exact hsame.fits (hfits item hitem)

end Item

/-- A row of tokens that says the same as one that is written in items is written in
    items that say the same. -/
theorem Spells.exists_alike {items : List Item} {tokens tokens' : List Token}
    (h : Spells items tokens) (hsaid : Token.said tokens' = Token.said tokens) :
    ∃ others, Spells others tokens' ∧ List.Forall₂ Item.Alike items others := by
  induction items generalizing tokens tokens' with
  | nil =>
      rw [h.whole] at hsaid
      rw [List.map_eq_nil_iff.1 hsaid]
      exact ⟨[], ⟨rfl, .nil⟩, .nil⟩
  | cons item items ih =>
      obtain ⟨rest, rfl, hends, hrest⟩ := Spells.cons_iff.1 h
      rw [Token.said_append] at hsaid
      obtain ⟨own, rest', rfl, hown, hsame⟩ := List.map_eq_append_iff.1 hsaid
      obtain ⟨other, rfl, hother⟩ := Item.exists_alike hown
      obtain ⟨others, hothers, halike⟩ := ih hrest hsame
      refine ⟨other :: others, Spells.cons_iff.2 ⟨rest', rfl, ?_, hothers⟩, .cons hother halike⟩
      intro hpairs hnumber
      refine hends (hother.endsInPairs ▸ hpairs) ?_
      have hkinds := congrArg (·.head?.map Prod.fst) hsame
      simp only [Token.said, List.head?_map, Option.map_map] at hkinds
      exact hkinds.symm.trans hnumber

theorem Item.runAll_agrees {read read' : Visit → Books → Traced Books} {file file' : String}
    {scope : Scope} {p p' : Progress} {items others : List Item} (reads : ReadsAlike read read')
    (hfile : ∀ path, Path.resolve file path = Path.resolve file' path)
    (hitems : List.Forall₂ Item.Alike items others) (h : p.Alike p') :
    Agree Progress.Alike (runAll read file scope p items) (runAll read' file' scope p' others) :=
  .foldlM hitems h fun hp hitem =>
    Statement.run_agrees reads hfile (hitem.statement file file') hp

end DoubleEntry
