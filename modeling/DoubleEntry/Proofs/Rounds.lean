import DoubleEntry.Proofs.Items
import DoubleEntry.Proofs.Places

/-! # Progress through a file

A file is read in rounds: a round reads one statement, and within postings a round
reads one leg. Each round that does not end in a fault leaves tokens of the file
behind it, none of them malformed, so there are no more rounds than tokens. In
front of a malformed token a round ends in a fault, or does not begin.
-/

namespace DoubleEntry

/-- From one cursor to the other something has been read: tokens of the text that
    mean something and fit their kinds. -/
def Cursor.Advances (text : List Char) (c behind : Cursor) : Prop :=
  ∃ passed, passed ≠ [] ∧ c.Passes passed behind ∧
    ∀ t ∈ passed, t ∈ Token.ofText text ∧ ¬ t.isTrivia ∧ t.kind ≠ .error

theorem Token.not_isTrivia_of_mem {text : List Char} {t : Token} (h : t ∈ ofText text) :
    ¬ t.isTrivia := by
  have hmeans : t.toLexeme ∈ Lexeme.meaningful text := by
    rw [← map_toLexeme_ofText]
    exact List.mem_map_of_mem h
  exact Lexeme.not_isTrivia_of_mem_meaning hmeans

theorem Pair.kind_ne_error {p : Pair} {t : Token} (h : t ∈ p.tokens) : t.kind ≠ .error := by
  rcases List.mem_pair.1 h with rfl | rfl
  · rw [p.number_kind]
    exact Lexeme.Kind.noConfusion
  · rw [p.account_kind]
    exact Lexeme.Kind.noConfusion

theorem Item.kind_ne_error {item : Item} {t : Token} (h : t ∈ item.tokens) : t.kind ≠ .error := by
  have among {pairs : List Pair} (h : t ∈ pairs.flatMap Pair.tokens) : t.kind ≠ .error := by
    obtain ⟨p, -, ht⟩ := List.mem_flatMap.1 h
    exact p.kind_ne_error ht
  cases item with
  | date day hday =>
      rw [List.mem_singleton.1 h, hday]
      exact Lexeme.Kind.noConfusion
  | postings first others =>
      have hpairs : t ∈ (first :: others).flatMap Pair.tokens := h
      exact among hpairs
  | openLedger keyword hkeyword pairs =>
      rcases List.mem_cons.1 h with rfl | h
      · rw [hkeyword.1]
        exact Lexeme.Kind.noConfusion
      · exact among h
  | useAccount keyword hkeyword name hname | inclusion keyword hkeyword name hname
  | journal keyword hkeyword name hname =>
      rcases List.mem_pair.1 h with rfl | rfl
      · rw [hkeyword.1]
        exact Lexeme.Kind.noConfusion
      · rw [hname]
        exact Lexeme.Kind.noConfusion

namespace Cursor

variable {file : String} {text : List Char} {passed : List Token} {c behind : Cursor}

theorem Advances.shorter (h : c.Advances text behind) : behind.tokens.length < c.tokens.length := by
  obtain ⟨passed, hne, hpasses, -⟩ := h
  rw [hpasses.tokens, List.length_append]
  have := List.length_pos_iff.2 hne
  omega

theorem Passes.advances {read : List Token} (h : (ofText file text).Passes passed c)
    (hread : c.Passes read behind) (hne : read ≠ []) (hkinds : ∀ t ∈ read, t.kind ≠ .error) :
    c.Advances text behind := by
  refine ⟨read, hne, hread, fun t ht => ?_⟩
  have hmem : t ∈ Token.ofText text := by
    have htokens : Token.ofText text = _ := (h.trans hread).tokens
    rw [htokens]
    exact List.mem_append_left _ (List.mem_append_right _ ht)
  exact ⟨hmem, Token.not_isTrivia_of_mem hmem, hkinds t ht⟩

theorem peek_of_error (h : c.lookahead = some .error) : ∃ fault, c.peek = .error fault := by
  cases hpeek : c.peek with
  | error fault => exact ⟨fault, rfl⟩
  | ok token =>
      obtain ⟨hkind, rest, htokens⟩ := peek_eq_ok.1 hpeek
      rw [lookahead, htokens] at h
      exact absurd (Option.some.inj h) hkind

end Cursor

namespace Script

variable {file : String} {text : List Char} {passed : List Token} {c : Cursor}

/-- A round gets ahead, whether it reads a statement or a leg, and a malformed token
    ends it. -/
theorem rounds_advance (h : (Cursor.ofText file text).Passes passed c) :
    (∀ s behind, Statement.read c = .ok (s, behind) → c.Advances text behind) ∧
    (∀ leg behind, Leg.read c = .ok (leg, behind) → c.Advances text behind) ∧
    (c.lookahead = some .error → (∃ flaw, Statement.read c = .error flaw) ∧
      (∃ fault, Leg.read c = .error fault) ∧ Leg.readRun c = .ok ([], c)) := by
  have formed := (Cursor.formed_ofText file text).passes h
  refine ⟨fun s behind hread => ?_, fun leg behind hread => ?_, fun herror => ?_⟩
  · obtain ⟨item, ⟨-, hitem, -⟩, -⟩ := Statement.exists_item_of_read formed hread
    exact h.advances hitem item.tokens_ne_nil fun t => item.kind_ne_error
  · obtain ⟨p, -, -, hpair⟩ := (Leg.read_eq_ok formed).1 hread
    exact h.advances hpair (List.cons_ne_nil _ _) fun t => p.kind_ne_error
  · obtain ⟨fault, hpeek⟩ := Cursor.peek_of_error herror
    refine ⟨⟨.plain fault, by rw [Statement.read, hpeek]⟩, ⟨fault, ?_⟩, ?_⟩
    · rw [Leg.read, Cursor.take, hpeek]
    · rw [Leg.readRun, if_neg (by simp [herror])]

theorem length_le_flatMap {items : List Item} :
    items.length ≤ (items.flatMap Item.tokens).length := by
  induction items with
  | nil => exact Nat.le_refl 0
  | cons item items ih =>
      have := List.length_pos_iff.2 item.tokens_ne_nil
      rw [List.flatMap_cons, List.length_append, List.length_cons]
      omega

theorem rounds_end (file text : String) :
    (ofText file text).statements.length ≤ (Token.ofString text).length ∧
    ((∃ t ∈ Token.ofString text, t.kind = .error) →
      ∃ flaw, (ofText file text).ending = .error flaw) := by
  obtain ⟨items, d, hpasses, -, hstatements, hend⟩ :=
    exists_passes (Cursor.formed_ofText file (Lines.unify text.toList))
  have htokens : Token.ofString text = items.flatMap Item.tokens ++ d.tokens := hpasses.tokens
  constructor
  · have hstatements : (ofText file text).statements = _ := hstatements
    rw [hstatements, List.length_map, htokens, List.length_append]
    exact Nat.le_add_right_of_le length_le_flatMap
  · rintro ⟨t, ht, herror⟩
    rcases hend with ⟨hnil, -⟩ | ⟨flaw, -, hflaw⟩
    · rw [htokens, hnil, List.append_nil] at ht
      obtain ⟨item, -, hitem⟩ := List.mem_flatMap.1 ht
      exact absurd herror (item.kind_ne_error hitem)
    · exact ⟨flaw, hflaw⟩

end Script

end DoubleEntry
