import DoubleEntry.Script

/-! # What a text can say

Reading the statements of a text ends at a fault in how it is written, if at any:
faults that depend on what has been said before arise later. Postings that were
read have at least one leg.
-/

namespace DoubleEntry

/-- A fault in how a text is written. -/
def Fault.Textual (fault : Fault) : Prop :=
  fault.cause.kind = .lex ∨ fault.cause.kind = .syntactic

/-- The fault within a flaw. -/
def Flaw.fault : Flaw → Fault
  | .plain fault | .inPostings _ fault | .inOpening _ fault => fault

namespace Cursor

theorem textual_misfit (token : Token) (span : Span) : Fault.Textual ⟨misfit token, span⟩ := by
  unfold misfit
  split
  · exact .inl rfl
  · split <;> exact .inl rfl
  · exact .inr rfl

theorem textual_of_peek {c : Cursor} {fault : Fault} (h : c.peek = .error fault) :
    fault.Textual := by
  unfold peek at h
  split at h
  · cases h
    exact .inr rfl
  · split at h
    · cases h
      exact textual_misfit _ _
    · cases h

theorem textual_of_take {c : Cursor} {kind : Lexeme.Kind} {fault : Fault}
    (h : c.take kind = .error fault) : fault.Textual := by
  unfold take at h
  split at h
  · next hpeek =>
    cases h
    exact textual_of_peek hpeek
  · split at h
    · cases h
    · cases h
      exact .inr rfl

end Cursor

theorem Money.textual_of_readAt {text : List Char} {span : Span} {fault : Fault}
    (h : readAt text span = .error fault) : fault.Textual := by
  unfold readAt at h
  split at h <;> cases h <;> exact .inr rfl

namespace Leg

theorem textual_of_read {c : Cursor} {fault : Fault} (h : read c = .error fault) :
    fault.Textual := by
  unfold read at h
  split at h
  · next hnumber =>
    cases h
    exact Cursor.textual_of_take hnumber
  · split at h
    · next hmoney =>
      cases h
      exact Money.textual_of_readAt hmoney
    · split at h
      · next hname =>
        cases h
        exact Cursor.textual_of_take hname
      · cases h

theorem textual_of_readRun {c : Cursor} {fault : Fault} (h : readRun c = .error fault) :
    fault.Textual := by
  fun_induction readRun c with
  | case1 _ _ _ hread => cases h; exact textual_of_read hread
  | case2 _ _ _ _ _ _ hrun ih => cases h; exact ih hrun
  | case3 => cases h
  | case4 => cases h

theorem readRun_ne_nil {c c' : Cursor} {legs : List Leg} (hc : c.lookahead = some .number)
    (h : readRun c = .ok (legs, c')) : legs ≠ [] := by
  rw [readRun, if_pos hc] at h
  split at h
  · cases h
  · split at h
    · cases h
    · cases h
      exact List.cons_ne_nil _ _

end Leg

namespace Statement

/-- Postings have legs. -/
def HasLegs : Statement → Prop
  | .postings _ legs _ => legs ≠ []
  | _ => True

theorem readAfter_hasLegs {directive : Directive} {keyword : Span} {c c' : Cursor} {s : Statement}
    (h : readAfter directive keyword c = .ok (s, c')) : s.HasLegs := by
  cases directive <;>
    · simp only [readAfter] at h
      split at h
      · cases h
      · cases h
        trivial

theorem read_hasLegs {c c' : Cursor} {s : Statement} (h : read c = .ok (s, c')) : s.HasLegs := by
  unfold read at h
  split at h
  · cases h
  · next token hpeek =>
    split at h
    · cases h
      trivial
    · next hkind =>
      split at h
      · cases h
      · next hrun =>
        cases h
        refine Leg.readRun_ne_nil ?_ hrun
        simp [Cursor.lookahead, Cursor.tokens_of_peek hpeek, hkind]
    · split at h
      · cases h
      · exact readAfter_hasLegs h
    · cases h

theorem textual_of_readAfter {directive : Directive} {keyword : Span} {c : Cursor} {flaw : Flaw}
    (h : readAfter directive keyword c = .error flaw) : flaw.fault.Textual := by
  cases directive with
  | openLedger =>
      simp only [readAfter] at h
      split at h
      · next hrun =>
        cases h
        exact Leg.textual_of_readRun hrun
      · cases h
  | useAccount | inclusion | journal =>
      simp only [readAfter] at h
      split at h
      · next htake =>
        cases h
        exact Cursor.textual_of_take htake
      · cases h

theorem textual_of_read {c : Cursor} {flaw : Flaw} (h : read c = .error flaw) :
    flaw.fault.Textual := by
  unfold read at h
  split at h
  · next hpeek =>
    cases h
    exact Cursor.textual_of_peek hpeek
  · split at h
    · cases h
    · split at h
      · next hrun =>
        cases h
        exact Leg.textual_of_readRun hrun
      · cases h
    · split at h
      · cases h
        exact .inr rfl
      · exact textual_of_readAfter h
    · cases h
      exact .inr rfl

end Statement

namespace Script

theorem read_hasLegs (c : Cursor) : ∀ s ∈ (read c).statements, s.HasLegs := by
  fun_induction read c with
  | case1 => exact List.forall_mem_nil _
  | case2 => exact List.forall_mem_nil _
  | case3 c _ s rest hread _ ih => exact List.forall_mem_cons.2 ⟨Statement.read_hasLegs hread, ih⟩

theorem textual_of_read {c : Cursor} {flaw : Flaw} (h : (read c).ending = .error flaw) :
    flaw.fault.Textual := by
  fun_induction read c with
  | case1 => cases h
  | case2 _ _ _ hread => cases h; exact Statement.textual_of_read hread
  | case3 _ _ _ _ _ _ ih => exact ih h

end Script

end DoubleEntry
