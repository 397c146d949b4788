import DoubleEntry.Progress
import DoubleEntry.Proofs.Script
import DoubleEntry.Proofs.Slices

/-! # Where a file is at fault

Whatever keeps a file from being read on is reported at a token that is still to
be read, or at the end of the file if the tokens come to an end too soon. Such a
place begins with the first character of a token and ends within the text.
-/

namespace DoubleEntry

open Lexeme

/-- A fault in what a cursor has still to read. It begins with a token and does not
    reach beyond it. -/
inductive Cursor.Flawed (c : Cursor) (fault : Fault) : Prop where
  | token {passed t rest width} (htokens : c.tokens = passed ++ t :: rest)
      (hwidth : width ≤ t.text.length)
      (hspan : fault.span = ⟨c.file, t.start, t.start.advance width⟩)
  | atEnd (hcause : fault.cause = .unexpectedEnd) (hspan : fault.span = ⟨c.file, c.finish, c.finish⟩)

namespace Cursor

variable {c d : Cursor} {fault : Fault}

theorem Flawed.passes {passed : List Token} (h : d.Flawed fault) (hpasses : c.Passes passed d) :
    c.Flawed fault := by
  cases h with
  | token htokens hwidth hspan =>
      rw [hpasses.file] at hspan
      have hall := hpasses.tokens
      rw [htokens, ← List.append_assoc] at hall
      exact .token hall hwidth hspan
  | atEnd hcause hspan =>
      rw [hpasses.file, hpasses.finish] at hspan
      exact .atEnd hcause hspan

theorem flawed_of_width {t : Token} {rest : List Token} {width : Nat}
    (htokens : c.tokens = t :: rest) (hwidth : width ≤ t.text.length)
    (hspan : fault.span = ⟨c.file, t.start, t.start.advance width⟩) : c.Flawed fault := by
  have hnone : c.tokens = [] ++ t :: rest := htokens
  exact .token hnone hwidth hspan

theorem flawed_of_next {t : Token} {rest : List Token} (htokens : c.tokens = t :: rest)
    (hspan : fault.span = t.span c.file) : c.Flawed fault :=
  flawed_of_width htokens (Nat.le_refl _) hspan

theorem flawed_of_peek (h : c.peek = .error fault) : c.Flawed fault := by
  unfold peek at h
  split at h
  · cases h
    exact .atEnd rfl rfl
  · next htokens =>
    split at h
    · cases h
      exact flawed_of_next htokens rfl
    · cases h

theorem flawed_of_take {kind : Kind} (h : c.take kind = .error fault) : c.Flawed fault := by
  unfold take at h
  split at h
  · next hpeek =>
    cases h
    exact flawed_of_peek hpeek
  · next hpeek =>
    split at h
    · cases h
    · cases h
      exact flawed_of_next (tokens_of_peek hpeek) rfl

end Cursor

theorem Money.span_of_readAt {text : List Char} {span : Span} {fault : Fault}
    (h : readAt text span = .error fault) : fault.span = span := by
  unfold readAt at h
  split at h <;> cases h <;> rfl

namespace Leg

variable {c : Cursor} {fault : Fault}

theorem flawed_of_read (h : read c = .error fault) : c.Flawed fault := by
  unfold read at h
  split at h
  · next hnumber =>
    cases h
    exact Cursor.flawed_of_take hnumber
  · next number behind hnumber =>
    obtain ⟨-, hpasses⟩ := (Cursor.take_eq_ok Kind.noConfusion).1 hnumber
    split at h
    · next hmoney =>
      cases h
      exact Cursor.flawed_of_next hpasses.tokens (Money.span_of_readAt hmoney)
    · split at h
      · next hname =>
        cases h
        exact (Cursor.flawed_of_take hname).passes hpasses
      · cases h

theorem flawed_of_readRun (formed : c.Formed) (h : readRun c = .error fault) : c.Flawed fault := by
  fun_induction readRun c with
  | case1 c _ found hread =>
      cases h
      exact flawed_of_read hread
  | case2 c _ leg rest hread found hrun ih =>
      cases h
      obtain ⟨p, -, -, hpasses⟩ := (read_eq_ok formed).1 hread
      exact (ih (formed.passes hpasses) hrun).passes hpasses
  | case3 => cases h
  | case4 => cases h

end Leg

/-- The token that an earlier fault would be reported at. -/
def Flaw.anchor? : Flaw → Option Span
  | .plain _ => none
  | .inPostings first _ => some first
  | .inOpening keyword _ => some keyword

/-- A flaw in what a cursor has still to read, with the next token as its anchor. -/
structure Flaw.LiesBehind (flaw : Flaw) (c : Cursor) : Prop where
  flawed : c.Flawed flaw.fault
  anchor : ∀ span ∈ flaw.anchor?, ∃ t rest, c.tokens = t :: rest ∧ span = t.span c.file

namespace Statement

variable {c : Cursor} {flaw : Flaw}

theorem flawed_of_readAfter {directive : Directive} {keyword : Span} (formed : c.Formed)
    (h : readAfter directive keyword c = .error flaw) :
    c.Flawed flaw.fault ∧ ∀ span ∈ flaw.anchor?, span = keyword := by
  cases directive with
  | openLedger =>
      simp only [readAfter] at h
      split at h
      · next hrun =>
        cases h
        exact ⟨Leg.flawed_of_readRun formed hrun, by simp [Flaw.anchor?]⟩
      · cases h
  | useAccount | inclusion | journal =>
      simp only [readAfter] at h
      split at h
      · next htake =>
        cases h
        exact ⟨Cursor.flawed_of_take htake, by simp [Flaw.anchor?]⟩
      · cases h

theorem trimEnd_length_le (text : List Char) : (Blank.trimEnd text).length ≤ text.length := by
  unfold Blank.trimEnd
  simpa using List.length_dropWhile_le Blank.isBlank text.reverse

theorem liesBehind_of_read (formed : c.Formed) (h : read c = .error flaw) : flaw.LiesBehind c := by
  unfold read at h
  split at h
  · next hpeek =>
    cases h
    exact ⟨Cursor.flawed_of_peek hpeek, by simp [Flaw.anchor?]⟩
  · next token hpeek =>
    obtain ⟨-, rest, htokens⟩ := Cursor.peek_eq_ok.1 hpeek
    have hpasses := Cursor.passes_consume htokens
    split at h
    · cases h
    · split at h
      · next hrun =>
        cases h
        refine ⟨Leg.flawed_of_readRun formed hrun, ?_⟩
        intro span hspan
        cases hspan
        exact ⟨token, rest, htokens, rfl⟩
      · cases h
    · split at h
      · cases h
        exact ⟨Cursor.flawed_of_width htokens (trimEnd_length_le token.text) rfl, by simp [Flaw.anchor?]⟩
      · obtain ⟨hflawed, hanchor⟩ := flawed_of_readAfter (formed.passes hpasses) h
        refine ⟨hflawed.passes hpasses, ?_⟩
        intro span hspan
        exact ⟨token, rest, htokens, hanchor span hspan⟩
    · cases h
      exact ⟨Cursor.flawed_of_next htokens rfl, by simp [Flaw.anchor?]⟩

end Statement

namespace Progress

/-- A fault that comes before a flaw is reported at its anchor. -/
theorem flawed_faultOf (p : Progress) (scope : Scope) {c : Cursor} {flaw : Flaw}
    (h : flaw.LiesBehind c) : c.Flawed (p.faultOf scope flaw) := by
  obtain ⟨hflawed, hanchor⟩ := h
  cases flaw with
  | plain fault => exact hflawed
  | inPostings first fault =>
      obtain ⟨t, rest, htokens, hfirst⟩ := hanchor first rfl
      unfold faultOf awaited
      cases p.awaiting with
      | none => exact Cursor.flawed_of_next htokens hfirst
      | some waiting => exact hflawed
  | inOpening keyword fault =>
      obtain ⟨t, rest, htokens, hkeyword⟩ := hanchor keyword rfl
      unfold faultOf mayOpen
      by_cases hscope : scope = .journal
      · simpa [hscope] using Cursor.flawed_of_next htokens hkeyword
      · cases hopened : p.books.chart.isOpened with
        | true => simpa [hscope] using Cursor.flawed_of_next htokens hkeyword
        | false => simpa [hscope, Flaw.fault] using hflawed

end Progress

/-! ## Places in the text -/

/-- A fault is located in a text: it begins with the first character of a lexeme
    that means something, or where reading ends if that comes too soon, and it ends
    within the text. -/
structure Fault.LocatedIn (text : List Char) (fault : Fault) : Prop where
  start : (∃ before l behind, scan text = before ++ l :: behind ∧ ¬ l.isTrivia ∧
      fault.span.start = .behind (texts before)) ∨
    fault.cause = .unexpectedEnd ∧ fault.span.start = Token.finish text
  ordered : fault.span.start ≤ fault.span.stop
  stop : ∃ before behind, text = before ++ behind ∧ fault.span.stop = .behind before

namespace Fault

theorem locatedIn_of_shows {text : List Char} {fault : Fault} {l : Lexeme} {lexemes : List Lexeme}
    (h : fault.span.Shows text (l :: lexemes)) : fault.LocatedIn text := by
  obtain ⟨hordered, before, slice, behind, hscan, hstart, hstop, hhead, -, -, hmeans⟩ := h
  have hwhole := texts_scan text
  rw [hscan, texts_append] at hwhole
  refine ⟨.inl ?_, hordered, texts (before ++ slice), texts behind, hwhole.symm, hstop⟩
  obtain ⟨more, rfl⟩ := List.head?_eq_some_iff.1 hhead
  have hl : l ∈ meaning (l :: more) := hmeans ▸ List.mem_cons_self
  exact ⟨before, l, more ++ behind, by simp [hscan], not_isTrivia_of_mem_meaning hl, hstart⟩

theorem advance_behind {text : List Char} {before behind : List Lexeme} {l : Lexeme} {width : Nat}
    (hscan : scan text = before ++ l :: behind) (hl : ¬ l.isTrivia) (hwidth : width ≤ l.text.length) :
    (Position.behind (texts before)).advance width =
      .behind (texts before ++ l.text.take width) := by
  have hplain := (lined_scan text).breaks l (by simp [hscan])
  rw [Breaks, if_neg (kind_of_meaning hl).1] at hplain
  rw [Position.behind_append_plain fun hmem => hplain (List.mem_of_mem_take hmem), List.length_take,
    Nat.min_eq_left hwidth]

theorem locatedIn_of_flawed {file : String} {text : List Char} {fault : Fault}
    (h : (Cursor.ofText file text).Flawed fault) : fault.LocatedIn text := by
  have hwhole := texts_scan text
  cases h with
  | @token passed t rest width htokens hwidth hspan =>
      obtain ⟨before, behind, hscan, hmeans, -, hstart, -⟩ := Token.exists_cut_of_place htokens
      rw [foldl_past_before hscan hmeans] at hstart
      have hstop := advance_behind hscan hmeans hwidth
      rw [hstart, hstop] at hspan
      rw [hscan, texts_append, texts_cons, ← List.take_append_drop width t.text] at hwhole
      constructor
      · left
        exact ⟨before, t.toLexeme, behind, hscan, hmeans, by rw [hspan]⟩
      · rw [hspan]
        exact Position.behind_le_append _ _
      · refine ⟨texts before ++ t.text.take width, t.text.drop width ++ texts behind, ?_, by rw [hspan]⟩
        simpa only [List.append_assoc] using hwhole.symm
  | atEnd hcause hspan =>
      have hfinish : Token.finish text = .behind (texts (settled (scan text))) :=
        foldl_past (lined_scan text)
      obtain ⟨rest, hrest⟩ := settled_begins (scan text)
      have hcut := congrArg texts hrest
      rw [texts_append, hwhole] at hcut
      constructor
      · right
        exact ⟨hcause, by rw [hspan]; rfl⟩
      · rw [hspan]
        exact Position.le_refl _
      · exact ⟨_, texts rest, hcut.symm, by rw [hspan]; exact hfinish⟩

end Fault

end DoubleEntry
