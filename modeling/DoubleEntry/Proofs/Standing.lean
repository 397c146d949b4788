import DoubleEntry.Proofs.Places

/-! # Where a cursor stands

All that a cursor knows follows from how many lexemes it has passed, of those
that mean something. Whatever it is asked for, it stands before the next of them
and knows the true places of that one's first character and of the end of the one
before. A request moves it by one lexeme or is refused there.
-/

namespace DoubleEntry

open Lexeme

/-- The lexeme number `k` among those that mean something, with all that comes
    before it. -/
def Lexeme.Numbered (text : List Char) (k : Nat) (before : List Lexeme) (l : Lexeme) : Prop :=
  ∃ behind, scan text = before ++ l :: behind ∧ ¬ l.isTrivia ∧ (meaning before).length = k

namespace Cursor

/-- The cursor that has passed `k` tokens of a text. -/
def standing (file : String) (text : List Char) (k : Nat) : Cursor :=
  ⟨file, (Token.ofText text).drop k, Token.lastStop .first ((Token.ofText text).take k),
    Token.finish text⟩

/-- What a cursor knows that stands before lexeme number `k`. -/
structure Stands (text : List Char) (k : Nat) (c : Cursor) : Prop where
  le : k ≤ (meaningful text).length
  lookahead : c.lookahead = (meaningful text)[k]?.map (·.kind)
  atEnd : c.atEnd ↔ (meaningful text)[k]? = none
  location : ∀ l ∈ (meaningful text)[k]?, ∃ before, Numbered text k before l ∧
    c.location = .behind (texts before)
  /-- At the end all of the text has been read, save for a comment that it ends in. -/
  location_atEnd : (meaningful text)[k]? = none →
    ((∀ l ∈ (scan text).getLast?, l.kind ≠ .comment) → c.location = .behind text) ∧
    ∀ before l, scan text = before ++ [l] → l.kind = .comment →
      c.location = .behind (texts before)
  lastEnd_zero : k = 0 → c.lastEnd = ⟨1, 1⟩
  lastEnd_succ : ∀ j, k = j + 1 → ∀ l ∈ (meaningful text)[j]?, ∃ before, Numbered text j before l ∧
    c.lastEnd = .behind (texts (before ++ [l]))

namespace Request

/-- Whether what comes next lets a request be granted. -/
def grants (upcoming : Option Lexeme) : Request → Bool
  | .peek | .next => upcoming.any (·.kind ≠ .error)
  | .take kind => upcoming.any fun l => l.kind ≠ .error && l.kind = kind
  | .consume => true

/-- Whether a request passes what comes next. -/
def passes (upcoming : Option Lexeme) : Request → Bool
  | .peek => false
  | .consume => upcoming.isSome
  | request => request.grants upcoming

/-- How many lexemes have been passed after a request, if it was `k` before. -/
def count (text : List Char) (k : Nat) (request : Request) : Nat :=
  if request.passes (meaningful text)[k]? then k + 1 else k

/-- How many lexemes have been passed after some requests. -/
def countAll (text : List Char) (requests : List Request) : Nat := requests.foldl (count text) 0

end Request

/-- What a request does where `upcoming` is next. -/
structure Serves (upcoming : Option Lexeme) (c : Cursor) (request : Request) : Prop where
  moves : (c.serve request).2 = if request.passes upcoming then c.consume else c
  consumes : request = .consume → (c.serve request).1 = .ok none
  grants : request ≠ .consume → request.grants upcoming →
    ∃ token : Token, (c.serve request).1 = .ok (some token) ∧ upcoming = some token.toLexeme
  refuses : ¬ request.grants upcoming → (c.serve request).2 = c ∧
    ∃ fault : Fault, (c.serve request).1 = .error fault ∧
      fault.span.file = c.file ∧ fault.span.start = c.location

/-! ## One request -/

/-- The lexeme that a cursor stands before. -/
def upcoming (c : Cursor) : Option Lexeme := c.tokens.head?.map (·.toLexeme)

theorem peek_cases (c : Cursor) :
    (∃ token, c.upcoming = some token.toLexeme ∧ token.kind ≠ .error ∧ c.peek = .ok token ∧
      c.location = token.start) ∨
    (∀ l ∈ c.upcoming, l.kind = .error) ∧ ∃ fault, c.peek = .error fault ∧
      fault.span.file = c.file ∧ fault.span.start = c.location := by
  unfold peek location upcoming
  cases c.tokens with
  | nil =>
      right
      simp
  | cons token rest =>
      by_cases hkind : token.kind = .error
      · right
        simp [hkind, Token.span]
      · left
        exact ⟨token, by simp [hkind]⟩

theorem consume_of_atEnd {c : Cursor} (h : c.upcoming = none) : c.consume = c := by
  unfold upcoming at h
  unfold consume
  cases htokens : c.tokens with
  | nil => rfl
  | cons token rest => simp [htokens] at h

theorem Request.not_grants {upcoming : Option Lexeme} {request : Request}
    (h : ∀ l ∈ upcoming, l.kind = .error) (hmoves : request ≠ .consume) :
    request.grants upcoming = false ∧ request.passes upcoming = false := by
  cases upcoming with
  | none => cases request <;> simp_all [grants, passes]
  | some l => cases request <;> simp_all [grants, passes]

theorem Request.passes_none (request : Request) : request.passes none = false := by
  cases request <;> rfl

/-- One request: it passes what comes next, or it is told there why it may not. -/
theorem serves (c : Cursor) (request : Request) : Serves c.upcoming c request := by
  by_cases hconsume : request = .consume
  · subst hconsume
    refine ⟨?_, fun _ => rfl, by simp, by simp [Request.grants]⟩
    cases hnext : c.upcoming with
    | none => exact consume_of_atEnd hnext
    | some l => rfl
  obtain ⟨token, hnext, hkind, hpeek, hstart⟩ | ⟨hnext, fault, hpeek, hspan⟩ := peek_cases c
  · have hplace : (token.span c.file).file = c.file ∧ (token.span c.file).start = c.location := by
      simp [Token.span, hstart]
    cases request with
    | consume => exact absurd rfl hconsume
    | peek => constructor <;> simp [serve, hpeek, hnext, hkind, Request.passes, Request.grants]
    | next => constructor <;> simp [serve, next, hpeek, hnext, hkind, Request.passes, Request.grants]
    | take kind =>
        by_cases hwanted : token.kind = kind
        · subst hwanted
          constructor <;> simp [serve, take, hpeek, hnext, hkind, Request.passes, Request.grants]
        · constructor <;>
            simp [serve, take, hpeek, hnext, hplace, hwanted, Request.passes, Request.grants]
  · obtain ⟨hgrants, hpasses⟩ := Request.not_grants hnext hconsume
    have hrefused : c.serve request = (.error fault, c) := by
      cases request with
      | consume => exact absurd rfl hconsume
      | peek => simp [serve, hpeek]
      | next => simp [serve, next, hpeek]
      | take kind => simp [serve, take, hpeek]
    constructor <;> simp [hrefused, hgrants, hpasses, hconsume, hspan]

/-! ## All requests -/

section Standing

variable (file : String) (text : List Char)

theorem upcoming_standing (k : Nat) : (standing file text k).upcoming = (meaningful text)[k]? := by
  rw [← Token.map_toLexeme_ofText, List.getElem?_map]
  simp [upcoming, standing]

theorem consume_standing {k : Nat} {l : Lexeme} (h : (meaningful text)[k]? = some l) :
    (standing file text k).consume = standing file text (k + 1) := by
  rw [← Token.map_toLexeme_ofText, List.getElem?_map, Option.map_eq_some_iff] at h
  obtain ⟨token, htoken, -⟩ := h
  obtain ⟨hk, rfl⟩ := List.getElem?_eq_some_iff.1 htoken
  unfold standing consume
  rw [List.drop_eq_getElem_cons hk, List.take_succ_eq_append_getElem hk, Token.lastStop_append]
  rfl

theorem serve_standing (k : Nat) (request : Request) :
    ((standing file text k).serve request).2 = standing file text (request.count text k) := by
  have hmoves := (serves (standing file text k) request).moves
  rw [upcoming_standing] at hmoves
  rw [hmoves, Request.count]
  split
  · next hpasses =>
    cases hnext : (meaningful text)[k]? with
    | none => simp [hnext, Request.passes_none] at hpasses
    | some l => exact consume_standing file text hnext
  · rfl

theorem after_standing (k : Nat) (requests : List Request) :
    (standing file text k).after requests =
      standing file text (requests.foldl (Request.count text) k) := by
  induction requests generalizing k with
  | nil => rfl
  | cons request requests ih =>
      rw [after, List.foldl_cons, serve_standing]
      exact ih _

theorem Request.count_le {k : Nat} (request : Request) (h : k ≤ (meaningful text).length) :
    request.count text k ≤ (meaningful text).length := by
  unfold count
  split
  · next hpasses =>
    by_contra hk
    have hnone : (meaningful text)[k]? = none := List.getElem?_eq_none (by omega)
    simp [hnone, passes_none] at hpasses
  · exact h

theorem Request.countAll_le (requests : List Request) :
    countAll text requests ≤ (meaningful text).length := by
  unfold countAll
  induction requests using List.reverseRecOn with
  | nil => simp
  | append_singleton requests request ih =>
      rw [List.foldl_append]
      exact count_le text request ih

/-- The token number `k` stands where its lexeme does. -/
theorem exists_numbered {k : Nat} {l : Lexeme} (h : (meaningful text)[k]? = some l) :
    ∃ token rest before, (Token.ofText text).drop k = token :: rest ∧ token.toLexeme = l ∧
      Numbered text k before l ∧ token.start = .behind (texts before) ∧
      token.stop = .behind (texts (before ++ [l])) := by
  rw [← Token.map_toLexeme_ofText, List.getElem?_map, Option.map_eq_some_iff] at h
  obtain ⟨token, htoken, rfl⟩ := h
  obtain ⟨hk, rfl⟩ := List.getElem?_eq_some_iff.1 htoken
  have hsplit : Token.place .first (scan text) = (Token.ofText text).take k ++
      (Token.ofText text)[k] :: (Token.ofText text).drop (k + 1) := by
    rw [← List.drop_eq_getElem_cons hk, List.take_append_drop]
    rfl
  obtain ⟨before, behind, hscan, hmeans, hcount, hstart, -⟩ := Token.exists_cut_of_place hsplit
  refine ⟨_, _, before, List.drop_eq_getElem_cons hk, rfl, ⟨behind, hscan, hmeans, ?_⟩, ?_, ?_⟩
  · rw [hcount, List.length_map, List.length_take]
    omega
  · rw [hstart, foldl_past_before hscan hmeans]
  · rw [← foldl_past_behind hscan hmeans, List.foldl_append, ← hstart]
    exact (past_of_meaning _ hmeans).symm

theorem location_of_atEnd {k : Nat} (h : (meaningful text)[k]? = none) :
    (standing file text k).location = .behind (texts (settled (scan text))) := by
  rw [← upcoming_standing file, upcoming, Option.map_eq_none_iff, List.head?_eq_none_iff] at h
  rw [location, h]
  exact foldl_past (lined_scan text)

theorem stands {k : Nat} (h : k ≤ (meaningful text).length) :
    Stands text k (standing file text k) := by
  have hnext := upcoming_standing file text k
  constructor
  case le => exact h
  case lookahead =>
    rw [← hnext, lookahead, upcoming, Option.map_map]
    rfl
  case atEnd => simp [← hnext, atEnd, upcoming]
  case location =>
    intro l hl
    obtain ⟨token, rest, before, htokens, -, hnumbered, hstart, -⟩ := exists_numbered text hl
    refine ⟨before, hnumbered, ?_⟩
    simp [standing, location, htokens, hstart]
  case location_atEnd =>
    intro hnone
    have hlocation := location_of_atEnd file text hnone
    constructor
    · intro hlast
      rw [hlocation, settled_of_getLast? hlast, texts_scan]
    · intro before l hscan hcomment
      rw [hlocation, hscan, settled_comment hcomment]
  case lastEnd_zero =>
    intro hk
    subst hk
    rfl
  case lastEnd_succ =>
    intro j hj l hl
    subst hj
    obtain ⟨token, rest, before, htokens, -, hnumbered, -, hstop⟩ := exists_numbered text hl
    refine ⟨before, hnumbered, ?_⟩
    rw [← consume_standing file text hl]
    simp [standing, consume, htokens, hstop]

/-- A cursor is determined by how many lexemes it has passed, and stands at the
    true place before the next one; each request then moves it by one or is
    refused. -/
theorem after_stands (requests : List Request) :
    (ofText file text).after requests = standing file text (Request.countAll text requests) ∧
    Stands text (Request.countAll text requests)
      (standing file text (Request.countAll text requests)) ∧
    ∀ request, Serves (meaningful text)[Request.countAll text requests]?
      (standing file text (Request.countAll text requests)) request := by
  refine ⟨after_standing file text 0 requests, stands file text (Request.countAll_le text requests),
    ?_⟩
  intro request
  rw [← upcoming_standing file]
  exact serves _ request

end Standing

end Cursor

end DoubleEntry
