import DoubleEntry.Proofs.Checking
import DoubleEntry.Proofs.Sources

/-! # Where a ledger is at fault

Whatever is wrong with a set of books is reported in a file that has been read,
at a token of it or where it ends too soon. Only a root that cannot be read has
no such place and is reported at its beginning.
-/

namespace DoubleEntry

open Lexeme

section Draft

variable {files : Files} {root : String} {events : List Event}

theorem First.exists_mem {α : Type} {P Q : α → Prop} {l : List α} (h : First P Q l) :
    ∃ x ∈ l, Q x := by
  obtain ⟨before, x, behind, rfl, -, hx⟩ := h
  exact ⟨x, by simp, hx⟩

theorem Entry.ShownIn.leg {file : String} {text : List Char} {entry : Entry} {leg : Leg}
    (h : entry.ShownIn file text) (hleg : leg ∈ entry.legs) :
    leg.span.file = file ∧ ∃ l lexemes, leg.span.Shows text (l :: lexemes) := by
  obtain ⟨before, day, between, block, rest, h⟩ := h
  have written {p : Pair} (hp : p ∈ block) (hsame : leg = p.leg file) :
      leg.span.file = file ∧ ∃ l lexemes, leg.span.Shows text (l :: lexemes) := by
    subst hsame
    exact ⟨rfl, _, _, h.pairs p hp⟩
  have hlegs := h.legs
  generalize entry.legs = legs at hleg hlegs
  cases hlegs with
  | written =>
      obtain ⟨p, hp, hsame⟩ := List.mem_map.1 hleg
      exact written hp hsame.symm
  | balanced hp hadded hamount =>
      rcases List.mem_cons.1 hleg with hsame | hleg
      · exact written hp hsame
      · obtain rfl := List.mem_singleton.1 hleg
        obtain ⟨keyword, account, -, -, -, hfile, hshows⟩ := hadded
        exact ⟨hfile, _, _, hshows⟩

theorem Chart.ShownIn.shows {file : String} {text : List Char} {chart : Chart} {span : Span}
    (h : chart.ShownIn file text span) :
    span.file = file ∧ ∃ l lexemes, span.Shows text (l :: lexemes) := by
  obtain ⟨keyword, pairs, -, hfile, hshows, -⟩ := h
  exact ⟨hfile, _, _, hshows⟩

theorem Account.ShownIn.shows {file : String} {text : List Char} {a : Account}
    (h : a.ShownIn file text) :
    a.span.file = file ∧ ∃ l lexemes, a.span.Shows text (l :: lexemes) := by
  obtain ⟨p, -, hshows⟩ := id h
  exact ⟨h.file_eq, _, _, hshows⟩

theorem Entry.ShownIn.shows {file : String} {text : List Char} {entry : Entry}
    (h : entry.ShownIn file text) :
    ∀ span ∈ entry.span :: entry.legs.map (·.span),
      span.file = file ∧ ∃ l lexemes, span.Shows text (l :: lexemes) := by
  obtain ⟨before, day, between, block, rest, hblock⟩ := id h
  refine List.forall_mem_cons.2 ⟨⟨hblock.file_eq, _, _, hblock.shows⟩, ?_⟩
  exact List.forall_mem_map.2 fun leg hleg => h.leg hleg

theorem Draft.reported_of_check {d : Draft} {fault : Fault} (unposted : d.chart.Unposted)
    (shown : Books.Shown (Source files root events) ⟨d.chart, d.pending⟩)
    (h : d.check = .error fault) : fault.Reported files root events := by
  have hviolation := (complains_check unposted).1 ⟨fault, h, rfl⟩
  have hplace {place : Span} {kind : FaultKind} {message : String} (hkind : kind ≠ .io)
      (hsame : fault.complaint = ⟨kind, message, place⟩)
      (hshows : ∃ file text, Source files root events file text ∧ place.file = file ∧
        ∃ l lexemes, place.Shows text (l :: lexemes)) : fault.Reported files root events := by
    obtain ⟨file, text, source, hfile, l, lexemes, hshows⟩ := hshows
    have hspan : fault.span = place := congrArg Complaint.place hsame
    subst hspan
    apply Fault.reported_of_shows source hfile hshows
    rwa [show fault.cause.kind = kind from congrArg Complaint.kind hsame]
  cases hviolation with
  | opening off hsame =>
      cases hspan : d.chart.span with
      | none =>
          have hnone : d.chart.accounts = [] := shown.unopened hspan
          simp [hnone, Account.total] at off
      | some span =>
          obtain ⟨file, text, source, hchart⟩ := shown.chart span hspan
          rw [hspan] at hsame
          exact hplace FaultKind.noConfusion hsame ⟨file, text, source, hchart.shows⟩
  | entry level hfirst =>
      obtain ⟨entry, hentry, hviolation⟩ := hfirst.exists_mem
      obtain ⟨file, text, source, hshown⟩ := shown.pending entry hentry
      cases hviolation with
      | unknown hunknown =>
          obtain ⟨leg, hleg, -, hsame⟩ := hunknown.exists_mem
          exact hplace FaultKind.noConfusion hsame ⟨file, text, source, hshown.leg hleg⟩
      | unbalanced known off hsame =>
          exact hplace FaultKind.noConfusion hsame
            ⟨file, text, source, hshown.shows _ List.mem_cons_self⟩
  | closing level sound hfirst =>
      obtain ⟨a, ha, -, hsame⟩ := hfirst.exists_mem
      obtain ⟨file, text, source, haccount⟩ := shown.account ha
      exact hplace FaultKind.noConfusion hsame ⟨file, text, source, haccount.shows⟩

end Draft

namespace Ledger

theorem ofDraft_ensures {files : Files} {root : String} {events : List Event} {d : Draft}
    (unposted : d.chart.Unposted)
    (shown : Books.Shown (Source files root events) ⟨d.chart, d.pending⟩) :
    (ofDraft d).Ensures events (fun _ => True) (Fault.Reported files root events) := by
  apply Traced.Ensures.bind
  · apply Traced.Ensures.ofExcept (Q := fun _ => True)
    · intro _ _
      trivial
    · intro fault hfault
      exact Draft.reported_of_check unposted shown hfault
  · intro ledger _ _
    apply Traced.Ensures.bind (Q := fun _ => True) (.announce fun _ => trivial)
    intro _ _ _
    exact .pure trivial

/-- A fault in a set of books is reported at a token of a file that has been read, or
    where such a file ends too soon. A file that cannot be read is reported at the
    directive that asks for it, and the root at its beginning. -/
theorem read_located {files : Files} {root : String} {fault : Fault}
    (hnesting : 0 < files.nesting) (h : (read files root).result = .error fault) :
    fault.Reported files root (read files root).events := by
  have hensures : (read files root).Ensures (read files root).events (fun _ => True)
      (Fault.Reported files root (read files root).events) := by
    apply Traced.Ensures.bind (Draft.read_ensures hnesting)
    intro d hd hshown
    exact ofDraft_ensures (Draft.read_unposted hd) hshown
  exact (hensures (List.Subset.refl _)).2 fault h

/-- Books that ask for a file of which there is none. -/
def lostFiles : Files := .inMemory [
  ("main", "; all books\n2020-03-01 2 ASSETS/Cash\n  include \"shop\" ; and more\n"),
  ("shop", "\n  journal  ; of the stock\n \"stock\" 3")]

theorem read_located_lostFiles :
    0 < lostFiles.nesting ∧
      (read lostFiles "main").result =
        .error ⟨.unreadable "stock" (.notFound "stock"), "shop", ⟨2, 3⟩, ⟨3, 9⟩⟩ ∧
      Fault.Reported lostFiles "main" (read lostFiles "main").events
        ⟨.unreadable "stock" (.notFound "stock"), "shop", ⟨2, 3⟩, ⟨3, 9⟩⟩ := by
  have hnesting : 0 < lostFiles.nesting := by decide
  have hread : (read lostFiles "main").result =
      .error ⟨.unreadable "stock" (.notFound "stock"), "shop", ⟨2, 3⟩, ⟨3, 9⟩⟩ := by
    decide +kernel
  exact ⟨hnesting, hread, read_located hnesting hread⟩

end Ledger

end DoubleEntry
