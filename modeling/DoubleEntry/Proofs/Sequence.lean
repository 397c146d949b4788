import DoubleEntry.Proofs.Outline
import DoubleEntry.Proofs.Posting
import DoubleEntry.Proofs.Script

/-! # The order of postings

What a file holds can be told from its text: the outline of a file follows its
statements and those of the files it asks for, whether or not they can be read to
the end. If they can, all arrivals of the outline pass. If reading ends at
postings that are not in sequence, these are the first that do not pass. What a
journal puts in between can therefore hide that the postings of a stream are not
in order, and it can end the reading of a stream that is.
-/

namespace DoubleEntry

namespace Statement

/-- The date that waits for its postings behind a statement. -/
def awaiting (before : Option (Date × Position)) : Statement → Option (Date × Position)
  | .date text span => (Date.ofText? text).map (·, span.start)
  | .postings .. => none
  | _ => before

/-- The account that balances postings behind a statement. -/
def contra (before : Option (String × Span)) : Statement → Option (String × Span)
  | .useAccount account span => some (account, span)
  | _ => before

/-- What a statement adds to the outline of its stream. `other` gives the outlines
    of the files it may ask for. -/
def outline (other : String → Outline) (file : String) (awaiting : Option (Date × Position))
    (contra : Option (String × Span)) : Statement → Outline
  | .postings first legs stop =>
    match awaiting with
    | none => .done
    | some (day, start) =>
      .postings day (Progress.entries contra day legs ⟨first.file, start, stop⟩) .done
  | .inclusion path _ => other (Path.resolve file path)
  | .journal path _ => .journal (other (Path.resolve file path)) .done
  | _ => .done

end Statement

namespace Outline

def ofStatements (other : String → Outline) (file : String)
    (awaiting : Option (Date × Position)) (contra : Option (String × Span)) :
    List Statement → Outline
  | [] => done
  | s :: rest =>
    (s.outline other file awaiting contra).append
      (ofStatements other file (s.awaiting awaiting) (s.contra contra) rest)

/-- The outline of a file and all files it asks for, at most `depth` of them open
    at once. -/
def ofFile (files : Files) : Nat → String → Outline
  | 0, _ => done
  | depth + 1, path =>
    match files.read path with
    | .error _ => done
    | .ok text =>
      ofStatements (ofFile files depth) path none none (Script.ofText path text).statements

def ofRoot (files : Files) (root : String) : Outline := ofFile files files.nesting root

end Outline

/-! ## Putting entries behind others -/

namespace Entry

theorem append_of_le {pending : List Entry} {entry : Entry}
    (h : ∀ last ∈ lastDate pending, last ≤ entry.date) :
    append pending entry = .ok (pending ++ [entry]) := by
  unfold append
  cases hlast : pending.getLast? with
  | none => rw [List.getLast?_eq_none_iff.1 hlast]; rfl
  | some last => exact if_pos (h _ (by rw [lastDate, hlast]; rfl))

theorem append_of_not_le {pending : List Entry} {entry : Entry} {last : Date}
    (hlast : lastDate pending = some last) (h : ¬ last ≤ entry.date) :
    append pending entry = .error ⟨.outOfSequence last entry.date, entry.span⟩ := by
  obtain ⟨final, hfinal, rfl⟩ := Option.map_eq_some_iff.1 hlast
  unfold append
  rw [hfinal]
  exact if_neg h

/-- Entries of one day follow each other, so the first of them decides. -/
theorem appendAll_of_le {pending new : List Entry} {date : Date}
    (dated : ∀ entry ∈ new, entry.date = date) (h : ∀ last ∈ lastDate pending, last ≤ date) :
    new.foldlM append pending = .ok (pending ++ new) := by
  induction new generalizing pending with
  | nil => rw [List.append_nil]; rfl
  | cons entry rest ih =>
      obtain ⟨rfl, hrest⟩ := List.forall_mem_cons.1 dated
      have hlast : ∀ last ∈ lastDate (pending ++ [entry]), last ≤ entry.date := by
        intro last hmem
        rw [lastDate_append] at hmem
        cases hmem
        exact Date.le_refl _
      rw [foldlM_cons_eq_ok]
      exact ⟨_, append_of_le h, by rw [ih hrest hlast, List.append_assoc]; rfl⟩

theorem appendAll_of_not_le {pending new : List Entry} {date last : Date} (nonempty : new ≠ [])
    (dated : ∀ entry ∈ new, entry.date = date) (hlast : lastDate pending = some last)
    (h : ¬ last ≤ date) :
    ∃ span, new.foldlM append pending = .error ⟨.outOfSequence last date, span⟩ := by
  cases new with
  | nil => exact absurd rfl nonempty
  | cons entry rest =>
      obtain ⟨rfl, -⟩ := List.forall_mem_cons.1 dated
      exact ⟨entry.span, by rw [List.foldlM_cons, append_of_not_le hlast h]; rfl⟩

theorem appendAll_eq_ok {pending new after : List Entry} {date : Date} (nonempty : new ≠ [])
    (dated : ∀ entry ∈ new, entry.date = date) :
    new.foldlM append pending = .ok after ↔
      (∀ last ∈ lastDate pending, last ≤ date) ∧ after = pending ++ new := by
  constructor
  · intro h
    have hle : ∀ last ∈ lastDate pending, last ≤ date := by
      intro last hlast
      by_contra hnot
      obtain ⟨span, hspan⟩ := appendAll_of_not_le nonempty dated hlast hnot
      cases hspan.symm.trans h
    rw [appendAll_of_le dated hle] at h
    cases h
    exact ⟨hle, rfl⟩
  · rintro ⟨hle, rfl⟩
    exact appendAll_of_le dated hle

end Entry

namespace Progress

theorem entries_ne_nil {contra : Option (String × Span)} {date : Date} {legs : List Leg}
    {span : Span} (h : legs ≠ []) : entries contra date legs span ≠ [] := by
  cases contra with
  | none => exact List.cons_ne_nil _ _
  | some account => exact fun hmap => h (List.map_eq_nil_iff.1 hmap)

theorem date_of_mem_entries {contra : Option (String × Span)} {date : Date} {legs : List Leg}
    {span : Span} : ∀ entry ∈ entries contra date legs span, entry.date = date := by
  intro entry h
  cases contra with
  | none =>
      obtain rfl := List.mem_singleton.1 h
      rfl
  | some account =>
      obtain ⟨leg, -, rfl⟩ := List.mem_map.1 h
      rfl

end Progress

/-! ## What an outline says about reading -/

/-- These are the postings that a fault refuses. -/
def Arrival.Refused (fault : Fault) (a : Arrival) : Prop :=
  ∃ last, a.lead.ahead = some last ∧ ¬ last ≤ a.date ∧
    fault.cause = .outOfSequence last a.date

theorem Arrival.Refused.not_passes {fault : Fault} {a : Arrival} (h : a.Refused fault) :
    ¬ a.Passes := by
  obtain ⟨last, hlast, hlater, -⟩ := h
  exact fun hpasses => hlater (hpasses last hlast)

namespace Outline

/-- An outline that begins at the lead `l` explains how some reading went on from
    the entries `pending`. `view` gives the entries of a result. -/
structure Explains {α : Type} (o : Outline) (l : Lead) (pending : List Entry)
    (view : α → List Entry) (result : Except Fault α) : Prop where
  entered : ∀ {after}, result = .ok after → view after = pending ++ o.entries
  ahead : ∀ {after}, result = .ok after → (o.lead l).ahead = Entry.lastDate (view after)
  passes : ∀ {after}, result = .ok after → ∀ a ∈ o.arrivals l, a.Passes
  refuses : ∀ {fault}, result = .error fault → fault.cause.kind = .sequence →
    First Arrival.Passes (Arrival.Refused fault) (o.arrivals l)

namespace Explains

variable {α β : Type} {o o' : Outline} {l : Lead} {pending : List Entry} {view : α → List Entry}
  {view' : β → List Entry}

theorem of_ok {a : α} (entered : view a = pending ++ o.entries)
    (ahead : (o.lead l).ahead = Entry.lastDate (view a))
    (passes : ∀ arrival ∈ o.arrivals l, arrival.Passes) :
    o.Explains l pending view (.ok a) where
  entered := by
    intro after h
    cases h
    exact entered
  ahead := by
    intro after h
    cases h
    exact ahead
  passes := by
    intro after h
    exact passes
  refuses := by
    intro fault h
    cases h

theorem of_error {fault : Fault} (refuses : fault.cause.kind = .sequence →
    First Arrival.Passes (Arrival.Refused fault) (o.arrivals l)) :
    o.Explains l pending view (.error fault) where
  entered := by
    intro after h
    cases h
  ahead := by
    intro after h
    cases h
  passes := by
    intro after h
    cases h
  refuses := by
    intro other h
    cases h
    exact refuses

theorem ok {a : α} (hview : view a = pending) (h : l.ahead = Entry.lastDate pending) :
    done.Explains l pending view (.ok a) := by
  apply of_ok
  · rw [hview, entries, List.append_nil]
  · rw [hview]
    exact h
  · exact List.forall_mem_nil _

theorem error {fault : Fault} (h : fault.cause.kind ≠ .sequence) :
    o.Explains l pending view (.error fault) := by
  apply of_error
  intro hkind
  exact absurd hkind h

theorem bind {x : Except Fault α} {f : α → Except Fault β} (hx : o.Explains l pending view x)
    (hf : ∀ a, x = .ok a → o'.Explains (o.lead l) (view a) view' (f a)) :
    (o.append o').Explains l pending view' (x.bind f) where
  entered := by
    intro after h
    obtain ⟨a, ha, h⟩ := bind_eq_ok.1 h
    rw [(hf a ha).entered h, hx.entered ha, entries_append, List.append_assoc]
  ahead := by
    intro after h
    obtain ⟨a, ha, h⟩ := bind_eq_ok.1 h
    rw [lead_append]
    exact (hf a ha).ahead h
  passes := by
    intro after h
    obtain ⟨a, ha, h⟩ := bind_eq_ok.1 h
    rw [arrivals_append]
    exact List.forall_mem_append.2 ⟨hx.passes ha, (hf a ha).passes h⟩
  refuses := by
    intro fault h hkind
    rw [arrivals_append, first_append]
    cases x with
    | error other =>
        cases h
        exact .inl (hx.refuses rfl hkind)
    | ok a => exact .inr ⟨hx.passes rfl, (hf a rfl).refuses h hkind⟩

theorem map {x : Except Fault α} {f : α → β} (hx : o.Explains l pending view x)
    (hf : ∀ a, view' (f a) = view a) : o.Explains l pending view' (x.map f) := by
  have hdone := hx.bind (f := fun a => .ok (f a)) fun a ha => ok (hf a) (hx.ahead ha)
  rw [append_done] at hdone
  exact hdone

theorem journal {x : Except Fault α} {f : α → β} (hx : o.Explains .start [] view x)
    (hf : ∀ a, view' (f a) = pending ++ view a) (h : l.ahead = Entry.lastDate pending) :
    (journal o done).Explains l pending view' (x.map f) where
  entered := by
    intro after hafter
    obtain ⟨a, ha, rfl⟩ := map_eq_ok.1 hafter
    rw [hf, hx.entered ha, entries, entries, List.append_nil, List.nil_append]
  ahead := by
    intro after hafter
    obtain ⟨a, ha, rfl⟩ := map_eq_ok.1 hafter
    rw [hf, hx.entered ha, List.nil_append, Entry.lastDate_append, ← h]
    exact l.ahead_merge _
  passes := by
    intro after hafter
    obtain ⟨a, ha, rfl⟩ := map_eq_ok.1 hafter
    rw [arrivals, arrivals, List.append_nil]
    exact hx.passes ha
  refuses := by
    intro fault hfault hkind
    rw [arrivals, arrivals, List.append_nil]
    cases x with
    | error other =>
        cases hfault
        exact hx.refuses rfl hkind
    | ok a => cases hfault

theorem postings {new : List Entry} {date : Date} (nonempty : new ≠ [])
    (dated : ∀ entry ∈ new, entry.date = date) (h : l.ahead = Entry.lastDate pending) :
    (postings date new done).Explains l pending id (new.foldlM Entry.append pending) := by
  by_cases hpass : ∀ last ∈ Entry.lastDate pending, last ≤ date
  · rw [Entry.appendAll_of_le dated hpass]
    apply of_ok
    · rw [entries, entries, List.append_nil]
      rfl
    · rw [id, Entry.lastDate_append, Entry.lastDate_eq_some nonempty dated]
      rfl
    · intro a ha
      obtain rfl := List.mem_singleton.1 ha
      rw [Arrival.Passes, h]
      exact hpass
  · simp only [not_forall] at hpass
    obtain ⟨last, hlast, hlater⟩ := hpass
    obtain ⟨span, hrun⟩ := Entry.appendAll_of_not_le nonempty dated hlast hlater
    rw [hrun]
    apply of_error
    intro hkind
    exact first_cons.2 (.inl ⟨last, h.trans hlast, hlater, rfl⟩)

end Explains

end Outline

/-! ## Reading along an outline -/

theorem Fault.Textual.kind_ne {fault : Fault} (h : fault.Textual) :
    fault.cause.kind ≠ .sequence := by
  rcases h with h | h <;> rw [h] <;> decide

namespace Progress

theorem textual_of_await {p : Progress} {text : List Char} {span : Span} {fault : Fault}
    (h : p.await text span = .error fault) : fault.Textual := by
  unfold await at h
  split at h
  · cases h
    exact .inr rfl
  · split at h
    · cases h
      exact .inr rfl
    · cases h

theorem textual_of_awaited {p : Progress} {first : Span} {fault : Fault}
    (h : p.awaited first = .error fault) : fault.Textual := by
  unfold awaited at h
  split at h
  · cases h
    exact .inr rfl
  · cases h

theorem textual_of_mayOpen {p : Progress} {scope : Scope} {keyword : Span} {fault : Fault}
    (h : p.mayOpen scope keyword = .error fault) : fault.Textual := by
  unfold mayOpen at h
  split at h
  · cases h
    exact .inr rfl
  · split at h
    · cases h
      exact .inr rfl
    · cases h

theorem textual_faultOf {p : Progress} {scope : Scope} {flaw : Flaw} (h : flaw.fault.Textual) :
    (p.faultOf scope flaw).Textual := by
  cases flaw with
  | plain fault => exact h
  | inPostings first fault =>
      cases hawaited : p.awaited first with
      | error earlier =>
          simp only [faultOf, hawaited]
          exact textual_of_awaited hawaited
      | ok waiting =>
          simp only [faultOf, hawaited]
          exact h
  | inOpening keyword fault =>
      cases hopen : p.mayOpen scope keyword with
      | error earlier =>
          simp only [faultOf, hopen]
          exact textual_of_mayOpen hopen
      | ok =>
          simp only [faultOf, hopen]
          exact h

theorem textual_of_finish {p : Progress} {file : String} {lastEnd : Position} {fault : Fault}
    (h : p.finish file lastEnd = .error fault) : fault.Textual := by
  unfold finish at h
  split at h
  · cases h
    exact .inr rfl
  · cases h

end Progress

theorem Chart.kind_of_openAccount {chart : Chart} {leg : Leg} {fault : Fault}
    (h : chart.openAccount leg = .error fault) :
    fault.Textual ∨ fault.cause.kind = .duplicate := by
  unfold openAccount at h
  split at h
  · cases h
    exact .inl (.inr rfl)
  · split at h
    · cases h
      exact .inr rfl
    · cases h

namespace Progress

theorem kind_of_openChart {p : Progress} {scope : Scope} {keyword : Span} {legs : List Leg}
    {stop : Position} {fault : Fault} (h : p.openChart scope keyword legs stop = .error fault) :
    fault.Textual ∨ fault.cause.kind = .duplicate := by
  unfold openChart at h
  cases hmay : p.mayOpen scope keyword with
  | error earlier =>
      rw [hmay] at h
      cases h
      exact .inl (textual_of_mayOpen hmay)
  | ok =>
      cases hopen : legs.foldlM Chart.openAccount p.books.chart with
      | error earlier =>
          rw [hmay, hopen] at h
          cases h
          obtain ⟨chart, leg, -, hleg⟩ := exists_of_foldlM_eq_error hopen
          exact Chart.kind_of_openAccount hleg
      | ok chart =>
          rw [hmay, hopen] at h
          cases h

theorem enter_explained {p : Progress} {l : Lead} {other : String → Outline} {file : String}
    {first : Span} {legs : List Leg} {stop : Position} (hlegs : legs ≠ [])
    (h : l.ahead = Entry.lastDate p.books.pending) :
    (Statement.outline other file p.awaiting p.contra (.postings first legs stop)).Explains l
      p.books.pending (·.books.pending) (p.enter first legs stop) := by
  cases hwait : p.awaiting with
  | none =>
      unfold enter awaited
      rw [hwait]
      exact .error FaultKind.noConfusion
  | some waiting =>
      rw [enter_eq_map hwait]
      exact (Outline.Explains.postings (entries_ne_nil hlegs) date_of_mem_entries h).map
        fun _ => rfl

end Progress

/-- Every file that is read is explained by its outline. -/
def ReadsAlong (other : String → Outline) (read : Visit → Books → Traced Books) : Prop :=
  ∀ visit l books, l.ahead = Entry.lastDate books.pending →
    (other visit.path).Explains l books.pending (·.pending) (read visit books).result

namespace Statement

section Step

variable {read : Visit → Books → Traced Books} {other : String → Outline}

/-- What a statement leaves behind for the next ones can be told from its text. -/
theorem run_leaves {file : String} {scope : Scope} {p q : Progress} {s : Statement}
    (h : (run read file scope p s).result = .ok q) :
    q.awaiting = s.awaiting p.awaiting ∧ q.contra = s.contra p.contra := by
  have hdoes : s.Does (fun _ _ _ => True) file scope p q := does_of_run (fun _ _ _ _ => trivial) h
  cases hdoes with
  | date h =>
      obtain ⟨-, date, hdate, rfl⟩ := Progress.await_eq_ok.1 h
      refine ⟨?_, rfl⟩
      rw [awaiting, hdate]
      rfl
  | postings h =>
      obtain ⟨date, start, -, pending, -, rfl⟩ := Progress.enter_eq_ok.1 h
      exact ⟨rfl, rfl⟩
  | openLedger h =>
      obtain ⟨-, chart, -, rfl⟩ := Progress.openChart_eq_ok.1 h
      exact ⟨rfl, rfl⟩
  | useAccount => exact ⟨rfl, rfl⟩
  | inclusion => exact ⟨rfl, rfl⟩
  | journal => exact ⟨rfl, rfl⟩

/-- One statement, if the files it asks for are explained. -/
theorem run_explained (reads : ReadsAlong other read) {file : String} {scope : Scope}
    {p : Progress} {l : Lead} {s : Statement} (hlegs : s.HasLegs)
    (h : l.ahead = Entry.lastDate p.books.pending) :
    (s.outline other file p.awaiting p.contra).Explains l p.books.pending (·.books.pending)
      (run read file scope p s).result := by
  cases s with
  | date text span =>
      rw [result_run_date]
      cases hwait : p.await text span with
      | error fault => exact .error (Progress.textual_of_await hwait).kind_ne
      | ok q =>
          obtain ⟨-, date, -, rfl⟩ := Progress.await_eq_ok.1 hwait
          exact .ok rfl h
  | postings first legs stop => exact Progress.enter_explained hlegs h
  | openLedger keyword legs stop =>
      rw [result_run_openLedger]
      cases hopen : p.openChart scope keyword legs stop with
      | error fault =>
          refine .error ?_
          rcases Progress.kind_of_openChart hopen with htextual | hkind
          · exact htextual.kind_ne
          · rw [hkind]
            exact FaultKind.noConfusion
      | ok q =>
          obtain ⟨-, chart, -, rfl⟩ := Progress.openChart_eq_ok.1 hopen
          exact .ok rfl h
  | useAccount account span => exact .ok rfl h
  | inclusion path span =>
      rw [result_run_inclusion]
      have hread := reads ⟨Path.resolve file path, span, scope⟩ l p.books h
      exact hread.map fun _ => rfl
  | journal path span =>
      rw [result_run_journal]
      have hread :=
        reads ⟨Path.resolve file path, span, .journal⟩ .start { p.books with pending := [] } rfl
      exact hread.journal (fun _ => rfl) h

theorem runAll_explained (reads : ReadsAlong other read) {file : String} {scope : Scope}
    {p : Progress} {l : Lead} {statements : List Statement}
    (hlegs : ∀ s ∈ statements, s.HasLegs) (h : l.ahead = Entry.lastDate p.books.pending) :
    (Outline.ofStatements other file p.awaiting p.contra statements).Explains l p.books.pending
      (·.books.pending)
      (statements.foldlM (fun p s => (run read file scope p s).result) p) := by
  induction statements generalizing p l with
  | nil => exact .ok rfl h
  | cons s rest ih =>
      obtain ⟨hs, hrest⟩ := List.forall_mem_cons.1 hlegs
      have hstep : Outline.Explains _ l _ _ (run read file scope p s).result :=
        run_explained reads hs h
      refine hstep.bind ?_
      intro q hq
      obtain ⟨hawaiting, hcontra⟩ := run_leaves hq
      rw [← hawaiting, ← hcontra]
      exact ih hrest (hstep.ahead hq)

end Step

end Statement

theorem Script.run_explained {read : Visit → Books → Traced Books} {other : String → Outline}
    (reads : ReadsAlong other read) {file text : String} {scope : Scope} {l : Lead} {books : Books}
    (h : l.ahead = Entry.lastDate books.pending) :
    (Outline.ofStatements other file none none (ofText file text).statements).Explains l
      books.pending (·.pending) ((ofText file text).run read file scope books).result := by
  have hall : Outline.Explains _ l _ _ ((ofText file text).statements.foldlM
      (fun p s => (Statement.run read file scope p s).result) (Progress.begin books)) :=
    Statement.runAll_explained reads (read_hasLegs _) h
  rw [Script.result_run, ← Outline.append_done (Outline.ofStatements ..)]
  refine hall.bind ?_
  intro p hp
  cases hending : (ofText file text).ending with
  | error flaw => exact .error (Progress.textual_faultOf (textual_of_read hending)).kind_ne
  | ok lastEnd =>
      dsimp only
      cases hfinish : p.finish file lastEnd with
      | error fault => exact .error (Progress.textual_of_finish hfinish).kind_ne
      | ok after =>
          obtain ⟨-, rfl⟩ := Progress.finish_eq_ok.1 hfinish
          exact .ok rfl (hall.ahead hp)

theorem Books.read_explained (files : Files) (depth : Nat) :
    ReadsAlong (Outline.ofFile files depth) (read files depth) := by
  induction depth with
  | zero =>
      intro visit l books h
      exact .error FaultKind.noConfusion
  | succ depth ih =>
      intro visit l books h
      rw [result_read_succ]
      unfold Outline.ofFile
      cases files.read visit.path with
      | error reason => exact .error FaultKind.noConfusion
      | ok text => exact Script.run_explained ih h

namespace Draft

theorem read_explained (files : Files) (root : String) :
    (Outline.ofRoot files root).Explains .start [] (·.pending)
      (Books.read files files.nesting ⟨root, Span.startOf root, .ledger⟩ .empty).result :=
  Books.read_explained files files.nesting ⟨root, Span.startOf root, .ledger⟩ .start .empty rfl

/-- Books that can be read have all their streams in order, except where a journal
    masks postings. Postings that are refused are the first that do not pass, and
    all streams are in order up to them if a journal blocks them and none has
    masked others. Where there is no journal neither can happen. -/
theorem read_sequence (files : Files) (root : String) :
    (∀ d, (read files root).result = .ok d →
      (∀ a ∈ (Outline.ofRoot files root).arrivals .start, a.Passes) ∧
      ((Outline.ofRoot files root).InOrder ↔
        ∀ a ∈ (Outline.ofRoot files root).arrivals .start, ¬ a.Masked)) ∧
    (∀ fault, (read files root).result = .error fault → fault.cause.kind = .sequence →
      ∃ before a after, (Outline.ofRoot files root).arrivals .start = before ++ a :: after ∧
        (∀ b ∈ before, b.Passes) ∧ a.Refused fault ∧
        (((Outline.ofRoot files root).upTo (before.length + 1)).InOrder ↔
          a.Blocked ∧ ∀ b ∈ before, ¬ b.Masked)) ∧
    ((Outline.ofRoot files root).journals = [] →
      ∀ a ∈ (Outline.ofRoot files root).arrivals .start, ¬ a.Masked ∧ ¬ a.Blocked) := by
  have hexplained := read_explained files root
  rw [result_read]
  refine ⟨?_, ?_, ?_⟩
  · intro d hd
    obtain ⟨books, hbooks, -⟩ := map_eq_ok.1 hd
    have hpasses := hexplained.passes hbooks
    refine ⟨hpasses, ?_⟩
    rw [Outline.inOrder_iff]
    exact forall₂_congr fun a ha => Arrival.inSequence_of_passes (hpasses a ha)
  · intro fault hfault hkind
    obtain ⟨before, a, after, harrivals, hbefore, ha⟩ :=
      hexplained.refuses (map_eq_error.1 hfault) hkind
    refine ⟨before, a, after, harrivals, hbefore, ha, ?_⟩
    have htake : (before ++ a :: after).take (before.length + 1) = before ++ [a] :=
      List.take_length_add_append 1
    rw [Outline.inOrder_iff, Outline.arrivals_upTo, harrivals, htake, List.forall_mem_append,
      List.forall_mem_singleton, and_comm, Arrival.inSequence_of_not_passes ha.not_passes]
    exact and_congr_right' (forall₂_congr fun b hb => Arrival.inSequence_of_passes (hbefore b hb))
  · intro hnone a ha
    exact Arrival.undisturbed_of_merged (Outline.merged_of_no_journals hnone rfl a ha)

/-- The second postings of `main` are earlier than its first, but not earlier than
    the journal in between. -/
def maskedFiles : Files := .inMemory [
  ("main", "2020-03-09 1 ASSETS/Cash\njournal \"shop\"\n2020-03-05 2 ASSETS/Cash\n"),
  ("shop", "2020-01-31 3 ASSETS/Cash\n")]

/-- The second postings of `main` are later than its first, but not later than the
    journal in between. -/
def blockedFiles : Files := .inMemory [
  ("main", "2020-03-05 1 ASSETS/Cash\njournal \"shop\"\n2020-03-09 2 ASSETS/Cash\n"),
  ("shop", "2020-04-01 3 ASSETS/Cash\n")]

theorem read_sequence_maskedFiles :
    (read maskedFiles "main").result.isOk ∧
      ∃ a ∈ (Outline.ofRoot maskedFiles "main").arrivals .start, a.Masked := by
  have hok : (read maskedFiles "main").result.isOk := by decide +kernel
  have hdisorder : ¬ (Outline.ofRoot maskedFiles "main").InOrder := by decide +kernel
  refine ⟨hok, ?_⟩
  cases hread : (read maskedFiles "main").result with
  | error fault =>
      rw [hread] at hok
      cases hok
  | ok d =>
      have hinOrder := ((read_sequence maskedFiles "main").1 d hread).2
      by_contra hnone
      exact hdisorder (hinOrder.2 fun a ha hmasked => hnone ⟨a, ha, hmasked⟩)

/-- A journal masks postings that are not in order, and it blocks others that are. -/
theorem read_masked_blocked :
    ((read maskedFiles "main").result.isOk ∧ ¬ (Outline.ofRoot maskedFiles "main").InOrder) ∧
      (∃ fault, (read blockedFiles "main").result = .error fault ∧
        fault.cause.kind = .sequence) ∧ (Outline.ofRoot blockedFiles "main").InOrder := by
  refine ⟨⟨by decide +kernel, by decide +kernel⟩, ?_, by decide +kernel⟩
  exact ⟨⟨.outOfSequence ⟨2020, 4, 1, by decide⟩ ⟨2020, 3, 9, by decide⟩,
    "main", ⟨3, 1⟩, ⟨3, 25⟩⟩, by decide +kernel, rfl⟩

end Draft

end DoubleEntry
