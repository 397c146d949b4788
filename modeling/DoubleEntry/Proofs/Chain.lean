import DoubleEntry.Proofs.Directory
import DoubleEntry.Proofs.Located
import DoubleEntry.Proofs.Tree

/-! # Chains of files

A chain goes from a file to one that it asks for, from there to one that this file
asks for, and so on. All that is announced while books are read, and every place
that is reported, names its file as the end of a chain from the root. If the books
are read without fault, all chains have been followed to their ends.
-/

namespace DoubleEntry

/-! ## What a file asks for -/

/-- Among some tokens is a directive that asks for a file by this path. -/
def Token.AskFor (tokens : List Token) (path : String) : Prop :=
  ∃ before keyword name rest, tokens = before ++ keyword :: name :: rest ∧
    (keyword.Says "include" ∨ keyword.Says "journal") ∧ name.kind = .string ∧
    path = String.ofList (Quoted.unquote name.text)

/-- The paths that stand behind directives, in the order of the tokens. -/
def Token.asked : List Token → List String
  | keyword :: name :: rest =>
    if (keyword.Says "include" ∨ keyword.Says "journal") ∧ name.kind = .string then
      String.ofList (Quoted.unquote name.text) :: asked (name :: rest)
    else asked (name :: rest)
  | _ => []

theorem Token.AskFor.cons {tokens : List Token} {path : String} (h : AskFor tokens path)
    (t : Token) : AskFor (t :: tokens) path := by
  obtain ⟨before, keyword, name, rest, rfl, hrest⟩ := h
  exact ⟨t :: before, keyword, name, rest, rfl, hrest⟩

theorem Token.mem_asked {tokens : List Token} {path : String} :
    path ∈ asked tokens ↔ AskFor tokens path := by
  fun_induction asked tokens with
  | case1 keyword name rest hasks ih =>
      rw [List.mem_cons, ih]
      constructor
      · rintro (rfl | h)
        · exact ⟨[], keyword, name, rest, rfl, hasks.1, hasks.2, rfl⟩
        · exact h.cons keyword
      · rintro ⟨before, k, n, others, htokens, hk, hn, rfl⟩
        cases before with
        | nil =>
            cases htokens
            exact .inl rfl
        | cons t before =>
            obtain ⟨-, hsame⟩ := List.cons.inj htokens
            exact .inr ⟨before, k, n, others, hsame, hk, hn, rfl⟩
  | case2 keyword name rest hnone ih =>
      rw [ih]
      refine ⟨fun h => h.cons keyword, ?_⟩
      rintro ⟨before, k, n, others, htokens, hk, hn, rfl⟩
      cases before with
      | nil =>
          cases htokens
          exact absurd ⟨hk, hn⟩ hnone
      | cons t before =>
          obtain ⟨-, hsame⟩ := List.cons.inj htokens
          exact ⟨before, k, n, others, hsame, hk, hn, rfl⟩
  | case3 tokens hshort =>
      refine ⟨fun h => absurd h List.not_mem_nil, ?_⟩
      rintro ⟨before, keyword, name, rest, rfl, -⟩
      cases before with
      | nil => exact absurd rfl (hshort keyword name rest)
      | cons t before =>
          cases before with
          | nil => exact absurd rfl (hshort t keyword (name :: rest))
          | cons u before => exact absurd rfl (hshort t u (before ++ keyword :: name :: rest))

namespace Files

/-- A directive in a file asks for another file by this path. -/
def AsksFor (files : Files) (file path : String) : Prop :=
  ∃ text, files.Holds file text ∧ Token.AskFor (Token.ofText text) path

/-- Each path stands in a directive of the file that the paths before it lead to. -/
def Leads (files : Files) : String → List String → Prop
  | _, [] => True
  | file, path :: rest => files.AsksFor file path ∧ files.Leads (Path.resolve file path) rest

/-- The file that a chain of directives leads to. -/
def Chained (files : Files) (root file : String) : Prop :=
  ∃ paths, files.Leads root paths ∧ file = Path.along root paths

variable {files : Files} {root file path : String} {paths others : List String}

theorem asksFor_iff {content : String} (hcontent : files.read file = .ok content) :
    files.AsksFor file path ↔ path ∈ Token.asked (Token.ofString content) := by
  rw [Token.mem_asked]
  constructor
  · rintro ⟨_, ⟨text, htext, rfl⟩, hasks⟩
    cases hcontent.symm.trans htext
    exact hasks
  · exact fun hasks => ⟨_, ⟨content, hcontent, rfl⟩, hasks⟩

theorem leads_append :
    files.Leads root (paths ++ others) ↔
      files.Leads root paths ∧ files.Leads (Path.along root paths) others := by
  induction paths generalizing root with
  | nil => exact ⟨fun h => ⟨trivial, h⟩, And.right⟩
  | cons path paths ih =>
      rw [List.cons_append, Leads, Leads, ih, and_assoc]
      rfl

theorem chained_root : files.Chained root root := ⟨[], trivial, rfl⟩

theorem Chained.asked (h : files.Chained root file) (hasks : files.AsksFor file path) :
    files.Chained root (Path.resolve file path) := by
  obtain ⟨paths, hleads, rfl⟩ := h
  refine ⟨paths ++ [path], leads_append.2 ⟨hleads, hasks, trivial⟩, ?_⟩
  rw [Path.along_append]
  rfl

theorem AsksFor.of_asks {span : Span} {text : List Char} {target : String}
    (htext : files.Holds span.file text) (hasks : span.Asks text target) :
    ∃ path, files.AsksFor span.file path ∧ target = Path.resolve span.file path := by
  obtain ⟨keyword, name, hkeyword, hname, hshows, rfl⟩ := hasks
  obtain ⟨before, t, u, rest, htokens, ht, hu⟩ := hshows.exists_tokens
  refine ⟨_, ⟨text, htext, before, t, u, rest, htokens, ?_, ?_, rfl⟩, by rw [hu]⟩
  · unfold Token.Says
    rw [ht]
    exact hkeyword
  · rw [hu]
    exact hname

theorem Tree.chained (h : files.Tree root file) : files.Chained root file := by
  induction h with
  | root => exact chained_root
  | asked _ htext hasks ih =>
      obtain ⟨path, hpath, rfl⟩ := AsksFor.of_asks htext hasks
      exact ih.asked hpath

end Files

/-! ## What is announced -/

/-- The file that an event is about. -/
def Event.file? : Event → Option String
  | parsing path => some path
  | opened _ file => some file
  | contributed path _ => some path
  | posted .. => none

namespace Traced

/-- Whether there is a result or a fault, all events on the way have a property. -/
def Announces {α : Type} (P : Event → Prop) (x : Traced α) : Prop := ∀ event ∈ x.events, P event

variable {α β : Type} {P : Event → Prop}

theorem Announces.ofExcept (result : Except Fault α) : (Traced.ofExcept result).Announces P :=
  List.forall_mem_nil P

theorem Announces.announce {event : Event} (h : P event) :
    (Traced.announce event).Announces P :=
  List.forall_mem_singleton.2 h

theorem Announces.bind {x : Traced α} {f : α → Traced β} (hx : x.Announces P)
    (hf : ∀ a, (f a).Announces P) : (x >>= f).Announces P := by
  change ∀ event ∈ (andThen x f).events, P event
  unfold andThen
  cases x.result with
  | error fault => exact hx
  | ok a => exact List.forall_mem_append.2 ⟨hx, hf a⟩

theorem Announces.foldlM {f : β → α → Traced β} {l : List α}
    (h : ∀ a ∈ l, ∀ b, (f b a).Announces P) (init : β) : (l.foldlM f init).Announces P := by
  induction l generalizing init with
  | nil => exact Announces.ofExcept _
  | cons a l ih =>
      obtain ⟨ha, hl⟩ := List.forall_mem_cons.1 h
      rw [List.foldlM_cons]
      exact (ha init).bind fun b => ih hl b

theorem events_subset_bind (x : Traced α) (f : α → Traced β) : x.events ⊆ (x >>= f).events := by
  change x.events ⊆ (andThen x f).events
  unfold andThen
  cases x.result with
  | error fault => exact List.Subset.refl _
  | ok a => exact List.subset_append_left _ _

theorem events_subset_of_ok {x : Traced α} {f : α → Traced β} {a : α} (h : x.result = .ok a) :
    (f a).events ⊆ (x >>= f).events := by
  change (f a).events ⊆ (andThen x f).events
  unfold andThen
  rw [h]
  exact List.subset_append_right _ _

theorem exists_of_foldlM_eq_ok {f : β → α → Traced β} {l : List α} {init out : β}
    (h : (l.foldlM f init).result = .ok out) :
    ∀ a ∈ l, ∃ before after, (f before a).result = .ok after ∧
      (f before a).events ⊆ (l.foldlM f init).events := by
  induction l generalizing init with
  | nil => exact List.forall_mem_nil _
  | cons a l ih =>
      rw [List.foldlM_cons] at h ⊢
      rw [result_bind, bind_eq_ok] at h
      obtain ⟨mid, hmid, hrest⟩ := h
      have hlater : (l.foldlM f mid).events ⊆ (f init a >>= fun b => l.foldlM f b).events :=
        events_subset_of_ok (f := fun b => l.foldlM f b) hmid
      refine List.forall_mem_cons.2 ⟨⟨init, mid, hmid, events_subset_bind _ _⟩, ?_⟩
      intro b hb
      obtain ⟨before, after, hstep, hevents⟩ := ih hrest b hb
      exact ⟨before, after, hstep, List.Subset.trans hevents hlater⟩

end Traced

/-! ## Statements that ask for files -/

namespace Statement

/-- The path of the file that is asked for. -/
def path? : Statement → Option String
  | inclusion path _ | journal path _ => some path
  | _ => none

theorem path?_statement (item : Item) (file : String) :
    (item.statement file).path? = item.path? := by
  cases item <;> rfl

variable {read : Visit → Books → Traced Books} {file path : String} {scope : Scope}
  {p q : Progress} {s : Statement} {P : Event → Prop}

theorem run_announces (hfile : ∀ accounts, P (.opened accounts file))
    (htarget : ∀ path, s.path? = some path →
      (∀ entries, P (.contributed (Path.resolve file path) entries)) ∧
      ∀ asker scope books, (read ⟨Path.resolve file path, asker, scope⟩ books).Announces P) :
    (run read file scope p s).Announces P := by
  cases s with
  | date text span => exact .ofExcept _
  | postings first legs stop => exact .ofExcept _
  | openLedger keyword legs stop =>
      exact (Traced.Announces.ofExcept _).bind fun opened =>
        (Traced.Announces.announce (hfile _)).bind fun _ => .ofExcept _
  | useAccount account span => exact .ofExcept _
  | inclusion path span =>
      obtain ⟨-, hread⟩ := htarget path rfl
      exact (hread _ _ _).bind fun books => .ofExcept _
  | journal path span =>
      obtain ⟨hcontributed, hread⟩ := htarget path rfl
      exact (hread _ _ _).bind fun inner =>
        (Traced.Announces.announce (hcontributed _)).bind fun _ => .ofExcept _

theorem exists_read_of_run (h : (run read file scope p s).result = .ok q)
    (hpath : s.path? = some path) :
    ∃ asker inner books after,
      (read ⟨Path.resolve file path, asker, inner⟩ books).result = .ok after ∧
      (read ⟨Path.resolve file path, asker, inner⟩ books).events ⊆
        (run read file scope p s).events := by
  cases s with
  | inclusion found span =>
      cases hpath
      rw [result_run_inclusion, map_eq_ok] at h
      obtain ⟨after, hread, -⟩ := h
      exact ⟨_, _, _, after, hread, Traced.events_subset_bind _ _⟩
  | journal found span =>
      cases hpath
      rw [result_run_journal, map_eq_ok] at h
      obtain ⟨after, hread, -⟩ := h
      exact ⟨_, _, _, after, hread, Traced.events_subset_bind _ _⟩
  | _ => cases hpath

end Statement

namespace Script

/-- What a statement asks for is asked for among the tokens of its file. -/
theorem askFor_of_mem {file path : String} {text : String} {s : Statement}
    (hs : s ∈ (ofText file text).statements) (hpath : s.path? = some path) :
    Token.AskFor (Token.ofString text) path := by
  obtain ⟨items, d, hpasses, -, hstatements, -⟩ :=
    exists_passes (Cursor.formed_ofText file (Lines.unify text.toList))
  obtain ⟨item, hitem, rfl⟩ := List.mem_map.1 (hstatements ▸ hs)
  obtain ⟨left, right, hsplit⟩ := Item.tokens_of_mem hitem
  have htokens : Token.ofString text = left ++ (item.tokens ++ (right ++ d.tokens)) := by
    rw [← List.append_assoc, ← List.append_assoc, List.append_assoc left, ← hsplit]
    exact hpasses.tokens
  rw [Statement.path?_statement] at hpath
  cases item with
  | inclusion keyword hkeyword name hname =>
      cases hpath
      exact ⟨left, keyword, name, _, htokens, .inl hkeyword, hname, rfl⟩
  | journal keyword hkeyword name hname =>
      cases hpath
      exact ⟨left, keyword, name, _, htokens, .inr hkeyword, hname, rfl⟩
  | _ => cases hpath

/-- If a file is read to its end, all that it asks for is asked for by statements. -/
theorem exists_statement_of_askFor {file path text : String} {lastEnd : Position}
    (hend : (ofText file text).ending = .ok lastEnd)
    (hasks : Token.AskFor (Token.ofString text) path) :
    ∃ s ∈ (ofText file text).statements, s.path? = some path := by
  obtain ⟨items, hitems, -, hstatements⟩ := exists_items hend
  obtain ⟨before, keyword, name, rest, htokens, hkeyword, -, rfl⟩ := hasks
  obtain ⟨left, item, right, rfl, -, hitem⟩ := Item.split_at_directive
    (hitems.whole.symm.trans htokens) (hkeyword.elim And.left And.left)
  refine ⟨item.statement file, hstatements ▸ List.mem_map_of_mem (by simp), ?_⟩
  rw [Statement.path?_statement]
  exact Item.path?_of_tokens hitem hkeyword

end Script

/-! ## Reading along chains -/

/-- The events that name a file name one that a chain leads to. -/
def Event.Along (files : Files) (root : String) (event : Event) : Prop :=
  ∀ file, event.file? = some file → files.Chained root file

namespace Books

variable {files : Files} {root : String} {depth : Nat}

theorem read_announces (depth : Nat) {visit : Visit} (h : files.Chained root visit.path)
    (books : Books) : (read files depth visit books).Announces (Event.Along files root) := by
  induction depth generalizing visit books with
  | zero => exact .ofExcept _
  | succ depth ih =>
      refine (Traced.Announces.announce ?_).bind fun _ => ?_
      · intro file hfile
        cases hfile
        exact h
      · split
        · exact .ofExcept _
        · next text htext =>
          refine (Traced.Announces.foldlM (fun s hs p => Statement.run_announces ?_ ?_) _).bind
            fun p => ?_
          · intro accounts file hfile
            cases hfile
            exact h
          · intro path hpath
            have htarget := h.asked ⟨_, ⟨text, htext, rfl⟩, Script.askFor_of_mem hs hpath⟩
            refine ⟨fun entries file hfile => ?_, fun asker scope inner => ih htarget inner⟩
            cases hfile
            exact htarget
          · split <;> exact .ofExcept _

theorem events_run_subset {visit : Visit} {text : String} (htext : files.read visit.path = .ok text)
    (depth : Nat) (books : Books) :
    ((Script.ofText visit.path text).run (read files depth) visit.path visit.scope books).events ⊆
      (read files (depth + 1) visit books).events := by
  rw [read, htext]
  exact Traced.events_subset_of_ok (f := fun _ => (Script.ofText visit.path text).run
    (read files depth) visit.path visit.scope books) (Traced.result_announce (.parsing visit.path))

/-- When a file is read without fault, every chain from it is followed to its end. -/
theorem parsing_of_leads {visit : Visit} {books after : Books} {paths : List String}
    (h : (read files depth visit books).result = .ok after)
    (hleads : files.Leads visit.path paths) :
    .parsing (Path.along visit.path paths) ∈ (read files depth visit books).events ∧
      ∃ content, files.read (Path.along visit.path paths) = .ok content := by
  induction paths generalizing depth visit books after with
  | nil =>
      cases depth with
      | zero => cases h
      | succ depth =>
          rw [result_read_succ] at h
          refine ⟨Traced.events_subset_bind _ _ List.mem_cons_self, ?_⟩
          split at h
          · cases h
          · next text htext => exact ⟨text, htext⟩
  | cons path paths ih =>
      cases depth with
      | zero => cases h
      | succ depth =>
          obtain ⟨⟨_, ⟨content, hcontent, rfl⟩, hasks⟩, hrest⟩ := hleads
          have hevents := events_run_subset hcontent depth books
          rw [result_read_succ, hcontent] at h
          dsimp only at h
          rw [Script.run, Traced.result_bind, bind_eq_ok] at h
          obtain ⟨p, hrun, hend⟩ := h
          split at hend
          · cases hend
          · next lastEnd hending =>
            obtain ⟨s, hs, hpath⟩ := Script.exists_statement_of_askFor hending hasks
            obtain ⟨before, later, hstep, hrunning⟩ := Traced.exists_of_foldlM_eq_ok hrun s hs
            obtain ⟨asker, scope, inner, found, hfound, hinner⟩ :=
              Statement.exists_read_of_run hstep hpath
            obtain ⟨hparsing, hreadable⟩ := ih hfound hrest
            have hstatements := hrunning (hinner hparsing)
            exact ⟨hevents (Traced.events_subset_bind _ _ hstatements), hreadable⟩

end Books

/-! ## What is reported -/

/-- The file that a cause is about and that is not where the fault is. -/
def Cause.file? : Cause → Option String
  | unreadable path _ | nestedTooDeep path => some path
  | _ => none

/-- Every place in a draft. -/
def Draft.spans (d : Draft) : List Span :=
  d.chart.span.toList ++ d.chart.accounts.map (·.span) ++
    d.pending.flatMap fun entry => entry.span :: entry.legs.map (·.span)

namespace Files

/-- A chain that has been followed: the file at its end was read under the name that
    the chain leads to, with this text. -/
structure Followed (files : Files) (root : String) (events : List Event) (paths : List String)
    (text : List Char) : Prop where
  leads : files.Leads root paths
  announced : .parsing (Path.along root paths) ∈ events
  holds : files.Holds (Path.along root paths) text

/-- Some file at the end of a chain has been read, with a text in which something shows
    under the name that the chain leads to. -/
def FoundAlong (files : Files) (root : String) (events : List Event)
    (shows : String → List Char → Prop) : Prop :=
  ∃ paths text, files.Followed root events paths text ∧ shows (Path.along root paths) text

theorem foundAlong_of_source {files : Files} {root file : String} {events : List Event}
    {shows : String → List Char → Prop}
    (h : ∃ text, Source files root events file text ∧ shows file text) :
    files.FoundAlong root events shows := by
  obtain ⟨text, source, hshows⟩ := h
  obtain ⟨paths, hleads, rfl⟩ := source.tree.chained
  exact ⟨paths, text, ⟨hleads, source.announced, source.holds⟩, hshows⟩

end Files

namespace Draft

variable {files : Files} {root : String} {d : Draft}

theorem spans_foundAlong (h : (read files root).result = .ok d) :
    ∀ span ∈ d.spans, files.FoundAlong root (read files root).events fun file text =>
      span.file = file ∧ ∃ l lexemes, span.Shows text (l :: lexemes) := by
  obtain ⟨haccounts, hentries, hchart, -⟩ := read_shown h
  simp only [spans, List.forall_mem_append, Option.mem_toList, List.forall_mem_map]
  refine ⟨⟨fun span hspan => ?_, fun a ha => ?_⟩, fun span hspan => ?_⟩
  · obtain ⟨text, source, hshown⟩ := hchart span hspan
    exact Files.foundAlong_of_source ⟨text, source, hshown.shows⟩
  · obtain ⟨text, source, hshown⟩ := haccounts a ha
    exact Files.foundAlong_of_source ⟨text, source, hshown.shows⟩
  · obtain ⟨entry, hentry, hspan⟩ := List.mem_flatMap.1 hspan
    obtain ⟨text, source, hshown⟩ := hentries entry hentry
    exact Files.foundAlong_of_source ⟨text, source, hshown.shows span hspan⟩

end Draft

namespace Ledger

variable {files : Files} {root : String}

theorem read_announces :
    (read files root).Announces (Event.Along files root) := by
  have hdraft : (Draft.read files root).Announces (Event.Along files root) :=
    (Books.read_announces _ Files.chained_root .empty).bind fun _ => .ofExcept _
  refine hdraft.bind fun d => (Traced.Announces.ofExcept _).bind fun ledger => ?_
  exact (Traced.Announces.announce nofun).bind fun _ => .ofExcept _

theorem chained_of_reported {fault : Fault} {events : List Event}
    (h : fault.Reported files root events) :
    files.Chained root fault.span.file ∧
      ∀ file, fault.cause.file? = some file → files.Chained root file := by
  rcases h with ⟨reason, -, rfl⟩ | ⟨text, source, hreported⟩
  · refine ⟨Files.chained_root, fun file hfile => ?_⟩
    cases hfile
    exact Files.chained_root
  · refine ⟨source.tree.chained, fun file hfile => ?_⟩
    have hkind : fault.cause.kind = .io := by
      cases hcause : fault.cause <;> rw [hcause] at hfile <;> first | rfl | cases hfile
    obtain ⟨path, hunread, hasks⟩ := hreported.asks hkind
    have hpath : file = path := by
      rcases hunread with hcause | ⟨reason, -, hcause⟩ <;> rw [hcause] at hfile <;>
        exact (Option.some.inj hfile).symm
    obtain ⟨name, hname, htarget⟩ := Files.AsksFor.of_asks source.holds hasks
    rw [hpath, htarget]
    exact source.tree.chained.asked hname

theorem chained_of_fault {fault : Fault} (h : (read files root).result = .error fault) :
    files.Chained root fault.span.file ∧
      ∀ file, fault.cause.file? = some file → files.Chained root file := by
  by_cases hnesting : 0 < files.nesting
  · exact chained_of_reported (read_located hnesting h)
  · rw [result_read, Draft.result_read, Nat.eq_zero_of_not_pos hnesting] at h
    cases h
    refine ⟨Files.chained_root, fun file hfile => ?_⟩
    cases hfile
    exact Files.chained_root

/-- A path in a file that is named without detours is looked up in the directory of
    that file, so along a chain of such files the directories stand one behind the
    other, and an absolute path takes the place of all before it. This is how files
    are read: each chain is followed if all goes well, whatever is announced names a
    file as the end of a chain, and whatever is reported shows in the text that was
    read under the name it is reported with. -/
theorem read_along (files : Files) (root : String) :
    (∀ file path : String, Path.Regular file.toList → Path.resolve file path =
      if Path.isAbsolute path.toList then path
      else String.ofList (Path.directory file.toList ++ path.toList)) ∧
    (Path.Regular root.toList → ∀ paths last,
      (∀ path ∈ paths, Path.Regular path.toList ∧ Path.isAbsolute path.toList = false) →
      Path.isAbsolute last.toList = false → Path.along root (paths ++ [last]) = String.ofList
        ((root :: paths).flatMap (fun path => Path.directory path.toList) ++ last.toList)) ∧
    (∀ before path behind, Path.isAbsolute path.toList →
      Path.along root (before ++ path :: behind) = Path.along path behind) ∧
    (∀ d, (Draft.read files root).result = .ok d →
      (∀ paths, files.Leads root paths →
        .parsing (Path.along root paths) ∈ (Draft.read files root).events ∧
        ∃ content, files.read (Path.along root paths) = .ok content) ∧
      (∀ a ∈ d.chart.accounts, files.FoundAlong root (Draft.read files root).events
        fun file text => a.ShownIn file text) ∧
      (∀ entry ∈ d.pending, files.FoundAlong root (Draft.read files root).events
        fun file text => entry.ShownIn file text) ∧
      (∀ span ∈ d.chart.span, files.FoundAlong root (Draft.read files root).events
        fun file text => d.chart.ShownIn file text span) ∧
      ∀ span ∈ d.spans, files.FoundAlong root (Draft.read files root).events
        fun file text => span.file = file ∧ ∃ l lexemes, span.Shows text (l :: lexemes)) ∧
    (read files root).Announces (Event.Along files root) ∧
    ∀ fault, (read files root).result = .error fault →
      (0 < files.nesting →
        (∃ reason, files.read root = .error reason ∧
          fault = ⟨.unreadable root reason, .startOf root⟩) ∨
        files.FoundAlong root (read files root).events
          fun file text => fault.span.file = file ∧ fault.ReportedIn files text) ∧
      files.Chained root fault.span.file ∧
      ∀ file, fault.cause.file? = some file → files.Chained root file := by
  refine ⟨fun file path h => Path.resolve_of_regular h path,
    fun hroot paths last hpaths hlast => Path.along_of_regular hroot hpaths hlast,
    fun before path behind h => Path.along_of_isAbsolute root before h behind,
    fun d h => ?_, read_announces, fun fault h => ⟨fun hnesting => ?_, chained_of_fault h⟩⟩
  · obtain ⟨haccounts, hentries, hchart, -⟩ := Draft.read_shown h
    refine ⟨fun paths hleads => ?_, fun a ha => Files.foundAlong_of_source (haccounts a ha),
      fun entry hentry => Files.foundAlong_of_source (hentries entry hentry),
      fun span hspan => Files.foundAlong_of_source (hchart span hspan), Draft.spans_foundAlong h⟩
    obtain ⟨books, hbooks, -⟩ := Draft.result_read_eq_ok.1 h
    obtain ⟨hparsing, hreadable⟩ := Books.parsing_of_leads hbooks hleads
    exact ⟨Traced.events_subset_bind _ _ hparsing, hreadable⟩
  · rcases read_located hnesting h with hroot | ⟨text, source, hreported⟩
    · exact .inl hroot
    · exact .inr (Files.foundAlong_of_source ⟨text, source, rfl, hreported⟩)

/-- Books in three directories, with a sale in the last of them, and with rates that have
    a place of their own. -/
def nestedFiles : Files := .inMemory [
  ("books/all", "include \"jan/main\"\n"),
  ("books/jan/main", "journal \"tills/shop\"\ninclude \"/rates\"\n"),
  ("books/jan/tills/shop", "; sales\n2020-01-05 3 ASSETS/Cash\n"), ("/rates", "")]

theorem leads_nestedFiles {path : String} (hpath : path = "tills/shop" ∨ path = "/rates") :
    nestedFiles.Leads "books/all" ["jan/main", path] := by
  have hmain : nestedFiles.AsksFor "books/all" "jan/main" :=
    (Files.asksFor_iff rfl).2 (by decide +kernel)
  have hjan : Path.resolve "books/all" "jan/main" = "books/jan/main" := by decide +kernel
  refine ⟨hmain, ?_, trivial⟩
  rw [hjan]
  rcases hpath with rfl | rfl <;> exact (Files.asksFor_iff rfl).2 (by decide +kernel)

theorem read_along_nestedFiles :
    (∃ d, (Draft.read nestedFiles "books/all").result = .ok d ∧
      ∃ entry ∈ d.pending, entry.span = ⟨"books/jan/tills/shop", ⟨2, 1⟩, ⟨2, 25⟩⟩ ∧
        nestedFiles.FoundAlong "books/all" (Draft.read nestedFiles "books/all").events
          fun file text => entry.ShownIn file text) ∧
      Path.Regular "books/all".toList ∧
      nestedFiles.Leads "books/all" ["jan/main", "tills/shop"] ∧
      Path.along "books/all" ["jan/main", "tills/shop"] = "books/jan/tills/shop" ∧
      .parsing "books/jan/tills/shop" ∈ (Draft.read nestedFiles "books/all").events ∧
      nestedFiles.Leads "books/all" ["jan/main", "/rates"] ∧
      .parsing "/rates" ∈ (Draft.read nestedFiles "books/all").events := by
  obtain ⟨-, hregular, habsolute, hread, -⟩ := read_along nestedFiles "books/all"
  have hspans : (Books.read nestedFiles nestedFiles.nesting
      ⟨"books/all", Span.startOf "books/all", .ledger⟩ .empty).result.map
        (·.pending.map (·.span)) =
      .ok [⟨"books/jan/tills/shop", ⟨2, 1⟩, ⟨2, 25⟩⟩] := by decide +kernel
  obtain ⟨books, hbooks, hspans⟩ := map_eq_ok.1 hspans
  have hdraft := Draft.result_read_eq_ok.2 ⟨books, hbooks, rfl⟩
  have hroot : Path.Regular "books/all".toList := by decide +kernel
  have hpaths : ∀ path ∈ ["jan/main"], Path.Regular path.toList ∧
      Path.isAbsolute path.toList = false := by decide +kernel
  have hshop := hregular hroot ["jan/main"] "tills/shop" hpaths (by decide +kernel)
  have hrates : Path.along "books/all" ["jan/main", "/rates"] = "/rates" :=
    habsolute ["jan/main"] "/rates" [] (by decide +kernel)
  have htill := leads_nestedFiles (.inl rfl)
  have hrated := leads_nestedFiles (.inr rfl)
  have hname : Path.along "books/all" ["jan/main", "tills/shop"] = "books/jan/tills/shop" :=
    hshop.trans (by decide +kernel)
  obtain ⟨hfollowed, -, hpending, -⟩ := hread _ hdraft
  have hmem : ⟨"books/jan/tills/shop", ⟨2, 1⟩, ⟨2, 25⟩⟩ ∈ books.pending.map (·.span) :=
    hspans ▸ List.mem_singleton_self _
  obtain ⟨entry, hentry, hspan⟩ := List.mem_map.1 hmem
  have hentry : entry ∈ (Draft.ofBooks "books/all" books).pending := List.mem_mergeSort.2 hentry
  refine ⟨⟨_, hdraft, entry, hentry, hspan, hpending entry hentry⟩, hroot, htill, hname, ?_,
    hrated, ?_⟩
  · exact hname ▸ (hfollowed _ htill).1
  · exact hrates ▸ (hfollowed _ hrated).1

end Ledger

end DoubleEntry
