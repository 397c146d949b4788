import DoubleEntry.Proofs.Flaws
import DoubleEntry.Proofs.SingleFile
import DoubleEntry.Proofs.Walk

/-! # What is read from where

Everything in a draft shows where in which file it was written: an account and a
leg by their number and account, a leg that was added by the directive that asked
for it, an entry by all from its date to its last pair. A fault that ends reading
is located in the same way. The files are those that the root asks for, directly
or through others, and each of them has been read.
-/

namespace DoubleEntry

open Lexeme

/-! ## The files that are read -/

/-- A span shows a directive that asks for the file at `path`. -/
def Span.Asks (span : Span) (text : List Char) (path : String) : Prop :=
  ∃ keyword name : Token, (keyword.Says "include" ∨ keyword.Says "journal") ∧ name.kind = .string ∧
    span.Shows text [keyword.toLexeme, name.toLexeme] ∧
    path = Path.resolve span.file (String.ofList (Quoted.unquote name.text))

/-- The text of a file, with its lines ended in one way. -/
def Files.Holds (files : Files) (file : String) (text : List Char) : Prop :=
  ∃ content, files.read file = .ok content ∧ text = Lines.unify content.toList

/-- The root and all files that it asks for, directly or through others. -/
inductive Files.Tree (files : Files) (root : String) : String → Prop where
  | root : Tree files root root
  | asked {span : Span} {text path} (hfile : Tree files root span.file) (htext : files.Holds span.file text)
      (hasks : span.Asks text path) : Tree files root path

/-- A file of the tree that has been read, with its text. -/
structure Source (files : Files) (root : String) (events : List Event) (file : String)
    (text : List Char) : Prop where
  tree : files.Tree root file
  announced : .parsing file ∈ events
  holds : files.Holds file text

/-! ## What shows in a text -/

/-- An account shows the pair that opens it. -/
def Account.ShownIn (file : String) (text : List Char) (a : Account) : Prop :=
  ∃ p : Pair, p.Opens file a ∧ a.span.Shows text (p.tokens.map (·.toLexeme))

theorem Account.ShownIn.file_eq {file : String} {text : List Char} {a : Account}
    (h : a.ShownIn file text) : a.span.file = file := by
  obtain ⟨p, ⟨category, -, rfl⟩, -⟩ := h
  rfl

/-- A leg that was added shows the directive that asks for it. -/
def Leg.AddedIn (file : String) (text : List Char) (leg : Leg) : Prop :=
  ∃ keyword account : Token, keyword.Says "use account" ∧ account.kind = .account ∧
    leg.account = String.ofList account.text ∧ leg.span.file = file ∧
    leg.span.Shows text [keyword.toLexeme, account.toLexeme]

/-- The legs of an entry are those of all pairs of a block, or the leg of one pair
    and the leg that was added to balance it. -/
inductive Entry.HasLegs (file : String) (text : List Char) (block : List Pair) :
    List Leg → Prop where
  | written : HasLegs file text block (block.map (·.leg file))
  | balanced {p added} (hp : p ∈ block) (hadded : Leg.AddedIn file text added)
      (hamount : added.amount = (p.leg file).amount.opposite) :
      HasLegs file text block [p.leg file, added]

/-- An entry shows all from its date to the last pair of its block. -/
structure Entry.ShownBy (file : String) (text : List Char) (entry : Entry) (before : List Token)
    (day : Token) (between : List Token) (block : List Pair) (rest : List Token) : Prop where
  tokens : Token.ofText text = before ++ day :: (between ++ block.flatMap Pair.tokens ++ rest)
  nonempty : block ≠ []
  whole : ¬ Token.NumberNext rest
  kind : day.kind = .date
  date : entry.date.SpelledBy day.text
  file_eq : entry.span.file = file
  shows : entry.span.Shows text
    ((day :: (between ++ block.flatMap Pair.tokens)).map (·.toLexeme))
  pairs : ∀ p ∈ block, (p.leg file).span.Shows text (p.tokens.map (·.toLexeme))
  legs : HasLegs file text block entry.legs

def Entry.ShownIn (file : String) (text : List Char) (entry : Entry) : Prop :=
  ∃ before day between block rest, entry.ShownBy file text before day between block rest

theorem Entry.ShownIn.file_eq {file : String} {text : List Char} {entry : Entry}
    (h : entry.ShownIn file text) : entry.span.file = file := by
  obtain ⟨before, day, between, block, rest, h⟩ := h
  exact h.file_eq

/-- A chart shows the directive that opens it and the pairs of its accounts. -/
def Chart.ShownIn (file : String) (text : List Char) (chart : Chart) (span : Span) : Prop :=
  ∃ (keyword : Token) (pairs : List Pair), keyword.Says "open ledger" ∧ span.file = file ∧
    span.Shows text ((keyword :: pairs.flatMap Pair.tokens).map (·.toLexeme)) ∧
    List.Forall₂ (Pair.Opens file) pairs chart.accounts ∧ ∀ a ∈ chart.accounts, a.ShownIn file text

/-- All that the books hold shows in texts that `S` knows. -/
structure Books.Shown (S : String → List Char → Prop) (books : Books) : Prop where
  chart : ∀ span ∈ books.chart.span, ∃ file text, S file text ∧ books.chart.ShownIn file text span
  unopened : books.chart.span = none → books.chart.accounts = []
  pending : ∀ entry ∈ books.pending, ∃ file text, S file text ∧ entry.ShownIn file text

theorem Books.Shown.account {S : String → List Char → Prop} {books : Books} {a : Account}
    (h : books.Shown S) (ha : a ∈ books.chart.accounts) :
    ∃ file text, S file text ∧ a.ShownIn file text := by
  cases hspan : books.chart.span with
  | none =>
      rw [h.unopened hspan] at ha
      cases ha
  | some span =>
      obtain ⟨file, text, source, keyword, pairs, -, -, -, -, haccounts⟩ := h.chart span hspan
      exact ⟨file, text, source, haccounts a ha⟩

/-- A fault about a file that cannot be read. -/
def Fault.Unread (files : Files) (fault : Fault) (path : String) : Prop :=
  fault.cause = .nestedTooDeep path ∨
    ∃ reason, files.read path = .error reason ∧ fault.cause = .unreadable path reason

/-- A fault is reported in a text: it is located there, and if it is about a file
    that cannot be read, at the directive that asks for that file. -/
structure Fault.ReportedIn (files : Files) (text : List Char) (fault : Fault) : Prop where
  located : fault.LocatedIn text
  asks : fault.cause.kind = .io → ∃ path, fault.Unread files path ∧ fault.span.Asks text path

/-- A fault is reported where it belongs: at the beginning of the root if that cannot
    be read, or else in a file that has been read. -/
def Fault.Reported (files : Files) (root : String) (events : List Event) (fault : Fault) : Prop :=
  (∃ reason, files.read root = .error reason ∧
    fault = ⟨.unreadable root reason, .startOf root⟩) ∨
  ∃ text, Source files root events fault.span.file text ∧ fault.ReportedIn files text

/-! ## Results along the way -/

namespace Traced

/-- If all that is announced is among some events, a result has one property and a
    fault has another. -/
def Ensures {α : Type} (events : List Event) (Q : α → Prop) (F : Fault → Prop)
    (x : Traced α) : Prop :=
  x.events ⊆ events →
    (∀ a, x.result = .ok a → Q a) ∧ ∀ fault, x.result = .error fault → F fault

namespace Ensures

variable {α β : Type} {events : List Event} {Q : α → Prop} {R : β → Prop} {F : Fault → Prop}

theorem ofExcept {r : Except Fault α} (hok : ∀ a, r = .ok a → Q a)
    (herror : ∀ fault, r = .error fault → F fault) : (Traced.ofExcept r).Ensures events Q F :=
  fun _ => ⟨hok, herror⟩

theorem pure {a : α} (h : Q a) : (Pure.pure a : Traced α).Ensures events Q F := by
  intro _
  constructor
  · intro b hb
    cases hb
    exact h
  · nofun

theorem announce {event : Event} {Q : Unit → Prop} (h : event ∈ events → Q ()) :
    (Traced.announce event).Ensures events Q F := by
  intro hevents
  exact ⟨fun _ _ => h (hevents List.mem_cons_self), nofun⟩

theorem bind {x : Traced α} {f : α → Traced β} (hx : x.Ensures events Q F)
    (hf : ∀ a, x.result = .ok a → Q a → (f a).Ensures events R F) :
    (x >>= f).Ensures events R F := by
  intro hevents
  change (andThen x f).events ⊆ events at hevents
  change (∀ b, (andThen x f).result = .ok b → R b) ∧
    ∀ fault, (andThen x f).result = .error fault → F fault
  unfold andThen at hevents ⊢
  cases hresult : x.result with
  | error fault =>
      simp only [hresult] at hevents ⊢
      refine ⟨nofun, ?_⟩
      intro other hother
      cases hother
      exact (hx hevents).2 fault hresult
  | ok a =>
      simp only [hresult, List.append_subset] at hevents ⊢
      exact hf a hresult ((hx hevents.1).1 a hresult) hevents.2

end Ensures

end Traced

/-- A way to read files that leads from shown books to shown books, or to a fault
    that is reported where it belongs. -/
def ReadsShown (files : Files) (root : String) (events : List Event)
    (read : Visit → Books → Traced Books) : Prop :=
  ∀ visit books text, Source files root events visit.asker.file text →
    visit.asker.Asks text visit.path → books.Shown (Source files root events) →
    (read visit books).Ensures events (Books.Shown (Source files root events))
      (Fault.Reported files root events)

/-! ## What the tokens of a file show -/

namespace Token

theorem lastStop_append_of_ne_nil {first second : List Token} (h : second ≠ []) (p q : Position) :
    lastStop p (first ++ second) = lastStop q second := by
  rw [lastStop_append, lastStop_of_ne_nil h]

theorem shows_two {text : List Char} {before rest : List Token} {t u : Token}
    (h : ofText text = before ++ (t :: u :: rest)) (file : String) :
    ((t.span file).upTo u.stop).Shows text [t.toLexeme, u.toLexeme] := by
  have hboth : ofText text = before ++ t :: ([u] ++ rest) := h
  exact shows hboth file

end Token

theorem Pair.shows_of_mem {text : List Char} {before rest : List Token} {pairs : List Pair} {p : Pair}
    (h : Token.ofText text = before ++ (pairs.flatMap tokens ++ rest)) (hp : p ∈ pairs)
    (file : String) : (p.leg file).span.Shows text (p.tokens.map (·.toLexeme)) := by
  obtain ⟨left, right, rfl⟩ := List.append_of_mem hp
  have hcut : Token.ofText text = (before ++ left.flatMap tokens) ++
      p.number :: p.account :: (right.flatMap tokens ++ rest) := by
    simpa [tokens] using h
  exact Token.shows_two hcut file

namespace Item

theorem mem_of_latest? {α : Type} {what? : Item → Option α} {items : List Item} {a : α}
    (h : latest? what? items = some a) : ∃ item ∈ items, what? item = some a :=
  List.mem_filterMap.1 (List.mem_of_getLast? h)

theorem tokens_of_mem {items : List Item} {item : Item} (h : item ∈ items) :
    ∃ left right, items.flatMap tokens = left ++ (item.tokens ++ right) := by
  obtain ⟨left, right, rfl⟩ := List.append_of_mem h
  exact ⟨left.flatMap tokens, right.flatMap tokens, by simp⟩

theorem split_at_day {items : List Item} {day : Token} (h : latest? day? items = some day) :
    day.kind = .date ∧ ∃ left right, items.flatMap tokens = left ++ day :: right := by
  obtain ⟨item, hitem, hday⟩ := mem_of_latest? h
  cases item with
  | date found hkind =>
      cases hday
      exact ⟨hkind, tokens_of_mem hitem⟩
  | _ => cases hday

theorem split_at_contra {items : List Item} {keyword account : Token}
    (h : latest? contra? items = some (keyword, account)) :
    keyword.Says "use account" ∧ account.kind = .account ∧
      ∃ left right, items.flatMap tokens = left ++ keyword :: account :: right := by
  obtain ⟨item, hitem, hcontra⟩ := mem_of_latest? h
  cases item with
  | useAccount found hfound name hname =>
      cases hcontra
      exact ⟨hfound, hname, tokens_of_mem hitem⟩
  | _ => cases hcontra

end Item

section File

variable {files : Files} {root : String} {events : List Event} {file : String} {text : List Char}
  {scope : Scope} {before : List Item} {rest : List Token} {p : Progress}
  {read : Visit → Books → Traced Books}

/-- The entries that a block of postings makes show it from the date that waits for
    it. -/
theorem Progress.Follows.shows (follows : p.Follows file before) {first : Pair} {others : List Pair}
    (htokens : Token.ofText text =
      before.flatMap Item.tokens ++ ((first :: others).flatMap Pair.tokens ++ rest))
    (hends : ¬ Token.NumberNext rest) {date : Date} {start : Position}
    (hwait : p.awaiting = some (date, start)) :
    ∀ entry ∈ entries p.contra date ((first :: others).map (·.leg file))
      ⟨file, start, (Item.postings first others).stop⟩, entry.ShownIn file text := by
  intro entry hentry
  obtain ⟨day, hday, hdate, rfl⟩ := follows.awaiting date start hwait
  obtain ⟨hkind, left, between, hsplit⟩ := Item.split_at_day hday
  have hwhole : Token.ofText text =
      left ++ day :: (between ++ (first :: others).flatMap Pair.tokens ++ rest) := by
    rw [htokens, hsplit]
    simp
  have hstop : (Item.postings first others).stop =
      Token.lastStop day.start (day :: (between ++ (first :: others).flatMap Pair.tokens)) := by
    have hblock : (first :: others).flatMap Pair.tokens ≠ [] :=
      (Item.postings first others).tokens_ne_nil
    rw [← List.cons_append, Token.lastStop_append_of_ne_nil hblock _ .first]
    rfl
  have hshows := Token.shows hwhole file
  rw [← hstop] at hshows
  have shown {legs : List Leg} (hlegs : Entry.HasLegs file text (first :: others) legs) :
      Entry.ShownIn file text ⟨date, legs, file, day.start, (Item.postings first others).stop⟩ :=
    ⟨left, day, between, first :: others, rest, hwhole, List.cons_ne_nil _ _, hends, hkind, hdate, rfl,
      hshows, fun p hp => Pair.shows_of_mem htokens hp file, hlegs⟩
  rw [follows.contra] at hentry
  cases hcontra : Item.latest? Item.contra? before with
  | none =>
      rw [hcontra] at hentry
      obtain rfl := List.mem_singleton.1 hentry
      exact shown .written
  | some contra =>
      obtain ⟨keyword, account⟩ := contra
      obtain ⟨hwords, haccount, left, right, hsplit⟩ := Item.split_at_contra hcontra
      rw [hsplit, List.append_assoc] at htokens
      have hadded := Token.shows_two htokens file
      rw [hcontra] at hentry
      simp only [entries, Option.map_some, List.map_map, List.mem_map] at hentry
      obtain ⟨pair, hpair, rfl⟩ := hentry
      exact shown (.balanced hpair ⟨keyword, account, hwords, haccount, rfl, rfl, hadded⟩ rfl)

/-! ## What each item does -/

namespace Fault

theorem reported_of_shows {fault : Fault} {l : Lexeme} {lexemes : List Lexeme}
    (source : Source files root events file text) (hfile : fault.span.file = file)
    (hshows : fault.span.Shows text (l :: lexemes)) (hkind : fault.cause.kind ≠ .io) :
    fault.Reported files root events := by
  subst hfile
  exact .inr ⟨text, source, locatedIn_of_shows hshows, fun h => absurd h hkind⟩

theorem reported_of_flawed {fault : Fault} (source : Source files root events file text)
    (h : (Cursor.ofText file text).Flawed fault) (hkind : fault.cause.kind ≠ .io) :
    fault.Reported files root events := by
  have hfile : fault.span.file = file := by
    cases h with
    | token _ _ hspan | atEnd _ hspan => rw [hspan]; rfl
  subst hfile
  exact .inr ⟨text, source, locatedIn_of_flawed h, fun h => absurd h hkind⟩

/-- A file that cannot be read is reported at the directive that asks for it. -/
theorem reported_of_asks {cause : Cause} {span : Span} {path : String}
    (source : Source files root events span.file text) (hasks : span.Asks text path)
    (hunread : Unread files ⟨cause, span⟩ path) : Reported files root events ⟨cause, span⟩ := by
  obtain ⟨keyword, name, hkeyword, hname, hshows, hpath⟩ := hasks
  exact .inr ⟨text, source, locatedIn_of_shows hshows,
    fun _ => ⟨path, hunread, keyword, name, hkeyword, hname, hshows, hpath⟩⟩

theorem Textual.kind_ne_io {fault : Fault} (h : fault.Textual) : fault.cause.kind ≠ .io := by
  rcases h with h | h <;> rw [h] <;> decide

end Fault

theorem Progress.span_of_await {text : List Char} {span : Span} {fault : Fault}
    (h : p.await text span = .error fault) : fault.span = span := by
  unfold await at h
  split at h
  · cases h
    rfl
  · split at h
    · cases h
      rfl
    · cases h

theorem Item.date_ensures (source : Source files root events file text) {day : Token}
    (htokens : Token.ofText text = before.flatMap tokens ++ (day :: rest))
    (shown : p.books.Shown (Source files root events)) :
    (Traced.ofExcept (p.await day.text (day.span file))).Ensures events
      (fun q => q.books.Shown (Source files root events)) (Fault.Reported files root events) := by
  apply Traced.Ensures.ofExcept
  · intro q hq
    obtain ⟨-, date, -, rfl⟩ := Progress.await_eq_ok.1 hq
    exact ⟨shown.chart, shown.unopened, shown.pending⟩
  · intro fault hfault
    have hspan := Progress.span_of_await hfault
    apply Fault.reported_of_flawed source _ (Progress.textual_of_await hfault).kind_ne_io
    exact .token htokens (Nat.le_refl _) hspan

theorem Entry.span_of_append {pending : List Entry} {entry : Entry} {fault : Fault}
    (h : append pending entry = .error fault) :
    fault.span = entry.span ∧ fault.cause.kind ≠ .io := by
  unfold append at h
  split at h
  · cases h
  · split at h
    · cases h
    · cases h
      exact ⟨rfl, FaultKind.noConfusion⟩

theorem Item.postings_ensures (source : Source files root events file text)
    (follows : p.Follows file before) {first : Pair} {others : List Pair}
    (htokens : Token.ofText text =
      before.flatMap Item.tokens ++ ((first :: others).flatMap Pair.tokens ++ rest))
    (hends : ¬ Token.NumberNext rest) (shown : p.books.Shown (Source files root events)) :
    (Traced.ofExcept (p.enter (first.number.span file) ((first :: others).map (·.leg file))
      (Item.postings first others).stop)).Ensures events
      (fun q => q.books.Shown (Source files root events)) (Fault.Reported files root events) := by
  apply Traced.Ensures.ofExcept
  · intro q hq
    obtain ⟨date, start, hwait, pending, hpending, rfl⟩ := Progress.enter_eq_ok.1 hq
    obtain ⟨-, rfl⟩ := (Entry.appendAll_eq_ok
      (Progress.entries_ne_nil (List.cons_ne_nil _ _)) Progress.date_of_mem_entries).1 hpending
    refine ⟨shown.chart, shown.unopened, List.forall_mem_append.2 ⟨shown.pending, ?_⟩⟩
    intro entry hentry
    exact ⟨file, text, source, follows.shows htokens hends hwait entry hentry⟩
  · intro fault hfault
    cases hwait : p.awaiting with
    | none =>
        simp only [Progress.enter, Progress.awaited, hwait] at hfault
        cases hfault
        apply Fault.reported_of_flawed source _ FaultKind.noConfusion
        exact .token htokens (Nat.le_refl _) rfl
    | some waiting =>
        obtain ⟨date, start⟩ := waiting
        rw [Progress.enter_eq_map hwait, map_eq_error] at hfault
        obtain ⟨pending, entry, hentry, happend⟩ := exists_of_foldlM_eq_error hfault
        obtain ⟨hspan, hkind⟩ := Entry.span_of_append happend
        obtain ⟨_, day, _, _, _, hshown⟩ := follows.shows htokens hends hwait entry hentry
        have hshows := hshown.shows
        rw [← hspan] at hshows
        exact Fault.reported_of_shows source (hspan ▸ hshown.file_eq) hshows hkind

theorem Progress.isOpened_of_mayOpen {keyword : Span} (h : p.mayOpen scope keyword = .ok ()) :
    p.books.chart.isOpened = false := by
  unfold mayOpen at h
  split at h
  · cases h
  · split at h
    · cases h
    · next hopened => simpa using hopened

theorem Progress.span_of_mayOpen {keyword : Span} {fault : Fault}
    (h : p.mayOpen scope keyword = .error fault) : fault.span = keyword := by
  unfold mayOpen at h
  split at h
  · cases h
    rfl
  · split at h
    · cases h
      rfl
    · cases h

theorem Chart.span_of_openAccount {chart : Chart} {leg : Leg} {fault : Fault}
    (h : chart.openAccount leg = .error fault) :
    fault.span = leg.span ∧ fault.cause.kind ≠ .io := by
  unfold openAccount at h
  split at h
  · cases h
    exact ⟨rfl, FaultKind.noConfusion⟩
  · split at h
    · cases h
      exact ⟨rfl, FaultKind.noConfusion⟩
    · cases h

/-- The chart is opened by a directive, which its span shows with all its pairs. -/
theorem Chart.shown_of_openAll {keyword : Token} (hkeyword : keyword.Says "open ledger")
    {pairs : List Pair}
    (htokens : Token.ofText text =
      before.flatMap Item.tokens ++ keyword :: (pairs.flatMap Pair.tokens ++ rest))
    {chart after : Chart} (hempty : chart.accounts = [])
    (h : (pairs.map (·.leg file)).foldlM openAccount chart = .ok after) (span : Option Span) :
    Chart.ShownIn file text { after with span := span }
      ((keyword.span file).upTo (Item.openLedger keyword hkeyword pairs).stop) := by
  obtain ⟨-, new, hnew, rfl⟩ := (Pair.openAll_eq_ok hempty).1 h
  have hstop : (Item.openLedger keyword hkeyword pairs).stop =
      Token.lastStop keyword.start (keyword :: pairs.flatMap Pair.tokens) :=
    Token.lastStop_of_ne_nil (List.cons_ne_nil _ _) _ _
  have hshows := Token.shows htokens file
  rw [← hstop] at hshows
  refine ⟨keyword, pairs, hkeyword, rfl, hshows, hnew, ?_⟩
  intro a ha
  obtain ⟨p, hp, hopens⟩ := exists_of_forall₂ hnew a ha
  rw [List.append_cons] at htokens
  have hpair := Pair.shows_of_mem htokens hp file
  obtain ⟨category, hcategory, rfl⟩ := hopens
  exact ⟨p, ⟨category, hcategory, rfl⟩, hpair⟩

theorem Item.openLedger_ensures (source : Source files root events file text) {keyword : Token}
    (hkeyword : keyword.Says "open ledger") {pairs : List Pair}
    (htokens : Token.ofText text =
      before.flatMap Item.tokens ++ keyword :: (pairs.flatMap Pair.tokens ++ rest))
    (shown : p.books.Shown (Source files root events)) :
    (Traced.ofExcept (p.openChart scope (keyword.span file) (pairs.map (·.leg file))
      (Item.openLedger keyword hkeyword pairs).stop)).Ensures events
      (fun q => q.books.Shown (Source files root events)) (Fault.Reported files root events) := by
  apply Traced.Ensures.ofExcept
  · intro q hq
    obtain ⟨hmay, chart, hopen, rfl⟩ := Progress.openChart_eq_ok.1 hq
    have hempty := Chart.accounts_of_not_isOpened (Progress.isOpened_of_mayOpen hmay)
    refine ⟨?_, nofun, shown.pending⟩
    intro span hspan
    obtain rfl := Option.some.inj hspan
    exact ⟨file, text, source, Chart.shown_of_openAll hkeyword htokens hempty hopen _⟩
  · intro fault hfault
    unfold Progress.openChart at hfault
    cases hmay : p.mayOpen scope (keyword.span file) with
    | error earlier =>
        rw [hmay] at hfault
        cases hfault
        apply Fault.reported_of_flawed source _ (Progress.textual_of_mayOpen hmay).kind_ne_io
        exact .token htokens (Nat.le_refl _) (Progress.span_of_mayOpen hmay)
    | ok =>
        cases hopen : (pairs.map (·.leg file)).foldlM Chart.openAccount p.books.chart with
        | ok chart =>
            rw [hmay, hopen] at hfault
            cases hfault
        | error earlier =>
            rw [hmay, hopen] at hfault
            cases hfault
            obtain ⟨chart, leg, hleg, hrefused⟩ := exists_of_foldlM_eq_error hopen
            obtain ⟨hspan, hkind⟩ := Chart.span_of_openAccount hrefused
            obtain ⟨pair, hpair, rfl⟩ := List.mem_map.1 hleg
            rw [List.append_cons] at htokens
            have hshows := Pair.shows_of_mem htokens hpair file
            rw [← hspan] at hshows
            exact Fault.reported_of_shows source (hspan ▸ rfl) hshows hkind

theorem Item.inclusion_ensures (source : Source files root events file text)
    (reads : ReadsShown files root events read) {keyword path : Token}
    (hkeyword : keyword.Says "include") (hpath : path.kind = .string)
    (htokens : Token.ofText text = before.flatMap Item.tokens ++ (keyword :: path :: rest))
    (shown : p.books.Shown (Source files root events)) :
    (Statement.run read file scope p
      ((Item.inclusion keyword hkeyword path hpath).statement file)).Ensures events
      (fun q => q.books.Shown (Source files root events)) (Fault.Reported files root events) := by
  apply Traced.Ensures.bind
  · apply reads _ _ text source _ shown
    exact ⟨keyword, path, .inl hkeyword, hpath, Token.shows_two htokens file, rfl⟩
  · intro books _ hbooks
    exact .pure hbooks

theorem Item.journal_ensures (source : Source files root events file text)
    (reads : ReadsShown files root events read) {keyword path : Token}
    (hkeyword : keyword.Says "journal") (hpath : path.kind = .string)
    (htokens : Token.ofText text = before.flatMap Item.tokens ++ (keyword :: path :: rest))
    (shown : p.books.Shown (Source files root events)) :
    (Statement.run read file scope p
      ((Item.journal keyword hkeyword path hpath).statement file)).Ensures events
      (fun q => q.books.Shown (Source files root events)) (Fault.Reported files root events) := by
  have hempty : Books.Shown (Source files root events) { p.books with pending := [] } :=
    ⟨shown.chart, shown.unopened, List.forall_mem_nil _⟩
  apply Traced.Ensures.bind
  · apply reads _ _ text source _ hempty
    exact ⟨keyword, path, .inr hkeyword, hpath, Token.shows_two htokens file, rfl⟩
  · intro inner _ hinner
    apply Traced.Ensures.bind (Q := fun _ => True) (.announce fun _ => trivial)
    intro _ _ _
    apply Traced.Ensures.pure
    exact ⟨hinner.chart, hinner.unopened, List.forall_mem_append.2 ⟨shown.pending, hinner.pending⟩⟩

/-- Whatever an item does, all that the books hold shows in the files, and a fault is
    reported where it belongs. -/
theorem Item.ensures (source : Source files root events file text)
    (reads : ReadsShown files root events read) {item : Item}
    (htokens : Token.ofText text = before.flatMap Item.tokens ++ (item.tokens ++ rest))
    (hends : item.endsInPairs → ¬ Token.NumberNext rest) (follows : p.Follows file before)
    (shown : p.books.Shown (Source files root events)) :
    (Statement.run read file scope p (item.statement file)).Ensures events
      (fun q => q.books.Shown (Source files root events)) (Fault.Reported files root events) := by
  cases item with
  | date day hday => exact Item.date_ensures source htokens shown
  | postings first others => exact Item.postings_ensures source follows htokens (hends rfl) shown
  | openLedger keyword hkeyword pairs =>
      apply Traced.Ensures.bind (Item.openLedger_ensures source hkeyword htokens shown)
      intro opened _ hopened
      apply Traced.Ensures.bind (Q := fun _ => True) (.announce fun _ => trivial)
      intro _ _ _
      exact .pure hopened
  | useAccount keyword hkeyword account haccount => exact .pure shown
  | inclusion keyword hkeyword path hpath =>
      exact Item.inclusion_ensures source reads hkeyword hpath htokens shown
  | journal keyword hkeyword path hpath =>
      exact Item.journal_ensures source reads hkeyword hpath htokens shown

/-! ## Whole files -/

theorem Script.statements_ensure (source : Source files root events file text)
    (reads : ReadsShown files root events read) {c : Cursor}
    (hpasses : (Cursor.ofText file text).Passes (before.flatMap Item.tokens) c)
    (follows : p.Follows file before) (shown : p.books.Shown (Source files root events)) :
    ((Script.read c).statements.foldlM (Statement.run read file scope) p).Ensures events
      (fun q => q.books.Shown (Source files root events) ∧
        ∃ items d, (Cursor.ofText file text).Passes (items.flatMap Item.tokens) d ∧
          q.Follows file items ∧
          ((Script.read c).ending = .ok d.lastEnd ∨
            ∃ flaw, (Script.read c).ending = .error flaw ∧ Statement.read d = .error flaw))
      (Fault.Reported files root events) := by
  fun_induction Script.read c generalizing before p with
  | case1 c hend => exact .pure ⟨shown, before, c, hpasses, follows, .inl rfl⟩
  | case2 c hmore flaw hread => exact .pure ⟨shown, before, c, hpasses, follows, .inr ⟨flaw, rfl, hread⟩⟩
  | case3 c hmore s behind hread script =>
      rename_i ih
      have formed := (Cursor.formed_ofText file text).passes hpasses
      obtain ⟨item, ⟨-, hitem, hends⟩, rfl⟩ := Statement.exists_item_of_read formed hread
      have hfile : c.file = file := hpasses.file
      have htokens : Token.ofText text =
          before.flatMap Item.tokens ++ (item.tokens ++ behind.tokens) := by
        rw [← hitem.tokens]
        exact hpasses.tokens
      have hbehind := hpasses.trans hitem
      rw [hfile, List.foldlM_cons]
      apply Traced.Ensures.bind (Item.ensures source reads htokens hends follows shown)
      intro q hq hshown
      have hdoes : (item.statement file).Does (fun _ _ _ => True) file scope p q :=
        Statement.does_of_run (fun _ _ _ _ => trivial) hq
      have hformed : item.Formed := fun t ht => formed t (hitem.tokens ▸ List.mem_append_left _ ht)
      refine ih ?_ (Item.follows hformed follows hdoes) hshown
      rwa [List.flatMap_append, List.flatMap_singleton]

theorem Progress.finish_ensures (source : Source files root events file text) {c : Cursor}
    (hpasses : (Cursor.ofText file text).Passes (before.flatMap Item.tokens) c)
    (follows : p.Follows file before) (shown : p.books.Shown (Source files root events)) :
    (Traced.ofExcept (p.finish file c.lastEnd)).Ensures events
      (Books.Shown (Source files root events)) (Fault.Reported files root events) := by
  apply Traced.Ensures.ofExcept
  · intro books hbooks
    obtain ⟨-, rfl⟩ := Progress.finish_eq_ok.1 hbooks
    exact shown
  · intro fault hfault
    have hkind := (Progress.textual_of_finish hfault).kind_ne_io
    unfold finish at hfault
    split at hfault
    · next date start hwait =>
      cases hfault
      obtain ⟨day, hday, -, rfl⟩ := follows.awaiting date start hwait
      obtain ⟨-, left, right, hsplit⟩ := Item.split_at_day hday
      have htokens := hpasses.tokens
      rw [hsplit, List.append_assoc] at htokens
      have hlast := hpasses.lastEnd
      rw [hsplit, Token.lastStop_append_of_ne_nil (List.cons_ne_nil _ _) _ day.start] at hlast
      have hshows := Token.shows htokens file
      rw [← hlast] at hshows
      exact Fault.reported_of_shows source rfl hshows hkind
    · cases hfault

theorem Script.ensures {content : String} {books : Books}
    (source : Source files root events file (Lines.unify content.toList))
    (reads : ReadsShown files root events read) (shown : books.Shown (Source files root events)) :
    ((Script.ofText file content).run read file scope books).Ensures events
      (Books.Shown (Source files root events)) (Fault.Reported files root events) := by
  apply Traced.Ensures.bind (Script.statements_ensure source reads (.refl _)
    (Progress.follows_begin books file) shown)
  intro q _ hq
  obtain ⟨hshown, items, d, hpasses, hfollows, hend | ⟨flaw, hflaw, hread⟩⟩ := hq
  · change (Script.ofText file content).ending = _ at hend
    rw [hend]
    exact Progress.finish_ensures source hpasses hfollows hshown
  · change (Script.ofText file content).ending = _ at hflaw
    rw [hflaw]
    apply Traced.Ensures.ofExcept nofun
    intro fault hfault
    cases hfault
    have formed := (Cursor.formed_ofText file (Lines.unify content.toList)).passes hpasses
    have hlies := Statement.liesBehind_of_read formed hread
    apply Fault.reported_of_flawed source ((q.flawed_faultOf scope hlies).passes hpasses)
    exact (Progress.textual_faultOf (Statement.textual_of_read hread)).kind_ne_io

theorem Books.read_succ_ensures {depth : Nat} {visit : Visit} {books : Books}
    (reads : ReadsShown files root events (Books.read files depth)) (tree : files.Tree root visit.path)
    (unread : ∀ reason, files.read visit.path = .error reason →
      Fault.Reported files root events ⟨.unreadable visit.path reason, visit.asker⟩)
    (shown : books.Shown (Source files root events)) :
    (Books.read files (depth + 1) visit books).Ensures events
      (Books.Shown (Source files root events)) (Fault.Reported files root events) := by
  apply Traced.Ensures.bind (Q := fun _ => .parsing visit.path ∈ events) (.announce id)
  intro _ _ hannounced
  cases hcontent : files.read visit.path with
  | error reason =>
      apply Traced.Ensures.ofExcept nofun
      intro fault hfault
      cases hfault
      exact unread reason hcontent
  | ok content => exact Script.ensures ⟨tree, hannounced, content, hcontent, rfl⟩ reads shown

theorem Books.readsShown (depth : Nat) : ReadsShown files root events (Books.read files depth) := by
  induction depth with
  | zero =>
      intro visit books text source hasks shown
      apply Traced.Ensures.ofExcept nofun
      intro fault hfault
      cases hfault
      exact Fault.reported_of_asks source hasks (.inl rfl)
  | succ depth ih =>
      intro visit books text source hasks shown
      apply Books.read_succ_ensures ih (.asked source.tree source.holds hasks) _ shown
      intro reason hreason
      exact Fault.reported_of_asks source hasks (.inr ⟨reason, hreason, rfl⟩)

end File

/-! ## Drafts -/

namespace Draft

theorem read_ensures {files : Files} {root : String} {events : List Event}
    (hnesting : 0 < files.nesting) :
    (read files root).Ensures events
      (fun d => Books.Shown (Source files root events) ⟨d.chart, d.pending⟩)
      (Fault.Reported files root events) := by
  obtain ⟨depth, hdepth⟩ := Nat.exists_eq_add_one.2 hnesting
  unfold read
  rw [hdepth]
  apply Traced.Ensures.bind
  · apply Books.read_succ_ensures (Books.readsShown depth) .root
    · intro reason hreason
      exact .inl ⟨reason, hreason, rfl⟩
    · exact ⟨nofun, fun _ => rfl, List.forall_mem_nil _⟩
  · intro books _ hbooks
    apply Traced.Ensures.pure
    refine ⟨hbooks.chart, hbooks.unopened, ?_⟩
    intro entry hentry
    exact hbooks.pending entry (List.mem_mergeSort.1 hentry)

theorem nesting_pos_of_read {files : Files} {root : String} {d : Draft}
    (h : (read files root).result = .ok d) : 0 < files.nesting := by
  by_contra hnone
  rw [result_read, Nat.eq_zero_of_not_pos hnone] at h
  cases h

/-- Every span of a draft is faithful to a file that has been read: an account and a
    leg show their pairs, an added leg its directive, an entry its block from the
    date on, and the chart its directive with the pairs of all accounts. -/
theorem read_shown {files : Files} {root : String} {d : Draft}
    (h : (read files root).result = .ok d) :
    (∀ a ∈ d.chart.accounts, ∃ text, Source files root (read files root).events a.span.file text ∧
      a.ShownIn a.span.file text) ∧
    (∀ entry ∈ d.pending, ∃ text, Source files root (read files root).events entry.span.file text ∧
      entry.ShownIn entry.span.file text) ∧
    (∀ span ∈ d.chart.span, ∃ text, Source files root (read files root).events span.file text ∧
      d.chart.ShownIn span.file text span) ∧
    (d.chart.span = none → d.chart.accounts = []) := by
  have hshown := (read_ensures (nesting_pos_of_read h) (List.Subset.refl _)).1 d h
  refine ⟨?_, ?_, ?_, hshown.unopened⟩
  · intro a ha
    obtain ⟨file, text, source, haccount⟩ := hshown.account ha
    have hfile := haccount.file_eq
    exact ⟨text, hfile ▸ source, hfile ▸ haccount⟩
  · intro entry hentry
    obtain ⟨file, text, source, hentry⟩ := hshown.pending entry hentry
    have hfile := hentry.file_eq
    exact ⟨text, hfile ▸ source, hfile ▸ hentry⟩
  · intro span hspan
    obtain ⟨file, text, source, keyword, pairs, hkeyword, rfl, hrest⟩ := hshown.chart span hspan
    exact ⟨text, source, keyword, pairs, hkeyword, rfl, hrest⟩

/-- Books with comments and blank lines between what belongs together, and with an
    inclusion between two blocks of postings. -/
def fairFiles : Files := .inMemory [
  ("main", "open ledger ; till\r\n  100 ASSETS/Cash\r\n\r\n  100 CAPITAL/Own ; all\r\n" ++
    "2020-03-01 ; fair\n  5 ASSETS/Cash\n; tea\n  -5 EXPENSES/Rent\ninclude \"shop\"\n"),
  ("shop", "use account ASSETS/Cash\n2020-03-02\n 3 EXPENSES/Rent ; two\n 4 INCOMES/Sales")]

theorem read_shown_fairFiles :
    ∃ d, (read fairFiles "main").result = .ok d ∧
      d.chart.span = some ⟨"main", ⟨1, 1⟩, ⟨4, 18⟩⟩ ∧
      (∃ text, Source fairFiles "main" (read fairFiles "main").events "main" text ∧
        d.chart.ShownIn "main" text ⟨"main", ⟨1, 1⟩, ⟨4, 18⟩⟩) ∧
      ∃ entry ∈ d.pending, entry.span = ⟨"shop", ⟨2, 1⟩, ⟨4, 17⟩⟩ ∧
        ∃ text, Source fairFiles "main" (read fairFiles "main").events "shop" text ∧
          entry.ShownIn "shop" text := by
  have hspans : (Books.read fairFiles fairFiles.nesting
      ⟨"main", Span.startOf "main", .ledger⟩ .empty).result.map (fun books =>
        (books.chart.span, books.pending.map (·.span))) =
      .ok (some ⟨"main", ⟨1, 1⟩, ⟨4, 18⟩⟩, [⟨"main", ⟨5, 1⟩, ⟨8, 19⟩⟩,
        ⟨"shop", ⟨2, 1⟩, ⟨4, 17⟩⟩, ⟨"shop", ⟨2, 1⟩, ⟨4, 17⟩⟩]) := by
    decide +kernel
  obtain ⟨books, hbooks, hpair⟩ := map_eq_ok.1 hspans
  obtain ⟨hspan, hentries⟩ := Prod.mk.inj hpair
  have hread : (read fairFiles "main").result = .ok (ofBooks "main" books) := by
    rw [result_read, hbooks]
    rfl
  obtain ⟨-, hpending, hchart, -⟩ := read_shown hread
  refine ⟨_, hread, hspan, hchart _ hspan, ?_⟩
  have hmem : (⟨"shop", ⟨2, 1⟩, ⟨4, 17⟩⟩ : Span) ∈ books.pending.map (·.span) := by simp [hentries]
  obtain ⟨entry, hentry, hsame⟩ := List.mem_map.1 hmem
  have hsorted : entry ∈ (ofBooks "main" books).pending := List.mem_mergeSort.2 hentry
  have hshown := hpending entry hsorted
  rw [hsame] at hshown
  exact ⟨entry, hsorted, hsame, hshown⟩

end Draft

end DoubleEntry
