import DoubleEntry.Proofs.Items
import DoubleEntry.Proofs.Sequence

/-! # The walk through all files

All that is read can be listed in reading order: the items of a file, and behind
an item that asks for another file the items of that file. What a block of
postings contributes follows from where it stands in its own file. The entries of
a draft are these contributions, sorted by date, and no pair is lost or used
twice.
-/

namespace DoubleEntry

namespace Item

/-- The latest of what `what?` finds in some items. -/
def latest? {α : Type} (what? : Item → Option α) (items : List Item) : Option α :=
  (items.filterMap what?).getLast?

theorem latest?_append {α : Type} (what? : Item → Option α) (before : List Item) (item : Item) :
    latest? what? (before ++ [item]) = (what? item).or (latest? what? before) := by
  unfold latest?
  rw [List.filterMap_append, List.getLast?_append]
  cases h : what? item <;> simp [h]

end Item

/-- An item in the file where it stands, with the items before it in that file. -/
structure Passage where
  file : String
  before : List Item
  item : Item

namespace Passage

/-- The latest date before the item. -/
def day? (p : Passage) : Option Token := Item.latest? Item.day? p.before

/-- The latest directive before the item that names a contra account. -/
def contra? (p : Passage) : Option (Token × Token) := Item.latest? Item.contra? p.before

/-- The leg that balances a pair on the contra account. -/
def contraLeg (p : Passage) (contra : Token × Token) (pair : Pair) : Leg :=
  ⟨String.ofList contra.2.text, (pair.leg p.file).amount.opposite,
    p.file, contra.1.start, contra.2.stop⟩

/-- From the date to the last pair. -/
def span (p : Passage) (day : Token) : Span := ⟨p.file, day.start, p.item.stop⟩

/-- What a passage contributes to the entries. Postings are one entry of all their
    pairs or, behind a contra account, one entry for each pair. -/
inductive Contributes (p : Passage) : List Entry → Prop where
  | joint {first others day date} (hitem : p.item = .postings first others)
      (hday : p.day? = some day) (hdate : Date.SpelledBy date day.text) (hcontra : p.contra? = none) :
      p.Contributes [⟨date, (first :: others).map (·.leg p.file), p.span day⟩]
  | balanced {first others day date contra} (hitem : p.item = .postings first others)
      (hday : p.day? = some day) (hdate : Date.SpelledBy date day.text)
      (hcontra : p.contra? = some contra) :
      p.Contributes ((first :: others).map fun pair =>
        ⟨date, [pair.leg p.file, p.contraLeg contra pair], p.span day⟩)
  | nothing (hitem : ¬ p.item.isPostings) : p.Contributes []

/-- The legs of all pairs that are posted, each with the one that balances it. -/
def legs (p : Passage) : List Leg :=
  p.item.posted.flatMap fun pair =>
    pair.leg p.file :: (p.contra?.map (p.contraLeg · pair)).toList

end Passage

/-- What some passages contribute, one behind the other. -/
inductive Contribute : List Passage → List Entry → Prop where
  | nil : Contribute [] []
  | cons {p passages new entries} (hp : Passage.Contributes p new)
      (hrest : Contribute passages entries) : Contribute (p :: passages) (new ++ entries)

/-- The passages of the items of a file that are still to be read, with those of
    the files they ask for. `before` are the items that have been read. -/
inductive Walk (files : Files) : String → List Item → List Item → List Passage → Prop where
  | done {file before} : Walk files file before [] []
  | item {file before item rest passages} (hpath : Item.path? item = none)
      (hrest : Walk files file (before ++ [item]) rest passages) :
      Walk files file before (item :: rest) (⟨file, before, item⟩ :: passages)
  | asks {file before item rest path text items inner passages}
      (hpath : Item.path? item = some path)
      (htext : files.read (Path.resolve file path) = .ok text)
      (hitems : Spells items (Token.ofString text))
      (hinner : Walk files (Path.resolve file path) [] items inner)
      (hrest : Walk files file (before ++ [item]) rest passages) :
      Walk files file before (item :: rest) (⟨file, before, item⟩ :: (inner ++ passages))

/-- All passages of a file and the files it asks for. -/
def Walks (files : Files) (path : String) (passages : List Passage) : Prop :=
  ∃ text items, files.read path = .ok text ∧ Spells items (Token.ofString text) ∧
    Walk files path [] items passages

/-! ## There is only one walk -/

theorem Walk.unique {files : Files} {file : String} {before items : List Item}
    {passages others : List Passage} (h : Walk files file before items passages)
    (h' : Walk files file before items others) : passages = others := by
  induction h generalizing others with
  | done =>
      cases h'
      rfl
  | item hpath hrest ih =>
      cases h' with
      | item _ hrest' => exact congrArg _ (ih hrest')
      | asks hpath' => exact absurd (hpath.symm.trans hpath') nofun
  | asks hpath htext hitems hinner hrest ihinner ihrest =>
      cases h' with
      | item hpath' => exact absurd (hpath'.symm.trans hpath) nofun
      | asks hpath' htext' hitems' hinner' hrest' =>
          cases hpath.symm.trans hpath'
          cases htext.symm.trans htext'
          cases hitems.unique hitems'
          rw [ihinner hinner', ihrest hrest']

theorem Walks.unique {files : Files} {path : String} {passages others : List Passage}
    (h : Walks files path passages) (h' : Walks files path others) : passages = others := by
  obtain ⟨text, items, htext, hitems, hwalk⟩ := h
  obtain ⟨text', items', htext', hitems', hwalk'⟩ := h'
  cases htext.symm.trans htext'
  cases hitems.unique hitems'
  exact hwalk.unique hwalk'

theorem Date.SpelledBy.unique {date other : Date} {text : List Char} (h : date.SpelledBy text)
    (h' : other.SpelledBy text) : date = other := by
  obtain ⟨year, month, day, valid⟩ := date
  obtain ⟨year', month', day', valid'⟩ := other
  cases h.year.symm.trans h'.year
  cases h.month.symm.trans h'.month
  cases h.day.symm.trans h'.day
  rfl

theorem Passage.Contributes.unique {p : Passage} {new other : List Entry} (h : p.Contributes new)
    (h' : p.Contributes other) : new = other := by
  cases h with
  | joint hitem hday hdate hcontra =>
      cases h' with
      | joint hitem' hday' hdate' =>
          cases hitem.symm.trans hitem'
          cases hday.symm.trans hday'
          cases hdate.unique hdate'
          rfl
      | balanced _ _ _ hcontra' => exact absurd (hcontra.symm.trans hcontra') nofun
      | nothing hitem' => exact absurd (by rw [hitem]; rfl) hitem'
  | balanced hitem hday hdate hcontra =>
      cases h' with
      | joint _ _ _ hcontra' => exact absurd (hcontra'.symm.trans hcontra) nofun
      | balanced hitem' hday' hdate' hcontra' =>
          cases hitem.symm.trans hitem'
          cases hday.symm.trans hday'
          cases hcontra.symm.trans hcontra'
          cases hdate.unique hdate'
          rfl
      | nothing hitem' => exact absurd (by rw [hitem]; rfl) hitem'
  | nothing hitem =>
      cases h' with
      | joint hitem' => exact absurd (by rw [hitem']; rfl) hitem
      | balanced hitem' => exact absurd (by rw [hitem']; rfl) hitem
      | nothing => rfl

theorem Contribute.unique {passages : List Passage} {entries others : List Entry}
    (h : Contribute passages entries) (h' : Contribute passages others) : entries = others := by
  induction h generalizing others with
  | nil =>
      cases h'
      rfl
  | cons hp hrest ih =>
      cases h' with
      | cons hp' hrest' => rw [hp.unique hp', ih hrest']

theorem Contribute.append {passages others : List Passage} {entries entries' : List Entry}
    (h : Contribute passages entries) (h' : Contribute others entries') :
    Contribute (passages ++ others) (entries ++ entries') := by
  induction h with
  | nil => exact h'
  | cons hp hrest ih =>
      rw [List.append_assoc]
      exact .cons hp ih

/-! ## Reading follows the walk -/

/-- What is asked for by an item is passed in all. -/
def Asks (files : Files) (file : String) (item : Item) (inner : List Passage) : Prop :=
  match item.path? with
  | none => inner = []
  | some path => Walks files (Path.resolve file path) inner

theorem Walk.cons {files : Files} {file : String} {before rest : List Item} {item : Item}
    {inner passages : List Passage} (hinner : Asks files file item inner)
    (hrest : Walk files file (before ++ [item]) rest passages) :
    Walk files file before (item :: rest) (⟨file, before, item⟩ :: (inner ++ passages)) := by
  unfold Asks at hinner
  split at hinner
  · next hpath =>
    rw [hinner]
    exact .item hpath hrest
  · next hpath =>
    obtain ⟨text, items, htext, hitems, hwalk⟩ := hinner
    exact .asks hpath htext hitems hwalk hrest

theorem Walk.exists_of_cons {files : Files} {file : String} {before rest : List Item} {item : Item}
    {passages : List Passage} (h : Walk files file before (item :: rest) passages) :
    ∃ inner others, Asks files file item inner ∧ Walk files file (before ++ [item]) rest others ∧
      passages = ⟨file, before, item⟩ :: (inner ++ others) := by
  unfold Asks
  cases h with
  | item hpath hrest =>
      rw [hpath]
      exact ⟨[], _, rfl, hrest, rfl⟩
  | asks hpath htext hitems hinner hrest =>
      rw [hpath]
      exact ⟨_, _, ⟨_, _, htext, hitems, hinner⟩, hrest, rfl⟩

/-- The entries that reading a file puts behind others are those of its walk. -/
def Adds (files : Files) (path : String) (pending after : List Entry) : Prop :=
  ∃ passages entries, Walks files path passages ∧ Contribute passages entries ∧
    after = pending ++ entries

/-- What is kept in mind comes from the items that have been read in this file. -/
structure Progress.Follows (p : Progress) (file : String) (before : List Item) : Prop where
  awaiting : ∀ date start, p.awaiting = some (date, start) →
    ∃ day, Item.latest? Item.day? before = some day ∧ date.SpelledBy day.text ∧ day.start = start
  contra : p.contra = (Item.latest? Item.contra? before).map fun (keyword, account) =>
    (String.ofList account.text, (keyword.span file).upTo account.stop)

theorem Progress.follows_begin (books : Books) (file : String) :
    (begin books).Follows file [] :=
  ⟨nofun, rfl⟩

theorem Progress.Follows.append {p q : Progress} {file : String} {before : List Item}
    (h : p.Follows file before) (item : Item) (hday : item.day? = none) (hcontra : item.contra? = none)
    (hawaiting : ∀ waiting, q.awaiting = some waiting → p.awaiting = some waiting)
    (hsame : q.contra = p.contra) : q.Follows file (before ++ [item]) where
  awaiting := by
    intro date start hwait
    rw [Item.latest?_append, hday, Option.none_or]
    exact h.awaiting date start (hawaiting _ hwait)
  contra := by
    rw [Item.latest?_append, hcontra, Option.none_or, hsame, h.contra]

/-- The entries that postings make are what their passage contributes. -/
theorem Progress.Follows.contributes {p : Progress} {file : String} {before : List Item}
    (h : p.Follows file before) (first : Pair) (others : List Pair) {date : Date} {start : Position}
    (hwait : p.awaiting = some (date, start)) :
    Passage.Contributes ⟨file, before, .postings first others⟩
      (entries p.contra date ((first :: others).map (·.leg file))
        ⟨file, start, (Item.postings first others).stop⟩) := by
  obtain ⟨day, hday, hdate, rfl⟩ := h.awaiting date start hwait
  rw [h.contra]
  cases hcontra : Item.latest? Item.contra? before with
  | none => exact .joint rfl hday hdate hcontra
  | some contra =>
      simp only [Option.map_some, entries]
      rw [List.map_map]
      exact .balanced rfl hday hdate hcontra

theorem Item.follows {Reads : Visit → Books → Books → Prop} {file : String} {scope : Scope}
    {before : List Item} {item : Item} {p q : Progress} (formed : item.Formed)
    (follows : p.Follows file before) (h : (item.statement file).Does Reads file scope p q) :
    q.Follows file (before ++ [item]) := by
  cases item with
  | date day hkind =>
      cases h with
      | date h =>
          obtain ⟨-, date, hdate, rfl⟩ := Progress.await_eq_ok.1 h
          have shaped : Lexeme.isDate day.text := (formed day List.mem_cons_self).date hkind
          constructor
          · intro other start hwait
            cases hwait
            rw [Item.latest?_append]
            exact ⟨day, rfl, (Date.ofText?_eq_some shaped).1 hdate, rfl⟩
          · rw [Item.latest?_append]
            exact follows.contra
  | postings first others =>
      cases h with
      | postings h =>
          obtain ⟨date, start, -, pending, -, rfl⟩ := Progress.enter_eq_ok.1 h
          exact follows.append _ rfl rfl nofun rfl
  | openLedger keyword hkeyword pairs =>
      cases h with
      | openLedger h =>
          obtain ⟨-, chart, -, rfl⟩ := Progress.openChart_eq_ok.1 h
          exact follows.append _ rfl rfl (fun _ => id) rfl
  | useAccount keyword hkeyword account haccount =>
      cases h with
      | useAccount =>
          constructor
          · rw [Item.latest?_append]
            exact follows.awaiting
          · rw [Item.latest?_append]
            rfl
  | inclusion keyword hkeyword path hpath =>
      cases h with
      | inclusion h => exact follows.append _ rfl rfl (fun _ => id) rfl
  | journal keyword hkeyword path hpath =>
      cases h with
      | journal h => exact follows.append _ rfl rfl (fun _ => id) rfl

/-- What an item does: the passages it begins are the next of the walk, and what
    they contribute is put behind the other entries. -/
theorem Item.contributes {files : Files} {file : String} {scope : Scope} {before : List Item}
    {item : Item} {p q : Progress} (follows : p.Follows file before)
    (h : (item.statement file).Does
      (fun visit books after => Adds files visit.path books.pending after.pending) file scope p q) :
    ∃ inner new, Asks files file item inner ∧
      Contribute (⟨file, before, item⟩ :: inner) new ∧ q.books.pending = p.books.pending ++ new := by
  have quiet (hitem : ¬ item.isPostings) {inner new} (hinner : Contribute inner new) :
      Contribute (⟨file, before, item⟩ :: inner) new :=
    .cons (.nothing hitem) hinner
  cases item with
  | date day hkind =>
      cases h with
      | date h =>
          obtain ⟨-, date, -, rfl⟩ := Progress.await_eq_ok.1 h
          exact ⟨[], [], rfl, quiet nofun .nil, (List.append_nil _).symm⟩
  | postings first others =>
      cases h with
      | postings h =>
          obtain ⟨date, start, hwait, pending, hpending, rfl⟩ := Progress.enter_eq_ok.1 h
          obtain ⟨-, hafter⟩ := (Entry.appendAll_eq_ok
            (Progress.entries_ne_nil (List.cons_ne_nil _ _)) Progress.date_of_mem_entries).1 hpending
          refine ⟨[], _, rfl, ?_, hafter⟩
          have hnew := Contribute.cons (follows.contributes first others hwait) .nil
          rwa [List.append_nil] at hnew
  | openLedger keyword hkeyword pairs =>
      cases h with
      | openLedger h =>
          obtain ⟨-, chart, -, rfl⟩ := Progress.openChart_eq_ok.1 h
          exact ⟨[], [], rfl, quiet nofun .nil, (List.append_nil _).symm⟩
  | useAccount keyword hkeyword account haccount =>
      cases h with
      | useAccount => exact ⟨[], [], rfl, quiet nofun .nil, (List.append_nil _).symm⟩
  | inclusion keyword hkeyword path hpath =>
      cases h with
      | inclusion h =>
          obtain ⟨inner, new, hwalks, hnew, hafter⟩ := h
          exact ⟨inner, new, hwalks, quiet nofun hnew, hafter⟩
  | journal keyword hkeyword path hpath =>
      cases h with
      | journal h =>
          obtain ⟨inner, new, hwalks, hnew, hafter⟩ := h
          refine ⟨inner, new, hwalks, quiet nofun hnew, ?_⟩
          dsimp only at hafter ⊢
          rw [hafter]
          rfl

theorem Item.contributesAll {files : Files} {read : Visit → Books → Traced Books} {file : String}
    {scope : Scope} {before items : List Item} {p q : Progress}
    (formed : ∀ item ∈ items, item.Formed) (follows : p.Follows file before)
    (sound : ∀ visit books after, (read visit books).result = .ok after →
      Adds files visit.path books.pending after.pending)
    (h : (items.map (·.statement file)).foldlM
      (fun p s => (Statement.run read file scope p s).result) p = .ok q) :
    ∃ passages new, Walk files file before items passages ∧ Contribute passages new ∧
      q.books.pending = p.books.pending ++ new := by
  induction items generalizing before p with
  | nil =>
      cases h
      exact ⟨[], [], .done, .nil, (List.append_nil _).symm⟩
  | cons item items ih =>
      obtain ⟨hitem, hitems⟩ := List.forall_mem_cons.1 formed
      obtain ⟨mid, hmid, hrest⟩ := foldlM_cons_eq_ok.1 h
      have hdoes := Statement.does_of_run sound hmid
      obtain ⟨inner, new, hinner, hnew, hpending⟩ := Item.contributes follows hdoes
      obtain ⟨passages, entries, hwalk, hentries, hafter⟩ :=
        ih hitems (Item.follows hitem follows hdoes) hrest
      refine ⟨_, _, .cons hinner hwalk, hnew.append hentries, ?_⟩
      rw [hafter, hpending, List.append_assoc]

theorem Books.read_adds {files : Files} {depth : Nat} {visit : Visit} {books after : Books}
    (h : (read files depth visit books).result = .ok after) :
    Adds files visit.path books.pending after.pending := by
  induction depth generalizing visit books after with
  | zero => cases h
  | succ depth ih =>
      rw [result_read_succ] at h
      split at h
      · cases h
      · next text htext =>
        rw [Script.result_run, bind_eq_ok] at h
        obtain ⟨p, hrun, hend⟩ := h
        split at hend
        · cases hend
        · next lastEnd hending =>
          obtain ⟨-, rfl⟩ := Progress.finish_eq_ok.1 hend
          obtain ⟨items, hitems, -, hstatements⟩ := Script.exists_items hending
          rw [hstatements] at hrun
          obtain ⟨passages, new, hwalk, hnew, hpending⟩ := Item.contributesAll hitems.formed
            (Progress.follows_begin books visit.path) (fun _ _ _ hread => ih hread) hrun
          exact ⟨passages, new, ⟨text, items, htext, hitems, hwalk⟩, hnew, hpending⟩

/-! ## The order of dates -/

/-- The same entries in the order of their dates. Those of one day stay in the
    order in which they stood. -/
structure Entry.Sorted (entries sorted : List Entry) : Prop where
  perm : sorted.Perm entries
  ordered : sorted.Pairwise fun a b => a.date ≤ b.date
  stable : ∀ date : Date, sorted.filter (·.date = date) = entries.filter (·.date = date)

namespace Entry

theorem mem_iff_of_days {first second : List Entry}
    (hdays : ∀ date : Date, first.filter (·.date = date) = second.filter (·.date = date))
    (entry : Entry) : entry ∈ first ↔ entry ∈ second := by
  have hday := congrArg (entry ∈ ·) (hdays entry.date)
  simpa using hday

/-- Lists in the order of dates are the same if each day has the same entries. -/
theorem eq_of_days {first second : List Entry} (h : first.Pairwise fun a b => a.date ≤ b.date)
    (h' : second.Pairwise fun a b => a.date ≤ b.date)
    (hdays : ∀ date : Date, first.filter (·.date = date) = second.filter (·.date = date)) :
    first = second := by
  have hmem := mem_iff_of_days hdays
  induction first generalizing second with
  | nil =>
      refine (List.eq_nil_iff_forall_not_mem.2 fun entry hentry => ?_).symm
      cases (hmem entry).2 hentry
  | cons a first ih =>
      cases second with
      | nil => cases (hmem a).1 List.mem_cons_self
      | cons b second =>
          obtain ⟨ha, hfirst⟩ := List.pairwise_cons.1 h
          obtain ⟨hb, hsecond⟩ := List.pairwise_cons.1 h'
          have leastA : ∀ entry ∈ a :: first, a.date ≤ entry.date :=
            List.forall_mem_cons.2 ⟨Date.le_refl a.date, ha⟩
          have leastB : ∀ entry ∈ b :: second, b.date ≤ entry.date :=
            List.forall_mem_cons.2 ⟨Date.le_refl b.date, hb⟩
          have hsame : a.date = b.date :=
            Date.le_antisymm (leastA b ((hmem b).2 List.mem_cons_self))
              (leastB a ((hmem a).1 List.mem_cons_self))
          have hheads := hdays a.date
          simp only [List.filter_cons, hsame, decide_true, if_true] at hheads
          obtain rfl := (List.cons.inj hheads).1
          have hrest (date : Date) :
              first.filter (·.date = date) = second.filter (·.date = date) := by
            have hday := hdays date
            simp only [List.filter_cons] at hday
            split at hday
            · exact (List.cons.inj hday).2
            · exact hday
          exact congrArg (a :: ·) (ih hfirst hsecond hrest (mem_iff_of_days hrest))

theorem Sorted.unique {entries sorted other : List Entry} (h : Sorted entries sorted)
    (h' : Sorted entries other) : sorted = other :=
  eq_of_days h.ordered h'.ordered fun date => (h.stable date).trans (h'.stable date).symm

theorem sorted_mergeSort (entries : List Entry) :
    Sorted entries (entries.mergeSort fun a b => a.date ≤ b.date) := by
  refine ⟨List.mergeSort_perm _ _,
    (List.pairwise_mergeSort date_trans date_total entries).imp of_decide_eq_true, fun date => ?_⟩
  have hday : (entries.filter (·.date = date)).Pairwise fun a b => decide (a.date ≤ b.date) := by
    refine List.pairwise_of_forall_mem_list fun a ha b hb => ?_
    simp only [List.mem_filter, decide_eq_true_eq] at ha hb
    rw [ha.2, hb.2]
    exact decide_eq_true (Date.le_refl date)
  have hsub := (List.sublist_mergeSort date_trans date_total hday List.filter_sublist).filter
    (fun entry => decide (entry.date = date))
  rw [List.filter_filter] at hsub
  simp only [Bool.and_self] at hsub
  refine (hsub.eq_of_length ?_).symm
  exact ((List.mergeSort_perm entries _).filter _).length_eq.symm

end Entry

/-! ## Legs -/

theorem Passage.Contributes.legs {p : Passage} {new : List Entry} (h : p.Contributes new) :
    new.flatMap (·.legs) = p.legs := by
  cases h with
  | joint hitem _ _ hcontra =>
      simp [Passage.legs, Item.posted, hitem, hcontra, List.map_eq_flatMap]
  | balanced hitem _ _ hcontra =>
      simp [Passage.legs, Item.posted, hitem, hcontra, List.flatMap_map]
  | nothing hitem =>
      rw [Passage.legs, Item.posted_eq_nil hitem]
      rfl

theorem Contribute.legs {passages : List Passage} {entries : List Entry}
    (h : Contribute passages entries) :
    entries.flatMap (·.legs) = passages.flatMap Passage.legs := by
  induction h with
  | nil => rfl
  | cons hp _ ih => rw [List.flatMap_append, List.flatMap_cons, hp.legs, ih]

namespace Draft

/-- There is one walk through all files, and one row of entries that its passages
    contribute. A draft holds just these entries, in the order of their dates. -/
theorem read_eq_walk {files : Files} {root : String} {d : Draft}
    (h : (read files root).result = .ok d) :
    ∃ passages entries,
      (∀ others, Walks files root others ↔ others = passages) ∧
      (∀ others, Contribute passages others ↔ others = entries) ∧
      (∀ sorted, Entry.Sorted entries sorted ↔ sorted = d.pending) ∧
      (d.pending.flatMap (·.legs)).Perm (passages.flatMap Passage.legs) := by
  rw [result_read] at h
  obtain ⟨books, hbooks, rfl⟩ := map_eq_ok.1 h
  obtain ⟨passages, entries, hwalks, hentries, hpending⟩ := Books.read_adds hbooks
  have hsame : books.pending = entries := hpending
  have hsorted : Entry.Sorted entries (ofBooks root books).pending :=
    hsame ▸ Entry.sorted_mergeSort books.pending
  refine ⟨passages, entries, ?_, ?_, ?_, ?_⟩
  · exact fun others => ⟨fun hothers => hothers.unique hwalks, fun hothers => hothers ▸ hwalks⟩
  · exact fun others => ⟨fun hothers => hothers.unique hentries, fun hothers => hothers ▸ hentries⟩
  · exact fun sorted => ⟨fun h => h.unique hsorted, fun h => h ▸ hsorted⟩
  · rw [← hentries.legs]
    exact hsorted.perm.flatMap_right _

/-- Books with an inclusion and a journal between two dates. -/
def branchFiles : Files := .inMemory [
  ("main", "2020-03-01 5 ASSETS/Cash -2.50 Gift\nuse account ASSETS/Bank\n" ++
    "include \"shop\"\njournal \"club\"\n2020-03-02 7 INCOME/Sales 1 EXPENSES/Rent\n"),
  ("shop", "2020-03-01 3 EXPENSES/Rent 3 INCOME/Sales\n"),
  ("club", "2020-02-01 -4 ASSETS/Cash\nuse account CAPITAL/Own\n2020-03-01 6 ASSETS/Cash\n")]

theorem read_eq_walk_branchFiles :
    ∃ d passages entries, (read branchFiles "main").result = .ok d ∧
      Walks branchFiles "main" passages ∧ Contribute passages entries ∧
      Entry.Sorted entries d.pending := by
  have hok : (read branchFiles "main").result.isOk := by decide +kernel
  cases hread : (read branchFiles "main").result with
  | error fault =>
      rw [hread] at hok
      cases hok
  | ok d =>
      obtain ⟨passages, entries, hwalks, hentries, hsorted, -⟩ := read_eq_walk hread
      exact ⟨d, passages, entries, rfl, (hwalks passages).2 rfl, (hentries entries).2 rfl,
        (hsorted d.pending).2 rfl⟩

end Draft

end DoubleEntry
