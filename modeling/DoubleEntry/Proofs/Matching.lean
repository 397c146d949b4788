import DoubleEntry.Proofs.Checking
import DoubleEntry.Proofs.Unplaced

/-! # Checking drafts that match

A check looks at the movements of an entry and at nothing else of it. Drafts with
the same accounts, and with entries that move the same on the same accounts,
therefore become ledgers that match, or faults of one kind are found in both. The
entries may be related more closely than the check needs; the relation is then
kept in the histories.
-/

namespace DoubleEntry

/-- Legs that move the same on one account. -/
structure Leg.Matches (leg other : Leg) : Prop where
  account : leg.account = other.account
  signed : leg.amount.signed = other.amount.signed

/-- Entries of one day with the same movements. -/
structure Entry.Matches (entry other : Entry) : Prop where
  date : entry.date = other.date
  legs : List.Forall₂ Leg.Matches entry.legs other.legs

/-- Accounts with the same balances, whose entries are related. -/
structure Account.Matches (R : Entry → Entry → Prop) (a b : Account) : Prop where
  name : a.name = b.name
  category : a.category = b.category
  opening : a.opening = b.opening
  closing : a.closing = b.closing
  history : List.Forall₂ R a.history b.history

/-- Drafts of the same dates whose accounts match and whose entries are related. -/
structure Draft.Matches (R : Entry → Entry → Prop) (d d' : Draft) : Prop where
  accounts : List.Forall₂ (Account.Matches R) d.chart.accounts d'.chart.accounts
  pending : List.Forall₂ R d.pending d'.pending
  start : d.chart.start = d'.chart.start
  finish : d.finish = d'.finish

/-- Ledgers of the same dates whose accounts match. -/
structure Ledger.Matches (R : Entry → Entry → Prop) (ledger other : Ledger) : Prop where
  accounts : List.Forall₂ (Account.Matches R) ledger.accounts other.accounts
  start : ledger.start = other.start
  finish : ledger.finish = other.finish

theorem rel_find?_of_forall₂ {α β : Type} {R : α → β → Prop} {p : α → Bool} {q : β → Bool}
    {l : List α} {l' : List β} (h : List.Forall₂ R l l') (hsame : ∀ a b, R a b → p a = q b) :
    Option.Rel R (l.find? p) (l'.find? q) := by
  induction h with
  | nil => exact .none
  | @cons a b _ _ hab _ ih =>
      rw [List.find?_cons, List.find?_cons, hsame a b hab]
      cases q b with
      | true => exact .some hab
      | false => exact ih

theorem map_eq_of_forall₂ {α β γ : Type} {R : α → β → Prop} {f : α → γ} {g : β → γ}
    {l : List α} {l' : List β} (h : List.Forall₂ R l l') (hsame : ∀ a b, R a b → f a = g b) :
    l.map f = l'.map g := by
  have hmap : List.Forall₂ Eq (l.map f) (l'.map g) := List.rel_map (fun a b => hsame a b) h
  rwa [List.forall₂_eq_eq_eq] at hmap

theorem Agree.mapM {α α' β β' : Type} {R : α → α' → Prop} {S : β → β' → Prop}
    {f : α → Except Fault β} {g : α' → Except Fault β'} {l : List α} {l' : List α'}
    (hl : List.Forall₂ R l l') (hstep : ∀ a b, R a b → Agree S (f a) (g b)) :
    Agree (List.Forall₂ S) (l.mapM f) (l'.mapM g) := by
  induction hl with
  | nil => exact .ok .nil
  | cons hab _ ih =>
      rw [List.mapM_cons, List.mapM_cons]
      refine (hstep _ _ hab).bind fun c d hcd => ?_
      exact ih.bind fun cs ds hcds => .ok (.cons hcd hcds)

/-! ## Entries and accounts -/

namespace Leg

theorem sum_of_matches {legs others : List Leg} (h : List.Forall₂ Matches legs others) :
    sum legs = sum others :=
  congrArg List.sum (map_eq_of_forall₂ h fun _ _ => Matches.signed)

end Leg

namespace Entry.Matches

variable {entry other : Entry}

theorem touches (h : entry.Matches other) (account : String) :
    entry.touches account = other.touches account := by
  have hnames : entry.legs.map (decide <| ·.account = account) =
      other.legs.map (decide <| ·.account = account) :=
    map_eq_of_forall₂ h.legs fun leg other hleg => by rw [hleg.account]
  have hany (legs : List Leg) : legs.any (·.account = account) =
      (legs.map (decide <| ·.account = account)).any id := by
    rw [List.any_map]
    rfl
  rw [Entry.touches, Entry.touches, hany, hany, hnames]

theorem legsIn (h : entry.Matches other) {a b : Account} (hname : a.name = b.name) :
    List.Forall₂ Leg.Matches (a.legsIn entry) (b.legsIn other) := by
  unfold Account.legsIn
  refine List.rel_filter ?_ h.legs
  intro leg other hleg
  simp only [hleg.account, hname]

end Entry.Matches

section Related

variable {R : Entry → Entry → Prop} {accounts accounts' : List Account}

theorem Account.names_of_matches (h : List.Forall₂ (Matches R) accounts accounts') :
    names accounts = names accounts' :=
  map_eq_of_forall₂ h fun _ _ => Matches.name

theorem Account.total_of_matches {f : Account → Amount}
    (h : List.Forall₂ (Matches R) accounts accounts')
    (hsame : ∀ a b, a.Matches R b → f a = f b) : total f accounts = total f accounts' :=
  congrArg List.sum (map_eq_of_forall₂ h fun a b hab => by rw [hsame a b hab])

theorem Account.all_ne_of_names (h : names accounts = names accounts') (name : String) :
    accounts.all (·.name ≠ name) = accounts'.all (·.name ≠ name) := by
  have hall (accounts : List Account) :
      accounts.all (·.name ≠ name) = (names accounts).all (· ≠ name) := by
    rw [names, List.all_map]
    rfl
  rw [hall, hall, h]

variable (matching : ∀ entry other, R entry other → entry.Matches other)

include matching

theorem Entry.record_matches {entry other : Entry} (hentry : R entry other)
    (h : List.Forall₂ (Account.Matches R) accounts accounts') :
    List.Forall₂ (Account.Matches R) (entry.record accounts) (other.record accounts') := by
  induction h with
  | nil => exact .nil
  | @cons a b rest rest' hab hrest ih =>
      have htouches := (matching _ _ hentry).touches a.name
      have hnames := Account.all_ne_of_names (Account.names_of_matches hrest) a.name
      rw [record, record, ← hab.name, ← htouches, ← hnames]
      split
      · refine .cons ⟨rfl, hab.category, hab.opening, hab.closing, ?_⟩ ih
        exact List.rel_append hab.history (.cons hentry .nil)
      · exact .cons hab ih

theorem Entry.post_agrees {entry other : Entry} (hentry : R entry other)
    (h : List.Forall₂ (Account.Matches R) accounts accounts') :
    Agree (List.Forall₂ (Account.Matches R)) (post accounts entry) (post accounts' other) := by
  have hmatches := matching _ _ hentry
  have hstray : Option.Rel Leg.Matches (entry.stray? accounts) (other.stray? accounts') := by
    refine rel_find?_of_forall₂ hmatches.legs fun leg leg' hleg => ?_
    rw [hleg.account, Account.all_ne_of_names (Account.names_of_matches h)]
  unfold post
  generalize entry.stray? accounts = x at hstray
  generalize other.stray? accounts' = y at hstray
  cases hstray with
  | some => exact .error rfl
  | none =>
      dsimp only
      rw [← Leg.sum_of_matches hmatches.legs]
      split
      · exact .ok (record_matches matching hentry h)
      · exact .error rfl

theorem Account.Matches.balance {a b : Account} (h : a.Matches R b) : a.balance = b.balance := by
  have hlegs : List.Forall₂ Leg.Matches a.ownLegs b.ownLegs :=
    List.rel_flatMap h.history fun entry other hentry => (matching entry other hentry).legsIn h.name
  rw [Account.balance, Account.balance, h.opening, Leg.sum_of_matches hlegs]

theorem Account.close_agrees {a b : Account} (h : a.Matches R b) :
    Agree (Matches R) a.close b.close := by
  unfold close
  rw [h.balance matching]
  cases Amount.ofSigned? b.balance with
  | none => exact .error rfl
  | some amount =>
      refine .ok ⟨h.name, h.category, h.opening, ?_, h.history⟩
      dsimp only
      rw [h.category]

/-- Checking drafts that match gives ledgers that match, or faults of one kind. -/
theorem Draft.check_agrees {d d' : Draft} (h : d.Matches R d') :
    Agree (Ledger.Matches R) d.check d'.check := by
  have hopening := Account.total_of_matches (f := (·.opening)) h.accounts
    fun _ _ => Account.Matches.opening
  unfold check
  dsimp only
  rw [hopening]
  split
  · refine (Agree.foldlM h.pending h.accounts fun haccounts hentry =>
      Entry.post_agrees matching hentry haccounts).bind ?_
    intro posted posted' hposted
    refine (Agree.mapM hposted fun a b hab => Account.close_agrees matching hab).bind ?_
    intro closed closed' hclosed
    rw [Account.total_of_matches (f := (·.closing)) hclosed fun _ _ => Account.Matches.closing]
    split
    · exact .ok ⟨hclosed, h.start, h.finish⟩
    · exact .error rfl
  · exact .error rfl

end Related

end DoubleEntry
