import DoubleEntry.Proofs.Reading
import Mathlib.Algebra.BigOperators.Group.List.Basic
import Mathlib.Algebra.Ring.Int.Defs
import Mathlib.Data.List.Nodup

/-! # Posting

Posting goes through the pending entries in their order and stops at the first
one that is not sound. If all are sound, every account has got the entries that
touch it, each of them once and in their order, and what the entries move on all
accounts together adds up to nothing.
-/

namespace DoubleEntry

/-! ## Complaints -/

/-- What a fault says to whoever reads it. -/
structure Complaint where
  kind : FaultKind
  text : String
  place : Span
  deriving Repr, DecidableEq

def Fault.complaint (fault : Fault) : Complaint :=
  ⟨fault.cause.kind, fault.cause.message, fault.span⟩

/-- Some work ends with a fault that says `c`. -/
def Complains {α : Type} (result : Except Fault α) (c : Complaint) : Prop :=
  ∃ fault, result = .error fault ∧ fault.complaint = c

theorem complains_error {α : Type} {fault : Fault} {c : Complaint} :
    Complains (.error fault : Except Fault α) c ↔ c = fault.complaint := by
  constructor
  · intro h
    obtain ⟨other, h, rfl⟩ := h
    cases h
    rfl
  · intro h
    exact ⟨fault, rfl, h.symm⟩

theorem not_complains_ok {α : Type} {a : α} {c : Complaint} :
    ¬ Complains (.ok a : Except Fault α) c := by
  intro h
  obtain ⟨fault, h, -⟩ := h
  cases h

theorem complains_bind {α β : Type} {x : Except Fault α} {f : α → Except Fault β} {c : Complaint} :
    Complains (x.bind f) c ↔ Complains x c ∨ ∃ a, x = .ok a ∧ Complains (f a) c := by
  cases x with
  | error fault =>
      change Complains (.error fault) c ↔ _
      simp [complains_error]
  | ok a =>
      constructor
      · intro h
        exact .inr ⟨a, rfl, h⟩
      · intro h
        rcases h with h | ⟨b, h, hb⟩
        · exact absurd h not_complains_ok
        · cases h
          exact hb

theorem complains_map {α β : Type} {x : Except Fault α} {f : α → β} {c : Complaint} :
    Complains (x.map f) c ↔ Complains x c := by
  cases x with
  | error fault =>
      change Complains (.error fault) c ↔ _
      simp [complains_error]
  | ok a => exact ⟨fun h => absurd h not_complains_ok, fun h => absurd h not_complains_ok⟩

/-- Some element satisfies `Q`, and all that stand before it satisfy `P`. -/
def First {α : Type} (P Q : α → Prop) (l : List α) : Prop :=
  ∃ before x after, l = before ++ x :: after ∧ (∀ b ∈ before, P b) ∧ Q x

theorem not_first_nil {α : Type} {P Q : α → Prop} : ¬ First P Q [] := by
  intro h
  obtain ⟨before, x, after, h, -⟩ := h
  simp at h

theorem first_cons {α : Type} {P Q : α → Prop} {a : α} {l : List α} :
    First P Q (a :: l) ↔ Q a ∨ (P a ∧ First P Q l) := by
  constructor
  · intro h
    obtain ⟨before, x, after, h, hbefore, hx⟩ := h
    cases before with
    | nil => cases h; exact .inl hx
    | cons b before =>
        cases h
        exact .inr ⟨hbefore _ List.mem_cons_self, before, x, after, rfl,
          fun c hc => hbefore c (List.mem_cons_of_mem _ hc), hx⟩
  · intro h
    rcases h with ha | ⟨ha, before, x, after, rfl, hbefore, hx⟩
    · exact ⟨[], a, l, rfl, List.forall_mem_nil _, ha⟩
    · refine ⟨a :: before, x, after, rfl, ?_, hx⟩
      intro b hb
      rcases List.mem_cons.1 hb with rfl | hb
      · exact ha
      · exact hbefore b hb

theorem first_append {α : Type} {P Q : α → Prop} {l l' : List α} :
    First P Q (l ++ l') ↔ First P Q l ∨ ((∀ a ∈ l, P a) ∧ First P Q l') := by
  induction l with
  | nil => simp [not_first_nil]
  | cons a l ih =>
      rw [List.cons_append, first_cons, first_cons, ih, List.forall_mem_cons]
      tauto

theorem first_map {α β : Type} {P Q : β → Prop} {f : α → β} {l : List α} :
    First P Q (l.map f) ↔ First (fun a => P (f a)) (fun a => Q (f a)) l := by
  induction l with
  | nil => exact ⟨fun h => absurd h not_first_nil, fun h => absurd h not_first_nil⟩
  | cons a l ih => rw [List.map_cons, first_cons, first_cons, ih]

theorem first_congr {α : Type} {P P' Q Q' : α → Prop} {l : List α}
    (hp : ∀ a ∈ l, P a ↔ P' a) (hq : ∀ a ∈ l, Q a ↔ Q' a) : First P Q l ↔ First P' Q' l := by
  induction l with
  | nil => exact ⟨fun h => absurd h not_first_nil, fun h => absurd h not_first_nil⟩
  | cons a l ih =>
      obtain ⟨hpa, hpl⟩ := List.forall_mem_cons.1 hp
      obtain ⟨hqa, hql⟩ := List.forall_mem_cons.1 hq
      rw [first_cons, first_cons, hpa, hqa, ih hpl hql]

theorem exists_find?_iff_first {α : Type} {p : α → Bool} {Q : α → Prop} {l : List α} :
    (∃ x, l.find? p = some x ∧ Q x) ↔ First (fun x => p x = false) (fun x => p x ∧ Q x) l := by
  induction l with
  | nil => simp [not_first_nil]
  | cons a l ih =>
      rw [first_cons, ← ih, List.find?_cons]
      cases p a <;> simp

/-! ## Sound entries -/

def Account.names (accounts : List Account) : List String := accounts.map (·.name)

namespace Entry

/-- An entry that can be posted: all its legs are on accounts of the chart, and
    they add up to zero. -/
structure Sound (names : List String) (entry : Entry) : Prop where
  known : ∀ leg ∈ entry.legs, leg.account ∈ names
  balanced : Leg.sum entry.legs = 0

/-- What is said about an entry that cannot be posted. An unknown account, the
    first one of the entry, comes before a sum that is not zero. -/
inductive Violation (names : List String) (entry : Entry) (c : Complaint) : Prop where
  | unknown (h : First (fun leg => leg.account ∈ names)
      (fun leg => leg.account ∉ names ∧
        c = ⟨.account, "Unknown account " ++ leg.account ++ ".", leg.span⟩) entry.legs)
  | unbalanced (known : ∀ leg ∈ entry.legs, leg.account ∈ names) (off : Leg.sum entry.legs ≠ 0)
      (h : c = ⟨.notBalanced, "Unbalanced entry on " ++ entry.date.text ++ ". Diff: " ++
        toString (Leg.sum entry.legs), entry.span⟩)

end Entry

/-- An account after some entries have been posted. -/
def Account.posted (entries : List Entry) (a : Account) : Account :=
  { a with history := a.history ++ entries.filter (·.touches a.name) }

namespace Account

@[simp] theorem posted_nil (a : Account) : a.posted [] = a := by simp [posted]

@[simp] theorem posted_posted (first second : List Entry) (a : Account) :
    (a.posted first).posted second = a.posted (first ++ second) := by
  simp [posted]

@[simp] theorem names_map_posted (entries : List Entry) (accounts : List Account) :
    names (accounts.map (posted entries)) = names accounts := by
  simp [names, posted, Function.comp_def]

end Account

namespace Entry

/-- Under distinct names each account decides for itself whether it gets an entry. -/
theorem record_eq_map (entry : Entry) {accounts : List Account}
    (distinct : (Account.names accounts).Nodup) :
    entry.record accounts = accounts.map (Account.posted [entry]) := by
  induction accounts with
  | nil => rfl
  | cons a rest ih =>
      obtain ⟨hnew, hrest⟩ := List.nodup_cons.1 distinct
      have hall : rest.all (·.name ≠ a.name) = true := by
        simpa [Account.names] using hnew
      rw [record, List.map_cons, ih hrest]
      by_cases htouch : entry.touches a.name
      · rw [if_pos ⟨htouch, hall⟩]
        simp [Account.posted, htouch]
      · rw [if_neg fun h => htouch h.1]
        simp [Account.posted, htouch]

theorem stray?_eq_none {accounts : List Account} {entry : Entry} :
    entry.stray? accounts = none ↔ ∀ leg ∈ entry.legs, leg.account ∈ Account.names accounts := by
  simp [stray?, Account.names]

theorem exists_stray?_iff {accounts : List Account} {entry : Entry} {Q : Leg → Prop} :
    (∃ leg, entry.stray? accounts = some leg ∧ Q leg) ↔
      First (fun leg => leg.account ∈ Account.names accounts)
        (fun leg => leg.account ∉ Account.names accounts ∧ Q leg) entry.legs := by
  simp [stray?, exists_find?_iff_first, Account.names]

theorem post_eq_ok {accounts out : List Account} {entry : Entry}
    (distinct : (Account.names accounts).Nodup) :
    post accounts entry = .ok out ↔
      entry.Sound (Account.names accounts) ∧ accounts.map (Account.posted [entry]) = out := by
  rw [← record_eq_map entry distinct]
  unfold post
  cases hstray : entry.stray? accounts with
  | some leg =>
      have hunknown : ¬ entry.Sound (Account.names accounts) := fun h => by
        simp [stray?_eq_none.2 h.known] at hstray
      simp [hunknown]
  | none =>
      have hknown := stray?_eq_none.1 hstray
      by_cases hsum : Leg.sum entry.legs = 0
      · have hsound : entry.Sound (Account.names accounts) := ⟨hknown, hsum⟩
        simp [hsum, hsound]
      · have hoff : ¬ entry.Sound (Account.names accounts) := fun h => hsum h.balanced
        simp [hsum, hoff]

theorem post_eq_error {accounts : List Account} {entry : Entry} {fault : Fault}
    (h : post accounts entry = .error fault) :
    (∃ leg : Leg, fault = ⟨.unknownAccount leg.account, leg.span⟩) ∨
      (Leg.sum entry.legs ≠ 0 ∧
        fault = ⟨.unbalanced entry.date (Leg.sum entry.legs), entry.span⟩) := by
  unfold post at h
  split at h
  · next leg _ =>
    cases h
    exact .inl ⟨leg, rfl⟩
  · split at h
    · cases h
    · next hsum =>
      cases h
      exact .inr ⟨hsum, rfl⟩

theorem complains_post {accounts : List Account} {entry : Entry} {c : Complaint} :
    Complains (post accounts entry) c ↔ entry.Violation (Account.names accounts) c := by
  unfold post
  constructor
  · intro h
    split at h
    · next leg hstray =>
      exact .unknown (exists_stray?_iff.1 ⟨leg, hstray, complains_error.1 h⟩)
    · next hstray =>
      split at h
      · exact absurd h not_complains_ok
      · next hsum => exact .unbalanced (stray?_eq_none.1 hstray) hsum (complains_error.1 h)
  · intro h
    rcases h with h | ⟨known, off, h⟩
    · obtain ⟨leg, hstray, hc⟩ := exists_stray?_iff.2 h
      rw [hstray]
      exact complains_error.2 hc
    · rw [stray?_eq_none.2 known]
      simp only [if_neg off]
      exact complains_error.2 h

/-! ## Posting all entries -/

/-- All entries are posted exactly if all of them are sound. -/
theorem postAll_eq_ok {accounts out : List Account} {pending : List Entry}
    (distinct : (Account.names accounts).Nodup) :
    pending.foldlM post accounts = .ok out ↔
      (∀ entry ∈ pending, entry.Sound (Account.names accounts)) ∧
        accounts.map (Account.posted pending) = out := by
  induction pending generalizing accounts out with
  | nil =>
      have hid : Account.posted [] = id := funext Account.posted_nil
      rw [hid, List.map_id]
      constructor
      · intro h
        cases h
        exact ⟨List.forall_mem_nil _, rfl⟩
      · intro h
        exact congrArg Except.ok h.2
  | cons entry rest ih =>
      have hstep (out : List Account) :
          rest.foldlM post (accounts.map (Account.posted [entry])) = .ok out ↔
            (∀ e ∈ rest, e.Sound (Account.names accounts)) ∧
              accounts.map (Account.posted (entry :: rest)) = out := by
        rw [ih (by simpa using distinct)]
        simp [Function.comp_def]
      rw [foldlM_cons_eq_ok]
      constructor
      · intro h
        obtain ⟨mid, hmid, hrest⟩ := h
        obtain ⟨hsound, rfl⟩ := (post_eq_ok distinct).1 hmid
        obtain ⟨hall, hout⟩ := (hstep out).1 hrest
        exact ⟨List.forall_mem_cons.2 ⟨hsound, hall⟩, hout⟩
      · intro h
        obtain ⟨hall, hout⟩ := h
        obtain ⟨hsound, hrest⟩ := List.forall_mem_cons.1 hall
        exact ⟨_, (post_eq_ok distinct).2 ⟨hsound, rfl⟩, (hstep out).2 ⟨hrest, hout⟩⟩

/-- Otherwise the first entry that is not sound says what is wrong. -/
theorem complains_postAll {accounts : List Account} {pending : List Entry} {c : Complaint}
    (distinct : (Account.names accounts).Nodup) :
    Complains (pending.foldlM post accounts) c ↔
      First (fun entry => entry.Sound (Account.names accounts))
        (fun entry => entry.Violation (Account.names accounts) c) pending := by
  induction pending generalizing accounts with
  | nil => exact ⟨fun h => absurd h not_complains_ok, fun h => absurd h not_first_nil⟩
  | cons entry rest ih =>
      have hrest : Complains (rest.foldlM post (accounts.map (Account.posted [entry]))) c ↔
          First (fun e => e.Sound (Account.names accounts))
            (fun e => e.Violation (Account.names accounts) c) rest := by
        rw [ih (by simpa using distinct), Account.names_map_posted]
      rw [first_cons, ← complains_post, ← hrest]
      refine complains_bind.trans (or_congr_right ?_)
      constructor
      · intro h
        obtain ⟨mid, hmid, hc⟩ := h
        obtain ⟨hsound, rfl⟩ := (post_eq_ok distinct).1 hmid
        exact ⟨hsound, hc⟩
      · intro h
        obtain ⟨hsound, hc⟩ := h
        exact ⟨_, (post_eq_ok distinct).2 ⟨hsound, rfl⟩, hc⟩

/-! ## What entries move -/

/-- The legs of all entries on the account of a name, added up. -/
def movement (entries : List Entry) (name : String) : Int :=
  Leg.sum ((entries.flatMap (·.legs)).filter (·.account = name))

end Entry

theorem Leg.sum_cons (leg : Leg) (legs : List Leg) :
    sum (leg :: legs) = leg.amount.signed + sum legs := rfl

theorem Leg.sum_append (first second : List Leg) :
    sum (first ++ second) = sum first + sum second := by
  simp [sum]

/-- Values add up to the same whether or not they are grouped by a key. -/
theorem sum_by_key {α κ : Type} [DecidableEq κ] (key : α → κ) (value : α → Int) {keys : List κ}
    {items : List α} (distinct : keys.Nodup) (known : ∀ item ∈ items, key item ∈ keys) :
    (keys.map fun k => ((items.filter (key · = k)).map value).sum).sum =
      (items.map value).sum := by
  induction items with
  | nil => simp
  | cons item items ih =>
      obtain ⟨hitem, hitems⟩ := List.forall_mem_cons.1 known
      have hsplit (k : κ) : (((item :: items).filter (key · = k)).map value).sum =
          (if k = key item then value item else 0) +
            ((items.filter (key · = k)).map value).sum := by
        by_cases h : key item = k
        · simp [h]
        · simp [h, Ne.symm h]
      calc
        _ = (keys.map fun k => if k = key item then value item else 0).sum +
              (keys.map fun k => ((items.filter (key · = k)).map value).sum).sum := by
          simp only [hsplit, List.sum_map_add]
        _ = value item + (items.map value).sum := by
          rw [ih hitems, List.sum_map_ite_eq, List.count_eq_one_of_mem distinct hitem]
          simp

theorem Leg.sum_by_name {names : List String} {legs : List Leg} (distinct : names.Nodup)
    (known : ∀ leg ∈ legs, leg.account ∈ names) :
    (names.map fun name => sum (legs.filter (·.account = name))).sum = sum legs :=
  sum_by_key Leg.account (fun leg : Leg => leg.amount.signed) distinct known

namespace Entry

theorem sum_legs_eq_zero {names : List String} {entries : List Entry}
    (sound : ∀ entry ∈ entries, entry.Sound names) :
    Leg.sum (entries.flatMap (·.legs)) = 0 := by
  induction entries with
  | nil => rfl
  | cons entry rest ih =>
      obtain ⟨hentry, hrest⟩ := List.forall_mem_cons.1 sound
      rw [List.flatMap_cons, Leg.sum_append, hentry.balanced, ih hrest, Int.add_zero]

theorem sum_movement {names : List String} {entries : List Entry} (distinct : names.Nodup)
    (sound : ∀ entry ∈ entries, entry.Sound names) :
    (names.map (movement entries)).sum = 0 := by
  have known : ∀ leg ∈ entries.flatMap (·.legs), leg.account ∈ names := by
    intro leg hleg
    obtain ⟨entry, hentry, hleg⟩ := List.mem_flatMap.1 hleg
    exact (sound entry hentry).known leg hleg
  exact (Leg.sum_by_name distinct known).trans (sum_legs_eq_zero sound)

end Entry

namespace Account

theorem flatMap_legs_touching (entries : List Entry) (name : String) :
    (entries.filter (·.touches name)).flatMap (fun entry => entry.legs.filter (·.account = name)) =
      (entries.flatMap (·.legs)).filter (·.account = name) := by
  induction entries with
  | nil => rfl
  | cons entry rest ih =>
      rw [List.flatMap_cons, List.filter_append, ← ih, List.filter_cons]
      split
      · exact List.flatMap_cons
      · next htouch =>
        have hnone : entry.legs.filter (·.account = name) = [] := by
          simpa [Entry.touches] using htouch
        rw [hnone, List.nil_append]

/-- The legs on an account are found again in its history, none of them twice. -/
theorem ownLegs_posted {a : Account} (blank : a.history = []) (entries : List Entry) :
    (a.posted entries).ownLegs = (entries.flatMap (·.legs)).filter (·.account = a.name) := by
  rw [← flatMap_legs_touching]
  simp only [ownLegs, posted, blank, List.nil_append]
  rfl

theorem sum_ownLegs_posted {a : Account} (blank : a.history = []) (entries : List Entry) :
    Leg.sum (a.posted entries).ownLegs = Entry.movement entries a.name := by
  rw [Entry.movement, ownLegs_posted blank]

end Account

end DoubleEntry
