import DoubleEntry.Entry
import Mathlib.Data.List.Pairwise

/-! # Outlines

An outline keeps of what was read the postings and the journals, in reading
order. The postings that a journal holds belong to a stream of their own. Their
entries are put behind those of the stream that asks for the journal, so two
dates can stand before the next postings of that stream: that of the last
postings of its own, and that of the last entry a journal has put behind them.
-/

namespace DoubleEntry

/-- The postings of a stream in reading order. A journal stands where it is asked
    for, with its own stream. -/
inductive Outline where
  | done
  | postings (date : Date) (new : List Entry) (rest : Outline)
  | journal (inner rest : Outline)
  deriving Repr, DecidableEq

/-- The date of the last of some entries. -/
def Entry.lastDate (entries : List Entry) : Option Date := entries.getLast?.map (·.date)

theorem Entry.lastDate_append (first second : List Entry) :
    lastDate (first ++ second) = (lastDate second).or (lastDate first) := by
  rw [lastDate, List.getLast?_append]
  cases h : second.getLast? <;> simp [lastDate, h]

theorem Entry.lastDate_eq_some {entries : List Entry} {date : Date} (nonempty : entries ≠ [])
    (dated : ∀ entry ∈ entries, entry.date = date) : lastDate entries = some date := by
  rw [lastDate, List.getLast?_eq_some_getLast nonempty]
  exact congrArg some (dated _ (List.getLast_mem nonempty))

/-- What stands before the next postings of a stream. -/
structure Lead where
  /-- The date of the last postings of the stream. -/
  own : Option Date
  /-- The date of the last entry that journals have put behind those postings. -/
  merged : Option Date
  deriving Repr, DecidableEq

namespace Lead

def start : Lead := ⟨none, none⟩

/-- The date of the last entry of all. -/
def ahead (l : Lead) : Option Date := l.merged.or l.own

/-- A journal whose last entry has this date puts its entries behind. -/
def merge (l : Lead) (date : Option Date) : Lead := { l with merged := date.or l.merged }

theorem ahead_merge (l : Lead) (date : Option Date) : (l.merge date).ahead = date.or l.ahead :=
  Option.or_assoc

end Lead

/-- Postings at the moment when they are put behind what stands before them. -/
structure Arrival where
  date : Date
  lead : Lead
  deriving Repr, DecidableEq

namespace Arrival

/-- They are not earlier than the last entry of all. -/
def Passes (a : Arrival) : Prop := ∀ last ∈ a.lead.ahead, last ≤ a.date

/-- They are not earlier than the last postings of the same stream. -/
def InSequence (a : Arrival) : Prop := ∀ last ∈ a.lead.own, last ≤ a.date

/-- A journal lies between them and earlier postings of a later date, and its last
    entry is not later. -/
def Masked (a : Arrival) : Prop :=
  ∃ own merged, a.lead = ⟨some own, some merged⟩ ∧ merged ≤ a.date ∧ ¬ own ≤ a.date

/-- They are not earlier than the postings before them, but the last entry of a
    journal in between is later. -/
def Blocked (a : Arrival) : Prop :=
  a.InSequence ∧ ∃ merged, a.lead.merged = some merged ∧ ¬ merged ≤ a.date

theorem undisturbed_of_merged {a : Arrival} (h : a.lead.merged = none) :
    ¬ a.Masked ∧ ¬ a.Blocked := by
  constructor
  · intro hmasked
    obtain ⟨own, merged, hlead, -⟩ := hmasked
    rw [hlead] at h
    cases h
  · intro hblocked
    obtain ⟨-, merged, hmerged, -⟩ := hblocked
    rw [h] at hmerged
    cases hmerged

theorem inSequence_of_passes {a : Arrival} (h : a.Passes) : a.InSequence ↔ ¬ a.Masked := by
  obtain ⟨date, own, merged⟩ := a
  cases own <;> cases merged <;>
    simp_all [Passes, InSequence, Masked, Lead.ahead]

theorem inSequence_of_not_passes {a : Arrival} (h : ¬ a.Passes) : a.InSequence ↔ a.Blocked := by
  obtain ⟨date, own, merged⟩ := a
  cases own <;> cases merged <;>
    simp_all [Passes, InSequence, Blocked, Lead.ahead]

end Arrival

namespace Outline

def append : Outline → Outline → Outline
  | done, o => o
  | postings date new rest, o => postings date new (rest.append o)
  | journal inner rest, o => journal inner (rest.append o)

def entries : Outline → List Entry
  | done => []
  | postings _ new rest => new ++ rest.entries
  | journal inner rest => inner.entries ++ rest.entries

/-- The dates of the postings of a stream, without its journals. -/
def own : Outline → List Date
  | done => []
  | postings date _ rest => date :: rest.own
  | journal _ rest => rest.own

/-- The dates of the postings of each journal, at any depth. -/
def journals : Outline → List (List Date)
  | done => []
  | postings _ _ rest => rest.journals
  | journal inner rest => inner.own :: inner.journals ++ rest.journals

/-- In every stream the postings follow each other in the order of their dates. -/
def InOrder (o : Outline) : Prop := ∀ stream ∈ o.own :: o.journals, stream.Pairwise (· ≤ ·)

instance (o : Outline) : Decidable o.InOrder :=
  inferInstanceAs (Decidable (∀ stream ∈ o.own :: o.journals, stream.Pairwise (· ≤ ·)))

def count : Outline → Nat
  | done => 0
  | postings _ _ rest => rest.count + 1
  | journal inner rest => inner.count + rest.count

/-- The first `n` postings in reading order. -/
def upTo (n : Nat) : Outline → Outline
  | done => done
  | postings date new rest => if n = 0 then done else postings date new (rest.upTo (n - 1))
  | journal inner rest => journal (inner.upTo n) (rest.upTo (n - inner.count))

/-- What stands before the postings that come next. -/
def lead (l : Lead) : Outline → Lead
  | done => l
  | postings date _ rest => rest.lead ⟨some date, none⟩
  | journal inner rest => rest.lead (l.merge (Entry.lastDate inner.entries))

/-- All arrivals in reading order. A journal begins a stream. -/
def arrivals (l : Lead) : Outline → List Arrival
  | done => []
  | postings date _ rest => ⟨date, l⟩ :: rest.arrivals ⟨some date, none⟩
  | journal inner rest =>
    inner.arrivals .start ++ rest.arrivals (l.merge (Entry.lastDate inner.entries))

@[simp] theorem append_done (o : Outline) : o.append done = o := by
  induction o with
  | done => rfl
  | postings date new rest ih => exact congrArg (postings date new) ih
  | journal inner rest _ ih => exact congrArg (journal inner) ih

@[simp] theorem entries_append (o o' : Outline) :
    (o.append o').entries = o.entries ++ o'.entries := by
  induction o with
  | done => rfl
  | postings date new rest ih => simp only [append, entries, ih, List.append_assoc]
  | journal inner rest _ ih => simp only [append, entries, ih, List.append_assoc]

theorem arrivals_append (l : Lead) (o o' : Outline) :
    (o.append o').arrivals l = o.arrivals l ++ o'.arrivals (o.lead l) := by
  induction o generalizing l with
  | done => rfl
  | postings date new rest ih => simp only [append, arrivals, lead, ih, List.cons_append]
  | journal inner rest _ ih => simp only [append, arrivals, lead, ih, List.append_assoc]

theorem lead_append (l : Lead) (o o' : Outline) : (o.append o').lead l = o'.lead (o.lead l) := by
  induction o generalizing l with
  | done => rfl
  | postings date new rest ih => simp only [append, lead, ih]
  | journal inner rest _ ih => simp only [append, lead, ih]

theorem length_arrivals (l : Lead) (o : Outline) : (o.arrivals l).length = o.count := by
  induction o generalizing l with
  | done => rfl
  | postings date new rest ih => simp only [arrivals, count, List.length_cons, ih]
  | journal inner rest ihi ihr => simp only [arrivals, count, List.length_append, ihi, ihr]

theorem upTo_of_count_le {n : Nat} {o : Outline} (h : o.count ≤ n) : o.upTo n = o := by
  induction o generalizing n with
  | done => rfl
  | postings date new rest ih =>
      simp only [count] at h
      rw [upTo, if_neg (by omega), ih (by omega)]
  | journal inner rest ihi ihr =>
      simp only [count] at h
      rw [upTo, ihi (by omega), ihr (by omega)]

theorem arrivals_upTo (n : Nat) (l : Lead) (o : Outline) :
    (o.upTo n).arrivals l = (o.arrivals l).take n := by
  induction o generalizing n l with
  | done => simp [upTo, arrivals]
  | postings date new rest ih =>
      cases n with
      | zero => simp [upTo, arrivals]
      | succ n => simp [upTo, arrivals, ih]
  | journal inner rest ihi ihr =>
      rw [upTo, arrivals, arrivals, List.take_append, length_arrivals, ihi, ihr]
      by_cases h : inner.count ≤ n
      · rw [upTo_of_count_le h]
      · have hnone : n - inner.count = 0 := by omega
        rw [hnone, List.take_zero, List.take_zero]

instance : IsTrans Date (· ≤ ·) := ⟨fun _ _ _ => Date.le_trans⟩

/-- The postings of a stream are in order if each of them is not earlier than the
    one before it in the stream. -/
theorem forall_arrivals_inSequence (l : Lead) (o : Outline) :
    (∀ a ∈ o.arrivals l, a.InSequence) ↔
      (l.own.toList ++ o.own).Pairwise (· ≤ ·) ∧
        ∀ stream ∈ o.journals, stream.Pairwise (· ≤ ·) := by
  induction o generalizing l with
  | done => cases h : l.own <;> simp [arrivals, own, journals]
  | postings date new rest ih =>
      rw [arrivals, List.forall_mem_cons, ih, ← and_assoc]
      refine and_congr_left' ?_
      cases h : l.own with
      | none => simp [Arrival.InSequence, own, h]
      | some last =>
          simp only [Arrival.InSequence, own, h, Option.mem_some_iff, forall_eq',
            Option.toList_some, List.cons_append, List.nil_append]
          exact List.pairwise_cons_cons_iff_of_trans.symm
  | journal inner rest ihi ihr =>
      simp only [arrivals, journals, own, List.forall_mem_append, List.forall_mem_cons, ihi, ihr]
      exact and_left_comm

theorem merged_of_no_journals {o : Outline} (h : o.journals = []) {l : Lead}
    (hl : l.merged = none) : ∀ a ∈ o.arrivals l, a.lead.merged = none := by
  induction o generalizing l with
  | done => exact List.forall_mem_nil _
  | postings date new rest ih => exact List.forall_mem_cons.2 ⟨hl, ih h rfl⟩
  | journal inner rest => cases h

theorem inOrder_iff (o : Outline) : o.InOrder ↔ ∀ a ∈ o.arrivals .start, a.InSequence := by
  rw [forall_arrivals_inSequence, InOrder, List.forall_mem_cons]
  rfl

end Outline

end DoubleEntry
