import DoubleEntry.Proofs.Checking
import DoubleEntry.Proofs.Sides
import DoubleEntry.Proofs.Width

/-! # Room for the sums of a check

A check adds up opening balances, the legs of each entry, what stands in each
history, and closing balances. With amounts of 64 bits and fewer than two to the
power of 64 accounts and legs, no partial sum of these needs more than 128 bits, so
a check with numbers of that width has the outcome of one with exact numbers.
-/

namespace DoubleEntry

/-- Work with numbers of limited width: a result or a fault, unless one of the
    numbers overflows. -/
abbrev Narrow (α : Type) : Type := ExceptT Fault Option α

namespace Narrow

/-- No number overflows, and the outcome is that of exact numbers. -/
def Exact {α : Type} (x : Narrow α) (y : Except Fault α) : Prop := x.run = some y

theorem Exact.bind {α β : Type} {x : Narrow α} {y : Except Fault α} {f : α → Narrow β}
    {g : α → Except Fault β} (h : Exact x y) (hf : ∀ a, y = .ok a → Exact (f a) (g a)) :
    Exact (x >>= f) (y >>= g) := by
  unfold Exact at h
  rw [Exact, ExceptT.run_bind, h]
  cases y with
  | error fault => rfl
  | ok a => exact hf a rfl

/-- A number that does not overflow is at hand for what follows. -/
theorem exact_lift_bind {α β : Type} {x : Option α} {a : α} {f : α → Narrow β}
    {y : Except Fault β} (hx : x = some a) (hf : Exact (f a) y) :
    Exact (monadLift x >>= f) y := by
  subst hx
  exact hf

theorem exact_foldlM {α β : Type} {f : β → α → Narrow β} {g : β → α → Except Fault β} {l : List α}
    (h : ∀ a ∈ l, ∀ b, Exact (f b a) (g b a)) (start : β) :
    Exact (l.foldlM f start) (l.foldlM g start) := by
  induction l generalizing start with
  | nil => rfl
  | cons a l ih =>
      obtain ⟨ha, hl⟩ := List.forall_mem_cons.1 h
      rw [List.foldlM_cons, List.foldlM_cons]
      exact (ha start).bind fun b _ => ih hl b

theorem exact_mapM {α β : Type} {f : α → Narrow β} {g : α → Except Fault β} {l : List α}
    (h : ∀ a ∈ l, Exact (f a) (g a)) : Exact (l.mapM f) (l.mapM g) := by
  induction l with
  | nil => rfl
  | cons a l ih =>
      obtain ⟨ha, hl⟩ := List.forall_mem_cons.1 h
      rw [List.mapM_cons, List.mapM_cons]
      exact ha.bind fun b _ => (ih hl).bind fun bs _ => rfl

theorem Exact.provided {α : Type} {condition : Prop} [Decidable condition] {fault : Fault}
    {x : Unit → Narrow α} {y : Unit → Except Fault α} (h : Exact (x ()) (y ())) :
    Exact (if condition then x () else throw fault >>= x)
      (if condition then y () else throw fault >>= y) := by
  split
  · exact h
  · rfl

end Narrow

/-! ## A check with numbers of limited width -/

def Leg.sum? (width : Width) (legs : List Leg) : Option Int :=
  width.sum? (legs.map (·.amount.signed))

def Account.total? (width : Width) (balance : Account → Amount) (accounts : List Account) :
    Option Int :=
  width.sum? (accounts.map fun a => (balance a).signed)

def Entry.post? (width : Width) (accounts : List Account) (entry : Entry) :
    Narrow (List Account) :=
  match entry.stray? accounts with
  | some leg => throw ⟨.unknownAccount leg.account, leg.span⟩
  | none => do
    let difference ← Leg.sum? width entry.legs
    if difference = 0 then return entry.record accounts
    else throw ⟨.unbalanced entry.date difference, entry.span⟩

/-- The movement is added up first, and the opening balance is added to it. -/
def Account.close? (width : Width) (a : Account) : Narrow Account := do
  let movement ← Leg.sum? width a.ownLegs
  let balance ← width.keep? (a.opening.signed + movement)
  match Amount.ofSigned? balance with
  | none => throw ⟨.closingOutOfRange a.name balance, a.span⟩
  | some amount => return { a with closing := amount.toSide a.category.naturalSide }

def Draft.check? (width : Width) (d : Draft) : Narrow Ledger := do
  let opening ← Account.total? width (·.opening) d.chart.accounts
  unless opening = 0 do throw ⟨.openingMismatch opening, d.place⟩
  let posted ← d.pending.foldlM (Entry.post? width) d.chart.accounts
  let closed ← posted.mapM (Account.close? width)
  let closing ← Account.total? width (·.closing) closed
  unless closing = 0 do throw ⟨.closingMismatch closing, d.place⟩
  return ⟨d.chart.start, d.finish, closed⟩

/-! ## Few legs of small amounts -/

/-- The legs hold amounts of 64 bits and are fewer than two to the power of 64. -/
structure Leg.Few (legs : List Leg) : Prop where
  held : ∀ leg ∈ legs, leg.amount.Held
  count : legs.length < 0x10000000000000000

/-- A draft with amounts of 64 bits and with fewer than two to the power of 64
    accounts and legs taken together. -/
structure Draft.Bounded (d : Draft) : Prop where
  openings : ∀ a ∈ d.chart.accounts, a.opening.Held
  legs : ∀ leg ∈ d.pending.flatMap (·.legs), leg.amount.Held
  count : d.chart.accounts.length + (d.pending.flatMap (·.legs)).length < 0x10000000000000000

theorem Amount.Held.natAbs_signed_le {a : Amount} (h : a.Held) :
    a.signed.natAbs ≤ Money.limit := by
  rwa [natAbs_signed]

namespace Leg

theorem Few.sublist {legs others : List Leg} (h : Few legs) (hsub : others.Sublist legs) :
    Few others :=
  ⟨fun leg hleg => h.held leg (hsub.subset hleg), Nat.lt_of_le_of_lt hsub.length_le h.count⟩

theorem Few.signed_le {legs : List Leg} (h : Few legs) :
    ∀ signed ∈ legs.map (·.amount.signed), signed.natAbs ≤ Money.limit :=
  List.forall_mem_map.2 fun leg hleg => (h.held leg hleg).natAbs_signed_le

theorem Few.sum?_eq {legs : List Leg} (h : Few legs) : sum? .bits128 legs = some (sum legs) :=
  Width.sum?_of_bounded h.signed_le (by simpa using h.count)

end Leg

namespace Draft

variable {d : Draft}

theorem Bounded.few (h : d.Bounded) : Leg.Few (d.pending.flatMap (·.legs)) :=
  ⟨h.legs, by have := h.count; omega⟩

theorem Bounded.few_of_mem (h : d.Bounded) {entry : Entry} (hentry : entry ∈ d.pending) :
    Leg.Few entry.legs :=
  h.few.sublist (List.sublist_flatten_of_mem (List.mem_map_of_mem hentry))

end Draft

/-! ## Nothing overflows -/

open Narrow (Exact)

theorem Entry.exact_post? {entry : Entry} (few : Leg.Few entry.legs) (accounts : List Account) :
    Exact (entry.post? .bits128 accounts) (entry.post accounts) := by
  unfold post? post
  cases entry.stray? accounts with
  | some leg => rfl
  | none =>
      refine Narrow.exact_lift_bind few.sum?_eq ?_
      dsimp only
      split <;> rfl

namespace Account

/-- The opening balance counts as one leg more. -/
theorem exact_close? {a : Account} (held : a.opening.Held) (few : Leg.Few a.ownLegs)
    (count : a.ownLegs.length + 1 < 0x10000000000000000) :
    Exact (a.close? .bits128) a.close := by
  have hbalance : Width.bits128.Holds a.balance := by
    have hopening := held.natAbs_signed_le
    have hmovement := Width.natAbs_sum_le few.signed_le
    rw [List.length_map] at hmovement
    refine Width.holds_of_natAbs_le ?_ count
    rw [Nat.succ_mul, balance, Leg.sum]
    omega
  refine Narrow.exact_lift_bind few.sum?_eq ?_
  refine Narrow.exact_lift_bind (Width.keep?_of_holds hbalance) ?_
  unfold close balance
  cases Amount.ofSigned? (a.opening.signed + Leg.sum a.ownLegs) <;> rfl

theorem total?_eq {balance : Account → Amount} {accounts : List Account}
    (held : ∀ a ∈ accounts, (balance a).Held) (count : accounts.length < 0x10000000000000000) :
    total? .bits128 balance accounts = some (total balance accounts) :=
  Width.sum?_of_bounded (List.forall_mem_map.2 fun a ha => (held a ha).natAbs_signed_le)
    (by simpa using count)

theorem Closes.held {a b : Account} (h : a.Closes b) : b.closing.Held := by
  obtain ⟨amount, hamount, -⟩ := id h
  have hfits := (Amount.ofSigned?_eq_some hamount).1
  rwa [← h.signed_closing, Amount.natAbs_signed] at hfits

end Account

namespace Draft

variable {d : Draft}

theorem Bounded.ownLegs_posted (h : d.Bounded) {a : Account} (blank : a.history = [])
    (ha : a ∈ d.chart.accounts) : Leg.Few (a.posted d.pending).ownLegs ∧
      (a.posted d.pending).ownLegs.length + 1 < 0x10000000000000000 := by
  rw [Account.ownLegs_posted blank]
  have hsub := List.filter_sublist (p := (·.account = a.name)) (l := d.pending.flatMap (·.legs))
  refine ⟨h.few.sublist hsub, ?_⟩
  have hlegs := hsub.length_le
  have hsome := List.length_pos_of_mem ha
  have hcount := h.count
  omega

/-- With sums of 128 bits a check has the outcome that it has with exact sums. -/
theorem exact_check? (unposted : d.chart.Unposted) (bounded : d.Bounded) :
    Exact (d.check? .bits128) d.check := by
  have hcount : d.chart.accounts.length < 0x10000000000000000 := by
    have := bounded.count
    omega
  refine Narrow.exact_lift_bind (Account.total?_eq bounded.openings hcount) ?_
  apply Exact.provided
  refine (Narrow.exact_foldlM (fun entry hentry accounts =>
    Entry.exact_post? (bounded.few_of_mem hentry) accounts) _).bind fun posted hposted => ?_
  obtain ⟨-, rfl⟩ := (Entry.postAll_eq_ok unposted.distinct).1 hposted
  refine (Narrow.exact_mapM (List.forall_mem_map.2 fun a ha => ?_)).bind fun closed hclosed => ?_
  · obtain ⟨few, count⟩ := bounded.ownLegs_posted (unposted.blank a ha) ha
    exact Account.exact_close? (bounded.openings a ha) few count
  · have hcloses := Account.closeAll_eq_ok.1 hclosed
    have hheld : ∀ b ∈ closed, b.closing.Held := fun b hb => by
      obtain ⟨a, -, hab⟩ := exists_of_forall₂ hcloses b hb
      exact hab.held
    have hlength : closed.length = d.chart.accounts.length := by
      rw [← hcloses.length_eq, List.length_map]
    refine Narrow.exact_lift_bind (Account.total?_eq hheld (hlength ▸ hcount)) ?_
    apply Exact.provided
    rfl

end Draft

end DoubleEntry
