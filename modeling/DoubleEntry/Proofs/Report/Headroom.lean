import DoubleEntry.Proofs.Headroom
import DoubleEntry.Proofs.Report.Months
import DoubleEntry.Proofs.Report.RollForward
import DoubleEntry.Proofs.Report.TrialBalance
import Mathlib.Data.List.Flatten

/-! # Room for the sums of the reports

The reports add up debits and credits apart: of each account, of each account in
each month, and of a whole column. The legs of a row are some of the legs of the
draft, none of them twice, and a column of transactions comes to no more than all of
them together. So 128 bits are enough wherever they are enough for the check.
-/

namespace DoubleEntry

/-! ## Reports with numbers of limited width -/

namespace Row

/-- One leg more in a pair of a debit and a credit. -/
def accumulate? (width : Width) (sums : Int × Int) (signed : Int) : Option (Int × Int) :=
  if 0 ≤ signed then (width.keep? (sums.1 + signed)).map (·, sums.2)
  else (width.keep? (sums.2 - signed)).map (sums.1, ·)

def ofLegs? (width : Width) (account : String) (legs : List Leg) : Option Row :=
  ((legs.map (·.amount.signed)).foldlM (accumulate? width) (0, 0)).map fun (debit, credit) =>
    ⟨account, debit, credit⟩

/-- The debits and the credits of a column, each added up. -/
def totals? (width : Width) (rows : List Row) : Option (Int × Int) := do
  let debits ← width.sum? (rows.map (·.debit))
  let credits ← width.sum? (rows.map (·.credit))
  return (debits, credits)

end Row

def Movement.rows? (width : Width) (movements : List Movement) : Option (List Row) :=
  (Ascending.ofList (movements.map (·.account))).mapM fun name =>
    Row.ofLegs? width name ((movements.filter (·.account = name)).map (·.leg))

namespace Ledger

def transactionRows? (width : Width) (ledger : Ledger) : Option (List Row) :=
  ledger.sorted.mapM fun a => Row.ofLegs? width a.name a.ownLegs

def monthRows? (width : Width) (ledger : Ledger) : Option (List (String × List Row)) :=
  let movements := ledger.movements
  (Ascending.ofList (movements.map (·.month))).mapM fun month =>
    (Movement.rows? width (Movement.inMonth month movements)).map (month, ·)

end Ledger

/-! ## Rows of few legs -/

theorem mapM_eq_some {α β : Type} {f : α → Option β} {g : α → β} {l : List α}
    (h : ∀ a ∈ l, f a = some (g a)) : l.mapM f = some (l.map g) := by
  induction l with
  | nil => rfl
  | cons a l ih =>
      obtain ⟨ha, hl⟩ := List.forall_mem_cons.1 h
      rw [List.mapM_cons, ha, ih hl]
      rfl

namespace Row

theorem natAbs_debitOf_le (signed : Int) : (debitOf signed).natAbs ≤ signed.natAbs := by
  unfold debitOf
  omega

theorem natAbs_creditOf_le (signed : Int) : (creditOf signed).natAbs ≤ signed.natAbs := by
  unfold creditOf
  omega

/-- Neither sum ever goes down, so nothing overflows if both fit at the end. -/
theorem foldlM_accumulate? {width : Width} {values : List Int} {debit credit : Int}
    (hdebit : 0 ≤ debit) (hcredit : 0 ≤ credit)
    (debits : debit + (values.map debitOf).sum ≤ width.greatest)
    (credits : credit + (values.map creditOf).sum ≤ width.greatest) :
    values.foldlM (accumulate? width) (debit, credit) =
      some (debit + (values.map debitOf).sum, credit + (values.map creditOf).sum) := by
  induction values generalizing debit credit with
  | nil => simp
  | cons value values ih =>
      have hdebits := List.sum_nonneg (List.forall_mem_map.2 fun v (_ : v ∈ values) =>
        debitOf_nonneg v)
      have hcredits := List.sum_nonneg (List.forall_mem_map.2 fun v (_ : v ∈ values) =>
        creditOf_nonneg v)
      simp only [List.map_cons, List.sum_cons] at debits credits ⊢
      have hstep : accumulate? width (debit, credit) value =
          some (debit + debitOf value, credit + creditOf value) := by
        unfold debitOf creditOf at *
        unfold accumulate?
        split
        · rw [Width.keep?_of_holds ⟨by omega, by omega⟩]
          simp only [Option.map_some, Option.some.injEq, Prod.mk.injEq]
          omega
        · rw [Width.keep?_of_holds ⟨by omega, by omega⟩]
          simp only [Option.map_some, Option.some.injEq, Prod.mk.injEq]
          omega
      have hd := debitOf_nonneg value
      have hc := creditOf_nonneg value
      rw [List.foldlM_cons, hstep, Option.bind_eq_bind, Option.bind_some,
        ih (by omega) (by omega) (by omega) (by omega), Int.add_assoc, Int.add_assoc]

end Row

namespace Leg

theorem Few.holds_sum {legs : List Leg} (h : Few legs) {part : Int → Int}
    (hpart : ∀ signed, (part signed).natAbs ≤ signed.natAbs) :
    Width.bits128.Holds (legs.map fun leg => part leg.amount.signed).sum := by
  have hparts : ∀ value ∈ legs.map fun leg => part leg.amount.signed,
      value.natAbs ≤ Money.limit := List.forall_mem_map.2 fun leg hleg =>
    Nat.le_trans (hpart _) (h.held leg hleg).natAbs_signed_le
  exact Width.holds_of_natAbs_le (Width.natAbs_sum_le hparts) (by simpa using h.count)

theorem Few.ofLegs?_eq {legs : List Leg} (h : Few legs) (account : String) :
    Row.ofLegs? .bits128 account legs = some (.ofLegs account legs) := by
  have hdebits := (h.holds_sum Row.natAbs_debitOf_le).2
  have hcredits := (h.holds_sum Row.natAbs_creditOf_le).2
  rw [Row.ofLegs?, Row.foldlM_accumulate? (Int.le_refl 0) (Int.le_refl 0)]
  · simp [Row.ofLegs, Function.comp_def]
  · simpa [Function.comp_def] using hdebits
  · simpa [Function.comp_def] using hcredits

end Leg

/-! ## The ledger of a bounded draft -/

namespace Ledger.Holds

variable {ledger : Ledger} {pending : List Entry}

theorem ownLegs_eq (h : ledger.Holds pending) {a : Account} (ha : a ∈ ledger.accounts) :
    a.ownLegs = (pending.flatMap (·.legs)).filter (·.account = a.name) := by
  have hall := h.legsIn_filter ha fun _ => true
  rwa [List.filter_true, List.filter_true] at hall

theorem few_ownLegs (h : ledger.Holds pending) (few : Leg.Few (pending.flatMap (·.legs)))
    {a : Account} (ha : a ∈ ledger.accounts) : Leg.Few a.ownLegs := by
  rw [h.ownLegs_eq ha]
  exact few.sublist List.filter_sublist

/-- What an account moves in a month is some of its own legs. -/
theorem few_inMonth (h : ledger.Holds pending) (few : Leg.Few (pending.flatMap (·.legs)))
    {a : Account} (ha : a ∈ ledger.accounts) (month : String) :
    Leg.Few (((Movement.inMonth month ledger.movements).filter (·.account = a.name)).map
      (·.leg)) := by
  rw [legs_inMonth h ha]
  exact (h.few_ownLegs few ha).sublist (List.filter_sublist.flatMap a.legsIn)

theorem transactionRows?_eq (h : ledger.Holds pending)
    (few : Leg.Few (pending.flatMap (·.legs))) :
    ledger.transactionRows? .bits128 = some ledger.transactionRows :=
  mapM_eq_some fun a ha => (h.few_ownLegs few (ledger.sorted_perm.subset ha)).ofLegs?_eq a.name

theorem monthRows?_eq (h : ledger.Holds pending) (few : Leg.Few (pending.flatMap (·.legs))) :
    ledger.monthRows? .bits128 = some ledger.monthRows := by
  refine mapM_eq_some fun month _ => ?_
  have hrows : Movement.rows? .bits128 (Movement.inMonth month ledger.movements) =
      some (Movement.rows (Movement.inMonth month ledger.movements)) := by
    refine mapM_eq_some fun name hname => ?_
    obtain ⟨movement, hmovement, rfl⟩ := List.mem_map.1 (Ascending.mem_ofList.1 hname)
    obtain ⟨a, ha, entry, -, leg, -, -, rfl⟩ := mem_movements.1 (List.mem_of_mem_filter hmovement)
    exact (h.few_inMonth few ha month).ofLegs?_eq a.name
  rw [hrows]
  rfl

/-- Over all accounts, what a column of transactions shows comes to what all legs
    contribute. -/
theorem sum_transactionRows (h : ledger.Holds pending) {shown : Row → Int} {part : Leg → Int}
    (shows : Row.Shows shown part) :
    (ledger.transactionRows.map shown).sum = ((pending.flatMap (·.legs)).map part).sum := by
  have known : ∀ leg ∈ pending.flatMap (·.legs), leg.account ∈ Account.names ledger.accounts := by
    intro leg hleg
    obtain ⟨entry, hentry, hleg⟩ := List.mem_flatMap.1 hleg
    exact (h.sound entry hentry).known leg hleg
  calc
    _ = (ledger.accounts.map fun a => (a.ownLegs.map part).sum).sum := by
      rw [transactionRows, List.map_map]
      refine Eq.trans (congrArg List.sum (List.map_congr_left fun a _ => shows a.name a.ownLegs)) ?_
      exact (ledger.sorted_perm.map _).sum_eq
    _ = ((Account.names ledger.accounts).map fun name =>
          (((pending.flatMap (·.legs)).filter (·.account = name)).map part).sum).sum := by
      rw [Account.names, List.map_map]
      exact congrArg List.sum (List.map_congr_left fun a ha => by rw [h.ownLegs_eq ha]; rfl)
    _ = ((pending.flatMap (·.legs)).map part).sum :=
      sum_by_key Leg.account part h.distinct known

theorem totals?_transactionRows (h : ledger.Holds pending)
    (few : Leg.Few (pending.flatMap (·.legs))) :
    Row.totals? .bits128 ledger.transactionRows =
      some (Row.debits ledger.transactionRows, Row.credits ledger.transactionRows) := by
  have hdebits := few.holds_sum Row.natAbs_debitOf_le
  have hcredits := few.holds_sum Row.natAbs_creditOf_le
  rw [← h.sum_transactionRows Row.shows_debit] at hdebits
  rw [← h.sum_transactionRows Row.shows_credit] at hcredits
  have hnonneg : ∀ row ∈ ledger.transactionRows, 0 ≤ row.debit ∧ 0 ≤ row.credit :=
    List.forall_mem_map.2 fun a _ => Row.ofLegs_nonneg a.name a.ownLegs
  rw [Row.totals?,
    Width.sum?_of_nonneg (List.forall_mem_map.2 fun row hrow => (hnonneg row hrow).1) hdebits,
    Width.sum?_of_nonneg (List.forall_mem_map.2 fun row hrow => (hnonneg row hrow).2) hcredits]
  rfl

end Ledger.Holds

theorem Row.totals?_ofBalance {balance : Account → Amount} {accounts : List Account}
    {rows : List Row} (hrows : rows = accounts.map fun a => ofBalance a.name (balance a).signed)
    (held : ∀ a ∈ accounts, (balance a).Held) (count : accounts.length < 0x10000000000000000) :
    totals? .bits128 rows = some (debits rows, credits rows) := by
  have hsum {shown : Row → Int} {part : Int → Int}
      (hshown : rows.map shown = accounts.map fun a => part (balance a).signed)
      (hpart : ∀ signed, (part signed).natAbs ≤ signed.natAbs) :
      Width.bits128.sum? (rows.map shown) = some (rows.map shown).sum := by
    rw [hshown]
    exact Width.sum?_of_bounded (List.forall_mem_map.2 fun a ha =>
      Nat.le_trans (hpart _) (held a ha).natAbs_signed_le) (by simpa using count)
  have hdebits : rows.map (·.debit) = accounts.map fun a => debitOf (balance a).signed := by
    rw [hrows, List.map_map]
    rfl
  have hcredits : rows.map (·.credit) = accounts.map fun a => creditOf (balance a).signed := by
    rw [hrows, List.map_map]
    rfl
  rw [totals?, hsum hdebits natAbs_debitOf_le, hsum hcredits natAbs_creditOf_le]
  rfl

namespace Draft

variable {d : Draft} {ledger : Ledger}

theorem Bounded.held_of_check (bounded : d.Bounded) (unposted : d.chart.Unposted)
    (h : d.check = .ok ledger) :
    (∀ a ∈ ledger.sorted, a.opening.Held ∧ a.closing.Held) ∧
      ledger.sorted.length < 0x10000000000000000 := by
  obtain ⟨-, -, closed, hcloses, rfl⟩ := (check_eq_ok unposted).1 h
  constructor
  · intro b hb
    obtain ⟨posted, hposted, hab⟩ := exists_of_forall₂ hcloses b ((Ledger.sorted_perm _).subset hb)
    obtain ⟨a, ha, rfl⟩ := List.mem_map.1 hposted
    refine ⟨?_, hab.held⟩
    obtain ⟨amount, -, rfl⟩ := hab
    exact bounded.openings a ha
  · have hlength := hcloses.length_eq
    rw [List.length_map] at hlength
    have hcount := bounded.count
    rw [(Ledger.sorted_perm _).length_eq, ← hlength]
    omega

/-- With sums of 128 bits a bounded draft is checked as with exact sums, and the
    ledger that it becomes has the same rows and totals. -/
theorem sums_fit (unposted : d.chart.Unposted) (bounded : d.Bounded) :
    (d.check? .bits128).run = some d.check ∧
      ∀ ledger, d.check = .ok ledger →
        ledger.transactionRows? .bits128 = some ledger.transactionRows ∧
        ledger.monthRows? .bits128 = some ledger.monthRows ∧
        ∀ kind : TrialBalance, ∀ rows ∈ kind.rows ledger,
          Row.totals? .bits128 rows = some (Row.debits rows, Row.credits rows) := by
  refine ⟨exact_check? unposted bounded, fun ledger h => ?_⟩
  have holds := holds_of_check unposted h
  have few := bounded.few
  obtain ⟨hheld, hcount⟩ := bounded.held_of_check unposted h
  have hopening : Row.totals? .bits128 ledger.openingRows = _ :=
    Row.totals?_ofBalance rfl (fun a ha => (hheld a ha).1) hcount
  have hclosing : Row.totals? .bits128 ledger.closingRows = _ :=
    Row.totals?_ofBalance rfl (fun a ha => (hheld a ha).2) hcount
  have hmoved := holds.totals?_transactionRows few
  refine ⟨holds.transactionRows?_eq few, holds.monthRows?_eq few, fun kind rows hrows => ?_⟩
  have hcolumn : rows = ledger.openingRows ∨ rows = ledger.transactionRows ∨
      rows = ledger.closingRows := by
    cases kind <;>
      simp only [TrialBalance.rows, List.mem_cons, List.not_mem_nil, or_false] at hrows <;> tauto
  rcases hcolumn with rfl | rfl | rfl
  · exact hopening
  · exact hmoved
  · exact hclosing

/-- An entry with two legs of the largest amount on each side. -/
def largestLegs : Draft :=
  let span := Span.startOf "main.ledger"
  let day : Date := ⟨2020, 6, 30, by decide⟩
  let most (side : Side) : Amount := ⟨Money.limit, side⟩
  { twoLegsOnCash with
    pending :=
      [⟨day, [⟨"ASSETS/Cash", most .credit, span⟩, ⟨"INCOMES/Sales", most .credit, span⟩,
         ⟨"ASSETS/Cash", most .debit, span⟩, ⟨"INCOMES/Sales", most .debit, span⟩], span⟩]
    finish := some day }

theorem sums_fit_largestLegs :
    largestLegs.chart.Unposted ∧ largestLegs.Bounded ∧
      (∃ ledger, (largestLegs.check? .bits128).run = some (.ok ledger)) ∧
      (largestLegs.check? .bits64).run = none := by
  have bounded : largestLegs.Bounded := ⟨by decide, by decide, by decide⟩
  have hcheck := (sums_fit (d := largestLegs) unposted_twoLegsOnCash bounded).1
  exact ⟨unposted_twoLegsOnCash, bounded, ⟨_, hcheck⟩, rfl⟩

end Draft

end DoubleEntry
