import DoubleEntry.Proofs.Posting

/-! # The outcome of a check

A check says the first thing that is wrong with a draft: its opening balances,
then its entries in their order, then the accounts in theirs. If nothing is
wrong, every account ends with the entries that touch it and with its opening
balance and all legs on it added up. The closing balances then add up to zero,
so the last test of the check never fails.
-/

namespace DoubleEntry

/-! ## Closing the accounts -/

namespace Account

/-- The account that closing makes of an account whose balance is not too large. -/
def Closes (a b : Account) : Prop :=
  ∃ amount, Amount.ofSigned? a.balance = some amount ∧
    b = { a with closing := amount.toSide a.category.naturalSide }

theorem close_eq_ok {a b : Account} : a.close = .ok b ↔ a.Closes b := by
  unfold close Closes
  cases Amount.ofSigned? a.balance <;> simp [eq_comm]

theorem Closes.signed_closing {a b : Account} (h : a.Closes b) :
    b.closing.signed = a.balance := by
  obtain ⟨amount, hamount, rfl⟩ := h
  change (amount.toSide a.category.naturalSide).signed = a.balance
  rw [Amount.signed_toSide, (Amount.ofSigned?_eq_some hamount).2]

theorem Closes.balance_eq {a b : Account} (h : a.Closes b) : b.balance = a.balance := by
  obtain ⟨amount, -, rfl⟩ := h
  rfl

theorem close_eq_error {a : Account} {fault : Fault} (h : a.close = .error fault) :
    fault = ⟨.closingOutOfRange a.name a.balance, a.span⟩ := by
  unfold close at h
  split at h <;> cases h
  rfl

theorem exists_closes {a : Account} :
    (∃ b, a.Closes b) ↔ a.balance.natAbs ≤ Money.limit := by
  unfold Closes
  cases h : Amount.ofSigned? a.balance with
  | none => simp [Amount.ofSigned?_eq_none.1 h]
  | some amount => simp [(Amount.ofSigned?_eq_some h).1]

theorem complains_close {a : Account} {c : Complaint} :
    Complains a.close c ↔ Money.limit < a.balance.natAbs ∧
      c = ⟨.mismatch, "Closing balance of " ++ a.name ++ " is out of range: " ++
        toString a.balance, a.span⟩ := by
  unfold close
  cases h : Amount.ofSigned? a.balance with
  | none =>
      have hout := Nat.lt_of_not_le (Amount.ofSigned?_eq_none.1 h)
      rw [complains_error]
      exact (and_iff_right hout).symm
  | some amount =>
      have hfits := Nat.not_lt.2 (Amount.ofSigned?_eq_some h).1
      exact ⟨fun hc => absurd hc not_complains_ok, fun hc => absurd hc.1 hfits⟩

theorem closeAll_eq_ok {accounts out : List Account} :
    accounts.mapM close = .ok out ↔ List.Forall₂ Closes accounts out := by
  induction accounts generalizing out with
  | nil => simp [pure, Except.pure, eq_comm]
  | cons a rest ih =>
      rw [List.mapM_cons, List.forall₂_cons_left_iff]
      refine bind_eq_ok.trans ?_
      constructor
      · intro h
        obtain ⟨b, hb, hrest⟩ := h
        obtain ⟨bs, hbs, hout⟩ := bind_eq_ok.1 hrest
        cases hout
        exact ⟨b, bs, close_eq_ok.1 hb, ih.1 hbs, rfl⟩
      · intro h
        obtain ⟨b, bs, hb, hbs, rfl⟩ := h
        exact ⟨b, close_eq_ok.2 hb, bind_eq_ok.2 ⟨bs, ih.2 hbs, rfl⟩⟩

theorem complains_closeAll {accounts : List Account} {c : Complaint} :
    Complains (accounts.mapM close) c ↔
      First (fun a => a.balance.natAbs ≤ Money.limit) (fun a => Complains a.close c) accounts := by
  induction accounts with
  | nil => exact ⟨fun h => absurd h not_complains_ok, fun h => absurd h not_first_nil⟩
  | cons a rest ih =>
      rw [List.mapM_cons, first_cons, ← ih, ← exists_closes]
      refine complains_bind.trans (or_congr_right ?_)
      constructor
      · intro h
        obtain ⟨b, hb, hc⟩ := h
        rcases complains_bind.1 hc with hc | ⟨bs, -, hc⟩
        · exact ⟨⟨b, close_eq_ok.1 hb⟩, hc⟩
        · exact absurd hc not_complains_ok
      · intro h
        obtain ⟨⟨b, hb⟩, hc⟩ := h
        exact ⟨b, close_eq_ok.2 hb, complains_bind.2 (.inl hc)⟩

theorem total_closing_eq {accounts out : List Account} (h : List.Forall₂ Closes accounts out) :
    total (·.closing) out = (accounts.map balance).sum := by
  induction h with
  | nil => rfl
  | cons hab _ ih =>
      simp only [total, List.map_cons, List.sum_cons] at ih ⊢
      rw [hab.signed_closing, ih]

theorem balance_posted {a : Account} (blank : a.history = []) (entries : List Entry) :
    (a.posted entries).balance = a.opening.signed + Entry.movement entries a.name := by
  rw [balance, sum_ownLegs_posted blank]
  rfl

/-- What all accounts come to does not change while sound entries are posted. -/
theorem sum_balance_posted {accounts : List Account} {entries : List Entry}
    (distinct : (names accounts).Nodup) (blank : ∀ a ∈ accounts, a.history = [])
    (sound : ∀ entry ∈ entries, entry.Sound (names accounts)) :
    ((accounts.map (posted entries)).map balance).sum = total (·.opening) accounts := by
  have hbalance : (accounts.map (posted entries)).map balance =
      accounts.map fun a => a.opening.signed + Entry.movement entries a.name := by
    rw [List.map_map]
    exact List.map_congr_left fun a ha => balance_posted (blank a ha) entries
  have hmoved : (accounts.map fun a => Entry.movement entries a.name).sum = 0 := by
    have h := Entry.sum_movement distinct sound
    rwa [names, List.map_map] at h
  rw [hbalance, List.sum_map_add, hmoved, Int.add_zero]
  rfl

end Account

namespace Draft

/-- What an account has to come to. -/
def balanceOf (d : Draft) (a : Account) : Int :=
  a.opening.signed + Entry.movement d.pending a.name

/-- What is said about a draft that does not pass. The three kinds of complaints
    come in this order, and within each kind the first one counts. -/
inductive Violation (d : Draft) (c : Complaint) : Prop where
  | opening (off : Account.total (·.opening) d.chart.accounts ≠ 0)
      (h : c = ⟨.mismatch, "Opening balance mismatch: " ++
        toString (Account.total (·.opening) d.chart.accounts),
        d.chart.span.getD (Span.startOf d.file)⟩)
  | entry (level : Account.total (·.opening) d.chart.accounts = 0)
      (h : First (fun entry => entry.Sound (Account.names d.chart.accounts))
        (fun entry => entry.Violation (Account.names d.chart.accounts) c) d.pending)
  | closing (level : Account.total (·.opening) d.chart.accounts = 0)
      (sound : ∀ entry ∈ d.pending, entry.Sound (Account.names d.chart.accounts))
      (h : First (fun a => (d.balanceOf a).natAbs ≤ Money.limit)
        (fun a => Money.limit < (d.balanceOf a).natAbs ∧
          c = ⟨.mismatch, "Closing balance of " ++ a.name ++ " is out of range: " ++
            toString (d.balanceOf a), a.span⟩) d.chart.accounts)

/-- The check without its last test. -/
theorem check_eq {d : Draft} (unposted : d.chart.Unposted) :
    d.check =
      if Account.total (·.opening) d.chart.accounts = 0 then
        (d.pending.foldlM Entry.post d.chart.accounts).bind fun posted =>
          (posted.mapM Account.close).map fun closed => ⟨d.chart.start, d.finish, closed⟩
      else .error ⟨.openingMismatch (Account.total (·.opening) d.chart.accounts), d.place⟩ := by
  by_cases level : Account.total (·.opening) d.chart.accounts = 0
  · simp only [check, level, if_true]
    cases hpost : d.pending.foldlM Entry.post d.chart.accounts with
    | error fault => rfl
    | ok posted =>
        obtain ⟨sound, rfl⟩ := (Entry.postAll_eq_ok unposted.distinct).1 hpost
        cases hclose : (d.chart.accounts.map (Account.posted d.pending)).mapM Account.close with
        | error fault =>
            simp only [bind, Except.bind, hclose]
            rfl
        | ok closed =>
            have hzero : Account.total (·.closing) closed = 0 := by
              rw [Account.total_closing_eq (Account.closeAll_eq_ok.1 hclose),
                Account.sum_balance_posted unposted.distinct unposted.blank sound, level]
            simp only [bind, Except.bind, hclose, hzero, if_true]
            rfl
  · simp only [check, if_neg level]
    rfl

theorem check_eq_ok {d : Draft} {ledger : Ledger} (unposted : d.chart.Unposted) :
    d.check = .ok ledger ↔
      Account.total (·.opening) d.chart.accounts = 0 ∧
        (∀ entry ∈ d.pending, entry.Sound (Account.names d.chart.accounts)) ∧
        ∃ closed, List.Forall₂ Account.Closes (d.chart.accounts.map (Account.posted d.pending))
          closed ∧ ⟨d.chart.start, d.finish, closed⟩ = ledger := by
  rw [check_eq unposted]
  split
  · next level =>
    simp only [bind_eq_ok, map_eq_ok, Entry.postAll_eq_ok unposted.distinct,
      Account.closeAll_eq_ok]
    constructor
    · intro h
      obtain ⟨_, ⟨sound, rfl⟩, h⟩ := h
      exact ⟨level, sound, h⟩
    · intro h
      obtain ⟨-, sound, h⟩ := h
      exact ⟨_, ⟨sound, rfl⟩, h⟩
  · next off => simp [off]

theorem complains_closePosted {d : Draft} {c : Complaint}
    (blank : ∀ a ∈ d.chart.accounts, a.history = []) :
    Complains ((d.chart.accounts.map (Account.posted d.pending)).mapM Account.close) c ↔
      First (fun a => (d.balanceOf a).natAbs ≤ Money.limit)
        (fun a => Money.limit < (d.balanceOf a).natAbs ∧
          c = ⟨.mismatch, "Closing balance of " ++ a.name ++ " is out of range: " ++
            toString (d.balanceOf a), a.span⟩) d.chart.accounts := by
  have hbalance : ∀ a ∈ d.chart.accounts, (a.posted d.pending).balance = d.balanceOf a :=
    fun a ha => Account.balance_posted (blank a ha) d.pending
  rw [Account.complains_closeAll, first_map]
  apply first_congr
  · intro a ha
    rw [hbalance a ha]
  · intro a ha
    rw [Account.complains_close, hbalance a ha]
    rfl

theorem complains_check {d : Draft} {c : Complaint} (unposted : d.chart.Unposted) :
    Complains d.check c ↔ d.Violation c := by
  have hpost : Complains (d.pending.foldlM Entry.post d.chart.accounts) c ↔ _ :=
    Entry.complains_postAll unposted.distinct
  have hclose := complains_closePosted (c := c) unposted.blank
  rw [check_eq unposted]
  constructor
  · intro h
    split at h
    · next level =>
      rcases complains_bind.1 h with h | ⟨posted, hok, h⟩
      · exact .entry level (hpost.1 h)
      · obtain ⟨sound, rfl⟩ := (Entry.postAll_eq_ok unposted.distinct).1 hok
        exact .closing level sound (hclose.1 (complains_map.1 h))
    · next off => exact .opening off (complains_error.1 h)
  · intro h
    rcases h with ⟨off, h⟩ | ⟨level, h⟩ | ⟨level, sound, h⟩
    · rw [if_neg off]
      exact complains_error.2 h
    · rw [if_pos level]
      exact complains_bind.2 (.inl (hpost.2 h))
    · rw [if_pos level]
      refine complains_bind.2 (.inr ⟨_, (Entry.postAll_eq_ok unposted.distinct).2 ⟨sound, rfl⟩, ?_⟩)
      exact complains_map.2 (hclose.2 h)

/-- A check is refused for its opening balances, for an entry or for an account. -/
theorem exists_refused {d : Draft} {fault : Fault} (unposted : d.chart.Unposted)
    (h : d.check = .error fault) :
    fault = ⟨.openingMismatch (Account.total (·.opening) d.chart.accounts), d.place⟩ ∨
      (∃ accounts, ∃ entry ∈ d.pending, Entry.post accounts entry = .error fault) ∨
      ∃ a : Account, a.close = .error fault := by
  rw [check_eq unposted] at h
  split at h
  · cases hpost : d.pending.foldlM Entry.post d.chart.accounts with
    | error other =>
        rw [hpost] at h
        cases h
        exact .inr (.inl (exists_of_foldlM_eq_error hpost))
    | ok posted =>
        rw [hpost] at h
        obtain ⟨a, -, ha⟩ := exists_of_mapM_eq_error (map_eq_error.1 h)
        exact .inr (.inr ⟨a, ha⟩)
  · exact .inl (Except.error.inj h).symm

/-- The last test of the check never fails. -/
theorem check_ne_closingMismatch {d : Draft} (unposted : d.chart.Unposted) (difference : Int)
    (place : Span) : d.check ≠ .error ⟨.closingMismatch difference, place⟩ := by
  intro h
  rcases exists_refused unposted h with hopening | ⟨accounts, entry, -, hentry⟩ | ⟨a, ha⟩
  · cases hopening
  · rcases Entry.post_eq_error hentry with ⟨leg, hleg⟩ | ⟨-, hsum⟩
    · cases hleg
    · cases hsum
  · cases Account.close_eq_error ha

theorem exists_unbalanced {d : Draft} {fault : Fault} (unposted : d.chart.Unposted)
    (h : d.check = .error fault) (hkind : fault.cause.kind = .notBalanced) :
    ∃ entry ∈ d.pending, Leg.sum entry.legs ≠ 0 ∧
      fault = ⟨.unbalanced entry.date (Leg.sum entry.legs), entry.span⟩ := by
  rcases exists_refused unposted h with rfl | ⟨accounts, entry, hentry, hpost⟩ | ⟨a, ha⟩
  · cases hkind
  · rcases Entry.post_eq_error hpost with ⟨leg, rfl⟩ | ⟨hsum, hfault⟩
    · cases hkind
    · exact ⟨entry, hentry, hsum, hfault⟩
  · rw [Account.close_eq_error ha] at hkind
    cases hkind

/-- The outcome of a check is the first thing that is wrong with the draft, and a
    ledger if nothing is. No bound on the amounts is needed for it. -/
theorem check_outcome (d : Draft) (unposted : d.chart.Unposted) :
    (∀ c, Complains d.check c ↔ d.Violation c) ∧
      ((∃ ledger, d.check = .ok ledger) ↔ ∀ c, ¬ d.Violation c) ∧
      ∀ difference place, d.check ≠ .error ⟨.closingMismatch difference, place⟩ := by
  refine ⟨fun c => complains_check unposted, ?_, check_ne_closingMismatch unposted⟩
  constructor
  · intro hok c hc
    obtain ⟨ledger, h⟩ := hok
    rw [← complains_check unposted, h] at hc
    exact not_complains_ok hc
  · intro h
    cases hcheck : d.check with
    | ok ledger => exact ⟨ledger, rfl⟩
    | error fault =>
        have hc : Complains d.check fault.complaint := ⟨fault, hcheck, rfl⟩
        exact absurd ((complains_check unposted).1 hc) (h _)

/-- Three accounts, and one entry with two legs on the first of them. -/
def twoLegsOnCash : Draft :=
  let span := Span.startOf "main.ledger"
  { file := "main.ledger"
    chart :=
      { accounts :=
          [.opened "ASSETS/Cash" .assets ⟨100, .debit⟩ span,
           .opened "CAPITAL/Equity" .capital ⟨100, .credit⟩ span,
           .opened "INCOMES/Sales" .incomes ⟨0, .credit⟩ span]
        start := some ⟨2020, 1, 2, by decide⟩
        span := some span }
    pending :=
      [⟨⟨2020, 1, 2, by decide⟩,
        [⟨"ASSETS/Cash", ⟨10, .debit⟩, span⟩, ⟨"ASSETS/Cash", ⟨5, .debit⟩, span⟩,
         ⟨"INCOMES/Sales", ⟨15, .credit⟩, span⟩], span⟩]
    finish := some ⟨2020, 1, 2, by decide⟩ }

/-- Its entry is not balanced either, but the unknown account comes first. -/
def legOnUnknownAccount : Draft :=
  let span := Span.startOf "main.ledger"
  { twoLegsOnCash with
    pending :=
      [⟨⟨2020, 1, 2, by decide⟩,
        [⟨"ASSETS/Cash", ⟨10, .debit⟩, span⟩, ⟨"EXPENSES/Food", ⟨7, .debit⟩, span⟩], span⟩] }

theorem unposted_twoLegsOnCash : twoLegsOnCash.chart.Unposted := ⟨by decide, by decide⟩

theorem check_outcome_legOnUnknownAccount :
    legOnUnknownAccount.chart.Unposted ∧
      legOnUnknownAccount.Violation
        ⟨.account, "Unknown account EXPENSES/Food.", Span.startOf "main.ledger"⟩ := by
  have hcomplains : Complains legOnUnknownAccount.check
      ⟨.account, "Unknown account EXPENSES/Food.", Span.startOf "main.ledger"⟩ :=
    ⟨_, rfl, by decide⟩
  exact ⟨unposted_twoLegsOnCash,
    ((check_outcome legOnUnknownAccount unposted_twoLegsOnCash).1 _).1 hcomplains⟩

end Draft

/-! ## The ledger of a draft that passes -/

/-- An amount that is not negative and stands on `side`, or on the opposite side
    if its signed value is strictly there. -/
structure Amount.NaturalOn (side : Side) (a : Amount) : Prop where
  nonneg : 0 ≤ a.value
  side : a.side = if side.sign * a.signed < 0 then side.opposite else side

theorem Amount.naturalOn_toSide (a : Amount) (side : Side) : (a.toSide side).NaturalOn side :=
  ⟨value_toSide_nonneg a side, by rw [side_toSide, signed_toSide]⟩

/-- What becomes of an account of a draft whose entries are `pending`. -/
structure Account.Settles (pending : List Entry) (before after : Account) : Prop where
  name : after.name = before.name
  category : after.category = before.category
  opening : after.opening = before.opening
  span : after.span = before.span
  history : after.history =
    pending.filter fun entry => ∃ leg ∈ entry.legs, leg.account = before.name
  closing : after.closing.signed = before.opening.signed + Entry.movement pending before.name
  natural : after.closing.NaturalOn before.category.naturalSide

theorem Account.Closes.settles {pending : List Entry} {a b : Account} (blank : a.history = [])
    (h : (a.posted pending).Closes b) : Settles pending a b := by
  have hclosing := h.signed_closing
  obtain ⟨amount, -, rfl⟩ := h
  constructor
  case name | category | opening | span => rfl
  case history => simp [posted, blank, Entry.touches, List.any_eq]
  case closing => exact hclosing.trans (balance_posted blank pending)
  case natural => exact Amount.naturalOn_toSide amount _

theorem Account.names_of_settles {pending : List Entry} {before after : List Account}
    (h : List.Forall₂ (Settles pending) before after) : names after = names before := by
  induction h with
  | nil => rfl
  | cons hab _ ih => exact congrArg₂ List.cons hab.name ih

theorem Account.histories_of_settles {pending : List Entry} {before after : List Account}
    (h : List.Forall₂ (Settles pending) before after) :
    ∀ a ∈ after,
      a.history = pending.filter fun entry => ∃ leg ∈ entry.legs, leg.account = a.name := by
  intro a ha
  obtain ⟨opened, -, hsettles⟩ := exists_of_forall₂ h a ha
  rw [hsettles.history, hsettles.name]

namespace Draft

theorem total_closing_eq_zero {d : Draft} {ledger : Ledger} (unposted : d.chart.Unposted)
    (h : d.check = .ok ledger) : Account.total (·.closing) ledger.accounts = 0 := by
  obtain ⟨level, sound, closed, hclosed, rfl⟩ := (check_eq_ok unposted).1 h
  rw [Account.total_closing_eq hclosed,
    Account.sum_balance_posted unposted.distinct unposted.blank sound, level]

theorem settles_of_check {d : Draft} {ledger : Ledger} (unposted : d.chart.Unposted)
    (h : d.check = .ok ledger) :
    List.Forall₂ (Account.Settles d.pending) d.chart.accounts ledger.accounts := by
  obtain ⟨-, -, closed, hclosed, rfl⟩ := (check_eq_ok unposted).1 h
  rw [List.forall₂_map_left_iff] at hclosed
  have hboth := (List.forall₂_and_left _ _).2 ⟨unposted.blank, hclosed⟩
  exact hboth.imp fun a b h => h.2.settles h.1

/-- A ledger has the accounts of its draft, each with its opening balance and all
    legs on it added up, on the side where it grows, and these balances add up to
    zero. -/
theorem check_settles {d : Draft} {ledger : Ledger} (unposted : d.chart.Unposted)
    (h : d.check = .ok ledger) :
    ledger.start = d.chart.start ∧ ledger.finish = d.finish ∧
      List.Forall₂ (Account.Settles d.pending) d.chart.accounts ledger.accounts ∧
      Account.total (·.closing) ledger.accounts = 0 := by
  obtain ⟨-, -, closed, -, hledger⟩ := (check_eq_ok unposted).1 h
  refine ⟨?_, ?_, settles_of_check unposted h, total_closing_eq_zero unposted h⟩
  · rw [← hledger]
  · rw [← hledger]

theorem check_settles_twoLegsOnCash :
    twoLegsOnCash.chart.Unposted ∧ ∃ ledger, twoLegsOnCash.check = .ok ledger ∧
      ledger.start = twoLegsOnCash.chart.start ∧ ledger.finish = twoLegsOnCash.finish ∧
      List.Forall₂ (Account.Settles twoLegsOnCash.pending) twoLegsOnCash.chart.accounts
        ledger.accounts ∧
      Account.total (·.closing) ledger.accounts = 0 :=
  ⟨unposted_twoLegsOnCash, _, rfl, check_settles unposted_twoLegsOnCash rfl⟩

end Draft

theorem Ledger.history_sorted {files : Files} {root : String} {ledger : Ledger}
    (h : (read files root).result = .ok ledger) :
    ∀ a ∈ ledger.accounts, a.history.Pairwise fun x y => x.date ≤ y.date := by
  obtain ⟨d, hread, hcheck⟩ := read_eq_ok.1 h
  have hsettles := Draft.settles_of_check (Draft.read_unposted hread) hcheck
  have hhistory := Account.histories_of_settles hsettles
  intro a ha
  rw [hhistory a ha]
  exact (Draft.read_sorted hread).filter _

/-- Posting leaves in each history the entries with a leg on that account. In a
    ledger that was read they are in the order of their dates. -/
theorem Draft.history_eq_filter_pending :
    (∀ (d : Draft) (ledger : Ledger), d.chart.Unposted → d.check = .ok ledger →
      Account.names ledger.accounts = Account.names d.chart.accounts ∧
        ∀ a ∈ ledger.accounts,
          a.history = d.pending.filter fun entry => ∃ leg ∈ entry.legs, leg.account = a.name) ∧
      ∀ (files : Files) (root : String) (ledger : Ledger),
        (Ledger.read files root).result = .ok ledger →
          ∀ a ∈ ledger.accounts, a.history.Pairwise fun x y => x.date ≤ y.date := by
  constructor
  · intro d ledger unposted h
    have hsettles := settles_of_check unposted h
    exact ⟨Account.names_of_settles hsettles, Account.histories_of_settles hsettles⟩
  · intro files root ledger h
    exact Ledger.history_sorted h

theorem Draft.history_twoLegsOnCash :
    twoLegsOnCash.chart.Unposted ∧ ∃ ledger, twoLegsOnCash.check = .ok ledger ∧
      ∀ a ∈ ledger.accounts, a.history =
        twoLegsOnCash.pending.filter fun entry => ∃ leg ∈ entry.legs, leg.account = a.name :=
  ⟨unposted_twoLegsOnCash, _, rfl,
    (history_eq_filter_pending.1 twoLegsOnCash _ unposted_twoLegsOnCash rfl).2⟩

end DoubleEntry
