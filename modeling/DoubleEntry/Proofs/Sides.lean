import DoubleEntry.Proofs.Proper
import DoubleEntry.Proofs.Width

/-! # One signed value, two sides

An amount says twice on which side it counts: by its side and by the sign of its
value. Expressing it on a side removes the choice, so two amounts are the same on
a side exactly if they count the same. All of this can be computed with 64 bits,
for every value but the least one, which has no negative of that width.
-/

namespace DoubleEntry

theorem Side.natAbs_sign_mul (s : Side) (number : Int) :
    (s.sign * number).natAbs = number.natAbs := by
  cases s <;> simp [sign]

/-- What a number counts on a side, computed with 64 bits: credits are negated. -/
def Side.times? (s : Side) (number : Int) : Option Int :=
  match s with
  | debit => some number
  | credit => Width.bits64.keep? (-number)

namespace Amount

/-- The value has a negative of 64 bits. -/
def Held (a : Amount) : Prop := a.value.natAbs ≤ Money.limit

instance (a : Amount) : Decidable a.Held := inferInstanceAs (Decidable (_ ≤ _))

/-! ## The operations with 64 bits -/

def signed? (a : Amount) : Option Int := a.side.times? a.value

def toSide? (a : Amount) (side : Side) : Option Amount := do
  let signed ← a.signed?
  let value ← side.times? signed
  if value < 0 then
    let magnitude ← Width.bits64.keep? (-value)
    return ⟨magnitude, side.opposite⟩
  else return ⟨value, side⟩

def onSide? (number : Int) (side : Side) : Option Amount := do
  let least ← Width.bits64.keep? (-Money.limit)
  toSide? ⟨max number least, side⟩ side

end Amount

/-- Of the numbers of 64 bits the least is the only one that may not be held. -/
theorem Width.holds_bits64 {number : Int} :
    bits64.Holds number ↔ number.natAbs ≤ Money.limit ∨ number = -bits64.greatest - 1 := by
  simp only [Holds, greatest, Money.limit]
  omega

theorem Width.keep?_neg_of_held {number : Int} (h : number.natAbs ≤ Money.limit) :
    bits64.keep? (-number) = some (-number) :=
  keep?_of_holds (holds_bits64.2 (.inl (by rwa [Int.natAbs_neg])))

theorem Side.times?_of_held {number : Int} (h : number.natAbs ≤ Money.limit) (s : Side) :
    s.times? number = some (s.sign * number) := by
  cases s with
  | debit => simp [times?, sign]
  | credit => simp [times?, sign, Width.keep?_neg_of_held h]

namespace Amount

theorem signed?_of_held {a : Amount} (h : a.Held) : a.signed? = some a.signed :=
  Side.times?_of_held h a.side

theorem toSide?_of_held {a : Amount} (h : a.Held) (side : Side) :
    a.toSide? side = some (a.toSide side) := by
  have hsigned : a.signed.natAbs ≤ Money.limit := by rwa [natAbs_signed]
  have hvalue : (a.valueOn side).natAbs ≤ Money.limit := by rwa [valueOn, Side.natAbs_sign_mul]
  have htimes : side.times? a.signed = some (a.valueOn side) := Side.times?_of_held hsigned side
  simp only [toSide?, signed?_of_held h, htimes, Width.keep?_neg_of_held hvalue, toSide,
    Option.bind_eq_bind, Option.bind_some, Option.pure_def]
  split <;> rfl

theorem onSide?_eq {number : Int} (h : Width.bits64.Holds number) (side : Side) :
    onSide? number side = some (onSide number side) := by
  have hheld : Held ⟨max number (-Money.limit), side⟩ := by
    change (max number (-Money.limit)).natAbs ≤ Money.limit
    rcases Width.holds_bits64.1 h with hheld | rfl
    · rwa [max_eq_left (by omega)]
    · decide
  have hleast : Width.bits64.keep? (-Money.limit) = some (-Money.limit : Int) := by decide
  simp only [onSide?, hleast, Option.bind_eq_bind, Option.bind_some, toSide?_of_held hheld, onSide]

/-! ## The laws -/

theorem Within.held {a : Amount} (h : a.Within) : a.Held := by
  obtain ⟨hnonneg, hle⟩ := h
  unfold Held
  omega

theorem Held.within_toSide {a : Amount} (h : a.Held) (side : Side) : (a.toSide side).Within :=
  Amount.within_toSide (by rwa [natAbs_signed]) side

theorem toSide_eq_iff {a b : Amount} {side : Side} :
    a.toSide side = b.toSide side ↔ a.signed = b.signed := by
  refine ⟨fun h => ?_, fun h => toSide_congr h side⟩
  rw [← signed_toSide a side, h, signed_toSide]

theorem opposite_opposite (a : Amount) : a.opposite.opposite = a := by
  unfold opposite
  rw [Side.opposite_opposite]

theorem signed_onSide {number : Int} (h : number.natAbs ≤ Money.limit) (side : Side) :
    (onSide number side).signed = side.sign * number := by
  have hmax : max number (-Money.limit) = number := by omega
  rw [onSide, signed_toSide, hmax]
  rfl

theorem signed?_opposite {a : Amount} (h : a.Held) : a.opposite.signed? = some (-a.signed) := by
  have hopposite : a.opposite.Held := h
  rw [signed?_of_held hopposite, signed_opposite]

theorem ofSigned?_eq {signed : Int} (h : signed.natAbs ≤ Money.limit) :
    ofSigned? signed = some (ofSigned signed) := by
  have hmax : max signed (-Money.limit) = signed := by omega
  have hvalue : valueOn ⟨signed, .debit⟩ .debit = signed := by
    simp [valueOn, Amount.signed, Side.sign]
  rw [ofSigned?, if_pos h, ofSigned, onSide, hmax, toSide, hvalue]
  split
  · rw [Int.ofNat_natAbs_of_nonpos (by omega)]
    rfl
  · rw [Int.natAbs_of_nonneg (by omega)]

/-- Expressing amounts on a side is a normal form of what they count, and neither
    it nor the ways into and out of signed values need more than 64 bits. -/
theorem toSide_canonical :
    (∀ a : Amount, a.Held → ∀ s,
      (a.toSide s).signed = a.signed ∧ (a.toSide s).Within ∧
        (a.toSide s).side = (if a.valueOn s < 0 then s.opposite else s) ∧
        a.signed? = some a.signed ∧ a.toSide? s = some (a.toSide s) ∧
        ∀ t, (a.toSide s).toSide t = a.toSide t ∧
          (a.toSide s).toSide? t = some (a.toSide t)) ∧
    (∀ a b : Amount, a.Held → b.Held → ∀ s, a.toSide s = b.toSide s ↔ a.signed = b.signed) ∧
    (∀ a : Amount, a.Held → a.opposite.signed = -a.signed ∧ a.opposite.opposite = a ∧
      a.opposite.signed? = some (-a.signed)) ∧
    (∀ n, Width.bits64.Holds n → ∀ s, onSide? n s = some (onSide n s) ∧
      (n ≠ -Width.bits64.greatest - 1 →
        (onSide n .debit).signed = n ∧ (onSide n .credit).signed = -n)) ∧
    (∀ x, ((ofSigned? x).isSome ↔ x.natAbs ≤ Money.limit) ∧
      ∀ a, ofSigned? x = some a → a.signed = x ∧ a = ofSigned x ∧ onSide? x .debit = some a) := by
  refine ⟨fun a ha s => ?_, fun a b _ _ s => toSide_eq_iff, fun a ha => ?_, fun n hn s => ?_,
    fun x => ⟨by simp [ofSigned?], fun a ha => ?_⟩⟩
  · have htwice (t : Side) : (a.toSide s).toSide t = a.toSide t :=
      toSide_congr (signed_toSide a s) t
    have hheld := (ha.within_toSide s).held
    exact ⟨signed_toSide a s, ha.within_toSide s, side_toSide a s, signed?_of_held ha,
      toSide?_of_held ha s, fun t => ⟨htwice t, by rw [toSide?_of_held hheld, htwice]⟩⟩
  · exact ⟨signed_opposite a, opposite_opposite a, signed?_opposite ha⟩
  · refine ⟨onSide?_eq hn s, fun hleast => ?_⟩
    have hheld := (Width.holds_bits64.1 hn).resolve_right hleast
    exact ⟨by simpa [Side.sign] using signed_onSide hheld .debit,
      by simpa [Side.sign] using signed_onSide hheld .credit⟩
  · obtain ⟨hfits, hsigned⟩ := ofSigned?_eq_some ha
    have hsame : ofSigned x = a := Option.some.inj ((ofSigned?_eq hfits).symm.trans ha)
    exact ⟨hsigned, hsame.symm, by rw [onSide?_eq (Width.holds_bits64.2 (.inl hfits)), ← hsame,
      ofSigned]⟩

theorem toSide_canonical_at_limit :
    Held ⟨-Money.limit, .credit⟩ ∧
      toSide? ⟨-Money.limit, .credit⟩ .credit = some ⟨Money.limit, .debit⟩ ∧
      Width.bits64.Holds (-Money.limit) ∧
      onSide? (-Money.limit) .debit = some ⟨Money.limit, .credit⟩ ∧
      ofSigned? (-Money.limit) = some ⟨Money.limit, .credit⟩ ∧
      ⟨Money.limit, .credit⟩ = ofSigned (-Money.limit) := by
  obtain ⟨hsides, -, -, hentered, hsums⟩ := toSide_canonical
  have hheld : Held ⟨-Money.limit, .credit⟩ := by decide
  have hholds : Width.bits64.Holds (-Money.limit) := by decide
  have hsum : ofSigned? (-Money.limit) = some ⟨Money.limit, .credit⟩ := by decide
  obtain ⟨-, -, -, -, hside, -⟩ := hsides _ hheld .credit
  obtain ⟨henter, -⟩ := hentered _ hholds .debit
  exact ⟨hheld, hside, hholds, henter, hsum, ((hsums _).2 _ hsum).2.1⟩

end Amount

end DoubleEntry
