/-
Whole multiples of a length stay within the span they are counted in, whatever
the sign of the length: a tempo may be written negative, zero or not a number at
all (`toInt64_mul_within`).

A negative length in a span that runs backwards is the mirror image of a positive
one (`neg_div_neg`, `mul_neg`). In all other cases there is no multiple but the
zeroth, which does not move (`toInt64_zero_mul`).
-/
import ManiaChart.Proofs.Binary64.Order

namespace ManiaChart.Binary64

/-! ## Mirror images -/

theorem neg_neg (a : Binary64) : -(-a) = a := by
  cases a with
  | nan => rfl
  | infinity s => exact congrArg infinity (Bool.not_not s)
  | finite s m => exact congrArg (finite · m) (Bool.not_not s)

theorem neg_ofRatio (negative : Bool) (num den : Nat) : -ofRatio negative num den = ofRatio (!negative) num den := by
  unfold ofRatio
  split <;> rfl

theorem ofInt_neg {n : Nat} (hn : 0 < n) : ofInt (-n) = -ofInt n := by
  have hneg : decide (-(n : Int) < 0) = true := decide_eq_true (by omega)
  have hpos : decide ((n : Int) < 0) = false := decide_eq_false (by omega)
  rw [ofInt, ofInt, neg_ofRatio, hneg, hpos, Int.natAbs_neg]
  rfl

theorem neg_div_neg (a b : Binary64) : -a / -b = a / b := by
  have hsign : ∀ s t : Bool, ((!s) ^^ (!t)) = (s ^^ t) := by decide
  cases a with
  | nan => rfl
  | infinity s =>
    cases b with
    | nan | infinity => rfl
    | finite t n => exact congrArg infinity (hsign s t)
  | finite s m =>
    cases b with
    | nan => rfl
    | infinity t => exact congrArg zero (hsign s t)
    | finite t n =>
      show Binary64.div (finite (!s) m) (finite (!t) n) = Binary64.div (finite s m) (finite t n)
      simp only [Binary64.div, hsign]

theorem mul_finite_finite (s t : Bool) (m n : Magnitude) :
    finite s m * finite t n = ofRatio (s ^^ t) (m.units * n.units) unitsPerOne := by
  show Binary64.mul (finite s m) (finite t n) = _
  simp only [Binary64.mul]

theorem mul_neg (a b : Binary64) : a * -b = -(a * b) := by
  have hsign : ∀ s t : Bool, (s ^^ (!t)) = !(s ^^ t) := by decide
  cases a with
  | nan => rfl
  | infinity s =>
    cases b with
    | nan => rfl
    | infinity t => exact congrArg infinity (hsign s t)
    | finite t n =>
      show Binary64.mul (infinity s) (finite (!t) n) = -Binary64.mul (infinity s) (finite t n)
      simp only [Binary64.mul, hsign]
      split <;> rfl
  | finite s m =>
    cases b with
    | nan => rfl
    | infinity t =>
      show Binary64.mul (finite s m) (infinity (!t)) = -Binary64.mul (finite s m) (infinity t)
      simp only [Binary64.mul, hsign]
      split <;> rfl
    | finite t n =>
      show finite s m * finite (!t) n = _
      rw [mul_finite_finite, mul_finite_finite, neg_ofRatio, hsign]

theorem Signed.neg {s : Bool} {a : Binary64} (h : Signed s a) : Signed (!s) (-a) := by
  cases h with
  | nan => exact .nan
  | infinity => exact .infinity
  | finite m => exact .finite m

/-- The whole part of a mirror image, away from the ends of the range. -/
theorem toInt64_neg {a : Binary64} (hlow : -0x7fffffffffffffff ≤ a.toInt64) (hhigh : a.toInt64 < 0x7fffffffffffffff) :
    (-a).toInt64 = -a.toInt64 := by
  cases a with
  | nan => rfl
  | infinity s =>
    cases s with
    | true => exact absurd hlow (by decide)
    | false => exact absurd hhigh (by decide)
  | finite s m =>
    have hwhole : (0 : Int) ≤ (m.units / unitsPerOne : Nat) := Int.natCast_nonneg _
    show (finite (!s) m).toInt64 = _
    cases s with
    | true =>
      simp only [toInt64, toIntWithin, Bool.not_true, if_true, Bool.false_eq_true, if_false] at hlow hhigh ⊢
      omega
    | false =>
      simp only [toInt64, toIntWithin, Bool.not_false, if_true, Bool.false_eq_true, if_false] at hlow hhigh ⊢
      omega

/-! ## Lengths that have no multiple in a span -/

theorem exists_signed (a : Binary64) : ∃ s, Signed s a := by
  cases a with
  | nan => exact ⟨false, .nan⟩
  | infinity s => exact ⟨s, .infinity⟩
  | finite s m => exact ⟨s, .finite m⟩

/-- A whole part is at most a number that is not passed. -/
theorem toInt64_le_of_not_ofInt_lt {a : Binary64} {c : Nat} (hc : c ≤ 2 ^ (53 : Nat)) (h : ¬ofInt c < a) :
    a.toInt64 ≤ c := by
  obtain ⟨s, hsigned⟩ := exists_signed a
  cases s with
  | false => exact toInt64_le_of_not_lt hsigned hc h
  | true => exact Int.le_trans hsigned.toInt64_nonpos (Int.natCast_nonneg c)

theorem pos_of_signed {a : Binary64} (h : Signed false a) (hnan : a ≠ nan) (hzero : a ≠ zero false) : 0 < a := by
  cases h with
  | nan => exact absurd rfl hnan
  | infinity => exact ofInt_lt_infinity (c := 0) (Nat.zero_le _)
  | finite m => exact pos_finite (Nat.pos_of_ne_zero fun hunits => hzero (finite_eq_zero hunits))

theorem toInt64_zero_mul (length : Binary64) : (ofInt (0 : Nat) * length).toInt64 = 0 := by
  rw [ofNat_zero]
  cases length with
  | nan => rfl
  | infinity s => rfl
  | finite s m =>
    have hzero : ofRatio s 0 unitsPerOne = zero s :=
      ofRatio_eq unitsPerOne_pos (by decide +kernel) (Nat.zero_mul _).symm
    rw [zero, mul_finite_finite, Nat.zero_mul, Bool.false_xor, hzero]
    cases s <;> decide +kernel

theorem one_mul (length : Binary64) : ofInt (1 : Nat) * length = length := by
  rw [ofInt_eq (by decide)]
  cases length with
  | nan => rfl
  | infinity s =>
    show Binary64.mul _ _ = _
    have hunits : 1 * unitsPerOne ≠ 0 := Nat.ne_of_gt (Nat.mul_pos Nat.one_pos unitsPerOne_pos)
    simp only [Binary64.mul, if_neg hunits, Bool.false_bne]
  | finite s m =>
    have hunits : ∀ unit : Nat, 1 * unit * m.units = m.units * unit := fun unit => by
      rw [Nat.one_mul, Nat.mul_comm]
    rw [mul_finite_finite, Bool.false_xor]
    exact ofRatio_eq unitsPerOne_pos m.representable (hunits _)

/-- A span over zero is not a number or infinite. -/
theorem div_zero_cases (a : Binary64) (s : Bool) : a / zero s = nan ∨ ∃ t, a / zero s = infinity t := by
  cases a with
  | nan => exact .inl rfl
  | infinity t => exact .inr ⟨_, rfl⟩
  | finite t m =>
    show Binary64.div _ _ = nan ∨ ∃ t, Binary64.div _ _ = infinity t
    simp only [zero, Binary64.div, if_true]
    split
    · exact .inl rfl
    · exact .inr ⟨_, rfl⟩

/-! ## Multiples of any length -/

section

variable {c k : Nat} {length : Binary64}

/-- A span of no few lengths, nor of none, is one of a length that is neither
zero nor not a number. -/
theorem ne_of_one_le_toInt64_div {a : Binary64} (hc : c ≤ 2 ^ (53 : Nat)) (hshort : ¬ofInt c < a / length)
    (hmany : 1 ≤ (a / length).toInt64) : length ≠ nan ∧ ∀ s, length ≠ zero s := by
  refine ⟨?_, ?_⟩
  · rintro rfl
    have hnan : a / nan = nan := by cases a <;> rfl
    rw [hnan] at hmany
    exact absurd hmany (by decide)
  · rintro s rfl
    rcases div_zero_cases a s with hnan | ⟨t, hinfinite⟩
    · rw [hnan] at hmany
      exact absurd hmany (by decide)
    · rw [hinfinite] at hshort hmany
      cases t with
      | false => exact hshort (ofInt_lt_infinity hc)
      | true => exact absurd hmany (by decide)

/-- A whole number of lengths, at most the quotient of a span by the length,
stays within the span, a fraction dropped. -/
theorem toInt64_mul_within {d : Int} (hc : c ≤ 2 ^ (14 : Nat)) (hd : 2 * d.natAbs + 1 ≤ 2 ^ (39 : Nat))
    (hshort : ¬ofInt c < ofInt d / length) (hk : (k : Int) ≤ (ofInt d / length).toInt64) :
    min 0 d ≤ (ofInt k * length).toInt64 ∧ (ofInt k * length).toInt64 ≤ max 0 d := by
  rcases Nat.eq_zero_or_pos k with rfl | hpos
  · rw [toInt64_zero_mul]
    omega
  have hmany : 1 ≤ (ofInt d / length).toInt64 := by omega
  obtain ⟨hnan, hzero⟩ := ne_of_one_le_toInt64_div (by omega) hshort hmany
  obtain ⟨s, hlength⟩ := exists_signed length
  -- Span and length are of one sign, or there were less than one length.
  have hsame : decide (d < 0) = s := by
    have hquotient := (signed_ofInt d).div hlength
    by_cases hsign : (decide (d < 0) ^^ s) = true
    · rw [hsign] at hquotient
      have hnone := hquotient.toInt64_nonpos
      omega
    · simpa using hsign
  cases s with
  | false =>
    obtain ⟨n, rfl⟩ := Int.eq_ofNat_of_zero_le (Int.not_lt.1 (of_decide_eq_false hsame))
    have hle := toInt64_mul_le (pos_of_signed hlength hnan (hzero false)) hc hd hshort hk
    have hsigned : Signed (false ^^ false) (ofInt k * length) := (signed_ofNat k).mul hlength
    have hnonneg := Signed.toInt64_nonneg hsigned
    omega
  | true =>
    have hneg : d < 0 := of_decide_eq_true hsame
    obtain ⟨n, hn⟩ := Int.eq_ofNat_of_zero_le (show 0 ≤ -d by omega)
    obtain rfl : d = -n := by omega
    have hmirror : Signed false (-length) := hlength.neg
    have hnan' : -length ≠ nan := fun h => hnan (by rw [← neg_neg length, h]; rfl)
    have hzero' : -length ≠ zero false := fun h => hzero true (by rw [← neg_neg length, h]; rfl)
    have hquotient : ofInt (-n) / length = ofInt n / -length := by
      rw [ofInt_neg (by omega), ← neg_div_neg (ofInt n), neg_neg]
    rw [hquotient] at hshort hk
    have hle := toInt64_mul_le (pos_of_signed hmirror hnan' hzero') hc (by omega) hshort hk
    have hsigned : Signed (false ^^ false) (ofInt k * -length) := (signed_ofNat k).mul hmirror
    have hnonneg := Signed.toInt64_nonneg hsigned
    have hproduct : (ofInt k * length).toInt64 = -(ofInt k * -length).toInt64 := by
      rw [← toInt64_neg (by omega) (by omega), mul_neg, neg_neg]
    omega

end

end ManiaChart.Binary64
