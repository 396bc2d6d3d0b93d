/-
Operations that need no rounding. Products and quotients of whole numbers are
exact where the result is a whole number of at most 53 binary digits, and zero
adds nothing, but for the sign of a negative zero.
-/
import ManiaChart.Proofs.Binary64.Rounding

namespace ManiaChart.Binary64

/-! ## Whole numbers -/

theorem ofRatio_eq {negative : Bool} {num den r : Nat} (hden : 0 < den) (hr : Representable r)
    (h : num = r * den) : ofRatio negative num den = .finite negative ⟨r, hr⟩ := by
  have hunits : nearestUnits num den = r := nearestUnits_eq hden hr.2 h
  have hlt : nearestUnits num den < limit := by
    rw [hunits]
    exact hr.1
  rw [ofRatio_of_lt hlt]
  simp only [hunits]

theorem toInt64_ofNat {n : Nat} (hn : n ≤ 2 ^ (53 : Nat)) : (ofInt n).toInt64 = n := by
  rw [ofInt_eq hn, toInt64_finite, Nat.mul_div_cancel n unitsPerOne_pos]
  omega

theorem units_mul_units (k n u : Nat) : k * u * (n * u) = k * n * u * u := by
  rw [Nat.mul_mul_mul_comm, Nat.mul_assoc (k * n)]

theorem ofNat_mul_ofNat {k n : Nat} (hk : k ≤ 2 ^ (53 : Nat)) (hn : n ≤ 2 ^ (53 : Nat))
    (hkn : k * n ≤ 2 ^ (53 : Nat)) : ofInt k * ofInt n = ofInt (k * n : Nat) := by
  rw [ofInt_eq hk, ofInt_eq hn, ofInt_eq hkn, mul_finite]
  exact ofRatio_eq unitsPerOne_pos (representable_ofNat hkn) (units_mul_units k n unitsPerOne)

theorem ofNat_div_ofNat {k n : Nat} (hk : k ≤ 2 ^ (53 : Nat)) (hn : n ≤ 2 ^ (53 : Nat))
    (hpos : 0 < n) (hkn : k * n ≤ 2 ^ (53 : Nat)) : ofInt (k * n : Nat) / ofInt n = ofInt k := by
  have hunits : 0 < n * unitsPerOne := Nat.mul_pos hpos unitsPerOne_pos
  rw [ofInt_eq hk, ofInt_eq hn, ofInt_eq hkn,
    div_finite (b := ⟨n * unitsPerOne, representable_ofNat hn⟩) (Nat.ne_of_gt hunits)]
  exact ofRatio_eq hunits (representable_ofNat hk) (units_mul_units k n unitsPerOne).symm

theorem toInt64_le_of_not_lt {a : Binary64} (ha : Signed false a) {c : Nat}
    (hc : c ≤ 2 ^ (53 : Nat)) (h : ¬ofInt c < a) : a.toInt64 ≤ c := by
  cases ha with
  | nan => exact Int.natCast_nonneg c
  | infinity => exact absurd (ofInt_lt_infinity hc) h
  | finite m =>
    have hunits := Nat.div_le_div_right (c := unitsPerOne) (le_of_not_ofInt_lt hc h)
    rw [Nat.mul_div_cancel c unitsPerOne_pos] at hunits
    rw [toInt64_finite]
    omega

/-! ## Zero -/

theorem natAbs_signedUnits (negative : Bool) (m : Magnitude) :
    (signedUnits negative m).natAbs = m.units := by
  cases negative <;> simp [signedUnits]

theorem signedUnits_lt_zero {m : Magnitude} (hm : m.units ≠ 0) (negative : Bool) :
    decide (signedUnits negative m < 0) = negative := by
  cases negative
  · simp [signedUnits]
  · simp only [signedUnits, if_true, decide_eq_true_eq]
    omega

theorem ofNat_zero : ofInt (0 : Nat) = zero false := by
  rw [ofInt_eq (Nat.zero_le _)]
  simp only [zero, Nat.zero_mul]

theorem zero_div {length : Binary64} (hlength : 0 < length) :
    ofInt (0 : Nat) / length = ofInt (0 : Nat) := by
  rw [ofInt_eq (Nat.zero_le _)]
  cases signed_of_pos hlength with
  | nan => exact absurd hlength not_pos_nan
  | infinity =>
    rw [← ofInt_eq (Nat.zero_le _), ofNat_zero]
    rfl
  | finite m =>
    have hm := units_pos hlength
    rw [div_finite (Nat.ne_of_gt hm)]
    exact ofRatio_eq hm (representable_ofNat (Nat.zero_le _)) (by simp)

theorem add_finite (a b : Bool) (m n : Magnitude) :
    finite a m + finite b n =
      if signedUnits a m + signedUnits b n = 0 then zero (a && b)
      else ofRatio (signedUnits a m + signedUnits b n < 0) (signedUnits a m + signedUnits b n).natAbs 1 := rfl

theorem finite_eq_zero {s : Bool} {m : Magnitude} (h : m.units = 0) : finite s m = zero s := by
  obtain ⟨units, hunits⟩ := m
  cases h
  rfl

theorem add_ofNat_zero {a : Binary64} (ha : a ≠ zero true) : a + ofInt (0 : Nat) = a := by
  rw [ofNat_zero]
  cases a with
  | nan => rfl
  | infinity negative => rfl
  | finite negative m =>
    have hsum : ∀ h, signedUnits negative m + signedUnits false ⟨0, h⟩ = signedUnits negative m := by
      intro h
      simp [signedUnits]
    rw [zero, add_finite, hsum, natAbs_signedUnits]
    by_cases hm : m.units = 0
    · have hzero := finite_eq_zero (s := negative) hm
      have hnegative : negative = false := by
        cases negative with
        | false => rfl
        | true => exact absurd hzero ha
      subst hnegative
      rw [if_pos (Int.natAbs_eq_zero.1 ((natAbs_signedUnits false m).trans hm)), hzero]
      rfl
    · have hne : signedUnits negative m ≠ 0 := by
        intro hzero
        exact hm ((natAbs_signedUnits negative m).symm.trans (Int.natAbs_eq_zero.2 hzero))
      rw [if_neg hne, signedUnits_lt_zero hm]
      exact ofRatio_eq Nat.one_pos m.representable (Nat.mul_one _).symm

theorem representable_one : Representable 1 := by
  have hone := representable_mul_two_pow (m := 1) (s := 0) (by decide) (by decide)
  rwa [Nat.one_mul] at hone

theorem ofRatio_ne_zero {negative sign : Bool} {num : Nat} (h : num ≠ 0) :
    ofRatio negative num 1 ≠ zero sign := by
  have hle : 1 ≤ nearestUnits num 1 := le_nearestUnits Nat.one_pos representable_one.2 (by omega)
  unfold ofRatio
  split
  · intro hzero
    simp only [zero, finite.injEq, Magnitude.mk.injEq] at hzero
    omega
  · intro hzero
    cases hzero

/-- A sum is a negative zero only when both terms are. -/
theorem add_ne_negative_zero {a b : Binary64} (h : a ≠ zero true ∨ b ≠ zero true) : a + b ≠ zero true := by
  cases a with
  | nan => rintro ⟨⟩
  | infinity s =>
    cases b with
    | nan | finite => rintro ⟨⟩
    | infinity t => cases s <;> cases t <;> decide
  | finite s m =>
    cases b with
    | nan | infinity => rintro ⟨⟩
    | finite t n =>
      rw [add_finite]
      split
      next hsum =>
        intro hzero
        obtain ⟨rfl, rfl⟩ : s = true ∧ t = true := by simpa [zero] using hzero
        simp only [signedUnits, if_true] at hsum
        rw [finite_eq_zero (by omega), finite_eq_zero (by omega)] at h
        exact h.elim (absurd rfl) (absurd rfl)
      next hsum => exact ofRatio_ne_zero (Int.natAbs_ne_zero.2 hsum)

theorem add_ofNat_ne {a : Binary64} {k : Nat} (hk : k ≤ 2 ^ (53 : Nat)) : a + ofInt k ≠ zero true := by
  refine add_ne_negative_zero (.inr ?_)
  rw [ofInt_eq hk]
  rintro ⟨⟩

theorem add_zero_add {k : Nat} (hk : k ≤ 2 ^ (53 : Nat)) (a : Binary64) :
    a + ofInt (0 : Nat) + ofInt k = a + ofInt k := by
  by_cases ha : a = zero true
  · have hzero : zero true + zero false = zero false := by decide +kernel
    have hunits : ∀ h, signedUnits true ⟨0, h⟩ = signedUnits false ⟨0, h⟩ := fun _ => rfl
    rw [ha, ofNat_zero, hzero, ofInt_eq hk, zero, zero, add_finite, add_finite, hunits, Bool.and_false, Bool.and_false]
  · rw [add_ofNat_zero ha]

end ManiaChart.Binary64
