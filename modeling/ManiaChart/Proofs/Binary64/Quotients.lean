/-
Quotients of less than one. Numbers lie on a grid, so a number that is below
another is below it by at least a part in 2^53 (`mul_le_of_lt`): their quotient
is not rounded up to one. The whole part of a quotient is zero just when the
divisor is not within the dividend (`toInt64_div_eq_zero_iff`), whatever their
sizes.
-/
import ManiaChart.Proofs.Binary64.Spans

namespace ManiaChart.Binary64

/-! ## Gaps in the grid -/

theorem lt_step_mul (units : Nat) : units < 2 ^ (53 : Nat) * 2 ^ stepExponent units :=
  (Nat.div_lt_iff_lt_mul (Nat.two_pow_pos _)).1 (div_step_lt units)

theorem add_step_le {d m : Nat} (hd : OnGrid d) (hm : OnGrid m) (h : d < m) :
    d + 2 ^ stepExponent d ≤ m := by
  have hstep : 2 ^ stepExponent d ∣ m :=
    Nat.dvd_trans (Nat.pow_dvd_pow 2 (stepExponent_mono (Nat.le_of_lt h))) hm
  obtain ⟨a, ha⟩ := hd
  obtain ⟨b, hb⟩ := hstep
  generalize 2 ^ stepExponent d = step at *
  subst ha hb
  have hlt : a < b := Nat.lt_of_mul_lt_mul_left h
  calc step * a + step = step * (a + 1) := (Nat.mul_succ step a).symm
    _ ≤ step * b := Nat.mul_le_mul_left step hlt

/-- The lower one is a part in 2^53 below the other. -/
theorem mul_le_of_lt {d m : Nat} (hd : OnGrid d) (hm : OnGrid m) (h : d < m) :
    d * 2 ^ (53 : Nat) ≤ (2 ^ (53 : Nat) - 1) * m := by
  have hgap := add_step_le hd hm h
  have hlt := lt_step_mul d
  obtain ⟨a, ha⟩ := hd
  generalize 2 ^ stepExponent d = step at *
  have hsignificand : a + 1 ≤ 2 ^ (53 : Nat) := by
    rw [ha, Nat.mul_comm] at hlt
    exact Nat.lt_of_mul_lt_mul_right hlt
  have hle : d ≤ (2 ^ (53 : Nat) - 1) * step := by
    rw [ha, Nat.mul_comm]
    exact Nat.mul_le_mul_right step (by omega)
  calc d * 2 ^ (53 : Nat) = (2 ^ (53 : Nat) - 1) * d + d := by omega
    _ ≤ (2 ^ (53 : Nat) - 1) * d + (2 ^ (53 : Nat) - 1) * step := Nat.add_le_add_left hle _
    _ = (2 ^ (53 : Nat) - 1) * (d + step) := (Nat.mul_add ..).symm
    _ ≤ (2 ^ (53 : Nat) - 1) * m := Nat.mul_le_mul_left _ hgap

/-! ## Rounded quotients and one -/

theorem nearestUnits_lt_one_iff {d m : Nat} (hd : OnGrid d) (hm : OnGrid m) (hpos : 0 < m) :
    nearestUnits (d * unitsPerOne) m < unitsPerOne ↔ d < m := by
  constructor
  · intro hlt
    refine Nat.lt_of_not_le fun hle => Nat.not_le.2 hlt ?_
    have hone : OnGrid unitsPerOne := onGrid_two_pow 1074
    refine le_nearestUnits hpos hone ?_
    rw [Nat.mul_comm]
    exact Nat.mul_le_mul_right unitsPerOne hle
  · intro hlt
    have hunits : unitsPerOne = 2 ^ (53 : Nat) * 2 ^ (1021 : Nat) := unitsPerOne_eq (by decide)
    have hgrid : OnGrid ((2 ^ (53 : Nat) - 1) * 2 ^ (1021 : Nat)) :=
      (representable_mul_two_pow (by decide) (by decide)).2
    have hpow : ∀ s : Nat, 0 < 2 ^ s := Nat.two_pow_pos
    have hrest := hpow 1021
    generalize 2 ^ (1021 : Nat) = rest at *
    have hle : d * unitsPerOne ≤ (2 ^ (53 : Nat) - 1) * rest * m := by
      calc d * unitsPerOne = d * 2 ^ (53 : Nat) * rest := by rw [hunits, Nat.mul_assoc]
        _ ≤ (2 ^ (53 : Nat) - 1) * m * rest := Nat.mul_le_mul_right rest (mul_le_of_lt hd hm hlt)
        _ = (2 ^ (53 : Nat) - 1) * rest * m := Nat.mul_right_comm ..
    calc nearestUnits (d * unitsPerOne) m ≤ (2 ^ (53 : Nat) - 1) * rest := nearestUnits_le hpos hgrid hle
      _ < 2 ^ (53 : Nat) * rest := Nat.mul_lt_mul_of_pos_right (by decide) hrest
      _ = unitsPerOne := hunits.symm

theorem toInt64_ofRatio_eq_zero_iff {num den : Nat} :
    (ofRatio false num den).toInt64 = 0 ↔ nearestUnits num den < unitsPerOne := by
  have hpow : ∀ s t : Nat, s ≤ t → 2 ^ s ≤ 2 ^ t := fun s t h => Nat.pow_le_pow_right (by decide) h
  have hone : unitsPerOne ≤ limit := hpow 1074 2098 (by decide)
  unfold ofRatio
  split
  · rw [toInt64_finite, ← Nat.div_eq_zero_iff_lt unitsPerOne_pos]
    dsimp only
    omega
  next hlimit =>
    have hmost : (infinity false).toInt64 = 0x7fffffffffffffff := rfl
    rw [hmost]
    omega

/-- The whole part of a quotient is zero just when the divisor is not within the
dividend. -/
theorem toInt64_div_eq_zero_iff {a b : Binary64} (ha : 0 < a) (hfinite : a.isFinite = true)
    (hb : Signed false b) : (a / b).toInt64 = 0 ↔ ¬b ≤ a := by
  cases signed_of_pos ha with
  | nan | infinity => cases hfinite
  | finite m =>
    have hm := units_pos ha
    have hplace : (finite false m).position = some (m.units : Int) := rfl
    cases hb with
    | nan =>
      refine ⟨fun _ hle => ?_, fun _ => rfl⟩
      obtain ⟨x, hx, -⟩ := hle
      cases hx
    | infinity =>
      have hquotient : finite false m / infinity false = zero false := rfl
      rw [hquotient]
      refine ⟨fun _ hle => ?_, fun _ => by decide +kernel⟩
      have hlimit : (limit : Int) ≤ m.units := (le_iff rfl hplace).1 hle
      have := m.representable.1
      omega
    | finite n =>
      have hle : finite false n ≤ finite false m ↔ n.units ≤ m.units :=
        (le_iff rfl hplace).trans Int.ofNat_le
      rw [hle, Nat.not_le]
      by_cases hzero : n.units = 0
      · have hquotient : finite false m / finite false n = infinity false := by
          show Binary64.div _ _ = _
          simp only [Binary64.div, if_pos hzero, if_neg (Nat.ne_of_gt hm), Bool.bne_false]
        rw [hquotient, hzero]
        exact ⟨fun h => absurd h (by decide), fun h => absurd h (Nat.not_lt_zero _)⟩
      · rw [div_finite hzero, toInt64_ofRatio_eq_zero_iff,
          nearestUnits_lt_one_iff m.representable.2 n.representable.2 (Nat.pos_of_ne_zero hzero)]

/-! ## Quotients of the other sign -/

theorem neg_div (a b : Binary64) : -a / b = -(a / b) := by
  have hsign : ∀ s t : Bool, ((!s) ^^ t) = !(s ^^ t) := by decide
  cases a with
  | nan => rfl
  | infinity s =>
    cases b with
    | nan | infinity => rfl
    | finite t n => exact congrArg infinity (hsign s t)
  | finite s m =>
    cases b with
    | nan => rfl
    | infinity t => exact congrArg zero (hsign s t)
    | finite t n =>
      show Binary64.div (finite (!s) m) (finite t n) = -Binary64.div (finite s m) (finite t n)
      simp only [Binary64.div, hsign]
      split
      · split <;> rfl
      · exact (neg_ofRatio ..).symm

/-- A number within a positive one is within it as its mirror image, too. -/
theorem neg_le_of_le {a b : Binary64} (ha : 0 < a) (hb : Signed false b) (h : b ≤ a) : -b ≤ a := by
  obtain ⟨x, hx, y, hy, hle⟩ := h
  obtain ⟨z, hz, y', hy', hlt⟩ := ha
  cases position_zero.symm.trans hz
  cases hy.symm.trans hy'
  cases hb with
  | nan => cases hx
  | infinity => exact ⟨-limit, rfl, y, hy, by omega⟩
  | finite m => exact ⟨-m.units, rfl, y, hy, by omega⟩

theorem toInt64_neg_eq_zero_iff {a : Binary64} : (-a).toInt64 = 0 ↔ a.toInt64 = 0 := by
  cases a with
  | nan => rfl
  | infinity s => cases s <;> decide
  | finite s m =>
    show (finite (!s) m).toInt64 = 0 ↔ (finite s m).toInt64 = 0
    have hwhole : (0 : Int) ≤ (m.units / unitsPerOne : Nat) := Int.natCast_nonneg _
    cases s with
    | true =>
      simp only [toInt64, toIntWithin, Bool.not_true, if_true, Bool.false_eq_true, if_false]
      omega
    | false =>
      simp only [toInt64, toIntWithin, Bool.not_false, if_true, Bool.false_eq_true, if_false]
      omega

/-! ## Spans of whole milliseconds -/

theorem ofNat_pos {n : Nat} (hn : 0 < n) : 0 < ofInt n := by
  obtain ⟨x, hx, y, hy, hle⟩ := ofInt_le_ofInt (Int.ofNat_le.2 hn : ((1 : Nat) : Int) ≤ n)
  have hone := position_ofInt_of_le (n := (1 : Nat)) (by decide)
  cases hone.symm.trans hx
  have hpos : (0 : Int) < unitsPerOne := Int.natCast_pos.2 unitsPerOne_pos
  exact ⟨0, position_zero, y, hy, by omega⟩

end ManiaChart.Binary64
