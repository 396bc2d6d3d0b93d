/-
Rounding keeps its place on the grid of numbers with 53 significant binary
digits: an exact quotient that is at most a number on the grid rounds to at most
that number (`nearestUnits_le`), and likewise from below (`le_nearestUnits`). A
representable number is therefore its own rounding, in particular every whole
number of at most 53 binary digits (`ofInt_eq`).
-/
import ManiaChart.Binary64.Arithmetic

namespace ManiaChart.Binary64

/-! ## The nearest multiple -/

theorem nearestEven_le_of_le {num den k : Nat} (hden : 0 < den) (h : num ≤ k * den) :
    nearestEven num den ≤ k := by
  have hle : num / den ≤ k := by
    rw [← Nat.mul_div_cancel k hden]
    exact Nat.div_le_div_right h
  by_cases hlt : num / den < k
  · exact Nat.le_trans (nearestEven_le num den) hlt
  · have heq : num / den = k := by omega
    have hmod : num % den = 0 := by
      have hsplit := Nat.div_add_mod num den
      rw [heq, Nat.mul_comm] at hsplit
      omega
    have hcompare : compare (2 * (num % den)) den = .lt := by
      rw [hmod]
      exact Nat.compare_eq_lt.2 (by omega)
    simp only [nearestEven, hcompare]
    exact hle

theorem le_nearestEven {num den k : Nat} (hden : 0 < den) (h : k * den ≤ num) :
    k ≤ nearestEven num den := by
  have hle : k ≤ num / den := (Nat.le_div_iff_mul_le hden).2 h
  simp only [nearestEven]
  split <;> omega

/-! ## The nearest representable number -/

theorem stepExponent_mono {a b : Nat} (h : a ≤ b) : stepExponent a ≤ stepExponent b := by
  by_cases ha : a = 0
  · subst ha
    simp [stepExponent]
  · have hb : b ≠ 0 := by omega
    have hlog : a.log2 ≤ b.log2 := (Nat.le_log2 hb).2 (Nat.le_trans (Nat.log2_self_le ha) h)
    simp only [stepExponent]
    omega

/-- A count of units with at most 53 significant binary digits, also one past the
overflow limit. -/
def OnGrid (units : Nat) : Prop := 2 ^ stepExponent units ∣ units

/-- An exact quotient at most a number on the grid rounds to at most that. -/
theorem nearestUnits_le {num den r : Nat} (hden : 0 < den) (hr : OnGrid r)
    (h : num ≤ r * den) : nearestUnits num den ≤ r := by
  have hquotient : num / den ≤ r := by
    rw [← Nat.mul_div_cancel r hden]
    exact Nat.div_le_div_right h
  obtain ⟨c, hc⟩ := Nat.dvd_trans (Nat.pow_dvd_pow 2 (stepExponent_mono hquotient)) hr
  have hstep : 0 < 2 ^ stepExponent (num / den) := Nat.two_pow_pos _
  have hbound : num ≤ c * (den * 2 ^ stepExponent (num / den)) := by
    calc num ≤ r * den := h
      _ = c * (den * 2 ^ stepExponent (num / den)) := by rw [hc]; ac_rfl
  simp only [nearestUnits]
  calc nearestEven num (den * 2 ^ stepExponent (num / den)) * 2 ^ stepExponent (num / den)
      ≤ c * 2 ^ stepExponent (num / den) :=
        Nat.mul_le_mul_right _ (nearestEven_le_of_le (Nat.mul_pos hden hstep) hbound)
    _ = r := by rw [hc, Nat.mul_comm]

/-- An exact quotient at least a number on the grid rounds to at least that. -/
theorem le_nearestUnits {num den r : Nat} (hden : 0 < den) (hr : OnGrid r)
    (h : r * den ≤ num) : r ≤ nearestUnits num den := by
  have hquotient : r ≤ num / den := (Nat.le_div_iff_mul_le hden).2 h
  have hstep : 0 < 2 ^ stepExponent (num / den) := Nat.two_pow_pos _
  simp only [nearestUnits]
  by_cases hgrid : stepExponent (num / den) ≤ stepExponent r
  · obtain ⟨c, hc⟩ := Nat.dvd_trans (Nat.pow_dvd_pow 2 hgrid) hr
    have hbound : c * (den * 2 ^ stepExponent (num / den)) ≤ num := by
      calc c * (den * 2 ^ stepExponent (num / den)) = r * den := by rw [hc]; ac_rfl
        _ ≤ num := h
    calc r = c * 2 ^ stepExponent (num / den) := by rw [hc, Nat.mul_comm]
      _ ≤ nearestEven num (den * 2 ^ stepExponent (num / den)) * 2 ^ stepExponent (num / den) :=
        Nat.mul_le_mul_right _ (le_nearestEven (Nat.mul_pos hden hstep) hbound)
  · -- The grid is coarser than that of `r`: a power of two lies between `r` and the quotient.
    have hlog : (num / den).log2 = 52 + stepExponent (num / den) := by
      simp only [stepExponent] at hgrid ⊢
      omega
    have hpow : 2 ^ (52 : Nat) * 2 ^ stepExponent (num / den) = 2 ^ (num / den).log2 := by
      rw [← Nat.pow_add, hlog]
    have hr' : r ≤ 2 ^ (num / den).log2 := by
      by_cases h0 : r = 0
      · omega
      · have hlt : r.log2 < (num / den).log2 := by
          simp only [stepExponent] at hgrid
          omega
        exact Nat.le_of_lt ((Nat.log2_lt h0).1 hlt)
    have hbound : 2 ^ (52 : Nat) * (den * 2 ^ stepExponent (num / den)) ≤ num := by
      have hself : 2 ^ (num / den).log2 ≤ num / den := Nat.log2_self_le fun h0 => by
        rw [h0, Nat.log2_zero] at hlog
        omega
      calc 2 ^ (52 : Nat) * (den * 2 ^ stepExponent (num / den))
          = 2 ^ (num / den).log2 * den := by rw [← hpow]; ac_rfl
        _ ≤ num / den * den := Nat.mul_le_mul_right den hself
        _ ≤ num := Nat.div_mul_le_self num den
    calc r ≤ 2 ^ (52 : Nat) * 2 ^ stepExponent (num / den) := hpow ▸ hr'
      _ ≤ nearestEven num (den * 2 ^ stepExponent (num / den)) * 2 ^ stepExponent (num / den) :=
        Nat.mul_le_mul_right _ (le_nearestEven (Nat.mul_pos hden hstep) hbound)

theorem nearestUnits_eq {num den r : Nat} (hden : 0 < den) (hr : OnGrid r)
    (h : num = r * den) : nearestUnits num den = r :=
  Nat.le_antisymm (nearestUnits_le hden hr (Nat.le_of_eq h)) (le_nearestUnits hden hr (Nat.le_of_eq h.symm))

/-! ## Whole numbers -/

theorem unitsPerOne_pos : 0 < unitsPerOne := by
  have hpos : ∀ s : Nat, 0 < 2 ^ s := Nat.two_pow_pos
  exact hpos 1074

theorem representable_mul_two_pow {m s : Nat} (hm : m ≤ 2 ^ (53 : Nat)) (hs : s < 2045) :
    Representable (m * 2 ^ s) := by
  have hpow : ∀ a b : Nat, a < b → 2 ^ a < 2 ^ b := fun a b => Nat.pow_lt_pow_right (by decide)
  refine representable_mul hm (Nat.lt_of_le_of_lt (Nat.mul_le_mul_right _ hm) ?_)
  rw [← Nat.pow_add]
  exact hpow (53 + s) 2098 (by omega)

theorem representable_ofNat {n : Nat} (hn : n ≤ 2 ^ (53 : Nat)) :
    Representable (n * unitsPerOne) := by
  rw [unitsPerOne]
  exact representable_mul_two_pow hn (by decide)

theorem ofRatio_of_lt {negative : Bool} {num den : Nat} (h : nearestUnits num den < limit) :
    ofRatio negative num den = .finite negative ⟨nearestUnits num den, nearestUnits_representable h⟩ :=
  dif_pos h

theorem ofInt_eq {n : Nat} (hn : n ≤ 2 ^ (53 : Nat)) :
    ofInt n = .finite false ⟨n * unitsPerOne, representable_ofNat hn⟩ := by
  have hunits : nearestUnits (n * unitsPerOne) 1 = n * unitsPerOne :=
    nearestUnits_eq Nat.one_pos (representable_ofNat hn).2 (Nat.mul_one _).symm
  have hlt : nearestUnits (n * unitsPerOne) 1 < limit := by
    rw [hunits]
    exact (representable_ofNat hn).1
  have hsign : decide ((n : Int) < 0) = false := by simp
  rw [ofInt, Int.natAbs_natCast, hsign, ofRatio_of_lt hlt]
  simp only [hunits]

/-! ## Signs -/

/-- A number of a sign, or none. -/
inductive Signed (negative : Bool) : Binary64 → Prop
  | nan : Signed negative nan
  | infinity : Signed negative (infinity negative)
  | finite (m : Magnitude) : Signed negative (finite negative m)

theorem signed_ofRatio (negative : Bool) (num den : Nat) :
    Signed negative (ofRatio negative num den) := by
  unfold ofRatio
  split
  · exact .finite _
  · exact .infinity

theorem signed_ofInt (n : Int) : Signed (n < 0) (ofInt n) := signed_ofRatio ..

theorem signed_ofNat (n : Nat) : Signed false (ofInt n) := by
  have hsigned := signed_ofInt n
  rwa [show decide ((n : Int) < 0) = false by simp] at hsigned

theorem position_zero : (0 : Binary64).position = some 0 := by
  have hzero : (0 : Binary64) = .finite false ⟨0 * unitsPerOne, representable_ofNat (Nat.zero_le _)⟩ :=
    ofInt_eq (Nat.zero_le _)
  rw [hzero]
  simp [position]

theorem signed_of_pos {a : Binary64} (h : 0 < a) : Signed false a := by
  obtain ⟨x, hx, y, hy, hlt⟩ := h
  simp only [position_zero, Option.mem_def, Option.some.injEq] at hx
  subst hx
  cases a with
  | nan => exact .nan
  | infinity negative =>
    cases negative with
    | false => exact .infinity
    | true =>
      simp only [position, if_true, Option.mem_def, Option.some.injEq] at hy
      omega
  | finite negative m =>
    cases negative with
    | false => exact .finite m
    | true =>
      simp only [position, if_true, Option.mem_def, Option.some.injEq] at hy
      omega

theorem Signed.mul {s t : Bool} {a b : Binary64} (ha : Signed s a) (hb : Signed t b) :
    Signed (s ^^ t) (a * b) := by
  show Signed (s ^^ t) (Binary64.mul a b)
  cases ha with
  | nan => exact .nan
  | infinity =>
    cases hb with
    | nan => exact .nan
    | infinity => exact .infinity
    | finite n =>
      simp only [Binary64.mul]
      split
      · exact .nan
      · exact .infinity
  | finite m =>
    cases hb with
    | nan => exact .nan
    | infinity =>
      simp only [Binary64.mul]
      split
      · exact .nan
      · exact .infinity
    | finite n => exact signed_ofRatio _ _ _

theorem Signed.div {s t : Bool} {a b : Binary64} (ha : Signed s a) (hb : Signed t b) :
    Signed (s ^^ t) (a / b) := by
  show Signed (s ^^ t) (Binary64.div a b)
  cases ha with
  | nan => exact .nan
  | infinity =>
    cases hb with
    | nan => exact .nan
    | infinity => exact .nan
    | finite n => exact .infinity
  | finite m =>
    cases hb with
    | nan => exact .nan
    | infinity => exact .finite _
    | finite n =>
      simp only [Binary64.div]
      split
      · split
        · exact .nan
        · exact .infinity
      · exact signed_ofRatio _ _ _

theorem toInt64_finite (m : Magnitude) :
    (finite false m).toInt64 = min 0x7fffffffffffffff ((m.units / unitsPerOne : Nat) : Int) := by
  have hwhole : (0 : Int) ≤ (m.units / unitsPerOne : Nat) := Int.natCast_nonneg _
  simp only [toInt64, toIntWithin, Bool.false_eq_true, if_false]
  omega

theorem Signed.toInt64_nonneg {a : Binary64} (h : Signed false a) : 0 ≤ a.toInt64 := by
  cases h with
  | nan => exact Int.le_refl 0
  | infinity => simp [toInt64, toIntWithin]
  | finite m =>
    have hwhole : (0 : Int) ≤ (m.units / unitsPerOne : Nat) := Int.natCast_nonneg _
    rw [toInt64_finite]
    omega

theorem Signed.toInt64_nonpos {a : Binary64} (h : Signed true a) : a.toInt64 ≤ 0 := by
  cases h with
  | nan => exact Int.le_refl 0
  | infinity => simp [toInt64, toIntWithin]
  | finite m =>
    have hwhole : (0 : Int) ≤ (m.units / unitsPerOne : Nat) := Int.natCast_nonneg _
    simp only [toInt64, toIntWithin, if_true]
    omega

theorem Signed.not_ofInt_lt {a : Binary64} (h : Signed true a) {c : Nat} (hc : c ≤ 2 ^ (53 : Nat)) :
    ¬ofInt c < a := by
  intro hlt
  obtain ⟨x, hx, y, hy, hlt⟩ := hlt
  rw [ofInt_eq hc] at hx
  simp only [position, Bool.false_eq_true, if_false, Option.mem_def, Option.some.injEq] at hx
  cases h with
  | nan => cases hy
  | infinity =>
    simp only [position, if_true, Option.mem_def, Option.some.injEq] at hy
    omega
  | finite m =>
    simp only [position, if_true, Option.mem_def, Option.some.injEq] at hy
    omega

/-! ## Multiples of a length in a span -/

/-- What follows for the exact product from a quotient that does not fall short
of `k` by a part in `a`. -/
theorem span_le {d k m u a : Nat} (hk : 0 < k) (ha : 2 * d + 1 ≤ a)
    (h : (2 * d + 1) * u ≤ 2 * (k * m)) : d * u * a + m ≤ k * m * a := by
  refine Nat.le_of_mul_le_mul_left ?_ (Nat.succ_pos (2 * d))
  calc (2 * d + 1) * (d * u * a + m) = d * a * ((2 * d + 1) * u) + (2 * d + 1) * m := by
        rw [Nat.mul_add]
        ac_rfl
    _ ≤ d * a * (2 * (k * m)) + a * (k * m) :=
        Nat.add_le_add (Nat.mul_le_mul_left _ h) (Nat.mul_le_mul ha (Nat.le_mul_of_pos_left m hk))
    _ = (2 * d + 1) * (k * m * a) := by
        rw [Nat.add_mul (2 * d) 1]
        congr 1
        · ac_rfl
        · ac_rfl

/-- The same for the number a part in `a` below `k`: it is not below the exact
quotient. -/
theorem quotient_le {d k m u a w : Nat} (hu : u = a * w) (hk : 0 < k) (ha : 2 * d + 1 ≤ a)
    (h : (2 * d + 1) * u ≤ 2 * (k * m)) : d * u * u ≤ (k * a - 1) * w * m := by
  have hspan := span_le hk ha h
  have hparts : d * u * a ≤ (k * a - 1) * m := by
    rw [Nat.sub_mul, Nat.one_mul, show k * a * m = k * m * a by ac_rfl]
    omega
  calc d * u * u = d * u * a * w := by
        rw [Nat.mul_assoc _ a w, ← hu]
    _ ≤ (k * a - 1) * m * w := Nat.mul_le_mul_right w hparts
    _ = (k * a - 1) * w * m := by ac_rfl

theorem unitsPerOne_eq {s t : Nat} (h : s + t = 1074) : unitsPerOne = 2 ^ s * 2 ^ t := by
  rw [unitsPerOne, ← h, Nat.pow_add]

/-- When `k` is at most the rounded quotient of a span of `d` by a length, `k`
lengths pass the span by at most a half. -/
theorem mul_le_of_le_nearestUnits {d k m : Nat} (hm : 0 < m) (hk : k ≤ 2 ^ (14 : Nat))
    (hd : 2 * d + 1 ≤ 2 ^ (39 : Nat))
    (h : k * unitsPerOne ≤ nearestUnits (d * unitsPerOne * unitsPerOne) m) :
    2 * (k * m) ≤ (2 * d + 1) * unitsPerOne := by
  apply Decidable.byContradiction
  intro hlt
  have hpos : 0 < k := by
    rcases Nat.eq_zero_or_pos k with rfl | hpos
    · simp at hlt
    · exact hpos
  have hu : unitsPerOne = 2 ^ (39 : Nat) * 2 ^ (1035 : Nat) := unitsPerOne_eq rfl
  have hr : Representable ((k * 2 ^ (39 : Nat) - 1) * 2 ^ (1035 : Nat)) :=
    representable_mul_two_pow (by omega) (by decide)
  have hround := nearestUnits_le hm hr.2 (quotient_le hu hpos hd (Nat.le_of_lt (Nat.not_le.1 hlt)))
  have hbelow : (k * 2 ^ (39 : Nat) - 1) * 2 ^ (1035 : Nat) < k * unitsPerOne := by
    have hpart : ∀ s : Nat, 0 < 2 ^ s := Nat.two_pow_pos
    rw [hu, ← Nat.mul_assoc]
    exact Nat.mul_lt_mul_of_pos_right (by omega) (hpart 1035)
  omega

theorem div_finite {a b : Magnitude} (hb : b.units ≠ 0) :
    finite false a / finite false b = ofRatio false (a.units * unitsPerOne) b.units := by
  show Binary64.div (finite false a) (finite false b) = _
  simp only [Binary64.div, if_neg hb, Bool.bne_false]

theorem mul_finite (a b : Magnitude) :
    finite false a * finite false b = ofRatio false (a.units * b.units) unitsPerOne := by
  show Binary64.mul (finite false a) (finite false b) = _
  simp only [Binary64.mul, Bool.bne_false]

theorem units_pos {m : Magnitude} (h : 0 < finite false m) : 0 < m.units := by
  obtain ⟨x, hx, y, hy, hlt⟩ := h
  simp only [position_zero, Option.mem_def, Option.some.injEq] at hx
  simp only [position, Bool.false_eq_true, if_false, Option.mem_def, Option.some.injEq] at hy
  omega

theorem le_of_not_ofInt_lt {c : Nat} (hc : c ≤ 2 ^ (53 : Nat)) {m : Magnitude}
    (h : ¬ofInt c < finite false m) : m.units ≤ c * unitsPerOne := by
  apply Decidable.byContradiction
  intro hlt
  refine h ⟨(c * unitsPerOne : Nat), ?_, m.units, ?_, by omega⟩
  · rw [ofInt_eq hc]
    rfl
  · rfl

theorem ofInt_lt_infinity {c : Nat} (hc : c ≤ 2 ^ (53 : Nat)) : ofInt c < infinity false := by
  refine ⟨(c * unitsPerOne : Nat), ?_, (limit : Nat), ?_, Int.ofNat_lt.2 (representable_ofNat hc).1⟩
  · rw [ofInt_eq hc]
    rfl
  · simp only [position, Bool.false_eq_true, if_false, Option.mem_def]

theorem units_div_of_toInt64 {k : Nat} {m : Magnitude} (h : (k : Int) ≤ (finite false m).toInt64) :
    k * unitsPerOne ≤ m.units := by
  rw [toInt64_finite] at h
  exact (Nat.le_div_iff_mul_le unitsPerOne_pos).1 (by omega)

/-- Lengths that pass a span by at most a half are within the span, a fraction
dropped, also after rounding. -/
theorem toInt64_mul_finite_le {d k : Nat} {m : Magnitude} (hk : k ≤ 2 ^ (53 : Nat))
    (hd : 2 * d + 1 ≤ 2 ^ (53 : Nat)) (h : 2 * (k * m.units) ≤ (2 * d + 1) * unitsPerOne) :
    (ofInt k * finite false m).toInt64 ≤ d := by
  obtain ⟨half, hhalf, hhalfpos, hr⟩ :
      ∃ half, unitsPerOne = 2 * half ∧ 0 < half ∧ Representable ((2 * d + 1) * half) := by
    have hpart : ∀ s : Nat, 0 < 2 ^ s := Nat.two_pow_pos
    exact ⟨2 ^ (1073 : Nat), by rw [unitsPerOne_eq (show 1 + 1073 = 1074 from rfl), Nat.pow_one], hpart 1073,
      representable_mul_two_pow hd (by decide)⟩
  have hproduct : k * unitsPerOne * m.units ≤ (2 * d + 1) * half * unitsPerOne := by
    have hexact : k * m.units ≤ (2 * d + 1) * half := by
      have hdouble : (2 * d + 1) * (2 * half) = 2 * ((2 * d + 1) * half) := Nat.mul_left_comm ..
      rw [hhalf, hdouble] at h
      omega
    rw [Nat.mul_right_comm]
    exact Nat.mul_le_mul_right _ hexact
  have hround := nearestUnits_le unitsPerOne_pos hr.2 hproduct
  have hwhole : nearestUnits (k * unitsPerOne * m.units) unitsPerOne / unitsPerOne < d + 1 := by
    rw [Nat.div_lt_iff_lt_mul unitsPerOne_pos]
    refine Nat.lt_of_le_of_lt hround ?_
    rw [hhalf, ← Nat.mul_assoc]
    exact Nat.mul_lt_mul_of_pos_right (by omega) hhalfpos
  rw [ofInt_eq hk, mul_finite, ofRatio_of_lt (Nat.lt_of_le_of_lt hround hr.1), toInt64_finite]
  exact Int.le_trans (Int.min_le_right _ _) (Int.ofNat_le.2 (Nat.le_of_lt_succ hwhole))

theorem zero_mul_infinity : ofInt (0 : Nat) * infinity false = nan := by
  rw [ofInt_eq (Nat.zero_le _)]
  show Binary64.mul _ _ = _
  simp only [Binary64.mul, Nat.zero_mul, if_true]

theorem not_pos_nan : ¬0 < nan := by
  intro hy
  obtain ⟨x, -, y, hy, -⟩ := hy
  cases hy

/-- A whole number of lengths that is at most the quotient of a span by the
length stays within the span, a fraction dropped. -/
theorem toInt64_mul_le {c d k : Nat} {length : Binary64} (hlength : 0 < length)
    (hc : c ≤ 2 ^ (14 : Nat)) (hd : 2 * d + 1 ≤ 2 ^ (39 : Nat))
    (hshort : ¬ofInt c < ofInt d / length) (hk : (k : Int) ≤ (ofInt d / length).toInt64) :
    (ofInt k * length).toInt64 ≤ d := by
  have hspan : ofInt d = finite false ⟨d * unitsPerOne, representable_ofNat (by omega)⟩ := ofInt_eq (by omega)
  cases signed_of_pos hlength with
  | nan => exact absurd hlength not_pos_nan
  | infinity =>
    have hzero : ofInt d / infinity false = zero false := by
      rw [hspan]
      rfl
    rw [hzero, zero, toInt64_finite] at hk
    have hk0 : k = 0 := by
      simp only [Nat.zero_div] at hk
      omega
    subst hk0
    rw [zero_mul_infinity]
    exact Int.natCast_nonneg d
  | finite m =>
    have hm := units_pos hlength
    rw [hspan, div_finite (by omega)] at hshort hk
    by_cases hlimit : nearestUnits (d * unitsPerOne * unitsPerOne) m.units < limit
    · rw [ofRatio_of_lt hlimit] at hshort hk
      have hquotient := le_of_not_ofInt_lt (by omega) hshort
      have hunits := units_div_of_toInt64 hk
      have hkc : k ≤ c := Nat.le_of_mul_le_mul_right (Nat.le_trans hunits hquotient) unitsPerOne_pos
      exact toInt64_mul_finite_le (by omega) (by omega) (mul_le_of_le_nearestUnits hm (by omega) hd hunits)
    · have hinfinite : ofRatio false (d * unitsPerOne * unitsPerOne) m.units = infinity false := dif_neg hlimit
      rw [hinfinite] at hshort
      exact absurd (ofInt_lt_infinity (by omega)) hshort

theorem pos_finite {m : Magnitude} (h : 0 < m.units) : 0 < finite false m := by
  refine ⟨0, position_zero, m.units, ?_, by omega⟩
  simp only [position, Bool.false_eq_true, if_false, Option.mem_def]

theorem mul_ofInt_pos {a : Binary64} (ha : 0 < a) {n : Nat} (hpos : 0 < n)
    (hn : n ≤ 2 ^ (53 : Nat)) : 0 < a * ofInt n := by
  have hunits : 0 < n * unitsPerOne := Nat.mul_pos hpos unitsPerOne_pos
  rw [ofInt_eq hn]
  cases signed_of_pos ha with
  | nan => exact absurd ha not_pos_nan
  | infinity =>
    show 0 < Binary64.mul _ _
    simp only [Binary64.mul, if_neg (Nat.ne_of_gt hunits)]
    exact ofInt_lt_infinity (c := 0) (Nat.zero_le _)
  | finite m =>
    have hle : m.units ≤ nearestUnits (m.units * (n * unitsPerOne)) unitsPerOne := by
      refine le_nearestUnits unitsPerOne_pos m.representable.2 (Nat.mul_le_mul_left _ ?_)
      exact Nat.le_mul_of_pos_left _ hpos
    have hm := units_pos ha
    rw [mul_finite]
    by_cases hlimit : nearestUnits (m.units * (n * unitsPerOne)) unitsPerOne < limit
    · rw [ofRatio_of_lt hlimit]
      exact pos_finite (Nat.lt_of_lt_of_le hm hle)
    · rw [show ofRatio false (m.units * (n * unitsPerOne)) unitsPerOne = infinity false from dif_neg hlimit]
      exact ofInt_lt_infinity (c := 0) (Nat.zero_le _)

end ManiaChart.Binary64
