/-
Operations keep the order. Rounding is monotone (`nearestUnits_mono`), so what
can be said of exact results can be said of rounded ones, infinities included:
`position_add`, `position_ofInt_div` and their like give the place of a result as
one rounding, and `rounded_mono` compares two roundings.

Whole parts are monotone too (`toInt64_mono`). A span that ends before the whole
part of `k` lengths has at most `k` of them, one that ends after it at least `k`
(`ofInt_div_le_ofNat`, `ofNat_le_ofInt_div`).
-/
import ManiaChart.Proofs.Binary64.Exact

namespace ManiaChart.Binary64

/-! ## Rounding is monotone -/

theorem floor_mono {num den num' den' : Nat} (hden : 0 < den) (hden' : 0 < den')
    (h : num * den' ≤ num' * den) : num / den ≤ num' / den' := by
  rw [Nat.le_div_iff_mul_le hden']
  refine Nat.le_of_mul_le_mul_right ?_ hden
  calc num / den * den' * den = num / den * den * den' := Nat.mul_right_comm ..
    _ ≤ num * den' := Nat.mul_le_mul_right _ (Nat.div_mul_le_self num den)
    _ ≤ num' * den := h

theorem nearestEven_mono {num den num' den' : Nat} (hden : 0 < den) (hden' : 0 < den')
    (h : num * den' ≤ num' * den) : nearestEven num den ≤ nearestEven num' den' := by
  have hfloor := floor_mono hden hden' h
  rcases Nat.lt_or_eq_of_le hfloor with hlt | heq
  · calc nearestEven num den ≤ num / den + 1 := nearestEven_le num den
      _ ≤ num' / den' := hlt
      _ ≤ nearestEven num' den' := le_nearestEven hden' (Nat.div_mul_le_self num' den')
  · -- Between the same whole numbers the remainders decide.
    have hrest : num % den * den' ≤ num' % den' * den := by
      have hnum := Nat.div_add_mod num den
      have hnum' := Nat.div_add_mod num' den'
      rw [← hnum, ← hnum', ← heq, Nat.add_mul, Nat.add_mul] at h
      have hwhole : den * (num / den) * den' = den' * (num / den) * den := by ac_rfl
      omega
    have hhalf : den ≤ 2 * (num % den) → den' ≤ 2 * (num' % den') := by
      intro hle
      refine Nat.le_of_mul_le_mul_right ?_ hden
      calc den' * den ≤ den' * (2 * (num % den)) := Nat.mul_le_mul_left _ hle
        _ = 2 * (num % den * den') := by ac_rfl
        _ ≤ 2 * (num' % den' * den) := Nat.mul_le_mul_left 2 hrest
        _ = 2 * (num' % den') * den := (Nat.mul_assoc ..).symm
    have hover : den < 2 * (num % den) → den' < 2 * (num' % den') := by
      intro hlt
      refine Nat.lt_of_mul_lt_mul_right (a := den) ?_
      calc den' * den < den' * (2 * (num % den)) := Nat.mul_lt_mul_of_pos_left hlt hden'
        _ = 2 * (num % den * den') := by ac_rfl
        _ ≤ 2 * (num' % den' * den) := Nat.mul_le_mul_left 2 hrest
        _ = 2 * (num' % den') * den := (Nat.mul_assoc ..).symm
    simp only [nearestEven, ← heq]
    cases hcompare : compare (2 * (num % den)) den <;>
      cases hcompare' : compare (2 * (num' % den')) den' <;>
      simp only [Nat.compare_eq_lt, Nat.compare_eq_eq, Nat.compare_eq_gt] at hcompare hcompare' ⊢ <;>
      omega

theorem onGrid_two_pow (s : Nat) : OnGrid (2 ^ s) := by
  have hlog : (2 ^ s).log2 = s := Nat.log2_two_pow
  rw [OnGrid, stepExponent, hlog]
  exact Nat.pow_dvd_pow 2 (Nat.sub_le s 52)

theorem nearestUnits_mono {num den num' den' : Nat} (hden : 0 < den) (hden' : 0 < den')
    (h : num * den' ≤ num' * den) : nearestUnits num den ≤ nearestUnits num' den' := by
  have hfloor := floor_mono hden hden' h
  rcases Nat.lt_or_eq_of_le (stepExponent_mono hfloor) with hlt | heq
  · -- The grid is coarser at the greater quotient: a power of two lies in between.
    have hlog : (num / den).log2 < (num' / den').log2 := by
      unfold stepExponent at hlt
      omega
    have hbelow : num / den < 2 ^ (num' / den').log2 := by
      by_cases h0 : num / den = 0
      · rw [h0]
        exact Nat.two_pow_pos _
      · exact (Nat.log2_lt h0).1 hlog
    have habove : 2 ^ (num' / den').log2 ≤ num' / den' := Nat.log2_self_le fun h0 => by
      rw [h0, Nat.log2_zero] at hlog
      exact Nat.not_lt_zero _ hlog
    calc nearestUnits num den ≤ 2 ^ (num' / den').log2 :=
          nearestUnits_le hden (onGrid_two_pow _) (Nat.le_of_lt ((Nat.div_lt_iff_lt_mul hden).1 hbelow))
      _ ≤ nearestUnits num' den' :=
          le_nearestUnits hden' (onGrid_two_pow _) ((Nat.le_div_iff_mul_le hden').1 habove)
  · simp only [nearestUnits, ← heq]
    have hstep : 0 < 2 ^ stepExponent (num / den) := Nat.two_pow_pos _
    refine Nat.mul_le_mul_right _ (nearestEven_mono (Nat.mul_pos hden hstep) (Nat.mul_pos hden' hstep) ?_)
    rw [← Nat.mul_assoc, ← Nat.mul_assoc]
    exact Nat.mul_le_mul_right _ h

/-! ## Rounding with a sign -/

/-- How far out the number nearest to `num / den` units lies, the infinities at
the limit. -/
def distance (num : Int) (den : Nat) : Nat := min limit (nearestUnits num.natAbs den)

/-- Where the number nearest to `num / den` units lies. -/
def rounded (num : Int) (den : Nat) : Int := if num < 0 then -distance num den else distance num den

theorem distance_mono {num num' : Int} {den den' : Nat} (hden : 0 < den) (hden' : 0 < den')
    (h : num.natAbs * den' ≤ num'.natAbs * den) : distance num den ≤ distance num' den' := by
  have hmono := nearestUnits_mono hden hden' h
  unfold distance
  omega

theorem nearestUnits_zero {den : Nat} (hden : 0 < den) : nearestUnits 0 den = 0 :=
  Nat.le_zero.1 (nearestUnits_le hden (r := 0) (Nat.dvd_zero _) (Nat.zero_le _))

theorem distance_zero {den : Nat} (hden : 0 < den) : distance 0 den = 0 := by
  rw [distance, Int.natAbs_zero, nearestUnits_zero hden, Nat.min_zero]

theorem rounded_mono {num num' : Int} {den den' : Nat} (hden : 0 < den) (hden' : 0 < den')
    (h : num * den' ≤ num' * den) : rounded num den ≤ rounded num' den' := by
  have hpos : (0 : Int) < den := Int.natCast_pos.2 hden
  have hpos' : (0 : Int) < den' := Int.natCast_pos.2 hden'
  unfold rounded
  by_cases hnum : num < 0
  · rw [if_pos hnum]
    by_cases hnum' : num' < 0
    · rw [if_pos hnum']
      refine Int.neg_le_neg (Int.ofNat_le.2 (distance_mono hden' hden ?_))
      rw [← Int.ofNat_le, Int.natCast_mul, Int.natCast_mul, Int.ofNat_natAbs_of_nonpos (Int.le_of_lt hnum),
        Int.ofNat_natAbs_of_nonpos (Int.le_of_lt hnum'), Int.neg_mul, Int.neg_mul]
      exact Int.neg_le_neg h
    · rw [if_neg hnum']
      omega
  · have hnum' : ¬num' < 0 := by
      intro hneg
      have hleft : 0 ≤ num * den' := Int.mul_nonneg (Int.not_lt.1 hnum) (Int.le_of_lt hpos')
      have hright : num' * den < 0 := Int.mul_neg_of_neg_of_pos hneg hpos
      omega
    rw [if_neg hnum, if_neg hnum']
    refine Int.ofNat_le.2 (distance_mono hden hden' ?_)
    rw [← Int.ofNat_le, Int.natCast_mul, Int.natCast_mul, Int.natAbs_of_nonneg (Int.not_lt.1 hnum),
      Int.natAbs_of_nonneg (Int.not_lt.1 hnum')]
    exact h

theorem rounded_eq {x : Int} {den : Nat} (hden : 0 < den) (hgrid : OnGrid x.natAbs)
    (hle : x.natAbs ≤ limit) : rounded (x * den) den = x := by
  have hunits : nearestUnits (x * den).natAbs den = x.natAbs :=
    nearestUnits_eq hden hgrid (by rw [Int.natAbs_mul, Int.natAbs_natCast])
  have hsign : x * den < 0 ↔ x < 0 := by
    have hdenInt : (0 : Int) < den := Int.natCast_pos.2 hden
    constructor
    · intro hneg
      exact Int.not_le.1 fun hx => Int.not_le.2 hneg (Int.mul_nonneg hx (Int.le_of_lt hdenInt))
    · intro hx
      exact Int.mul_neg_of_neg_of_pos hx hdenInt
  simp only [rounded, distance, hunits, hsign]
  split <;> omega

theorem rounded_one {x : Int} (hgrid : OnGrid x.natAbs) (hle : x.natAbs ≤ limit) : rounded x 1 = x := by
  have hexact := rounded_eq Nat.one_pos hgrid hle
  rwa [show x * ((1 : Nat) : Int) = x from Int.mul_one x] at hexact

theorem onGrid_limit : OnGrid limit := onGrid_two_pow 2098

theorem rounded_of_limit_le {x : Int} (h : limit ≤ x) : rounded x 1 = limit := by
  have habs : (limit : Int).natAbs = limit := Int.natAbs_natCast limit
  have hlimit : rounded limit 1 = limit := rounded_one (habs.symm ▸ onGrid_limit) (Nat.le_of_eq habs)
  have hle : rounded limit 1 ≤ rounded x 1 :=
    rounded_mono Nat.one_pos Nat.one_pos (Int.mul_le_mul_of_nonneg_right h (by decide))
  have hmost : rounded x 1 ≤ limit := by
    unfold rounded distance
    split <;> omega
  omega

/-! ## Where results lie -/

theorem position_ofRatio {negative : Bool} {num : Int} {den : Nat} (hden : 0 < den)
    (hsign : if negative then num ≤ 0 else 0 ≤ num) :
    (ofRatio negative num.natAbs den).position = some (rounded num den) := by
  have hdistance : (ofRatio negative num.natAbs den).position =
      some (if negative then -(distance num den : Int) else distance num den) := by
    by_cases hlt : nearestUnits num.natAbs den < limit
    · rw [ofRatio_of_lt hlt, distance, Nat.min_eq_right (Nat.le_of_lt hlt)]
      rfl
    · rw [ofRatio, dif_neg hlt, distance, Nat.min_eq_left (Nat.not_lt.1 hlt)]
      rfl
  rw [hdistance, rounded]
  cases negative with
  | false =>
    rw [if_neg (Int.not_lt.2 hsign), if_neg Bool.false_ne_true]
  | true =>
    rw [if_pos rfl]
    -- A negative zero lies where zero does.
    by_cases hzero : num = 0
    · rw [hzero, distance_zero hden]
      rfl
    · rw [if_pos (Int.lt_iff_le_and_ne.2 ⟨hsign, hzero⟩)]

theorem position_ofRatio_nat {num den : Nat} (hden : 0 < den) :
    (ofRatio false num den).position = some (rounded num den) := by
  have hround : (ofRatio false (num : Int).natAbs den).position = some (rounded num den) :=
    position_ofRatio hden (Int.natCast_nonneg num)
  rwa [Int.natAbs_natCast] at hround

theorem le_iff {a b : Binary64} {x y : Int} (ha : a.position = some x) (hb : b.position = some y) :
    a ≤ b ↔ x ≤ y := by
  constructor
  · rintro ⟨x', hx, y', hy, hle⟩
    cases ha.symm.trans hx
    cases hb.symm.trans hy
    exact hle
  · intro hle
    exact ⟨x, ha, y, hb, hle⟩

protected theorem le_trans {a b c : Binary64} (hab : a ≤ b) (hbc : b ≤ c) : a ≤ c := by
  obtain ⟨x, hx, y, hy, hxy⟩ := hab
  obtain ⟨y', hy', z, hz, hyz⟩ := hbc
  cases hy.symm.trans hy'
  exact ⟨x, hx, z, hz, Int.le_trans hxy hyz⟩

theorem onGrid_of_position {a : Binary64} {x : Int} (h : a.position = some x) :
    OnGrid x.natAbs ∧ x.natAbs ≤ limit := by
  cases a with
  | nan => cases h
  | infinity negative =>
    have habs : x.natAbs = limit := by
      cases h
      cases negative with
      | false => exact Int.natAbs_natCast limit
      | true => exact (Int.natAbs_neg _).trans (Int.natAbs_natCast limit)
    rw [habs]
    exact ⟨onGrid_limit, Nat.le_refl _⟩
  | finite negative m =>
    cases h
    have hunits := m.representable
    cases negative <;> simpa using ⟨hunits.2, Nat.le_of_lt hunits.1⟩

theorem position_finite (negative : Bool) (m : Magnitude) :
    (finite negative m).position = some (signedUnits negative m) := rfl

/-! ### Whole numbers -/

theorem position_ofInt (n : Int) : (ofInt n).position = some (rounded (n * unitsPerOne) 1) := by
  have hunits : n.natAbs * unitsPerOne = (n * unitsPerOne).natAbs := by rw [Int.natAbs_mul, Int.natAbs_natCast]
  rw [ofInt, hunits]
  refine position_ofRatio Nat.one_pos ?_
  by_cases hn : n < 0
  · rw [decide_eq_true hn, if_pos rfl]
    exact Int.mul_nonpos_of_nonpos_of_nonneg (Int.le_of_lt hn) (Int.natCast_nonneg unitsPerOne)
  · rw [decide_eq_false hn, if_neg Bool.false_ne_true]
    exact Int.mul_nonneg (Int.not_lt.1 hn) (Int.natCast_nonneg unitsPerOne)

theorem position_ofInt_of_le {n : Int} (hn : n.natAbs ≤ 2 ^ (53 : Nat)) :
    (ofInt n).position = some (n * unitsPerOne) := by
  have hunits : (n * unitsPerOne).natAbs = n.natAbs * unitsPerOne := by rw [Int.natAbs_mul, Int.natAbs_natCast]
  have hrepresentable := representable_ofNat hn
  have hgrid : OnGrid (n * unitsPerOne).natAbs := by
    rw [hunits]
    exact hrepresentable.2
  have hle : (n * unitsPerOne).natAbs ≤ limit := by
    rw [hunits]
    exact Nat.le_of_lt hrepresentable.1
  rw [position_ofInt, rounded_one hgrid hle]

theorem ofInt_le_ofInt {m n : Int} (h : m ≤ n) : ofInt m ≤ ofInt n := by
  refine (le_iff (position_ofInt m) (position_ofInt n)).2 (rounded_mono Nat.one_pos Nat.one_pos ?_)
  exact Int.mul_le_mul_of_nonneg_right (Int.mul_le_mul_of_nonneg_right h (Int.natCast_nonneg _)) (Int.natCast_nonneg 1)

theorem isFinite_ofInt {n : Int} (hn : n.natAbs ≤ 2 ^ (64 : Nat)) : (ofInt n).isFinite = true := by
  have hpow : ∀ s t : Nat, s < t → 2 ^ s < 2 ^ t := fun s t h => Nat.pow_lt_pow_right (by decide) h
  have hadd : ∀ s t : Nat, 2 ^ s * 2 ^ t = 2 ^ (s + t) := fun s t => (Nat.pow_add 2 s t).symm
  obtain ⟨s, hs, hbound⟩ : ∃ s : Nat, s < 2098 ∧ 2 ^ (64 : Nat) * unitsPerOne = 2 ^ s := by
    refine ⟨64 + 1074, by decide, ?_⟩
    rw [unitsPerOne, hadd]
  have hle : nearestUnits (n.natAbs * unitsPerOne) 1 ≤ 2 ^ s := by
    refine nearestUnits_le Nat.one_pos (onGrid_two_pow s) ?_
    rw [Nat.mul_one, ← hbound]
    exact Nat.mul_le_mul_right unitsPerOne hn
  have hlt : 2 ^ s < limit := hpow s 2098 hs
  rw [ofInt, ofRatio_of_lt (Nat.lt_of_le_of_lt hle hlt)]
  rfl

/-! ### Sums -/

theorem position_add_finite (a b : Bool) (m n : Magnitude) :
    (finite a m + finite b n).position = some (rounded (signedUnits a m + signedUnits b n) 1) := by
  rw [add_finite]
  split
  next hsum =>
    rw [hsum, rounded, distance_zero Nat.one_pos]
    cases a && b <;> rfl
  next hsum =>
    refine position_ofRatio Nat.one_pos ?_
    by_cases hneg : signedUnits a m + signedUnits b n < 0
    · simpa [hneg] using Int.le_of_lt hneg
    · simpa [hneg] using Int.not_lt.1 hneg

theorem limit_pos : (0 : Int) < limit := by
  have hpos : ∀ s : Nat, 0 < 2 ^ s := Nat.two_pow_pos
  exact Int.natCast_pos.2 (hpos 2098)

theorem cases_of_position {a : Binary64} {x : Int} (h : a.position = some x) (hx : 0 ≤ x) :
    (a = infinity false ∧ x = limit) ∨ ∃ s m, a = finite s m ∧ x = signedUnits s m := by
  have hlimit := limit_pos
  cases a with
  | nan => cases h
  | infinity s =>
    have hplace : (if s then -(limit : Int) else limit) = x := Option.some.inj h
    cases s with
    | true =>
      rw [if_pos rfl] at hplace
      omega
    | false =>
      rw [if_neg Bool.false_ne_true] at hplace
      exact .inl ⟨rfl, hplace.symm⟩
  | finite s m => exact .inr ⟨s, m, rfl, (Option.some.inj h).symm⟩

/-- Sums of numbers that are not negative are rounded once, infinities
included. -/
theorem position_add {a b : Binary64} {x y : Int} (ha : a.position = some x) (hb : b.position = some y)
    (hx : 0 ≤ x) (hy : 0 ≤ y) : (a + b).position = some (rounded (x + y) 1) := by
  have hlimit : limit ≤ x + y → (infinity false).position = some (rounded (x + y) 1) := by
    intro hle
    rw [rounded_of_limit_le hle]
    rfl
  rcases cases_of_position ha hx with ⟨rfl, hx'⟩ | ⟨s, m, rfl, rfl⟩
  · rcases cases_of_position hb hy with ⟨rfl, hy'⟩ | ⟨t, n, rfl, rfl⟩ <;> exact hlimit (by omega)
  · rcases cases_of_position hb hy with ⟨rfl, hy'⟩ | ⟨t, n, rfl, rfl⟩
    · exact hlimit (by omega)
    · exact position_add_finite s t m n

theorem nonneg_iff {a : Binary64} : 0 ≤ a ↔ ∃ x, a.position = some x ∧ 0 ≤ x := by
  constructor
  · rintro ⟨z, hz, x, hx, hle⟩
    cases position_zero.symm.trans hz
    exact ⟨x, hx, hle⟩
  · rintro ⟨x, hx, hle⟩
    exact ⟨0, position_zero, x, hx, hle⟩

theorem zero_le_zero : (0 : Binary64) ≤ 0 := nonneg_iff.2 ⟨0, position_zero, Int.le_refl 0⟩

theorem le_refl_of_nonneg {a : Binary64} (ha : 0 ≤ a) : a ≤ a := by
  obtain ⟨x, hx, -⟩ := nonneg_iff.1 ha
  exact (le_iff hx hx).2 (Int.le_refl x)

theorem add_le_add_left {a b c : Binary64} (ha : 0 ≤ a) (hb : 0 ≤ b) (h : b ≤ c) : a + b ≤ a + c := by
  obtain ⟨x, hx, hx0⟩ := nonneg_iff.1 ha
  obtain ⟨y, hy, hy0⟩ := nonneg_iff.1 hb
  obtain ⟨z, hz, hz0⟩ := nonneg_iff.1 (Binary64.le_trans hb h)
  have hyz := (le_iff hy hz).1 h
  refine (le_iff (position_add hx hy hx0 hy0) (position_add hx hz hx0 hz0)).2 ?_
  exact rounded_mono Nat.one_pos Nat.one_pos (by omega)

theorem le_add {a b : Binary64} (ha : 0 ≤ a) (hb : 0 ≤ b) : a ≤ a + b := by
  obtain ⟨x, hx, hx0⟩ := nonneg_iff.1 ha
  obtain ⟨y, hy, hy0⟩ := nonneg_iff.1 hb
  obtain ⟨hgrid, hle⟩ := onGrid_of_position hx
  refine (le_iff hx (position_add hx hy hx0 hy0)).2 ?_
  calc x = rounded x 1 := (rounded_one hgrid hle).symm
    _ ≤ rounded (x + y) 1 := rounded_mono Nat.one_pos Nat.one_pos (by omega)

theorem position_zero_add (a : Binary64) : (0 + a).position = a.position := by
  have hzero : (0 : Binary64) = zero false := ofNat_zero
  rw [hzero]
  cases a with
  | nan => rfl
  | infinity s => rfl
  | finite s m =>
    have hsum : ∀ h, signedUnits false ⟨0, h⟩ + signedUnits s m = signedUnits s m := by
      intro h
      simp [signedUnits]
    obtain ⟨hgrid, hle⟩ := onGrid_of_position (position_finite s m)
    rw [zero, position_add_finite, hsum, rounded_one hgrid hle, position_finite]

theorem zero_add_le_zero_add {a b : Binary64} (h : a ≤ b) : 0 + a ≤ 0 + b := by
  obtain ⟨x, hx, y, hy, hle⟩ := h
  exact (le_iff ((position_zero_add a).trans hx) ((position_zero_add b).trans hy)).2 hle

/-! ### Quotients by a positive length -/

theorem exists_finite_ofInt {n : Int} (hn : n.natAbs ≤ 2 ^ (53 : Nat)) :
    ∃ s m, ofInt n = finite s m ∧ signedUnits s m = n * unitsPerOne := by
  refine ⟨n < 0, ⟨n.natAbs * unitsPerOne, representable_ofNat hn⟩,
    ofRatio_eq Nat.one_pos (representable_ofNat hn) (Nat.mul_one _).symm, ?_⟩
  by_cases hneg : n < 0
  · simp only [signedUnits, hneg, decide_true, if_true, Int.natCast_mul,
      Int.ofNat_natAbs_of_nonpos (Int.le_of_lt hneg), Int.neg_mul, Int.neg_neg]
  · simp only [signedUnits, hneg, decide_false, Bool.false_eq_true, if_false, Int.natCast_mul,
      Int.natAbs_of_nonneg (Int.not_lt.1 hneg)]

theorem position_div_finite (s : Bool) (m : Magnitude) {n : Magnitude} (hn : 0 < n.units) :
    (finite s m / finite false n).position = some (rounded (signedUnits s m * unitsPerOne) n.units) := by
  have hquotient : finite s m / finite false n = ofRatio s (m.units * unitsPerOne) n.units := by
    show Binary64.div _ _ = _
    simp only [Binary64.div, if_neg (Nat.ne_of_gt hn), Bool.bne_false]
  have hunits : m.units * unitsPerOne = (signedUnits s m * unitsPerOne).natAbs := by
    rw [Int.natAbs_mul, Int.natAbs_natCast, natAbs_signedUnits]
  have hsign : if s then signedUnits s m ≤ 0 else 0 ≤ signedUnits s m := by
    cases s <;> simp [signedUnits]
  rw [hquotient, hunits]
  refine position_ofRatio hn ?_
  cases s with
  | false => exact Int.mul_nonneg hsign (Int.natCast_nonneg _)
  | true => exact Int.mul_nonpos_of_nonpos_of_nonneg hsign (Int.natCast_nonneg _)

/-- A span over a length is rounded once. -/
theorem position_ofInt_div {d : Int} (hd : d.natAbs ≤ 2 ^ (53 : Nat)) {n : Magnitude} (hn : 0 < n.units) :
    (ofInt d / finite false n).position = some (rounded (d * unitsPerOne * unitsPerOne) n.units) := by
  obtain ⟨s, m, hspan, hunits⟩ := exists_finite_ofInt hd
  rw [hspan, position_div_finite s m hn, hunits]

theorem position_div_infinity (s : Bool) (m : Magnitude) : (finite s m / infinity false).position = some 0 := by
  cases s <;> rfl

theorem position_ofInt_div_infinity {d : Int} (hd : d.natAbs ≤ 2 ^ (53 : Nat)) :
    (ofInt d / infinity false).position = some 0 := by
  obtain ⟨s, m, hspan, -⟩ := exists_finite_ofInt hd
  rw [hspan, position_div_infinity]

/-- A quotient by a positive length grows with the dividend. -/
theorem div_le_div_right {a b length : Binary64} (hlength : 0 < length) (ha : a.isFinite = true)
    (hb : b.isFinite = true) (h : a ≤ b) : a / length ≤ b / length := by
  cases a with
  | nan | infinity => cases ha
  | finite s m =>
    cases b with
    | nan | infinity => cases hb
    | finite t n =>
      have hle : signedUnits s m ≤ signedUnits t n := (le_iff (position_finite s m) (position_finite t n)).1 h
      cases signed_of_pos hlength with
      | nan => exact absurd hlength not_pos_nan
      | infinity => exact (le_iff (position_div_infinity s m) (position_div_infinity t n)).2 (Int.le_refl 0)
      | finite l =>
        have hl := units_pos hlength
        refine (le_iff (position_div_finite s m hl) (position_div_finite t n hl)).2 (rounded_mono hl hl ?_)
        exact Int.mul_le_mul_of_nonneg_right
          (Int.mul_le_mul_of_nonneg_right hle (Int.natCast_nonneg _)) (Int.natCast_nonneg _)

theorem ofInt_div_mono {d d' : Int} {length : Binary64} (hlength : 0 < length) (hd : d.natAbs ≤ 2 ^ (64 : Nat))
    (hd' : d'.natAbs ≤ 2 ^ (64 : Nat)) (h : d ≤ d') : ofInt d / length ≤ ofInt d' / length :=
  div_le_div_right hlength (isFinite_ofInt hd) (isFinite_ofInt hd') (ofInt_le_ofInt h)

theorem ofInt_div_nonneg {d : Int} {length : Binary64} (hlength : 0 < length) (hd : d.natAbs ≤ 2 ^ (64 : Nat))
    (h : 0 ≤ d) : 0 ≤ ofInt d / length := by
  have hmono : ofInt (0 : Nat) / length ≤ ofInt d / length := ofInt_div_mono hlength (by simp) hd h
  rwa [zero_div hlength] at hmono

/-! ### Whole parts -/

theorem le_limit_div : 2 ^ (63 : Nat) ≤ limit / unitsPerOne := by
  have hpow : ∀ a b c : Nat, a + b ≤ c → 2 ^ a * 2 ^ b ≤ 2 ^ c := by
    intro a b c h
    rw [← Nat.pow_add]
    exact Nat.pow_le_pow_right (by decide) h
  rw [Nat.le_div_iff_mul_le unitsPerOne_pos, unitsPerOne, limit]
  exact hpow 63 1074 2098 (by decide)

/-- The whole part, a fraction dropped toward zero, within the 64-bit range. -/
theorem toInt64_eq {a : Binary64} {x : Int} (h : a.position = some x) :
    a.toInt64 = max (-0x8000000000000000) (min 0x7fffffffffffffff (x.tdiv unitsPerOne)) := by
  have hwhole : ∀ units : Nat, (units : Int).tdiv unitsPerOne = (units / unitsPerOne : Nat) :=
    fun units => (Int.ofNat_tdiv units unitsPerOne).symm
  cases a with
  | nan => cases h
  | infinity s =>
    have hplace : (if s then -(limit : Int) else limit) = x := Option.some.inj h
    have hlimit := le_limit_div
    cases s with
    | true =>
      rw [if_pos rfl] at hplace
      rw [← hplace, Int.neg_tdiv, hwhole]
      simp only [toInt64, toIntWithin, if_true]
      omega
    | false =>
      rw [if_neg Bool.false_ne_true] at hplace
      rw [← hplace, hwhole]
      simp only [toInt64, toIntWithin, Bool.false_eq_true, if_false]
      omega
  | finite s m =>
    have hplace : signedUnits s m = x := Option.some.inj h
    cases s with
    | true =>
      rw [← hplace, signedUnits, if_pos rfl, Int.neg_tdiv, hwhole]
      simp only [toInt64, toIntWithin, if_true]
    | false =>
      rw [← hplace, signedUnits, if_neg Bool.false_ne_true, hwhole]
      simp only [toInt64, toIntWithin, Bool.false_eq_true, if_false]

theorem toInt64_within (a : Binary64) : -0x8000000000000000 ≤ a.toInt64 ∧ a.toInt64 ≤ 0x7fffffffffffffff := by
  cases a with
  | nan => decide
  | infinity s => cases s <;> decide
  | finite s m =>
    simp only [toInt64, toIntWithin]
    omega

theorem toInt64_mono {a b : Binary64} (h : a ≤ b) : a.toInt64 ≤ b.toInt64 := by
  obtain ⟨x, hx, y, hy, hle⟩ := h
  have hpos : (0 : Int) < unitsPerOne := Int.natCast_pos.2 unitsPerOne_pos
  have hwhole := Int.tdiv_le_tdiv hpos hle
  rw [toInt64_eq hx, toInt64_eq hy]
  omega

theorem toInt64_ofInt {n : Int} (hn : n.natAbs ≤ 2 ^ (53 : Nat)) : (ofInt n).toInt64 = n := by
  have hne : (unitsPerOne : Int) ≠ 0 := Int.ofNat_ne_zero.2 (Nat.ne_of_gt unitsPerOne_pos)
  rw [toInt64_eq (position_ofInt_of_le hn), Int.mul_tdiv_cancel _ hne]
  omega

section

variable {a : Binary64} {m k : Int}

theorem position_add_ofInt {x : Int} (ha : a.isFinite = true) (hx : a.position = some x)
    (hk : k.natAbs ≤ 2 ^ (53 : Nat)) : (a + ofInt k).position = some (rounded (x + k * unitsPerOne) 1) := by
  obtain ⟨t, n, hterm, hunits⟩ := exists_finite_ofInt hk
  cases a with
  | nan | infinity => cases ha
  | finite s m =>
    cases hx
    rw [hterm, position_add_finite, hunits]
    rfl

/-- Moved by a whole number, what is not below a whole number is not below its
sum. -/
theorem add_le_toInt64_add (ha : a.isFinite = true) (h : ofInt m ≤ a) (hm : m.natAbs ≤ 2 ^ (52 : Nat))
    (hk : k.natAbs ≤ 2 ^ (52 : Nat)) : m + k ≤ (a + ofInt k).toInt64 := by
  have hsum : (m + k).natAbs ≤ 2 ^ (53 : Nat) := by omega
  obtain ⟨_, hm', x, hx, hle⟩ := h
  cases (position_ofInt_of_le (by omega)).symm.trans hm'
  rw [← toInt64_ofInt hsum]
  refine toInt64_mono ((le_iff (position_ofInt _) (position_add_ofInt ha hx (by omega))).2 ?_)
  refine rounded_mono Nat.one_pos Nat.one_pos (Int.mul_le_mul_of_nonneg_right ?_ (Int.natCast_nonneg 1))
  rw [Int.add_mul]
  exact Int.add_le_add_right hle _

theorem toInt64_add_le_add (ha : a.isFinite = true) (h : a ≤ ofInt m) (hm : m.natAbs ≤ 2 ^ (52 : Nat))
    (hk : k.natAbs ≤ 2 ^ (52 : Nat)) : (a + ofInt k).toInt64 ≤ m + k := by
  have hsum : (m + k).natAbs ≤ 2 ^ (53 : Nat) := by omega
  obtain ⟨x, hx, _, hm', hle⟩ := h
  cases (position_ofInt_of_le (by omega)).symm.trans hm'
  rw [← toInt64_ofInt hsum]
  refine toInt64_mono ((le_iff (position_add_ofInt ha hx (by omega)) (position_ofInt _)).2 ?_)
  refine rounded_mono Nat.one_pos Nat.one_pos (Int.mul_le_mul_of_nonneg_right ?_ (Int.natCast_nonneg 1))
  rw [Int.add_mul]
  exact Int.add_le_add_right hle _

end

theorem ofNat_le_of_le_toInt64 {a : Binary64} {k : Nat} (hk : k ≤ 2 ^ (53 : Nat)) (ha : 0 ≤ a)
    (h : k ≤ a.toInt64) : ofInt k ≤ a := by
  obtain ⟨x, hx, hx0⟩ := nonneg_iff.1 ha
  have hpos : (0 : Int) < unitsPerOne := Int.natCast_pos.2 unitsPerOne_pos
  refine (le_iff (position_ofInt_of_le (by simpa using hk)) hx).2 ?_
  rw [toInt64_eq hx, Int.tdiv_eq_ediv_of_nonneg hx0] at h
  exact (Int.le_ediv_iff_mul_le hpos).1 (by omega)

/-! ### Multiples of a length -/

section

variable {k n : Nat} {m : Magnitude}

theorem position_ofNat_mul (hk : k ≤ 2 ^ (53 : Nat)) (m : Magnitude) :
    (ofInt k * finite false m).position =
      some (rounded ((k * m.units * unitsPerOne : Nat) : Int) unitsPerOne) := by
  rw [ofInt_eq hk, mul_finite, Nat.mul_right_comm k unitsPerOne m.units]
  exact position_ofRatio_nat unitsPerOne_pos

theorem position_ofNat (hn : n ≤ 2 ^ (53 : Nat)) :
    (ofInt n).position = some (rounded ((n * unitsPerOne * unitsPerOne : Nat) : Int) unitsPerOne) := by
  have hgrid : OnGrid ((n * unitsPerOne : Nat) : Int).natAbs := by
    rw [Int.natAbs_natCast]
    exact (representable_ofNat hn).2
  have hle : ((n * unitsPerOne : Nat) : Int).natAbs ≤ limit := by
    rw [Int.natAbs_natCast]
    exact Nat.le_of_lt (representable_ofNat hn).1
  rw [position_ofInt_of_le (by simpa using hn), ← Int.natCast_mul,
    ← rounded_eq unitsPerOne_pos hgrid hle, ← Int.natCast_mul]

/-- Multiples below a whole number have no greater whole part. -/
theorem toInt64_mul_le_of_le (hk : k ≤ 2 ^ (53 : Nat)) (hn : n ≤ 2 ^ (53 : Nat)) (h : k * m.units ≤ n * unitsPerOne) :
    (ofInt k * finite false m).toInt64 ≤ n := by
  rw [← toInt64_ofNat hn]
  refine toInt64_mono ((le_iff (position_ofNat_mul hk m) (position_ofNat hn)).2 ?_)
  exact rounded_mono unitsPerOne_pos unitsPerOne_pos
    (Int.ofNat_le.2 (Nat.mul_le_mul_right _ (Nat.mul_le_mul_right _ h)))

theorem le_toInt64_mul_of_le (hk : k ≤ 2 ^ (53 : Nat)) (hn : n ≤ 2 ^ (53 : Nat)) (h : n * unitsPerOne ≤ k * m.units) :
    n ≤ (ofInt k * finite false m).toInt64 := by
  rw [← toInt64_ofNat hn]
  refine toInt64_mono ((le_iff (position_ofNat hn) (position_ofNat_mul hk m)).2 ?_)
  exact rounded_mono unitsPerOne_pos unitsPerOne_pos
    (Int.ofNat_le.2 (Nat.mul_le_mul_right _ (Nat.mul_le_mul_right _ h)))

end

section

variable {k : Nat} {d : Int} {length : Binary64}

theorem ofNat_mul_infinity (hk : 0 < k) (hk' : k ≤ 2 ^ (53 : Nat)) : ofInt k * infinity false = infinity false := by
  rw [ofInt_eq hk']
  show Binary64.mul _ _ = _
  simp only [Binary64.mul, if_neg (Nat.ne_of_gt (Nat.mul_pos hk unitsPerOne_pos)), Bool.bne_false]

/-- A span within `k` lengths, rounded down, has at most `k` of them. -/
theorem ofInt_div_le_ofNat (hlength : 0 < length) (hk : k ≤ 2 ^ (53 : Nat)) (hd : d.natAbs ≤ 2 ^ (53 : Nat))
    (h : d < (ofInt k * length).toInt64) : ofInt d / length ≤ ofInt k := by
  have hkplace := position_ofInt_of_le (n := k) (by simpa using hk)
  have hknonneg : 0 ≤ (k : Int) * unitsPerOne := Int.mul_nonneg (Int.natCast_nonneg k) (Int.natCast_nonneg _)
  cases signed_of_pos hlength with
  | nan => exact absurd hlength not_pos_nan
  | infinity => exact (le_iff (position_ofInt_div_infinity hd) hkplace).2 hknonneg
  | finite m =>
    have hm := units_pos hlength
    -- The exact quotient is at most `k`, or else the whole part would be at most `d`.
    have hexact : d * unitsPerOne ≤ k * m.units := by
      by_cases hneg : d < 0
      · have hleft := Int.mul_nonpos_of_nonpos_of_nonneg (Int.le_of_lt hneg) (Int.natCast_nonneg unitsPerOne)
        have hright := Int.mul_nonneg (Int.natCast_nonneg k) (Int.natCast_nonneg m.units)
        omega
      · obtain ⟨n, rfl⟩ := Int.eq_ofNat_of_zero_le (Int.not_lt.1 hneg)
        rw [← Int.natCast_mul, ← Int.natCast_mul, Int.ofNat_le]
        refine Nat.le_of_not_lt fun hlt => Int.not_le.2 h ?_
        exact toInt64_mul_le_of_le hk (by simpa using hd) (Nat.le_of_lt hlt)
    refine (le_iff (position_ofInt_div hd hm) (position_ofInt k)).2 (rounded_mono hm Nat.one_pos ?_)
    calc d * unitsPerOne * unitsPerOne * (1 : Nat) = d * unitsPerOne * unitsPerOne := Int.mul_one _
      _ ≤ k * m.units * unitsPerOne := Int.mul_le_mul_of_nonneg_right hexact (Int.natCast_nonneg _)
      _ = k * unitsPerOne * m.units := Int.mul_right_comm ..

/-- A span past `k` lengths, rounded down, has at least `k` of them. -/
theorem ofNat_le_ofInt_div (hlength : 0 < length) (hk : k ≤ 2 ^ (53 : Nat)) (hd : d.natAbs ≤ 2 ^ (53 : Nat))
    (h : (ofInt k * length).toInt64 < d) : ofInt k ≤ ofInt d / length := by
  cases signed_of_pos hlength with
  | nan => exact absurd hlength not_pos_nan
  | infinity =>
    rcases Nat.eq_zero_or_pos k with rfl | hpos
    · refine (le_iff (position_ofInt_of_le (by simp)) (position_ofInt_div_infinity hd)).2 ?_
      exact Int.le_of_eq (Int.zero_mul _)
    · rw [ofNat_mul_infinity hpos hk] at h
      simp only [toInt64, toIntWithin, Bool.false_eq_true, if_false] at h
      omega
  | finite m =>
    have hm := units_pos hlength
    have hsigned : Signed (false ^^ false) (ofInt k * finite false m) := (signed_ofNat k).mul (.finite m)
    have hnonneg := Signed.toInt64_nonneg hsigned
    obtain ⟨n, rfl⟩ := Int.eq_ofNat_of_zero_le (show 0 ≤ d by omega)
    -- The exact quotient is at least `k`, or else the whole part would be at least `d`.
    have hexact : k * m.units ≤ n * unitsPerOne := by
      refine Nat.le_of_not_lt fun hlt => Int.not_le.2 h ?_
      exact le_toInt64_mul_of_le hk (by simpa using hd) (Nat.le_of_lt hlt)
    refine (le_iff (position_ofInt k) (position_ofInt_div hd hm)).2 (rounded_mono Nat.one_pos hm ?_)
    calc (k : Int) * unitsPerOne * m.units = k * m.units * unitsPerOne := Int.mul_right_comm ..
      _ ≤ n * unitsPerOne * unitsPerOne := by
        refine Int.mul_le_mul_of_nonneg_right ?_ (Int.natCast_nonneg _)
        rw [← Int.natCast_mul, ← Int.natCast_mul]
        exact Int.ofNat_le.2 hexact
      _ = n * unitsPerOne * unitsPerOne * (1 : Nat) := (Int.mul_one _).symm

theorem toInt64_mul_mono {k' : Nat} (hlength : 0 < length) (hk' : k' ≤ 2 ^ (53 : Nat)) (h : k ≤ k') :
    (ofInt k * length).toInt64 ≤ (ofInt k' * length).toInt64 := by
  cases signed_of_pos hlength with
  | nan => exact absurd hlength not_pos_nan
  | infinity =>
    rcases Nat.eq_zero_or_pos k with rfl | hpos
    · rw [zero_mul_infinity]
      have hsigned : Signed (false ^^ false) (ofInt k' * infinity false) := (signed_ofNat k').mul .infinity
      exact Signed.toInt64_nonneg hsigned
    · refine Int.le_of_eq ?_
      rw [ofNat_mul_infinity hpos (Nat.le_trans h hk'), ofNat_mul_infinity (Nat.lt_of_lt_of_le hpos h) hk']
  | finite m =>
    refine toInt64_mono
      ((le_iff (position_ofNat_mul (Nat.le_trans h hk') m) (position_ofNat_mul hk' m)).2 ?_)
    exact rounded_mono unitsPerOne_pos unitsPerOne_pos
      (Int.ofNat_le.2 (Nat.mul_le_mul_right _ (Nat.mul_le_mul_right _ (Nat.mul_le_mul_right _ h))))

end

end ManiaChart.Binary64
