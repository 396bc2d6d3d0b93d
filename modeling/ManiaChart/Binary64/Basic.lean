/-
Binary64 numbers (`ManiaChart.Binary64`): what tempo, scroll speed and
measure position are counted in.

A finite number is a sign and a whole number of units of 2^-1074, the least
positive number. `ofRatio` rounds a quotient of whole numbers of units to the
nearest representable number, a tie to the even one; every operation is exact
whole-number arithmetic followed by that one rounding.
-/

namespace ManiaChart

namespace Binary64

/-! ## Magnitudes -/

-- Powers are those of whole numbers as such, whatever other structure is in
-- scope.
scoped instance (priority := 2000) natPow : Pow Nat Nat := instPowNat

/-- Units in the number one: a unit is 2^-1074. -/
def unitsPerOne : Nat := 2 ^ (1074 : Nat)

/-- Units in 2^1024, the first power of two past the greatest finite number. -/
def limit : Nat := 2 ^ (2098 : Nat)

/-- Around `units` the representable numbers lie `2 ^ stepExponent units`
units apart: every unit counts up to 2^53, then the step doubles with each
power of two, so that 53 significant binary digits remain. -/
def stepExponent (units : Nat) : Nat := units.log2 - 52

/-- A count of units with at most 53 significant binary digits, below the
overflow limit. -/
def Representable (units : Nat) : Prop :=
  units < limit ∧ 2 ^ stepExponent units ∣ units

instance (units : Nat) : Decidable (Representable units) := by
  unfold Representable; infer_instance

/-- The size of a finite number, in units of 2^-1074. -/
structure Magnitude where
  units : Nat
  representable : Representable units
deriving DecidableEq

/-! ## Rounding -/

/-- The whole number nearest to `num / den`, of two equally near the even one. -/
def nearestEven (num den : Nat) : Nat :=
  let floor := num / den
  match compare (2 * (num % den)) den with
  | .lt => floor
  | .eq => floor + floor % 2
  | .gt => floor + 1

/-- The number of units nearest to `num / den` among those with at most 53
significant binary digits; a tie goes to the even last digit. -/
def nearestUnits (num den : Nat) : Nat :=
  let step := 2 ^ stepExponent (num / den)
  nearestEven num (den * step) * step

theorem nearestEven_le (num den : Nat) : nearestEven num den ≤ num / den + 1 := by
  simp only [nearestEven]
  split <;> omega

theorem stepExponent_mul_le {m s : Nat} (hm : m < 2 ^ (53 : Nat)) : stepExponent (m * 2 ^ s) ≤ s := by
  by_cases h0 : m * 2 ^ s = 0
  · simp [stepExponent, h0]
  · have hlog : (m * 2 ^ s).log2 < 53 + s := by
      rw [Nat.log2_lt h0, Nat.pow_add]
      exact Nat.mul_lt_mul_of_pos_right hm (Nat.two_pow_pos s)
    simp only [stepExponent]
    omega

/-- A 53-digit significand on any grid is representable, and so is the next
power of two, below the limit. -/
theorem representable_mul {m s : Nat} (hm : m ≤ 2 ^ (53 : Nat)) (hlt : m * 2 ^ s < limit) :
    Representable (m * 2 ^ s) := by
  refine ⟨hlt, ?_⟩
  rcases Nat.lt_or_eq_of_le hm with hm | rfl
  · exact Nat.dvd_trans (Nat.pow_dvd_pow 2 (stepExponent_mul_le hm)) (Nat.dvd_mul_left _ _)
  · rw [← Nat.pow_add]
    have hlog : (2 ^ (53 + s)).log2 = 53 + s := Nat.log2_two_pow
    exact Nat.pow_dvd_pow 2 (by simp only [stepExponent, hlog]; omega)

theorem div_step_lt (q : Nat) : q / 2 ^ stepExponent q < 2 ^ (53 : Nat) := by
  rw [Nat.div_lt_iff_lt_mul (Nat.two_pow_pos _), ← Nat.pow_add]
  by_cases h0 : q = 0
  · subst h0; exact Nat.two_pow_pos _
  · rw [← Nat.log2_lt h0]
    simp only [stepExponent]
    omega

theorem nearestUnits_representable {num den : Nat} (h : nearestUnits num den < limit) :
    Representable (nearestUnits num den) := by
  refine representable_mul ?_ h
  refine Nat.le_trans (nearestEven_le _ _) ?_
  rw [← Nat.div_div_eq_div_mul]
  exact div_step_lt _

end Binary64

/-- A binary64 number: not a number, an infinity, or a sign with a magnitude.
The two zeros are told apart. -/
inductive Binary64
  | nan
  | infinity (negative : Bool)
  | finite (negative : Bool) (magnitude : Binary64.Magnitude)
deriving DecidableEq

namespace Binary64

/-- The zero of a sign. -/
def zero (negative : Bool) : Binary64 := .finite negative ⟨0, by decide +kernel⟩

/-- The number nearest to `num / den` units, with a sign; an infinity from
half a step below the limit on. -/
def ofRatio (negative : Bool) (num den : Nat) : Binary64 :=
  if h : nearestUnits num den < limit then
    .finite negative ⟨nearestUnits num den, nearestUnits_representable h⟩
  else .infinity negative

/-- The number nearest to a whole number. -/
def ofInt (n : Int) : Binary64 := ofRatio (n < 0) (n.natAbs * unitsPerOne) 1

instance (n : Nat) : OfNat Binary64 n := ⟨ofInt n⟩

instance : Inhabited Binary64 := ⟨zero false⟩

/-! ## Order -/

/-- Where a number lies, in units: the infinities at plus and minus the limit,
NaN nowhere. -/
def position : Binary64 → Option Int
  | nan => none
  | infinity negative => some (if negative then -limit else limit)
  | finite negative m => some (if negative then -m.units else m.units)

/-- NaN is neither below nor above anything; the two zeros are equal. -/
instance : LT Binary64 where
  lt a b := ∃ x ∈ a.position, ∃ y ∈ b.position, x < y

instance : LE Binary64 where
  le a b := ∃ x ∈ a.position, ∃ y ∈ b.position, x ≤ y

instance (a b : Binary64) : Decidable (a < b) :=
  match ha : a.position, hb : b.position with
  | some x, some y =>
    if h : x < y then .isTrue ⟨x, ha, y, hb, h⟩
    else .isFalse fun ⟨_, hx, _, hy, hlt⟩ => h (by
      rw [ha] at hx; rw [hb] at hy; cases hx; cases hy; exact hlt)
  | none, _ => .isFalse fun ⟨_, hx, _⟩ => by rw [ha] at hx; cases hx
  | _, none => .isFalse fun ⟨_, _, _, hy, _⟩ => by rw [hb] at hy; cases hy

instance (a b : Binary64) : Decidable (a ≤ b) :=
  match ha : a.position, hb : b.position with
  | some x, some y =>
    if h : x ≤ y then .isTrue ⟨x, ha, y, hb, h⟩
    else .isFalse fun ⟨_, hx, _, hy, hle⟩ => h (by
      rw [ha] at hx; rw [hb] at hy; cases hx; cases hy; exact hle)
  | none, _ => .isFalse fun ⟨_, hx, _⟩ => by rw [ha] at hx; cases hx
  | _, none => .isFalse fun ⟨_, _, _, hy, _⟩ => by rw [hb] at hy; cases hy

/-- The smaller of two numbers, NaN giving way to the other; the first of two
equal ones. -/
def minNum (a b : Binary64) : Binary64 := if a = nan ∨ b < a then b else a

/-- The greater of two numbers, NaN giving way to the other; the first of two
equal ones. -/
def maxNum (a b : Binary64) : Binary64 := if a = nan ∨ a < b then b else a

/-! ## Whole parts -/

def isFinite : Binary64 → Bool
  | finite _ _ => true
  | _ => false

/-- The whole part of a number, its fraction dropped toward zero, held within
`lo` and `hi`; NaN gives zero. -/
def toIntWithin (lo hi : Int) : Binary64 → Int
  | nan => 0
  | infinity negative => if negative then lo else hi
  | finite negative m =>
    let whole : Int := (m.units / unitsPerOne : Nat)
    max lo (min hi (if negative then -whole else whole))

/-- The whole part within the 64-bit signed range. -/
def toInt64 (a : Binary64) : Int := a.toIntWithin (-0x8000000000000000) 0x7fffffffffffffff

end Binary64

end ManiaChart
