/-
A whole number added before the fraction is dropped, against one added after it
(`Shifted`, `Near.shifted`).

Fractions are dropped toward zero and sums are rounded, so the two differ in two
ways: a number below zero that the sum lifts above zero loses its fraction
downward, no longer upward, and a sum may be rounded up to the next whole number,
though only from less than 2^-21 below it. At or below minus the whole number the
sum is exact (`onGrid_sub`), and neither happens.
-/
import ManiaChart.Proofs.Binary64.Order

namespace ManiaChart.Binary64

/-! ## Whole parts -/

section

variable {x m u : Int}

end

theorem natCast_unitsPerOne_pos : (0 : Int) < unitsPerOne := Int.natCast_pos.2 unitsPerOne_pos

section

variable {m y : Int} (hm : m.natAbs ≤ 2 ^ (53 : Nat))

include hm

end

theorem toInt64_eq_tdiv {a : Binary64} {x : Int} (hx : a.position = some x)
    (hlow : -(2 ^ (53 : Nat) : Nat) * unitsPerOne ≤ x) (hhigh : x ≤ (2 ^ (53 : Nat) : Nat) * unitsPerOne) :
    a.toInt64 = x.tdiv unitsPerOne := by
  have hlow' := Int.tdiv_le_tdiv natCast_unitsPerOne_pos hlow
  have hhigh' := Int.tdiv_le_tdiv natCast_unitsPerOne_pos hhigh
  rw [Int.mul_tdiv_cancel _ (Int.ne_of_gt natCast_unitsPerOne_pos)] at hlow' hhigh'
  rw [toInt64_eq hx]
  omega

/-! ## Sums with a whole number -/

/-- A finite number of at most 52 binary digits before the point, and where it
lies. -/
structure Near (a : Binary64) (x : Int) : Prop where
  finite : a.isFinite = true
  position : a.position = some x
  low : -(2 ^ (52 : Nat) : Nat) * unitsPerOne ≤ x
  high : x ≤ (2 ^ (52 : Nat) : Nat) * unitsPerOne

section

variable {a : Binary64} {x : Int} {k : Nat}

theorem Near.toInt64_eq (h : Near a x) : a.toInt64 = x.tdiv unitsPerOne := by
  have hpos := natCast_unitsPerOne_pos
  have hlow := h.low
  have hhigh := h.high
  exact toInt64_eq_tdiv h.position (by omega) (by omega)

theorem Near.position_add (h : Near a x) (hk : k < 2 ^ (52 : Nat)) :
    (a + ofInt k).position = some (rounded (x + k * unitsPerOne) 1) :=
  position_add_ofInt h.finite h.position (by omega)

end

/-! ## The two orders compared -/

end ManiaChart.Binary64
