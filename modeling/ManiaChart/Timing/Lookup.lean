/-
Looking up the point of a series that is active at a time: the last one not
after it, or the first one of all when the time is before the series.

The search halves a sorted array. Times are whole milliseconds.
-/

namespace ManiaChart

/-- Values that stand at a time. -/
class Timed (α : Type) where
  time : α → Int

namespace Timed

variable {α : Type} [Timed α]

/-- The first index from `lo` on, and not past `hi`, whose point is after `t`,
when the points in between are sorted. -/
def bisect (points : Array α) (t : Int) (lo hi : Nat) (h : hi ≤ points.size) : Nat :=
  if hlt : lo < hi then
    let middle := lo + (hi - lo) / 2
    if time points[middle] ≤ t then bisect points t (middle + 1) hi h
    else bisect points t lo middle (by omega)
  else lo
termination_by hi - lo

theorem bisect_le (points : Array α) (t : Int) (lo hi : Nat) (h : hi ≤ points.size)
    (hle : lo ≤ hi) : bisect points t lo hi h ≤ hi := by
  fun_induction bisect points t lo hi h with
  | case1 lo hi h hlt middle _ ih => exact ih (by omega)
  | case2 lo hi h hlt middle _ ih => exact Nat.le_trans (ih (by omega)) (by omega)
  | case3 => exact hle

/-- How many points of a sorted array are not after `t`. -/
def countUpTo (points : Array α) (t : Int) : Nat :=
  bisect points t 0 points.size (Nat.le_refl _)

theorem countUpTo_le (points : Array α) (t : Int) : countUpTo points t ≤ points.size :=
  bisect_le points t 0 points.size (Nat.le_refl _) (Nat.zero_le _)

/-- The index of the active point, none in an empty array. -/
def activeIndex? (points : Array α) (t : Int) : Option Nat :=
  if points.isEmpty then none else some (countUpTo points t - 1)

/-- The active point, none in an empty array. -/
def active? (points : Array α) (t : Int) : Option α := points[countUpTo points t - 1]?

end Timed

end ManiaChart
