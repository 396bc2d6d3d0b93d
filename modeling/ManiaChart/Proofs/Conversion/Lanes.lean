/-
Every playable object finds its lane. A layout parts the field evenly into columns
(`LaneLayout.columnAt_eq`), none of which is left without a place in the field, and
puts them on lanes that differ (`LaneLayout.On`): so a place tells its column, and
the lane of a place the column.

An object that does not stand before zero is then never passed over
(`Placement.ofObject_ne_skipped`), and a draft with the lanes of the mode never turns
it away (`Draft.placed?_eq`).
-/
import Mathlib.Data.Rat.Floor
import ManiaChart.Proofs.Chart.Placing
import ManiaChart.Proofs.Conversion.Objects

namespace ManiaChart

namespace LaneLayout

variable {keyCount : Nat} {layout : LaneLayout} {x y : Int}

/-! ## Columns -/

/-- The column of a place by a whole division, which rounds down to the left of the
field as well. -/
theorem columnAt_eq_part (layout : LaneLayout) (x : Int) :
    layout.columnAt x = (max 0 (min ((layout.keyCount : Int) - 1) (x * layout.keyCount / 512))).toNat := by
  rw [columnAt, fieldWidth, Int.fdiv_eq_ediv_of_nonneg _ (by decide)]

/-- The column of a place is its share of the field, rounded down, and an outermost
one beside the field. -/
theorem columnAt_eq (h : 0 < layout.keyCount) (x : Int) :
    (layout.columnAt x : Int) = max 0 (min ((layout.keyCount : Int) - 1) ⌊(x * layout.keyCount / 512 : ℚ)⌋) := by
  have hfloor : ⌊(x * layout.keyCount / 512 : ℚ)⌋ = x * layout.keyCount / 512 := by
    have hcast := Rat.floor_intCast_div_natCast (x * layout.keyCount) 512
    push_cast at hcast
    exact hcast
  rw [hfloor, columnAt_eq_part]
  omega

theorem columnAt_mono (layout : LaneLayout) (h : x ≤ y) : layout.columnAt x ≤ layout.columnAt y := by
  have hscaled : x * layout.keyCount ≤ y * layout.keyCount := Int.mul_le_mul_of_nonneg_right h (Int.natCast_nonneg _)
  have hparts : x * layout.keyCount / 512 ≤ y * layout.keyCount / 512 := Int.ediv_le_ediv (by decide) hscaled
  rw [columnAt_eq_part, columnAt_eq_part]
  omega

/-- With no more parts than places, each part has a place: the first one that is not
before the part. -/
theorem exists_mul_div_eq {places parts part : Nat} (hpart : part < parts) (hle : parts ≤ places) :
    ∃ place < places, place * parts / places = part := by
  refine ⟨(part * places + (parts - 1)) / parts, ?_, ?_⟩
  · have hlast : (part + 1) * places ≤ parts * places := Nat.mul_le_mul_right places hpart
    rw [Nat.succ_mul] at hlast
    exact Nat.div_lt_of_lt_mul (by omega)
  · have hbefore := Nat.div_mul_le_self (part * places + (parts - 1)) parts
    have hafter := Nat.lt_div_mul_add (a := part * places + (parts - 1)) (b := parts) (by omega)
    refine Nat.div_eq_of_lt_le (by omega) ?_
    rw [Nat.succ_mul]
    omega

/-- Each column has a place in the field, where there are not more columns than
places. -/
theorem exists_columnAt (hle : layout.keyCount ≤ 512) {column : Nat} (h : column < layout.keyCount) :
    ∃ x : Int, 0 ≤ x ∧ x < 512 ∧ layout.columnAt x = column := by
  obtain ⟨place, hplace, hpart⟩ := exists_mul_div_eq h hle
  refine ⟨place, Int.natCast_nonneg place, by omega, ?_⟩
  rw [columnAt_eq_part, ← Int.natCast_mul]
  omega

/-! ## Lanes -/

/-- Whether a layout has its columns on the given lanes, no two on the same one. -/
structure On (layout : LaneLayout) (lanes : List Nat) : Prop where
  lane : ∀ column : Nat, layout.columns[column]?.join = lanes[column]?
  length : lanes.length = layout.keyCount
  distinct : lanes.Nodup

/-- Unused places come after all columns. -/
theorem on_onLanes (mode : Mode) {lanes : List Nat} (hdistinct : lanes.Nodup) : (onLanes mode lanes).On lanes := by
  refine ⟨fun column => ?_, rfl, hdistinct⟩
  show (lanes.map some ++ List.replicate (mode.laneCount - lanes.length) none)[column]?.join = lanes[column]?
  by_cases hcolumn : column < lanes.length
  · rw [List.getElem?_append_left (by simpa using hcolumn), List.getElem?_map, List.getElem?_eq_getElem hcolumn]
    rfl
  · rw [List.getElem?_append_right (by simpa using hcolumn), List.getElem?_replicate,
      List.getElem?_eq_none (Nat.not_lt.1 hcolumn)]
    split <;> rfl

/-- The layout for a key count has as many columns, each on a lane of its own. -/
theorem on_of_ofKeyCount? (h : ofKeyCount? keyCount = some layout) :
    layout.keyCount = keyCount ∧ ∃ lanes, layout.On lanes := by
  simp only [ofKeyCount?] at h
  split at h <;> cases h <;> exact ⟨rfl, _, on_onLanes _ (by decide)⟩

theorem On.laneAt?_eq_iff {lanes : List Nat} (hon : layout.On lanes) (hpos : 0 < layout.keyCount) :
    layout.laneAt? x = layout.laneAt? y ↔ layout.columnAt x = layout.columnAt y := by
  rw [laneAt?, laneAt?, hon.lane, hon.lane]
  exact List.getElem?_inj (hon.length ▸ columnAt_lt hpos x) hon.distinct

end LaneLayout

/-! ## Objects -/

/-- The draft with what a hit object becomes, where there is something to put into
it and its lane exists. -/
def Draft.placed? (draft : Draft) (rule : LongNoteRule) : Placement → Option Draft
  | .skipped => none
  | .normal lane time => draft.placeNote? time lane
  | .long lane head tail => draft.placeLong? head tail lane rule

theorem Draft.placed?_eq {draft : Draft} {rule : LongNoteRule} {placement : Placement}
    (hfits : placement.Fits draft.laneCount) (hnote : placement ≠ .skipped) :
    draft.placed? rule placement = some (draft.place rule placement) := by
  cases placement with
  | skipped => exact absurd rfl hnote
  | normal lane time =>
    have hlane : lane < draft.laneCount := hfits
    rw [placed?, placeNote?_eq draft rule, if_pos hlane]
  | long lane head tail =>
    have hlane : lane < draft.laneCount := hfits
    rw [placed?, placeLong?_eq, if_pos hlane]

theorem Placement.ofObject_ne_skipped {keyCount : Nat} {layout : LaneLayout}
    (h : LaneLayout.ofKeyCount? keyCount = some layout) (offset : Int) {object : HitObject} (htime : 0 ≤ object.time) :
    ofObject layout offset object ≠ .ok skipped := by
  obtain ⟨lane, hequal⟩ := exists_ofObject h offset object
  rw [hequal, if_neg (Int.not_lt.2 htime)]
  split
  · split
    · exact nofun
    · split <;> exact nofun
  · exact nofun

/-- **Every playable object finds its lane**, on a layout for any key count. The
column of a place is its share of the field, rounded down, from the first column to
the last, and does not fall to the right; places have a lane of the mode, the same one
just when they are in the same column, and no column is without a place in the field.
So an object that does not stand before zero is not passed over, and what it becomes
is put into any draft with the lanes of the mode. -/
theorem LaneLayout.finds_lanes {keyCount : Nat} {layout : LaneLayout} (h : ofKeyCount? keyCount = some layout) :
    (∀ x : Int, (layout.columnAt x : Int) = max 0 (min ((keyCount : Int) - 1) ⌊(x * keyCount / 512 : ℚ)⌋)) ∧
      (∀ x y, x ≤ y → layout.columnAt x ≤ layout.columnAt y) ∧
      (∀ x, ∃ lane, layout.laneAt? x = some lane ∧ lane < layout.mode.laneCount) ∧
      (∀ x y, layout.laneAt? x = layout.laneAt? y ↔ layout.columnAt x = layout.columnAt y) ∧
      (∀ column < keyCount, ∃ x : Int, 0 ≤ x ∧ x < 512 ∧ layout.columnAt x = column) ∧
      ∀ offset (object : HitObject), 0 ≤ object.time →
        Placement.ofObject layout offset object ≠ .ok .skipped ∧
        ∀ placement, Placement.ofObject layout offset object = .ok placement →
          ∀ (draft : Draft) rule, draft.laneCount = layout.mode.laneCount →
            draft.placed? rule placement = some (draft.place rule placement) := by
  obtain ⟨rfl, lanes, hon⟩ := on_of_ofKeyCount? h
  have hpos : 0 < layout.keyCount := (columns_isSome h).1
  have hfield : layout.keyCount ≤ 512 := Nat.le_trans (keyCount_le h) (by decide)
  refine ⟨columnAt_eq hpos, fun x y => layout.columnAt_mono, fun x => ?_, fun x y => hon.laneAt?_eq_iff hpos,
    fun column => exists_columnAt hfield, fun offset object htime => ⟨Placement.ofObject_ne_skipped h offset htime, ?_⟩⟩
  · obtain ⟨lane, hlane⟩ := exists_laneAt? h x
    exact ⟨lane, hlane, laneAt?_lt h hlane⟩
  · intro placement hobject draft rule hlanes
    refine Draft.placed?_eq (hlanes ▸ Placement.fits_ofObject h hobject) fun hskipped => ?_
    exact Placement.ofObject_ne_skipped h offset htime (hskipped ▸ hobject)

/-- A hold note on the leftmost place. -/
def HitObject.leftmostHold : HitObject :=
  { x := 0, y := 192, time := 1000, typeFlags := 128, hitSound := 0, params := ["2000"] }

/-- Eight keys: the first column is the scratch, on the last lane, and places beside
the field belong to the outermost columns. -/
theorem LaneLayout.finds_lanes_eight :
    ∃ layout timing, ofKeyCount? 8 = some layout ∧
      Timing.ofPoints? 0 [{ time := 0, beatLength := 500 }] = some (timing, []) ∧
      [-30, 0, 63, 64, 511, 600].map layout.laneAt? = [7, 7, 7, 0, 6, 6].map some ∧
      (layout.columnAt (-30) : Int) = max 0 (min (((8 : Nat) : Int) - 1) ⌊((-30 : Int) * (8 : Nat) / 512 : ℚ)⌋) ∧
      (layout.laneAt? 63 = layout.laneAt? 64 ↔ layout.columnAt 63 = layout.columnAt 64) ∧
      Placement.ofObject layout 38 .leftmostHold = .ok (.long 7 1038 2038) ∧
      ({ timing, laneCount := 8 } : Draft).placed? .longNote (.long 7 1038 2038) =
        some (({ timing, laneCount := 8 } : Draft).place .longNote (.long 7 1038 2038)) := by
  obtain ⟨timing, hmade⟩ := Draft.exists_oneTempo
  have hlayout : ofKeyCount? 8 = some (onLanes .beat7K [7, 0, 1, 2, 3, 4, 5, 6]) := rfl
  obtain ⟨hcolumn, -, -, hlanes, -, hobjects⟩ := finds_lanes hlayout
  have hhold : Placement.ofObject (onLanes .beat7K [7, 0, 1, 2, 3, 4, 5, 6]) 38 .leftmostHold =
      .ok (.long 7 1038 2038) := by
    decide +kernel
  exact ⟨_, timing, hlayout, hmade, by decide, hcolumn (-30), hlanes 63 64, hhold,
    (hobjects 38 .leftmostHold (by decide)).2 _ hhold _ _ rfl⟩

end ManiaChart
