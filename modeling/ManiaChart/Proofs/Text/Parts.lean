/-
What taking texts apart leaves: the front of a text that a property holds of,
the parts around the first separator, the pieces between all of them, and a
text without the blank characters at its ends.
-/
import Mathlib.Data.List.DropRight
import Mathlib.Data.List.TakeDrop
import Mathlib.Data.List.TakeWhile
import ManiaChart.Text.Blank
import ManiaChart.Text.Shape

namespace ManiaChart.Text

/-! ## Separators -/

theorem span_append {p : Char → Bool} {front rest : List Char} (hfront : ∀ c ∈ front, p c = true)
    (hrest : ∀ c ∈ rest.head?, p c = false) : (front ++ rest).span p = (front, rest) := by
  rw [List.span_eq_takeWhile_dropWhile, List.takeWhile_append_of_pos hfront, List.dropWhile_append_of_pos hfront]
  cases rest with
  | nil => simp
  | cons c rest =>
    have hc : p c = false := hrest c rfl
    simp [hc]

section

variable {separator : Char} {text before after : List Char}

theorem ne_of_not_mem (h : separator ∉ text) : ∀ c ∈ text, decide (c ≠ separator) = true := by
  intro c hmem
  rw [decide_eq_true_eq]
  rintro rfl
  exact h hmem

theorem cut?_of_not_mem (h : separator ∉ text) : cut? separator text = none := by
  have hspan : (text ++ []).span (· ≠ separator) = (text, []) := span_append (ne_of_not_mem h) nofun
  rw [List.append_nil] at hspan
  rw [cut?, hspan]

theorem cut?_append (h : separator ∉ before) (after : List Char) :
    cut? separator (before ++ separator :: after) = some (before, after) := by
  rw [cut?, span_append (ne_of_not_mem h) (by simp)]

theorem cut?_eq_none_iff : cut? separator text = none ↔ separator ∉ text := by
  refine ⟨fun h hmem => ?_, cut?_of_not_mem⟩
  obtain ⟨before, after, rfl, hbefore⟩ := List.eq_append_cons_of_mem hmem
  rw [cut?_append hbefore] at h
  cases h

theorem cut?_eq_some_iff :
    cut? separator text = some (before, after) ↔ text = before ++ separator :: after ∧ separator ∉ before := by
  refine ⟨?_, ?_⟩
  · intro h
    have hmem : separator ∈ text := Decidable.of_not_not fun hnot => by simp [cut?_of_not_mem hnot] at h
    obtain ⟨front, rest, rfl, hfront⟩ := List.eq_append_cons_of_mem hmem
    rw [cut?_append hfront] at h
    cases h
    exact ⟨rfl, hfront⟩
  · intro h
    obtain ⟨rfl, hbefore⟩ := h
    exact cut?_append hbefore after

theorem splitOn_of_not_mem (h : separator ∉ text) : text.splitOn separator = [text] :=
  List.splitOnP_eq_singleton fun _ hmem => beq_eq_false_iff_ne.2 fun heq => h (heq ▸ hmem)

theorem splitOn_append (h : separator ∉ text) (rest : List Char) :
    (text ++ separator :: rest).splitOn separator = text :: rest.splitOn separator := by
  have hsplit := List.splitOnP_append_cons (p := (· == separator)) text rest (beq_self_eq_true separator)
  rw [List.splitOn, hsplit, ← List.splitOn, splitOn_of_not_mem h]
  rfl

end

/-! ## Trimming -/

section

variable {text : List Char} {c : Char}

theorem trimStart_cons (h : isBlank c = false) (text : List Char) : trimStart (c :: text) = c :: text :=
  List.dropWhile_cons_of_neg (by rw [h]; decide)

theorem trimEnd_concat (h : isBlank c = false) (text : List Char) : trimEnd (text ++ [c]) = text ++ [c] :=
  List.rdropWhile_concat_neg isBlank text c (by rw [h]; decide)

theorem trimEnd_cons (h : isBlank c = false) (text : List Char) : trimEnd (c :: text) = c :: trimEnd text := by
  rw [trimEnd, trimEnd, List.reverse_cons, List.dropWhile_append]
  split
  next hempty =>
    rw [List.isEmpty_iff.1 hempty, List.dropWhile_cons_of_neg (by rw [h]; decide)]
    rfl
  · rw [List.reverse_append, List.reverse_singleton, List.singleton_append]

theorem trim_cons (h : isBlank c = false) (text : List Char) : trim (c :: text) = c :: trimEnd text := by
  rw [trim, trimStart_cons h, trimEnd_cons h]

theorem trimEnd_trimEnd (text : List Char) : trimEnd (trimEnd text) = trimEnd text :=
  List.rdropWhile_idempotent isBlank text

theorem trim_trim (text : List Char) : trim (trim text) = trim text := by
  have htrim : trim text = trimEnd (trimStart text) := rfl
  cases hstart : trimStart text with
  | nil => rw [htrim, hstart]; rfl
  | cons c rest =>
    have hblank : isBlank c = false := by
      have hhead := List.head?_dropWhile_not isBlank text
      rw [← trimStart, hstart] at hhead
      simpa using hhead
    rw [htrim, hstart, trimEnd_cons hblank, trim_cons hblank, trimEnd_trimEnd]

theorem isBlank_of_not_mem_dropWhile (hmem : c ∈ text) (h : c ∉ text.dropWhile isBlank) : isBlank c = true := by
  rw [← List.takeWhile_append_dropWhile (p := isBlank) (l := text)] at hmem
  exact List.mem_takeWhile_imp ((List.mem_append.1 hmem).resolve_right h)

/-- What trimming takes away is blank. -/
theorem isBlank_of_not_mem_trim (hmem : c ∈ text) (h : c ∉ trim text) : isBlank c = true := by
  by_cases hstart : c ∈ trimStart text
  · refine isBlank_of_not_mem_dropWhile (List.mem_reverse.2 hstart) ?_
    rwa [← List.mem_reverse]
  · exact isBlank_of_not_mem_dropWhile hmem hstart

end

end ManiaChart.Text
