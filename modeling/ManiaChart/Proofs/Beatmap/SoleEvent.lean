/-
A section whose content is one line (`Beatmap.SoleEvent`). What the line is read as
depends on its piece of the source and on nothing else: if it is an event, it is the
only one (`SoleEvent.events_eq`), and if nothing is wrong with it, no problem is
reported where it starts (`SoleEvent.start_ne`), since no two lines start at one byte.
-/
import Mathlib.Data.List.Pairwise
import ManiaChart.Proofs.Beatmap.Meaning
import ManiaChart.Proofs.Beatmap.Scanning

namespace ManiaChart

namespace Beatmap

/-- The content lines that stand in the section with a name. -/
def contentsIn (name : String) (lines : List (Located Line)) : List (Located String) :=
  (placed lines).filterMap fun (sect?, line) =>
    if sect? = some name then line.content.text?.map fun text => line.map fun _ => text else none

/-- Whether one piece of a source is the only content of its events section. -/
structure SoleEvent (source : String) (piece : Located (List Char)) : Prop where
  mem : piece ∈ Line.pieces source
  sole : ∃ text, contentsIn "Events" (Line.ofSource source) = [⟨text, piece.start, piece.stop⟩]

theorem map_content_contentsIn (name : String) (lines : List (Located Line)) :
    (contentsIn name lines).map Located.content = textsIn name lines := by
  rw [contentsIn, textsIn, List.map_filterMap]
  refine List.filterMap_congr fun entry _ => ?_
  by_cases hsect : entry.1 = some name
  · simp only [hsect, if_true, Option.map_map, Function.comp_def, Located.map, Option.map_id']
  · simp only [hsect, if_false, Option.map_none]

theorem map_snd_placed (lines : List (Located Line)) : (placed lines).map Prod.snd = lines := by
  rw [placed, List.map_map]
  exact List.zipIdx_map_fst ..

theorem means_ofLines (lines : List (Located Line)) : (ofLines lines).Means lines := by
  induction lines using List.reverseRecOn with
  | nil => exact ⟨rfl, rfl, rfl⟩
  | append_singleton lines line ih =>
    rw [ofLines, List.foldl_concat, ← ofLines]
    exact ih.step line

variable {source : String} {piece : Located (List Char)} {text : String}

theorem eq_of_start_eq {entry other : Option String × Located Line} (hentry : entry ∈ placed (Line.ofSource source))
    (hother : other ∈ placed (Line.ofSource source)) (hstart : entry.2.start = other.2.start) : entry = other := by
  have hspans := Line.spans_ofSource source
  have hapart : (Line.ofSource source).Pairwise fun a b => a.start ≠ b.start := by
    refine hspans.ascending.imp_of_mem fun {a b} ha _ hlt => ?_
    have := hspans.nonempty a ha
    omega
  rw [← map_snd_placed (Line.ofSource source), List.pairwise_map] at hapart
  by_contra hne
  have hsymm : Std.Symm fun a b : Option String × Located Line => a.2.start ≠ b.2.start := ⟨fun _ _ => Ne.symm⟩
  exact hapart.forall hentry hother hne hstart

theorem classify?_of_bytes {line : Located Line} (hline : line ∈ Line.ofSource source)
    (hpiece : piece ∈ Line.pieces source) (hstart : line.start = piece.start) (hstop : line.stop = piece.stop) :
    Line.classify? piece.content = some line.content := by
  obtain ⟨other, -, -, -, hslice, -, hread⟩ := (Line.spans_ofSource source).cut line hline
  rw [hstart, hstop, (Line.slice?_of_mem_pieces hpiece).1, Option.some.injEq, String.ofList_inj] at hslice
  rwa [hslice]

/-- The only content of the events section is what its piece is. -/
theorem SoleEvent.mem_placed (h : SoleEvent source piece)
    (htext : Line.classify? piece.content = some (.content text)) :
    (some "Events", ⟨.content text, piece.start, piece.stop⟩) ∈ placed (Line.ofSource source) ∧
      textsIn "Events" (Line.ofSource source) = [text] := by
  obtain ⟨hpiece, content, hsole⟩ := h
  have hcontent : ⟨content, piece.start, piece.stop⟩ ∈ contentsIn "Events" (Line.ofSource source) := by
    rw [hsole]
    exact List.mem_singleton_self _
  obtain ⟨⟨sect?, line⟩, hplaced, hline⟩ := List.mem_filterMap.1 hcontent
  dsimp only at hline
  split at hline
  next hsect =>
    obtain ⟨found, hfound, hplace⟩ := Option.map_eq_some_iff.1 hline
    obtain ⟨rfl, hstart, hstop⟩ : found = content ∧ line.start = piece.start ∧ line.stop = piece.stop := by
      simpa [Located.map] using hplace
    have hmem : line ∈ Line.ofSource source := by
      rw [← map_snd_placed (Line.ofSource source)]
      exact List.mem_map_of_mem hplaced
    have hread : Line.content text = line.content :=
      Option.some.inj (htext.symm.trans (classify?_of_bytes hmem hpiece hstart hstop))
    rw [← hread] at hfound
    cases hfound
    refine ⟨?_, ?_⟩
    · rw [← hsect, hread, ← hstart, ← hstop]
      exact hplaced
    · rw [← map_content_contentsIn, hsole]
      rfl
  · cases hline

theorem SoleEvent.events_eq (h : SoleEvent source piece)
    (htext : Line.classify? piece.content = some (.content text)) {event : Event}
    (hevent : eventOf? text = some event) : (read source).beatmap.events.toList = [event] := by
  rw [read, (means_ofLines _).beatmap, meaning, (h.mem_placed htext).2]
  simp [hevent]

/-- A sole event without a problem of its own has none reported. -/
theorem SoleEvent.start_ne (h : SoleEvent source piece)
    (htext : Line.classify? piece.content = some (.content text)) (hproblem : textProblem? "Events" text = none)
    {problem : Located LineProblem} (hmem : problem ∈ (read source).problems.toList) :
    problem.start ≠ piece.start := by
  intro hstart
  rw [read, (means_ofLines _).problems] at hmem
  obtain ⟨⟨sect?, line⟩, hplaced, hline⟩ := List.mem_filterMap.1 hmem
  obtain ⟨found, hfound, rfl⟩ := Option.map_eq_some_iff.1 hline
  cases eq_of_start_eq hplaced (h.mem_placed htext).1 hstart
  cases hproblem.symm.trans hfound

end Beatmap

end ManiaChart
