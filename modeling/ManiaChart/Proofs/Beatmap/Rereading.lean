/-
Sources that are read alike. Two sources whose lines are the same but for their
places give the same records, and problems that are the same but for their places
(`Beatmap.Reading.Alike.run`). So a byte order mark only moves what is reported, and
carriage returns before line feeds do not even change that in content
(`Beatmap.read_marked_returned`).

A line with a problem, an unknown section header apart, leaves the problem and
nothing else (`Beatmap.Reading.step_of_problem?`): without the line everything is read
as it was, and only the problem is gone (`Beatmap.read_withoutLine`).
-/
import Mathlib.Data.List.Forall2
import Mathlib.Data.List.Induction
import ManiaChart.Beatmap.Reading
import ManiaChart.Proofs.Beatmap.Lines

namespace ManiaChart

/-- Whether two values are the same but for their places, which are related. -/
structure Located.Related {α : Type} (places : Nat × Nat → Nat × Nat → Prop) (x y : Located α) : Prop where
  content : x.content = y.content
  place : places (x.start, x.stop) (y.start, y.stop)

namespace Beatmap.Reading

/-! ## One line -/

/-- The problem a line has, read next. -/
def problem? (reading : Reading) : Line → Option LineProblem
  | .formatVersion _ => none
  | .header name => if (Section.ofName? name).isSome then none else some (.unknownSection name)
  | .content text =>
    match reading.current with
    | none => some .outsideSections
    | some sect =>
      match Entry.ofLine sect text with
      | .ok _ => none
      | .error problem => some problem

/-- The problem that is reported of a line. -/
def reported (reading : Reading) (line : Located Line) : List (Located LineProblem) :=
  ((reading.problem? line.content).map fun problem => line.map fun _ => problem).toList

theorem problems_step (reading : Reading) (line : Located Line) :
    (reading.step line).problems.toList = reading.problems.toList ++ reading.reported line := by
  unfold step reported problem?
  cases line.content with
  | formatVersion version => simp
  | header name => cases hsect : Section.ofName? name <;> simp [hsect, report]
  | content text =>
    cases hcurrent : reading.current with
    | none => simp [hcurrent, report]
    | some sect => cases hentry : Entry.ofLine sect text <;> simp [hcurrent, hentry, report, enter]

/-- A line with a problem changes nothing else, unless it is a section header. -/
theorem step_of_problem? {reading : Reading} {line : Located Line} {problem : LineProblem}
    (h : reading.problem? line.content = some problem) (hknown : ∀ name, problem ≠ .unknownSection name) :
    reading.step line = reading.report line problem := by
  unfold problem? at h
  unfold step
  cases hline : line.content with
  | formatVersion version =>
    rw [hline] at h
    cases h
  | header name =>
    simp only [hline] at h
    split at h
    · cases h
    · exact absurd (Option.some.inj h).symm (hknown name)
  | content text =>
    simp only [hline] at h
    cases hcurrent : reading.current with
    | none =>
      simp only [hcurrent] at h ⊢
      rw [← Option.some.inj h]
    | some sect =>
      simp only [hcurrent] at h ⊢
      cases hentry : Entry.ofLine sect text with
      | ok entry =>
        simp only [hentry] at h
        cases h
      | error other =>
        simp only [hentry] at h ⊢
        rw [Option.some.inj h]

/-! ## Two readings -/

/-- Whether two readings have come equally far, their problems aside. -/
structure Alike (reading other : Reading) : Prop where
  beatmap : reading.beatmap = other.beatmap
  current : reading.current = other.current

theorem Alike.refl (reading : Reading) : Alike reading reading := ⟨rfl, rfl⟩

variable {places : Nat × Nat → Nat × Nat → Prop} {reading other : Reading}

/-- Whether what two readings report after two others is the same but for related
places. -/
def ReportsAlike (places : Nat × Nat → Nat × Nat → Prop) (reading other after otherAfter : Reading) : Prop :=
  ∃ new new', after.problems.toList = reading.problems.toList ++ new ∧
    otherAfter.problems.toList = other.problems.toList ++ new' ∧ List.Forall₂ (Located.Related places) new new'

theorem Alike.problem? (h : Alike reading other) (line : Line) : reading.problem? line = other.problem? line := by
  unfold Reading.problem?
  rw [h.current]

theorem Alike.step (h : Alike reading other) {line line' : Located Line} (hline : line.Related places line') :
    Alike (reading.step line) (other.step line') ∧
      ReportsAlike places reading other (reading.step line) (other.step line') := by
  refine ⟨?_, reading.reported line, other.reported line', problems_step .., problems_step .., ?_⟩
  · obtain ⟨hbeatmap, hcurrent⟩ := h
    unfold Reading.step
    rw [← hline.content]
    cases line.content with
    | formatVersion version => exact ⟨by rw [hbeatmap], hcurrent⟩
    | header name =>
      dsimp only
      cases Section.ofName? name with
      | some sect => exact ⟨hbeatmap, rfl⟩
      | none => exact ⟨hbeatmap, rfl⟩
    | content text =>
      dsimp only
      rw [← hcurrent]
      cases hsect : reading.current with
      | none => exact ⟨hbeatmap, hcurrent⟩
      | some sect =>
        dsimp only
        cases Entry.ofLine sect text with
        | ok entry => exact ⟨congrArg (·.enter entry) hbeatmap, hcurrent⟩
        | error problem => exact ⟨hbeatmap, hcurrent⟩
  · unfold reported
    rw [h.problem?, hline.content]
    cases other.problem? line'.content with
    | none => exact .nil
    | some problem => exact .cons ⟨rfl, hline.place⟩ .nil

theorem Alike.run (h : Alike reading other) {lines lines' : List (Located Line)}
    (hlines : List.Forall₂ (Located.Related places) lines lines') :
    Alike (lines.foldl Reading.step reading) (lines'.foldl Reading.step other) ∧
      ReportsAlike places reading other (lines.foldl Reading.step reading) (lines'.foldl Reading.step other) := by
  induction hlines generalizing reading other with
  | nil => exact ⟨h, [], [], (List.append_nil _).symm, (List.append_nil _).symm, .nil⟩
  | cons hline _ ih =>
    obtain ⟨hstep, new, new', hnew, hnew', hrelated⟩ := h.step hline
    obtain ⟨hrun, later, later', hlater, hlater', hrelated'⟩ := ih hstep
    refine ⟨hrun, new ++ later, new' ++ later', ?_, ?_, List.rel_append hrelated hrelated'⟩
    · rw [List.foldl_cons, hlater, hnew, List.append_assoc]
    · rw [List.foldl_cons, hlater', hnew', List.append_assoc]

end Beatmap.Reading

/-! ## Related places -/

namespace Located

variable {α : Type} {lines lines' : List (Located α)}

theorem forall₂_related_of_map_content (h : lines'.map Located.content = lines.map Located.content) :
    List.Forall₂ (Related fun _ _ => True) lines lines' := by
  rw [← List.forall₂_eq_eq_eq, List.forall₂_map_left_iff, List.forall₂_map_right_iff] at h
  exact h.flip.imp fun _ _ hcontent => ⟨hcontent.symm, trivial⟩

theorem map_content_of_forall₂_related {places : Nat × Nat → Nat × Nat → Prop}
    (h : List.Forall₂ (Related places) lines lines') : lines'.map Located.content = lines.map Located.content := by
  induction h with
  | nil => rfl
  | cons hline _ ih => rw [List.map_cons, List.map_cons, ih, hline.content]

/-- Whether one place is `n` bytes further on than another. -/
def MovedBy (n : Nat) (place other : Nat × Nat) : Prop := other = (place.1 + n, place.2 + n)

theorem forall₂_moved (n : Nat) (lines : List (Located α)) :
    List.Forall₂ (Related (MovedBy n)) lines (lines.map (·.moved n)) :=
  List.forall₂_map_right_iff.2 (List.forall₂_same.2 fun _ _ => ⟨rfl, rfl⟩)

theorem eq_map_moved_of_forall₂ {n : Nat} (h : List.Forall₂ (Related (MovedBy n)) lines lines') :
    lines' = lines.map (·.moved n) := by
  induction h with
  | nil => rfl
  | @cons line line' _ _ hline _ ih =>
    obtain ⟨content, start, stop⟩ := line
    obtain ⟨content', start', stop'⟩ := line'
    obtain ⟨hcontent, hplace⟩ := hline
    obtain ⟨rfl, rfl⟩ := Prod.mk.inj hplace
    cases hcontent
    rw [List.map_cons, ← ih]
    rfl

end Located

namespace Beatmap

/-! ## Byte order marks and carriage returns -/

theorem alike_ofLines {places : Nat × Nat → Nat × Nat → Prop} {lines lines' : List (Located Line)}
    (h : List.Forall₂ (Located.Related places) lines lines') :
    (ofLines lines').beatmap = (ofLines lines).beatmap ∧
      List.Forall₂ (Located.Related places) (ofLines lines).problems.toList (ofLines lines').problems.toList := by
  obtain ⟨halike, new, new', hnew, hnew', hrelated⟩ := (Reading.Alike.refl {}).run h
  rw [ofLines, ofLines, hnew, hnew']
  exact ⟨halike.beatmap.symm, hrelated⟩

/-- **Records do not hang on how a text is written down.** A byte order mark before
a source changes none of its records, and moves its problems by its three bytes;
a carriage return before every line feed changes neither records nor problems, but
for the places of these. -/
theorem read_marked_returned (source : String) :
    (source.toList.head? ≠ some '\ufeff' →
      (read ("\ufeff" ++ source)).beatmap = (read source).beatmap ∧
        (read ("\ufeff" ++ source)).problems.toList = (read source).problems.toList.map (·.moved 3)) ∧
      (read (String.ofList (Text.withReturns source.toList))).beatmap = (read source).beatmap ∧
        (read (String.ofList (Text.withReturns source.toList))).problems.toList.map Located.content =
          (read source).problems.toList.map Located.content := by
  refine ⟨fun hmark => ?_, ?_⟩
  · obtain ⟨hbeatmap, hproblems⟩ := alike_ofLines (Located.forall₂_moved 3 (Line.ofSource source))
    rw [← Line.ofSource_marked hmark] at hbeatmap hproblems
    exact ⟨hbeatmap, Located.eq_map_moved_of_forall₂ hproblems⟩
  · have hlines := Located.forall₂_related_of_map_content (Line.map_content_ofSource_withReturns source)
    obtain ⟨hbeatmap, hproblems⟩ := alike_ofLines hlines
    rw [read, read]
    exact ⟨hbeatmap, Located.map_content_of_forall₂_related hproblems⟩

/-- Both problems of a source three bytes further on. -/
theorem read_marked_returned_bare :
    "x\n[Difficulty]\r\ny".toList.head? ≠ some '\ufeff' ∧
      (read ("\ufeff" ++ "x\n[Difficulty]\r\ny")).problems.toList =
        [⟨.outsideSections, 3, 4⟩, ⟨.noColon, 19, 20⟩] := by
  have hmark : "x\n[Difficulty]\r\ny".toList.head? ≠ some '\ufeff' := by decide
  have hproblems : (read "x\n[Difficulty]\r\ny").problems.toList =
      [⟨.outsideSections, 0, 1⟩, ⟨.noColon, 16, 17⟩] := by decide +kernel
  refine ⟨hmark, ?_⟩
  rw [((read_marked_returned _).1 hmark).2, hproblems]
  rfl

/-! ## Lines with a problem -/

theorem exists_of_problems {lines : List (Located Line)} {earlier later : List (Located LineProblem)}
    {problem : Located LineProblem} (h : (ofLines lines).problems.toList = earlier ++ problem :: later) :
    ∃ before line after, lines = before ++ line :: after ∧ (ofLines before).problems.toList = earlier ∧
      (ofLines before).problem? line.content = some problem.content ∧ problem = line.map fun _ => problem.content := by
  induction lines using List.reverseRecOn generalizing later with
  | nil => exact absurd h.symm (List.append_ne_nil_of_right_ne_nil _ (List.cons_ne_nil _ _))
  | append_singleton lines line ih =>
    have hstep : ofLines (lines ++ [line]) = (ofLines lines).step line := List.foldl_concat ..
    have hprefix : ∀ {later}, (ofLines lines).problems.toList = earlier ++ problem :: later →
        ∃ before other after, lines ++ [line] = before ++ other :: after ∧
          (ofLines before).problems.toList = earlier ∧
          (ofLines before).problem? other.content = some problem.content ∧
          problem = other.map fun _ => problem.content := fun {later} hlines => by
      obtain ⟨before, other, after, rfl, hrest⟩ := ih hlines
      exact ⟨before, other, after ++ [line], by rw [List.append_assoc, List.cons_append], hrest⟩
    rw [hstep, Reading.problems_step, Reading.reported] at h
    cases hproblem : (ofLines lines).problem? line.content with
    | none =>
      rw [hproblem] at h
      exact hprefix ((List.append_nil _).symm.trans h)
    | some found =>
      rw [hproblem] at h
      -- The last problem is that of the last line; any other one was there before.
      rcases List.eq_nil_or_concat later with rfl | ⟨init, last, rfl⟩
      · obtain ⟨hearlier, hlast⟩ := List.append_inj' h rfl
        cases hlast
        exact ⟨lines, line, [], rfl, hearlier, hproblem, rfl⟩
      · rw [List.concat_eq_append, ← List.cons_append, ← List.append_assoc] at h
        exact hprefix (List.append_inj' h rfl).1

/-- **A line with a problem leaves no trace but the problem.** A problem stands at
a line of the source, and without this line and its ending the source gives the same
records and the same problems but for this one, those after it moved by the bytes
that are gone. Headers of unknown sections are kept; and what follows a first line
must not start with what would be a byte order mark there. -/
theorem read_withoutLine {source : String} {earlier later : List (Located LineProblem)}
    {problem : Located LineProblem} (h : (read source).problems.toList = earlier ++ problem :: later)
    (hknown : ∀ name, problem.content ≠ .unknownSection name) :
    (∃ before line ending after, Text.Cut source.toList before line ending after ∧
      problem.start = Text.byteLength before ∧ problem.stop = problem.start + Text.byteLength line) ∧
      ∀ before line ending after, Text.Cut source.toList before line ending after →
        problem.start = Text.byteLength before → problem.stop = problem.start + Text.byteLength line →
        (before = [] → after.head? ≠ some '\ufeff') →
          (read (String.ofList (before ++ after))).beatmap = (read source).beatmap ∧
          ∃ moved, (read (String.ofList (before ++ after))).problems.toList = earlier ++ moved ∧
            later = moved.map (·.moved (Text.byteLength line + Text.byteLength ending)) := by
  obtain ⟨first, read, rest, hlines, hearlier, hproblem, hplace⟩ := exists_of_problems h
  obtain ⟨before, line, ending, after, hcut, hstart, hstop, hwithout⟩ := Line.exists_cut_of_ofSource hlines
  have hplaces : problem.start = Text.byteLength before ∧ problem.stop = problem.start + Text.byteLength line := by
    rw [hplace]
    exact ⟨hstart, hstop⟩
  refine ⟨⟨before, line, ending, after, hcut, hplaces⟩,
    fun before' line' ending' after' hcut' hstart' hstop' hmark => ?_⟩
  obtain ⟨rfl, rfl, rfl, rfl⟩ := hcut.unique hcut' (by omega) (by omega)
  obtain ⟨kept, hkept, rfl⟩ := hwithout hmark
  -- From the line on, the two readings differ in the problem that one of them has.
  have hsame : Reading.Alike (ofLines first) ((ofLines first).step read) := by
    rw [Reading.step_of_problem? hproblem hknown]
    exact ⟨rfl, rfl⟩
  obtain ⟨halike, new, new', hnew, hnew', hmoved⟩ :=
    hsame.run (Located.forall₂_moved (Text.byteLength line + Text.byteLength ending) kept)
  have hwith : Beatmap.read source = (kept.map (·.moved (Text.byteLength line + Text.byteLength ending))).foldl
      Reading.step ((ofLines first).step read) := by
    rw [Beatmap.read, hlines, ofLines, List.foldl_append]
    rfl
  have hout : Beatmap.read (String.ofList (before ++ after)) = kept.foldl Reading.step (ofLines first) := by
    rw [Beatmap.read, hkept, ofLines, List.foldl_append]
    rfl
  rw [hwith, hout]
  refine ⟨halike.beatmap, new, by rw [hnew, hearlier], ?_⟩
  rw [hwith, hnew', Reading.problems_step, Reading.reported, hproblem, hearlier, Option.map_some, Option.toList_some,
    ← hplace, List.append_assoc, List.singleton_append] at h
  rw [← Located.eq_map_moved_of_forall₂ hmoved]
  exact ((List.cons.inj (List.append_cancel_left h)).2).symm

/-- A line with a problem between two others that have one, its carriage return gone
with it. -/
theorem read_withoutLine_middle :
    (read "x\n[Difficulty]\ny\r\nz").problems.toList =
        [⟨.outsideSections, 0, 1⟩] ++ ⟨.noColon, 15, 16⟩ :: [⟨.noColon, 18, 19⟩] ∧
      Text.Cut "x\n[Difficulty]\ny\r\nz".toList "x\n[Difficulty]\n".toList ['y'] ['\r', '\n'] ['z'] ∧
      (read (String.ofList ("x\n[Difficulty]\n".toList ++ ['z']))).beatmap =
        (read "x\n[Difficulty]\ny\r\nz").beatmap ∧
      ∃ moved, (read (String.ofList ("x\n[Difficulty]\n".toList ++ ['z']))).problems.toList =
          [⟨.outsideSections, 0, 1⟩] ++ moved ∧
        [⟨.noColon, 18, 19⟩] = moved.map (·.moved 3) := by
  have hproblems : (read "x\n[Difficulty]\ny\r\nz").problems.toList =
      [⟨.outsideSections, 0, 1⟩] ++ ⟨.noColon, 15, 16⟩ :: [⟨.noColon, 18, 19⟩] := by decide +kernel
  have hcut : Text.Cut "x\n[Difficulty]\ny\r\nz".toList "x\n[Difficulty]\n".toList ['y'] ['\r', '\n'] ['z'] :=
    ⟨by decide, by decide, .inr (.inl rfl)⟩
  refine ⟨hproblems, hcut, ?_⟩
  exact (read_withoutLine hproblems fun name heq => LineProblem.noConfusion heq).2 _ _ _ _ hcut (by decide) (by decide)
    fun hnil => absurd hnil (by decide)

end Beatmap

end ManiaChart
