/-
What the lines of a beatmap mean, said without reading them one after another. A
line stands in the section of the nearest header before it (`Beatmap.placed`). The
records are those of the lines of their section, a single value is that of the last
line that sets it (`Beatmap.meaning`), and the problems are those of the lines
(`Beatmap.problemsOf`), wherever else the sections open again.

Reading one more line is what it adds to the meaning (`Beatmap.Reading.Means.step`).
Of the records this is one fact for each section, since a line changes only those of
its own.
-/
import ManiaChart.Proofs.Beatmap.Rereading

namespace ManiaChart

/-! ## Lines in sections -/

namespace Line

def version? : Line → Option (Option Nat)
  | formatVersion version => some version
  | _ => none

def header? : Line → Option String
  | header name => some name
  | _ => none

def text? : Line → Option String
  | content text => some text
  | _ => none

end Line

namespace Beatmap

/-- The name of the section after some lines, that of the last header. -/
def sectionAfter? (lines : List (Located Line)) : Option String :=
  lines.reverse.findSome? fun line => line.content.header?

/-- The lines, each with the name of the section it stands in, none before the
first header. -/
def placed (lines : List (Located Line)) : List (Option String × Located Line) :=
  lines.zipIdx.map fun (line, i) => (sectionAfter? (lines.take i), line)

/-- The texts of the content lines that stand in the section with a name. -/
def textsIn (name : String) (lines : List (Located Line)) : List String :=
  (placed lines).filterMap fun (sect?, line) => if sect? = some name then line.content.text? else none

/-! ## Keys and values -/

/-- The two sides of the first colon of a line, trimmed. -/
def pair? (text : String) : Option (String × List Char) :=
  (Text.cut? ':' text.toList).map fun (key, value) => (String.ofList (Text.trim key), Text.trim value)

/-- The last value of a key that can be read. -/
def lastValue? {α : Type} (key : String) (read : List Char → Option α) (pairs : List (String × List Char)) : Option α :=
  pairs.reverse.findSome? fun (name, value) => if name = key then read value else none

def lastText? (key : String) (pairs : List (String × List Char)) : Option String :=
  lastValue? key (fun value => some (String.ofList value)) pairs

def General.ofPairs (pairs : List (String × List Char)) : General where
  audioFilename := (lastText? "AudioFilename" pairs).getD ""
  mode := (lastValue? "Mode" (fun value => (Field.natural UInt8.size "Mode" value).toOption) pairs).getD 0

def Metadata.ofPairs (pairs : List (String × List Char)) : Metadata where
  title := (lastText? "Title" pairs).getD ""
  titleUnicode := lastText? "TitleUnicode" pairs
  artist := (lastText? "Artist" pairs).getD ""
  artistUnicode := lastText? "ArtistUnicode" pairs
  creator := (lastText? "Creator" pairs).getD ""
  version := (lastText? "Version" pairs).getD ""

def Difficulty.ofPairs (pairs : List (String × List Char)) : Difficulty where
  circleSize := (lastValue? "CircleSize" (fun value => (Field.number "CircleSize" value).toOption) pairs).getD 0

/-! ## Records -/

/-- The event of a line, none on a storyboard command, on a line that is no event
and on one with a problem. -/
def eventOf? (text : String) : Option Event :=
  if Entry.isStoryboardCommand text then none else (Event.ofLine text).toOption.join

def pointOf? (text : String) : Option TimingPoint := (TimingPoint.ofLine text).toOption

def objectOf? (text : String) : Option HitObject := (HitObject.ofLine text).toOption

/-- The records that lines mean. -/
def meaning (lines : List (Located Line)) : Beatmap where
  formatVersion := (lines.reverse.findSome? fun line => line.content.version?).join
  general := .ofPairs ((textsIn "General" lines).filterMap pair?)
  metadata := .ofPairs ((textsIn "Metadata" lines).filterMap pair?)
  difficulty := .ofPairs ((textsIn "Difficulty" lines).filterMap pair?)
  events := ((textsIn "Events" lines).filterMap eventOf?).toArray
  timingPoints := ((textsIn "TimingPoints" lines).filterMap pointOf?).toArray
  hitObjects := ((textsIn "HitObjects" lines).filterMap objectOf?).toArray

/-! ## Problems -/

def failure? {α : Type} : Except LineProblem α → Option LineProblem
  | .ok _ => none
  | .error problem => some problem

/-- The problem of a line of pairs: that it is none, or that of its value. -/
def pairProblem? (check : String → List Char → Option LineProblem) (text : String) : Option LineProblem :=
  match pair? text with
  | some (key, value) => check key value
  | none => some .noColon

/-- The problem of a content line in the section with a name. -/
def textProblem? (name text : String) : Option LineProblem :=
  match name with
  | "General" =>
    pairProblem? (fun key value =>
      if key = "Mode" then failure? (Field.natural UInt8.size "Mode" value) else none) text
  | "Metadata" => pairProblem? (fun _ _ => none) text
  | "Difficulty" =>
    pairProblem? (fun key value =>
      if key = "CircleSize" then failure? (Field.number "CircleSize" value) else none) text
  | "Events" => if Entry.isStoryboardCommand text then none else failure? (Event.ofLine text)
  | "TimingPoints" => failure? (TimingPoint.ofLine text)
  | "HitObjects" => failure? (HitObject.ofLine text)
  | _ => none

/-- The problem of a line in a section. -/
def lineProblem? (sect? : Option String) : Line → Option LineProblem
  | .formatVersion _ => none
  | .header name => if Section.ofName? name = none then some (.unknownSection name) else none
  | .content text =>
    match sect? with
    | none => some .outsideSections
    | some name => textProblem? name text

/-- The problems that lines have, with the places of the lines. -/
def problemsOf (lines : List (Located Line)) : List (Located LineProblem) :=
  (placed lines).filterMap fun (sect?, line) =>
    (lineProblem? sect? line.content).map fun problem => line.map fun _ => problem

/-! ## One more line -/

theorem findSome?_reverse_concat {α β : Type} (f : α → Option β) (xs : List α) (x : α) :
    (xs ++ [x]).reverse.findSome? f = (f x).or (xs.reverse.findSome? f) := by
  rw [List.reverse_append, List.reverse_singleton, List.singleton_append, List.findSome?_cons]
  cases f x <;> rfl

theorem filterMap_concat {α β : Type} (f : α → Option β) (xs : List α) (x : α) :
    (xs ++ [x]).filterMap f = xs.filterMap f ++ (f x).toList := by
  rw [List.filterMap_append, List.filterMap_cons, List.filterMap_nil]
  cases f x <;> rfl

theorem placed_concat (lines : List (Located Line)) (line : Located Line) :
    placed (lines ++ [line]) = placed lines ++ [(sectionAfter? lines, line)] := by
  rw [placed, placed, List.zipIdx_append, List.map_append]
  congr 1
  · refine List.map_congr_left fun (other, i) hmem => ?_
    have hi : i ≤ lines.length := by
      have := List.snd_lt_of_mem_zipIdx hmem
      omega
    dsimp only
    rw [List.take_append_of_le_length hi]
  · simp

theorem textsIn_concat (name : String) (lines : List (Located Line)) (line : Located Line) :
    textsIn name (lines ++ [line]) =
      textsIn name lines ++ (if sectionAfter? lines = some name then line.content.text? else none).toList := by
  rw [textsIn, placed_concat, filterMap_concat]
  rfl

theorem problemsOf_concat (lines : List (Located Line)) (line : Located Line) :
    problemsOf (lines ++ [line]) = problemsOf lines ++
      ((lineProblem? (sectionAfter? lines) line.content).map fun problem => line.map fun _ => problem).toList := by
  rw [problemsOf, placed_concat, filterMap_concat]
  rfl

theorem lastValue?_concat {α : Type} (key : String) (read : List Char → Option α) (pairs : List (String × List Char))
    (name : String) (value : List Char) :
    lastValue? key read (pairs ++ [(name, value)]) =
      (if name = key then read value else none).or (lastValue? key read pairs) :=
  findSome?_reverse_concat ..

/-! ## One more line of a section -/

/-- The records with what a line says; a line with a problem says nothing. -/
def enterRead (beatmap : Beatmap) : Except LineProblem Entry → Beatmap
  | .ok entry => beatmap.enter entry
  | .error _ => beatmap

theorem ofPair_eq (read : String → List Char → Except LineProblem Entry) (text : String) :
    Entry.ofPair read text =
      match pair? text with
      | some (key, value) => read key value
      | none => .error .noColon := by
  unfold Entry.ofPair pair?
  cases Text.cut? ':' text.toList <;> rfl

/-- Where one more pair is entered, one more line is. -/
theorem enterRead_ofPair (records : List (String × List Char) → Beatmap)
    {read : String → List Char → Except LineProblem Entry}
    (h : ∀ pairs name value, (records pairs).enterRead (read name value) = records (pairs ++ [(name, value)]))
    (texts : List String) (text : String) :
    (records (texts.filterMap pair?)).enterRead (Entry.ofPair read text) =
      records ((texts ++ [text]).filterMap pair?) := by
  rw [ofPair_eq, filterMap_concat]
  cases pair? text with
  | none => rw [Option.toList_none, List.append_nil, enterRead]
  | some pair => exact h ..

variable (beatmap : Beatmap) (pairs : List (String × List Char)) (name : String) (value : List Char)

theorem enterRead_general :
    { beatmap with general := .ofPairs pairs }.enterRead (Entry.ofGeneral name value) =
      { beatmap with general := .ofPairs (pairs ++ [(name, value)]) } := by
  simp only [General.ofPairs, lastText?, lastValue?_concat]
  unfold Entry.ofGeneral
  split
  · simp [enterRead, enter]
  · cases Field.natural UInt8.size "Mode" value <;> simp [enterRead, enter, Except.map, Except.toOption]
  · simp_all [enterRead, enter]

theorem enterRead_metadata :
    { beatmap with metadata := .ofPairs pairs }.enterRead (Entry.ofMetadata name value) =
      { beatmap with metadata := .ofPairs (pairs ++ [(name, value)]) } := by
  simp only [Metadata.ofPairs, lastText?, lastValue?_concat]
  unfold Entry.ofMetadata
  split <;> simp_all [enterRead, enter]

theorem enterRead_difficulty :
    { beatmap with difficulty := .ofPairs pairs }.enterRead (Entry.ofDifficulty name value) =
      { beatmap with difficulty := .ofPairs (pairs ++ [(name, value)]) } := by
  simp only [Difficulty.ofPairs, lastValue?_concat]
  unfold Entry.ofDifficulty
  split
  · cases Field.number "CircleSize" value <;> simp [enterRead, enter, Except.map, Except.toOption]
  · simp_all [enterRead, enter]

variable (texts : List String) (text : String)

theorem enterRead_events :
    { beatmap with events := (texts.filterMap eventOf?).toArray }.enterRead (Entry.ofLine .events text) =
      { beatmap with events := ((texts ++ [text]).filterMap eventOf?).toArray } := by
  rw [Entry.ofLine, filterMap_concat, eventOf?]
  cases Entry.isStoryboardCommand text with
  | true => simp [enterRead, enter]
  | false =>
    cases Event.ofLine text with
    | error problem => simp [enterRead, Except.map, Except.toOption]
    | ok event? => cases event? <;> simp [enterRead, enter, Except.map, Except.toOption]

theorem enterRead_timingPoints :
    { beatmap with timingPoints := (texts.filterMap pointOf?).toArray }.enterRead (Entry.ofLine .timingPoints text) =
      { beatmap with timingPoints := ((texts ++ [text]).filterMap pointOf?).toArray } := by
  rw [Entry.ofLine, filterMap_concat, pointOf?]
  cases TimingPoint.ofLine text <;> simp [enterRead, enter, Except.map, Except.toOption]

theorem enterRead_hitObjects :
    { beatmap with hitObjects := (texts.filterMap objectOf?).toArray }.enterRead (Entry.ofLine .hitObjects text) =
      { beatmap with hitObjects := ((texts ++ [text]).filterMap objectOf?).toArray } := by
  rw [Entry.ofLine, filterMap_concat, objectOf?]
  cases HitObject.ofLine text <;> simp [enterRead, enter, Except.map, Except.toOption]

end Beatmap

/-! ## Sections by their names -/

/-- Which section the name in a header stands for, an unknown name among them. -/
inductive Section.Named : String → Section → Prop
  | general : Named "General" .general
  | metadata : Named "Metadata" .metadata
  | difficulty : Named "Difficulty" .difficulty
  | events : Named "Events" .events
  | timingPoints : Named "TimingPoints" .timingPoints
  | hitObjects : Named "HitObjects" .hitObjects
  | ignored {name : String} :
    name ∉ ["General", "Metadata", "Difficulty", "Events", "TimingPoints", "HitObjects"] → Named name .ignored

/-- The section that is read under a header. -/
def Section.under (name : String) : Section := (Section.ofName? name).getD .ignored

theorem Section.named_under (name : String) : Section.Named name (Section.under name) := by
  unfold Section.under Section.ofName?
  split
  · exact .general
  · exact .metadata
  · exact .difficulty
  · exact .events
  · exact .timingPoints
  · exact .hitObjects
  · exact .ignored (by decide)
  · exact .ignored (by decide)
  · exact .ignored (by simp_all)

namespace Beatmap

variable {lines : List (Located Line)} {line : Located Line} {name text : String} {sect : Section}

/-- A line that is no content of a section changes at most the version. -/
theorem meaning_concat_of_none (h : sectionAfter? lines = none ∨ line.content.text? = none) :
    meaning (lines ++ [line]) = { meaning lines with
      formatVersion :=
        (line.content.version?.or (lines.reverse.findSome? fun line => line.content.version?)).join } := by
  have htexts : ∀ name, textsIn name (lines ++ [line]) = textsIn name lines := by
    intro name
    rw [textsIn_concat]
    rcases h with h | h <;> simp [h]
  simp only [meaning, htexts, findSome?_reverse_concat]

/-- A content line changes the records as its section has it. -/
theorem meaning_concat_of_named (hnamed : Section.Named name sect) (hsect : sectionAfter? lines = some name)
    (hline : line.content = .content text) :
    meaning (lines ++ [line]) = (meaning lines).enterRead (Entry.ofLine sect text) := by
  have htexts : ∀ other, textsIn other (lines ++ [line]) =
      textsIn other lines ++ if name = other then [text] else [] := by
    intro other
    rw [textsIn_concat, hsect, hline]
    by_cases hother : name = other <;> simp [hother, Line.text?]
  have hversion : ((lines ++ [line]).reverse.findSome? fun line => line.content.version?) =
      lines.reverse.findSome? fun line => line.content.version? := by
    rw [findSome?_reverse_concat, hline]
    rfl
  rw [meaning, hversion]
  simp only [htexts]
  -- Only the records of the section itself have one more line to be made of.
  cases hnamed with
  | general =>
    simp only [reduceIte, String.reduceEq, List.append_nil]
    exact (enterRead_ofPair _ (enterRead_general (meaning lines)) _ text).symm
  | metadata =>
    simp only [reduceIte, String.reduceEq, List.append_nil]
    exact (enterRead_ofPair _ (enterRead_metadata (meaning lines)) _ text).symm
  | difficulty =>
    simp only [reduceIte, String.reduceEq, List.append_nil]
    exact (enterRead_ofPair _ (enterRead_difficulty (meaning lines)) _ text).symm
  | events =>
    simp only [reduceIte, String.reduceEq, List.append_nil]
    exact (enterRead_events (meaning lines) _ text).symm
  | timingPoints =>
    simp only [reduceIte, String.reduceEq, List.append_nil]
    exact (enterRead_timingPoints (meaning lines) _ text).symm
  | hitObjects =>
    simp only [reduceIte, String.reduceEq, List.append_nil]
    exact (enterRead_hitObjects (meaning lines) _ text).symm
  | ignored hname =>
    simp only [List.mem_cons, List.not_mem_nil, or_false, not_or] at hname
    simp only [hname, reduceIte, List.append_nil]
    rfl

theorem failure?_map {α β : Type} (f : α → β) (read : Except LineProblem α) :
    failure? (read.map f) = failure? read := by
  cases read <;> rfl

theorem failure?_ofPair (read : String → List Char → Except LineProblem Entry) (text : String) :
    failure? (Entry.ofPair read text) = pairProblem? (fun key value => failure? (read key value)) text := by
  rw [ofPair_eq, pairProblem?]
  cases pair? text <;> rfl

theorem failure?_ofGeneral (key : String) (value : List Char) :
    failure? (Entry.ofGeneral key value) =
      if key = "Mode" then failure? (Field.natural UInt8.size "Mode" value) else none := by
  unfold Entry.ofGeneral
  split
  · rfl
  · rw [if_pos rfl, failure?_map]
  · simp_all [failure?]

theorem failure?_ofDifficulty (key : String) (value : List Char) :
    failure? (Entry.ofDifficulty key value) =
      if key = "CircleSize" then failure? (Field.number "CircleSize" value) else none := by
  unfold Entry.ofDifficulty
  split
  · rw [if_pos rfl, failure?_map]
  · simp_all [failure?]

theorem failure?_ofLine (hnamed : Section.Named name sect) (text : String) :
    failure? (Entry.ofLine sect text) = textProblem? name text := by
  cases hnamed with
  | general =>
    rw [Entry.ofLine, failure?_ofPair]
    simp only [failure?_ofGeneral]
    rfl
  | metadata => exact failure?_ofPair ..
  | difficulty =>
    rw [Entry.ofLine, failure?_ofPair]
    simp only [failure?_ofDifficulty]
    rfl
  | events =>
    rw [Entry.ofLine, apply_ite failure?, failure?_map]
    rfl
  | timingPoints => exact failure?_map ..
  | hitObjects => exact failure?_map ..
  | ignored hname =>
    unfold textProblem?
    split <;> simp_all [Entry.ofLine, failure?]

/-! ## All lines -/

/-- Whether a reading is what lines mean. -/
structure Reading.Means (reading : Reading) (lines : List (Located Line)) : Prop where
  beatmap : reading.beatmap = meaning lines
  current : reading.current = (sectionAfter? lines).map Section.under
  problems : reading.problems.toList = problemsOf lines

namespace Reading

variable {reading : Reading}

theorem step_of_header (reading : Reading) (h : line.content = .header name) :
    (reading.step line).beatmap = reading.beatmap ∧ (reading.step line).current = some (Section.under name) := by
  rw [step, h, Section.under]
  dsimp only
  cases Section.ofName? name <;> exact ⟨rfl, rfl⟩

theorem step_of_content (reading : Reading) (h : line.content = .content text) :
    (reading.step line).current = reading.current ∧ (reading.step line).beatmap =
      match reading.current with
      | none => reading.beatmap
      | some sect => reading.beatmap.enterRead (Entry.ofLine sect text) := by
  rw [step, h]
  dsimp only
  cases hcurrent : reading.current with
  | none => exact ⟨hcurrent, rfl⟩
  | some sect =>
    dsimp only
    cases Entry.ofLine sect text <;> exact ⟨hcurrent, rfl⟩

theorem Means.problem? (h : reading.Means lines) (line : Line) :
    reading.problem? line = lineProblem? (sectionAfter? lines) line := by
  unfold Reading.problem? lineProblem?
  cases line with
  | formatVersion version => rfl
  | header name => cases hsect : Section.ofName? name <;> simp [hsect]
  | content text =>
    dsimp only
    rw [h.current]
    cases sectionAfter? lines with
    | none => rfl
    | some name =>
      dsimp only [Option.map_some]
      rw [← failure?_ofLine (Section.named_under name)]
      cases Entry.ofLine (Section.under name) text <;> rfl

theorem Means.step (h : reading.Means lines) (line : Located Line) : (reading.step line).Means (lines ++ [line]) := by
  have hproblems : (reading.step line).problems.toList = problemsOf (lines ++ [line]) := by
    rw [problems_step, problemsOf_concat, h.problems, reported, h.problem?]
  have hsection : sectionAfter? (lines ++ [line]) = line.content.header?.or (sectionAfter? lines) :=
    findSome?_reverse_concat ..
  cases hline : line.content with
  | formatVersion version =>
    refine ⟨?_, ?_, hproblems⟩
    · rw [meaning_concat_of_none (.inr (by rw [hline]; rfl)), hline, Reading.step, hline, ← h.beatmap]
      rfl
    · rw [hsection, hline, Reading.step, hline]
      exact h.current
  | header name =>
    obtain ⟨hbeatmap, hcurrent⟩ := reading.step_of_header hline
    refine ⟨?_, ?_, hproblems⟩
    · rw [meaning_concat_of_none (.inr (by rw [hline]; rfl)), hline, hbeatmap, h.beatmap]
      rfl
    · rw [hsection, hline, hcurrent]
      rfl
  | content text =>
    obtain ⟨hcurrent, hbeatmap⟩ := reading.step_of_content hline
    refine ⟨?_, ?_, hproblems⟩
    · rw [hbeatmap, h.current, h.beatmap]
      cases hsect : sectionAfter? lines with
      | none =>
        rw [meaning_concat_of_none (.inl hsect), hline]
        rfl
      | some name => exact (meaning_concat_of_named (Section.named_under name) hsect hline).symm
    · rw [hsection, hline, hcurrent]
      exact h.current

end Reading

/-- **Reading lines one after another gives what they mean.** -/
theorem ofLines_eq_meaning (lines : List (Located Line)) :
    (ofLines lines).beatmap = meaning lines ∧ (ofLines lines).problems.toList = problemsOf lines := by
  suffices hmeans : (ofLines lines).Means lines from ⟨hmeans.beatmap, hmeans.problems⟩
  induction lines using List.reverseRecOn with
  | nil => exact ⟨rfl, rfl, rfl⟩
  | append_singleton lines line ih =>
    rw [ofLines, List.foldl_concat, ← ofLines]
    exact ih.step line

end Beatmap

end ManiaChart
