/-
Files named within quotes (`quotedLine`). A name without a comma comes out as it is
written, the blanks at its ends included (`fileName_quotedField`). Fields are parted
at every comma, within quotes as well, so of a name with a comma the part before it
is left, with the quote it starts with (`quotedFile`).

What a line says is followed from the text of the source to the tables of the chart:
it is content of its section and keeps its end (`Line.classify?_quotedLine`), it is an
event with the quoted name as a parameter (`exists_event_quotedLine`), and the only
event of a beatmap gives the only file (`Plan.showsFile_chart`).
-/
import ManiaChart.Proofs.Beatmap.Fields
import ManiaChart.Proofs.Beatmap.SoleEvent
import ManiaChart.Proofs.Conversion.Accounting
import ManiaChart.Proofs.Conversion.MediaFiles
import ManiaChart.Source.Loading

namespace ManiaChart

open Text

/-! ## Lines with a quoted name -/

/-- An event with a file named within quotes. -/
def quotedLine (kind : MediaKind) (time name : List Char) : List Char :=
  match kind with
  | .video => "Video,".toList ++ time ++ ",\"".toList ++ name ++ "\"".toList
  | .background => "0,".toList ++ time ++ ",\"".toList ++ name ++ "\",0,0".toList
  | .sample => "Sample,".toList ++ time ++ ",0,\"".toList ++ name ++ "\",70".toList

/-- The field that a quoted name starts: up to the closing quote, or up to the first
comma of the name. -/
def quotedField (name : List Char) : List Char :=
  if ',' ∈ name then '"' :: name.takeWhile (· ≠ ',') else '"' :: (name ++ ['"'])

/-- The file of a quoted name: the name, or what is left of one with a comma. -/
def quotedFile (name : List Char) : List Char :=
  if ',' ∈ name then '"' :: trimEnd (name.takeWhile (· ≠ ',')) else name

variable {kind : MediaKind} {time name rest : List Char} {start : Int}

theorem takeWhile_append_comma {before : List Char} (h : ',' ∉ before) (after : List Char) :
    (before ++ ',' :: after).takeWhile (· ≠ ',') = before := by
  rw [List.takeWhile_append_of_pos (ne_of_not_mem h)]
  simp

theorem exists_splitOn_quoted (name : List Char) (hrest : rest = [] ∨ ∃ others, rest = ',' :: others) :
    ∃ others, ('"' :: (name ++ '"' :: rest)).splitOn ',' = quotedField name :: others := by
  unfold quotedField
  split
  next hcomma =>
    obtain ⟨before, after, rfl, hbefore⟩ := List.eq_append_cons_of_mem hcomma
    have hfield : ',' ∉ '"' :: before := by simpa using hbefore
    rw [takeWhile_append_comma hbefore, List.append_assoc, List.cons_append]
    exact ⟨_, splitOn_append hfield _⟩
  next hcomma =>
    have hfield : ',' ∉ '"' :: (name ++ ['"']) := by simpa using hcomma
    rcases hrest with rfl | ⟨others, rfl⟩
    · exact ⟨[], splitOn_of_not_mem hfield⟩
    · refine ⟨others.splitOn ',', ?_⟩
      rw [← splitOn_append hfield]
      simp

/-- A line with a quoted name from field to field. -/
theorem exists_quotedLine_eq (kind : MediaKind) (time name : List Char) :
    ∃ word before rest, quotedLine kind time name =
        word ++ ',' :: (time ++ ',' :: (before ++ '"' :: (name ++ '"' :: rest))) ∧
      ',' ∉ word ∧ EventKind.ofName (String.ofList (trim word)) = .media kind ∧
      (rest = [] ∨ ∃ others, rest = ',' :: others) ∧
      (kind.fileParameter = 0 ∧ before = [] ∨ kind.fileParameter = 1 ∧ before = ['0', ',']) := by
  have hopen : ",\"".toList = [',', '"'] := by decide
  have hclose : "\"".toList = ['"'] := by decide
  cases kind with
  | video =>
    have hword : "Video,".toList = "Video".toList ++ [','] := by decide
    refine ⟨"Video".toList, [], [], ?_, by decide, by decide, .inl rfl, .inl ⟨rfl, rfl⟩⟩
    show "Video,".toList ++ time ++ ",\"".toList ++ name ++ "\"".toList = _
    rw [hword, hopen, hclose]
    simp only [List.append_assoc, List.cons_append, List.nil_append]
  | background =>
    have hword : "0,".toList = "0".toList ++ [','] := by decide
    have hrest : "\",0,0".toList = '"' :: ",0,0".toList := by decide
    refine ⟨"0".toList, [], ",0,0".toList, ?_, by decide, by decide, .inr ⟨_, rfl⟩, .inl ⟨rfl, rfl⟩⟩
    show "0,".toList ++ time ++ ",\"".toList ++ name ++ "\",0,0".toList = _
    rw [hword, hopen, hrest]
    simp only [List.append_assoc, List.cons_append, List.nil_append]
  | sample =>
    have hword : "Sample,".toList = "Sample".toList ++ [','] := by decide
    have hopen : ",0,\"".toList = [',', '0', ',', '"'] := by decide
    have hrest : "\",70".toList = '"' :: ",70".toList := by decide
    refine ⟨"Sample".toList, ['0', ','], ",70".toList, ?_, by decide, by decide, .inr ⟨_, rfl⟩, .inr ⟨rfl, rfl⟩⟩
    show "Sample,".toList ++ time ++ ",0,\"".toList ++ name ++ "\",70".toList = _
    rw [hword, hopen, hrest]
    simp only [List.append_assoc, List.cons_append, List.nil_append]

theorem exists_quotedLine_ends (kind : MediaKind) (time name : List Char) :
    ∃ first inner last, quotedLine kind time name = first :: (inner ++ [last]) ∧ isBlank last = false ∧
      first ∈ ['V', '0', 'S'] := by
  cases kind with
  | video => exact ⟨'V', "ideo,".toList ++ time ++ ",\"".toList ++ name, '"', rfl, by decide, by decide⟩
  | background =>
    refine ⟨'0', ",".toList ++ time ++ ",\"".toList ++ name ++ "\",0,".toList, '0', ?_, by decide, by decide⟩
    have hword : "0,".toList = '0' :: ",".toList := by decide
    have hrest : "\",0,0".toList = "\",0,".toList ++ ['0'] := by decide
    show "0,".toList ++ time ++ ",\"".toList ++ name ++ "\",0,0".toList = _
    rw [hrest, hword]
    simp only [List.append_assoc, List.cons_append]
  | sample =>
    refine ⟨'S', "ample,".toList ++ time ++ ",0,\"".toList ++ name ++ "\",7".toList, '0', ?_, by decide, by decide⟩
    have hword : "Sample,".toList = 'S' :: "ample,".toList := by decide
    have hrest : "\",70".toList = "\",7".toList ++ ['0'] := by decide
    show "Sample,".toList ++ time ++ ",0,\"".toList ++ name ++ "\",70".toList = _
    rw [hrest, hword]
    simp only [List.append_assoc, List.cons_append]

/-- The time and the quoted name are fields of the line. -/
theorem exists_split_quotedLine (kind : MediaKind) (htime : ',' ∉ time) (name : List Char) :
    ∃ word params, Field.split (String.ofList (quotedLine kind time name)) = word :: trim time :: params ∧
      EventKind.ofName (String.ofList word) = .media kind ∧
      params[kind.fileParameter]? = some (trim (quotedField name)) := by
  obtain ⟨word, before, rest, hline, hword, hkind, hrest, hbefore⟩ := exists_quotedLine_eq kind time name
  obtain ⟨others, hquoted⟩ := exists_splitOn_quoted name hrest
  rw [Field.split, String.toList_ofList, hline, splitOn_append hword, splitOn_append htime]
  refine ⟨trim word, _, rfl, hkind, ?_⟩
  rcases hbefore with ⟨hparameter, rfl⟩ | ⟨hparameter, rfl⟩
  · rw [List.nil_append, hquoted, hparameter]
    rfl
  · have hzero : ',' ∉ ['0'] := by decide
    have hsplit := splitOn_append hzero ('"' :: (name ++ '"' :: rest))
    rw [List.cons_append, List.nil_append] at hsplit
    rw [List.cons_append, List.cons_append, List.nil_append, hsplit, hquoted, hparameter]
    rfl

/-- Two quotes around a name are taken away, one before it is not. -/
theorem fileName_quotedField (hname : '"' ∉ name) :
    fileName (String.ofList (trim (quotedField name))) = String.ofList (quotedFile name) := by
  have hquote : isBlank '"' = false := by decide
  unfold fileName quotedField quotedFile
  rw [String.toList_ofList, trim_trim]
  split
  next hcomma =>
    have hopen : (trimEnd (name.takeWhile (· ≠ ','))).getLast? ≠ some '"' := by
      intro hlast
      have hmem : '"' ∈ trimEnd (name.takeWhile (· ≠ ',')) := List.mem_of_getLast? hlast
      exact hname ((List.takeWhile_sublist _).subset ((List.rdropWhile_prefix _ _).subset hmem))
    rw [trim_cons hquote]
    simp only [within?, hopen, and_false, if_false, Option.getD_none]
  next hcomma =>
    rw [trim_cons hquote, trimEnd_concat hquote]
    simp only [within?, List.getLast?_concat, and_self, if_true, Option.getD_some, List.dropLast_concat]

theorem comma_not_mem_of_whole (htime : Field.Whole (trim time) start) : ',' ∉ time := by
  intro hmem
  have hchars : ∀ c ∈ trim time, NumeralChar c := by
    obtain ⟨-, hwhole | ⟨x, hx, -⟩⟩ := htime
    · exact hwhole.chars
    · exact hx.1.chars
  have hcomma : ',' ∉ trim time := by
    intro hmem
    have hchar := hchars ',' hmem
    revert hchar
    unfold NumeralChar
    decide
  have hblank := isBlank_of_not_mem_trim hmem hcomma
  revert hblank
  decide

/-- A line with a quoted name is read as an event whose file parameter is the quoted
field. -/
theorem exists_event_quotedLine (kind : MediaKind) (htime : Field.Whole (trim time) start) (name : List Char) :
    ∃ event, Event.ofLine (String.ofList (quotedLine kind time name)) = .ok (some event) ∧
      event.kind = .media kind ∧
      event.params[kind.fileParameter]? = some (String.ofList (trim (quotedField name))) := by
  obtain ⟨word, params, hsplit, hkind, hparam⟩ := exists_split_quotedLine kind (comma_not_mem_of_whole htime) name
  have hread := ((Field.readsAs_integer (trim_trim time) "event start time").ok start).2 htime
  refine ⟨⟨.media kind, start, params.map String.ofList⟩, ?_, rfl, ?_⟩
  · simp only [Event.ofLine, hsplit, hread, hkind]
  · rw [List.getElem?_map, hparam]
    rfl

/-! ## The line in its section -/

theorem Line.classify?_of_head {first : Char} (hfirst : first ∈ ['V', '0', 'S']) (rest : List Char) :
    classify? (first :: rest) = some (.content (String.ofList (trimEnd (first :: rest)))) := by
  have hhead : isBlank first = false ∧ "//".toList.isPrefixOf (first :: trimEnd rest) = false ∧
      startsWithAnyCase formatWords (first :: trimEnd rest) = false ∧
      within? '[' ']' (first :: trimEnd rest) = none := by
    simp only [List.mem_cons, List.not_mem_nil, or_false] at hfirst
    rcases hfirst with rfl | rfl | rfl <;> exact ⟨by decide, rfl, rfl, rfl⟩
  obtain ⟨hblank, hcomment, hformat, hheader⟩ := hhead
  unfold classify?
  rw [trim_cons hblank]
  simp only [hcomment, hformat, hheader, List.isEmpty_cons, Bool.or_self, Bool.false_eq_true, if_false]

/-- A line with a quoted name is content, with nothing taken away. -/
theorem Line.classify?_quotedLine (kind : MediaKind) (time name : List Char) :
    classify? (quotedLine kind time name) = some (.content (String.ofList (quotedLine kind time name))) := by
  obtain ⟨first, inner, last, hline, hlast, hfirst⟩ := exists_quotedLine_ends kind time name
  rw [hline, classify?_of_head hfirst, ← List.cons_append, trimEnd_concat hlast]

theorem isStoryboardCommand_quotedLine (kind : MediaKind) (time name : List Char) :
    Entry.isStoryboardCommand (String.ofList (quotedLine kind time name)) = false := by
  obtain ⟨first, inner, last, hline, -, hfirst⟩ := exists_quotedLine_ends kind time name
  rw [hline, Entry.isStoryboardCommand, String.toList_ofList]
  simp only [List.mem_cons, List.not_mem_nil, or_false] at hfirst
  rcases hfirst with rfl | rfl | rfl <;> rfl

/-! ## The file in the chart -/

/-- Whether a chart has a single file of a kind besides its music. -/
structure Chart.ShowsFile (chart : Chart) (music : String) (kind : MediaKind) (file : String) : Prop where
  wavFiles : chart.header.wavFiles = music :: if kind = .sample then [file] else []
  bgaFiles : chart.header.bgaFiles = if kind = .sample then [] else [file]
  stageFile : chart.header.stageFile = if kind = .background then file else ""
  backBmp : chart.header.backBmp = if kind = .background then file else ""

/-- Whether a warning is of the line at a byte, or of an event without its file. -/
def LoadWarning.IsOf (start : Nat) : LoadWarning → Prop
  | .line problem => problem.start = start
  | .record (.noFileParameter ..) => True
  | .record _ => False

section

variable {beatmap : Beatmap} {plan : Plan} {event : Event}

theorem Beatmap.named_of_events (hevents : beatmap.events.toList = [event]) (hnames : event.Names kind)
    (other : MediaKind) : beatmap.named other = if other = kind then [event] else [] := by
  rw [named, hevents]
  by_cases hkind : other = kind
  · rw [if_pos hkind, hkind]
    simp [hnames]
  · have hnot : ¬event.Names other := fun h => hkind (EventKind.media.inj (h.1.symm.trans hnames.1))
    rw [if_neg hkind]
    simp [hnot]

/-- The only event of a beatmap gives the only file. -/
theorem Plan.showsFile_chart (h : plan.IsFor beatmap) (hevents : beatmap.events.toList = [event])
    (hnames : event.Names kind) (identity : Chart.Identity) (rule : LongNoteRule) :
    (plan.chart identity rule).ShowsFile (fileName beatmap.general.audioFilename) kind (event.file kind) := by
  have hrefers := refers_chart h identity rule
  have hnamed := Beatmap.named_of_events hevents hnames
  obtain rfl := h.source
  have himage : plan.beatmap.image? = if kind = .background then some (event.file kind) else none := by
    rw [Beatmap.image?, hnamed]
    cases kind <;> rfl
  refine ⟨?_, ?_, ?_, ?_⟩
  · rw [hrefers.wavFiles, hnamed]
    cases kind <;> rfl
  · rw [hrefers.bgaFiles, hnamed, himage]
    cases kind <;> rfl
  · rw [hrefers.images.1, himage]
    cases kind <;> rfl
  · rw [hrefers.images.2, himage]
    cases kind <;> rfl

/-- An event that names its file is not left out. -/
theorem Plan.noFileParameter_not_mem (h : plan.IsFor beatmap) (hevents : beatmap.events.toList = [event])
    (hnames : event.Names kind) (other : MediaKind) (time : Int) (index : Nat) :
    .noFileParameter other time index ∉ plan.omissions := by
  obtain ⟨ordered, -, homissions⟩ := omissions_eq h
  rw [homissions, hevents, List.mem_append, List.mem_append]
  rintro ((hpoint | hevent) | hobject)
  · obtain ⟨point, -, hpoint⟩ := List.mem_filterMap.1 hpoint
    obtain ⟨written, -, hwritten⟩ := Option.map_eq_some_iff.1 hpoint
    cases hwritten
  · have hnone : event.omission? = none := by
      unfold Event.omission?
      rw [hnames.1]
      exact if_pos hnames
    simp [hnone] at hevent
  · obtain ⟨object, -, hobject⟩ := List.mem_filterMap.1 hobject
    unfold HitObject.omission? at hobject
    split at hobject
    · cases hobject
    · cases hobject

end

/-- What is loaded from a source is converted from its records. -/
theorem Chart.exists_convert_of_ofSource {source : String} {identity : Identity} {rule : LongNoteRule}
    {loaded : Loaded} (h : ofSource source identity rule = .ok loaded) :
    ∃ converted, (Beatmap.read source).beatmap.convert identity rule = .ok converted ∧
      loaded.chart = converted.chart ∧
      loaded.warnings = (Beatmap.read source).problems.toList.map .line ++ converted.omissions.map .record := by
  obtain ⟨converted, hconverted, hloaded⟩ := bind_eq_ok.1 h
  cases hloaded
  exact ⟨converted, hconverted, rfl, rfl⟩

/-- **Quoted file names.** A chart whose events are a single line with a file within
quotes has no warning for it, and the name within the quotes as that file, less what
follows a comma. -/
theorem Chart.ofSource_quotedLine {source : String} {identity : Identity} {rule : LongNoteRule} {loaded : Loaded}
    {piece : Located (List Char)} (htime : Field.Whole (trim time) start) (hname : '"' ∉ name)
    (hpiece : piece.content = quotedLine kind time name) (hsole : Beatmap.SoleEvent source piece)
    (hloaded : ofSource source identity rule = .ok loaded) :
    (∀ warning ∈ loaded.warnings, ¬warning.IsOf piece.start) ∧
      loaded.chart.ShowsFile (fileName (Beatmap.read source).beatmap.general.audioFilename) kind
        (String.ofList (quotedFile name)) := by
  obtain ⟨event, hevent, hkind, hparam⟩ := exists_event_quotedLine kind htime name
  have hnames : event.Names kind := ⟨hkind, by rw [hparam]; rfl⟩
  have hfile : event.file kind = String.ofList (quotedFile name) := by
    rw [Event.file, hparam, Option.getD_some, fileName_quotedField hname]
  have hcommand := isStoryboardCommand_quotedLine kind time name
  have htext : Line.classify? piece.content = some (.content (String.ofList (quotedLine kind time name))) := by
    rw [hpiece, Line.classify?_quotedLine]
  have hproblem : Beatmap.textProblem? "Events" (String.ofList (quotedLine kind time name)) = none := by
    rw [Beatmap.textProblem?, hcommand, hevent]
    rfl
  have hevents : (Beatmap.read source).beatmap.events.toList = [event] := by
    refine hsole.events_eq htext ?_
    rw [Beatmap.eventOf?, hcommand, hevent]
    rfl
  obtain ⟨converted, hconverted, hchart, hwarnings⟩ := exists_convert_of_ofSource hloaded
  obtain ⟨plan, hplan, rfl⟩ := Beatmap.convert_eq_ok_iff.1 hconverted
  refine ⟨fun warning hmem hof => ?_, ?_⟩
  · rw [hwarnings, List.mem_append] at hmem
    rcases hmem with hline | hrecord
    · obtain ⟨problem, hproblems, rfl⟩ := List.mem_map.1 hline
      exact hsole.start_ne htext hproblem hproblems hof
    · obtain ⟨omission, homitted, rfl⟩ := List.mem_map.1 hrecord
      cases omission with
      | noFileParameter other time index =>
        exact Plan.noFileParameter_not_mem hplan hevents hnames other time index homitted
      | scrollNotFinite | unreadableTail => exact hof
  · rw [hchart, ← hfile]
    exact Plan.showsFile_chart hplan hevents hnames identity rule

theorem Chart.exists_ofSource {source : String} {identity : Identity} {rule : LongNoteRule} {p : Loaded → Bool}
    (h : (ofSource source identity rule).toOption.any p = true) :
    ∃ loaded, ofSource source identity rule = .ok loaded ∧ p loaded = true := by
  cases hrun : ofSource source identity rule with
  | error refusal =>
    rw [hrun] at h
    cases h
  | ok loaded =>
    rw [hrun] at h
    exact ⟨loaded, rfl, h⟩

/-- A source of one note and one line of events. -/
def sourceWithEvent (line : String) : String :=
  "[General]\nMode:3\nAudioFilename:a.mp3\n[Difficulty]\nCircleSize:7\n[Events]\n" ++ line ++
    "\n[TimingPoints]\n0,500\n[HitObjects]\n0,0,0,1\n"

/-- A background with blanks at both ends of its name, at a time with a fraction. -/
theorem Chart.ofSource_quotedLine_spaced :
    ∃ piece loaded, Field.Whole (trim " 12.9".toList) 12 ∧ '"' ∉ " c:/[b] .png ".toList ∧
      piece.content = quotedLine .background " 12.9".toList " c:/[b] .png ".toList ∧
      Beatmap.SoleEvent (sourceWithEvent "0, 12.9,\" c:/[b] .png \",0,0") piece ∧
      ofSource (sourceWithEvent "0, 12.9,\" c:/[b] .png \",0,0") ⟨"", "", ""⟩ .longNote = .ok loaded ∧
      (∀ warning ∈ loaded.warnings, ¬warning.IsOf piece.start) ∧
      loaded.chart.ShowsFile "a.mp3" .background " c:/[b] .png " := by
  have htime : Field.Whole (trim " 12.9".toList) 12 :=
    ((Field.readsAs_integer (trim_trim _) "event start time").ok 12).1 (by decide +kernel)
  have hname : '"' ∉ " c:/[b] .png ".toList := by decide
  let piece : Located (List Char) := ⟨quotedLine .background " 12.9".toList " c:/[b] .png ".toList, 72, 99⟩
  have hpiece : piece.content = quotedLine .background " 12.9".toList " c:/[b] .png ".toList := rfl
  generalize hsource : sourceWithEvent "0, 12.9,\" c:/[b] .png \",0,0" = source
  have hrun : piece ∈ Line.pieces source ∧
      Beatmap.contentsIn "Events" (Line.ofSource source) = [⟨"0, 12.9,\" c:/[b] .png \",0,0", 72, 99⟩] ∧
      fileName (Beatmap.read source).beatmap.general.audioFilename = "a.mp3" ∧
      (ofSource source ⟨"", "", ""⟩ .longNote).toOption.any (fun _ => true) = true := by
    rw [← hsource]
    decide +kernel
  obtain ⟨hmem, hsole, hmusic, hrun⟩ := hrun
  obtain ⟨loaded, hloaded, -⟩ := exists_ofSource hrun
  obtain ⟨hwarnings, hfiles⟩ := ofSource_quotedLine htime hname hpiece ⟨hmem, _, hsole⟩ hloaded
  rw [hmusic] at hfiles
  exact ⟨piece, loaded, htime, hname, hpiece, ⟨hmem, _, hsole⟩, hloaded, hwarnings, hfiles⟩

/-- Quotes do not keep a comma: of the name `a,b.mp4` the file is `"a`. -/
theorem Chart.not_ofSource_quoted_comma :
    '"' ∉ "a,b.mp4".toList ∧ '\n' ∉ "a,b.mp4".toList ∧ Field.Whole (trim "0".toList) 0 ∧
      Beatmap.SoleEvent (sourceWithEvent "Video,0,\"a,b.mp4\"")
        ⟨quotedLine .video "0".toList "a,b.mp4".toList, 72, 89⟩ ∧
      ∃ loaded, ofSource (sourceWithEvent "Video,0,\"a,b.mp4\"") ⟨"", "", ""⟩ .longNote = .ok loaded ∧
        loaded.chart.header.bgaFiles = ["\"a"] ∧ loaded.chart.header.bgaFiles ≠ ["a,b.mp4"] := by
  have htime : Field.Whole (trim "0".toList) 0 :=
    ((Field.readsAs_integer (trim_trim _) "event start time").ok 0).1 (by decide +kernel)
  have hrun : ⟨quotedLine .video "0".toList "a,b.mp4".toList, 72, 89⟩ ∈
        Line.pieces (sourceWithEvent "Video,0,\"a,b.mp4\"") ∧
      Beatmap.contentsIn "Events" (Line.ofSource (sourceWithEvent "Video,0,\"a,b.mp4\"")) =
        [⟨"Video,0,\"a,b.mp4\"", 72, 89⟩] ∧
      (ofSource (sourceWithEvent "Video,0,\"a,b.mp4\"") ⟨"", "", ""⟩ .longNote).toOption.any
        (fun loaded => loaded.chart.header.bgaFiles = ["\"a"]) = true := by
    decide +kernel
  obtain ⟨hmem, hsole, hrun⟩ := hrun
  obtain ⟨loaded, hloaded, hfiles⟩ := exists_ofSource hrun
  rw [decide_eq_true_eq] at hfiles
  refine ⟨by decide, by decide, htime, ⟨hmem, _, hsole⟩, loaded, hloaded, hfiles, ?_⟩
  rw [hfiles]
  decide

end ManiaChart
