/-
A source read line by line through its bytes gives the lines it is split into
(`Cursor.lines?_eq`).

A text is cut between characters and nowhere else: `slice?` gives the characters that
stand between the bytes of the characters before them and after them (`slice?_eq`), and
gives no others (`exists_of_slice?`). A cursor that stands after whole lines stands
there again after its next line (`Cursor.next?_eq`), so no cut it makes ever fails.
-/
import ManiaChart.Proofs.Beatmap.Lines
import ManiaChart.Beatmap.Cursor

namespace ManiaChart

namespace Text

/-! ## Cutting by bytes -/

theorem utf8ByteSize_ofList (text : List Char) : (String.ofList text).utf8ByteSize = byteLength text := by
  induction text with
  | nil => rfl
  | cons c rest ih =>
    rw [← List.singleton_append, String.ofList_append, String.utf8ByteSize_append, ih, byteLength_append]
    congr 1
    exact String.utf8ByteSize_singleton

theorem byteLength_toList (text : String) : byteLength text.toList = text.utf8ByteSize := by
  rw [← utf8ByteSize_ofList, String.ofList_toList]

variable {text piece : String} {start stop : Nat} {before middle after : List Char}

/-- A text can be cut between two characters, -/
theorem isValid_of_append (h : text.toList = before ++ after) : String.Pos.Raw.IsValid text ⟨byteLength before⟩ := by
  refine String.Pos.Raw.isValid_iff_exists_append.2 ⟨String.ofList before, String.ofList after, ?_, ?_⟩
  · rw [← String.ofList_append, ← h, String.ofList_toList]
  · rw [← utf8ByteSize_ofList]
    rfl

/-- and nowhere else. -/
theorem exists_of_isValid (h : String.Pos.Raw.IsValid text ⟨start⟩) :
    ∃ before after, text.toList = before ++ after ∧ start = byteLength before := by
  obtain ⟨before, after, rfl, hstart⟩ := String.Pos.Raw.isValid_iff_exists_append.1 h
  refine ⟨before.toList, after.toList, String.toList_append, ?_⟩
  rw [byteLength_toList]
  exact congrArg String.Pos.Raw.byteIdx hstart

theorem slice?_eq (h : text.toList = before ++ middle ++ after) :
    slice? text (byteLength before) (byteLength before + byteLength middle) = some (String.ofList middle) := by
  have hstart : String.Pos.Raw.IsValid text ⟨byteLength before⟩ := isValid_of_append (h.trans (List.append_assoc ..))
  have hstop : String.Pos.Raw.IsValid text ⟨byteLength before + byteLength middle⟩ := by
    rw [← byteLength_append]
    exact isValid_of_append h
  have hbytes : text.toByteArray = (String.ofList before).toByteArray ++
      ((String.ofList middle).toByteArray ++ (String.ofList after).toByteArray) := by
    rw [← String.toByteArray_append, ← String.toByteArray_append, ← String.ofList_append, ← String.ofList_append,
      ← List.append_assoc, ← h, String.ofList_toList]
  have hcut : text.toByteArray.extract (byteLength before) (byteLength before + byteLength middle) =
      (String.ofList middle).toByteArray := by
    rw [hbytes]
    exact (ByteArray.extract_append_size_add' (i := 0) (utf8ByteSize_ofList before).symm).trans
      (ByteArray.extract_append_eq_left (utf8ByteSize_ofList middle).symm)
  rw [slice?, dif_pos ⟨Nat.le_add_right .., hstart, hstop⟩, Option.some_inj, ← String.toByteArray_inj,
    String.toByteArray_extract]
  exact hcut

theorem slice?_head (h : text.toList = middle ++ after) :
    slice? text 0 (byteLength middle) = some (String.ofList middle) := by
  have hslice : slice? text (byteLength []) (byteLength [] + byteLength middle) = some (String.ofList middle) :=
    slice?_eq h
  rwa [byteLength_nil, Nat.zero_add] at hslice

theorem slice?_tail (h : text.toList = before ++ middle) :
    slice? text (byteLength before) text.utf8ByteSize = some (String.ofList middle) := by
  have hslice := slice?_eq (h.trans (List.append_nil _).symm)
  rwa [← byteLength_append, ← h, byteLength_toList] at hslice

theorem exists_of_slice? (h : slice? text start stop = some piece) : ∃ before after,
    text.toList = before ++ piece.toList ++ after ∧ start = byteLength before ∧
      stop = start + byteLength piece.toList := by
  by_cases hcut : start ≤ stop ∧ String.Pos.Raw.IsValid text ⟨start⟩ ∧ String.Pos.Raw.IsValid text ⟨stop⟩
  · obtain ⟨hle, hstart, hstop⟩ := hcut
    obtain ⟨before, rest, htext, rfl⟩ := exists_of_isValid hstart
    obtain ⟨upto, after, htext', rfl⟩ := exists_of_isValid hstop
    -- What ends at `stop` goes on from what ends at `start`, which takes no more bytes.
    obtain ⟨middle, rfl⟩ : before <+: upto := by
      rcases List.prefix_or_prefix_of_prefix ⟨rest, htext.symm⟩ ⟨after, htext'.symm⟩ with hprefix | ⟨middle, rfl⟩
      · exact hprefix
      · have hbytes : byteLength (upto ++ middle) = byteLength upto :=
          Nat.le_antisymm hle (byteLength_append .. ▸ Nat.le_add_right ..)
        obtain ⟨heq, -⟩ := append_inj_of_byteLength (htext.symm.trans htext') hbytes
        exact ⟨[], (List.append_nil _).trans heq⟩
    have hslice := slice?_eq htext'
    rw [← byteLength_append, h, Option.some_inj] at hslice
    subst hslice
    refine ⟨before, after, ?_, rfl, ?_⟩
    · rw [String.toList_ofList, htext']
    · rw [String.toList_ofList, byteLength_append]
  · rw [slice?, dif_neg hcut] at h
    cases h

/-! ## Searching by bytes -/

theorem firstByte?_of_not_mem {c : Char} {text : List Char} (h : c ∉ text) : firstByte? c text = none := by
  induction text with
  | nil => rfl
  | cons first rest ih =>
    obtain ⟨hfirst, hrest⟩ := not_or.1 (mt List.mem_cons.2 h)
    rw [firstByte?, if_neg (Ne.symm hfirst), ih hrest, Option.map_none]

theorem firstByte?_append {c : Char} {text : List Char} (h : c ∉ text) (rest : List Char) :
    firstByte? c (text ++ c :: rest) = some (byteLength text) := by
  induction text with
  | nil => exact if_pos rfl
  | cons first others ih =>
    obtain ⟨hfirst, hothers⟩ := not_or.1 (mt List.mem_cons.2 h)
    rw [List.cons_append, firstByte?, if_neg (Ne.symm hfirst), ih hothers]
    rfl

theorem utf8Size_toLower (c : Char) : c.toLower.utf8Size = c.utf8Size := by
  unfold Char.toLower
  split
  next hupper =>
    have hval : c.val.toNat ≤ 90 := UInt32.le_iff_toNat_le.1 hupper.2
    have hshift : ('a'.val - 'A'.val).toNat = 32 := by decide
    have hascii : c.val ≤ 127 := UInt32.le_trans hupper.2 (by decide)
    have hlower : c.val + ('a'.val - 'A'.val) ≤ 127 := by
      rw [UInt32.le_iff_toNat_le, UInt32.toNat_add, hshift, Nat.mod_eq_of_lt (by omega)]
      exact Nat.le_trans (Nat.add_le_add_right hval 32) (by decide)
    rw [Char.utf8Size_eq_one_iff.2 hascii, Char.utf8Size_eq_one_iff.2 hlower]
  · rfl

theorem byteLength_of_map_toLower {a b : List Char} (h : a.map Char.toLower = b.map Char.toLower) :
    byteLength a = byteLength b := by
  have hlower : ∀ text, byteLength (text.map Char.toLower) = byteLength text := by
    intro text
    induction text with
    | nil => rfl
    | cons c rest ih => rw [List.map_cons, byteLength_cons, byteLength_cons, utf8Size_toLower, ih]
  rw [← hlower a, h, hlower]

theorem startsWithAnyCase_iff {start text : List Char} : startsWithAnyCase start text = true ↔
    ∃ head tail, text = head ++ tail ∧ head.map Char.toLower = start.map Char.toLower := by
  rw [startsWithAnyCase, List.isPrefixOf_iff_prefix]
  constructor
  · rintro ⟨tail, htail⟩
    obtain ⟨head, rest, rfl, hhead, -⟩ := List.map_eq_append_iff.1 htail.symm
    exact ⟨head, rest, rfl, hhead⟩
  · rintro ⟨head, tail, rfl, hhead⟩
    rw [List.map_append, hhead]
    exact List.prefix_append ..

theorem startsWithBytes_eq (start text : List Char) :
    startsWithBytes (String.ofList start) (String.ofList text) = startsWithAnyCase start text := by
  rw [Bool.eq_iff_iff, startsWithAnyCase_iff, startsWithBytes, Option.any_eq_true]
  simp only [decide_eq_true_eq, String.toList_ofList, utf8ByteSize_ofList]
  constructor
  · rintro ⟨head, hslice, hhead⟩
    obtain ⟨before, tail, htext, hbefore, -⟩ := exists_of_slice? hslice
    rw [String.toList_ofList, List.append_assoc] at htext
    obtain ⟨-, htext⟩ := append_inj_of_byteLength (a := []) htext hbefore
    exact ⟨head.toList, tail, htext, hhead⟩
  · rintro ⟨head, tail, htext, hhead⟩
    have hslice := slice?_head (String.toList_ofList.trans htext)
    rw [byteLength_of_map_toLower hhead] at hslice
    exact ⟨String.ofList head, hslice, by rw [String.toList_ofList, hhead]⟩

end Text

open Text

namespace Line

theorem classifyBytes?_eq (line : String) : classifyBytes? line = classify? line.toList := by
  unfold classifyBytes? classify?
  dsimp only
  rw [startsWithBytes_eq]
  split
  · rfl
  · split
    next hwords =>
      obtain ⟨head, tail, htrim, hhead⟩ := startsWithAnyCase_iff.1 hwords
      have hlength : head.length = formatWords.length := by
        rw [← List.length_map, hhead, List.length_map]
      have hslice := slice?_tail (String.toList_ofList.trans htrim)
      rw [byteLength_of_map_toLower hhead, ← utf8ByteSize_ofList] at hslice
      rw [hslice, Option.getD_some, String.toList_ofList, htrim, ← hlength, List.drop_left]
    · rfl

theorem slice?_withoutReturn {source : String} {before line rest : List Char}
    (hsource : source.toList = before ++ (line ++ rest)) :
    slice? source (byteLength before) (byteLength before + byteLength (withoutReturn line)) =
      some (String.ofList (withoutReturn line)) := by
  obtain ⟨ending, -, hending⟩ := exists_return line
  have hcut : source.toList = before ++ withoutReturn line ++ (ending ++ rest) := by
    rw [hsource, List.append_assoc, ← List.append_assoc _ ending, ← hending]
  exact slice?_eq hcut

end Line

namespace Cursor

variable {source : String} {before line ending rest : List Char}

theorem atEnd_iff (hsource : source.toList = before ++ rest) :
    (⟨source, byteLength before⟩ : Cursor).atEnd = true ↔ rest = [] := by
  rw [atEnd, decide_eq_true_eq, ← byteLength_toList, hsource, byteLength_append]
  constructor
  · intro hle
    cases rest with
    | nil => rfl
    | cons c rest =>
      have hpos := byteLength_pos (List.cons_ne_nil c rest)
      dsimp only at hle
      omega
  · rintro rfl
    exact Nat.le_refl _

/-- A line of a source between what stands before it and after it. It ends with its
feed, the last one with the text. -/
structure LineAt (source : String) (before line ending rest : List Char) : Prop where
  source_eq : source.toList = before ++ (line ++ (ending ++ rest))
  feedless : '\n' ∉ line
  ending : ending = ['\n'] ∨ ending = [] ∧ rest = []

theorem lineEnd_eq (h : LineAt source before line ending rest) :
    lineEnd ⟨source, byteLength before⟩ (String.ofList (line ++ (ending ++ rest))) =
      (byteLength line, byteLength (before ++ (line ++ ending))) := by
  obtain ⟨hsource, hline, hending⟩ := h
  rw [lineEnd, String.toList_ofList]
  rcases hending with rfl | ⟨rfl, rfl⟩
  · rw [List.singleton_append, firstByte?_append hline, byteLength_append, byteLength_feed, byteLength_nil]
    rfl
  · rw [List.append_nil, List.append_nil] at hsource
    rw [List.append_nil, List.append_nil, firstByte?_of_not_mem hline, ← hsource, byteLength_toList,
      utf8ByteSize_ofList]

theorem bounds?_eq (h : LineAt source before line ending rest) :
    bounds? ⟨source, byteLength before⟩ = some (byteLength (before ++ (line ++ ending)),
      byteLength before + byteLength (Line.withoutReturn line)) := by
  have hhead : slice? (String.ofList (line ++ (ending ++ rest))) 0 (byteLength line) = some (String.ofList line) :=
    slice?_head String.toList_ofList
  simp only [bounds?, slice?_tail h.source_eq, Option.bind_eq_bind, Option.bind_some, lineEnd_eq h, hhead,
    String.toList_ofList, Option.pure_def]

theorem next?_eq (h : LineAt source before line ending rest) :
    next? ⟨source, byteLength before⟩ = some
      (⟨String.ofList (Line.withoutReturn line), byteLength before,
        byteLength before + byteLength (Line.withoutReturn line)⟩,
        ⟨source, byteLength (before ++ (line ++ ending))⟩) := by
  simp only [next?, bounds?_eq h, Option.bind_eq_bind, Option.bind_some, Line.slice?_withoutReturn h.source_eq,
    Option.pure_def]

theorem lines?_of_atEnd {cursor : Cursor} (h : cursor.atEnd = true) : cursor.lines? = some [] := by
  rw [lines?, dif_pos h]

theorem lines?_of_next? {cursor next : Cursor} {line : Located String} (hmore : cursor.atEnd ≠ true)
    (h : cursor.next? = some (line, next)) : cursor.lines? = next.lines?.map
      (((Line.classifyBytes? line.content).map fun read => line.map fun _ => read).toList ++ ·) := by
  rw [lines?, dif_neg hmore]
  split
  next hnone =>
    rw [hnone] at h
    cases h
  next hsome =>
    rw [hsome] at h
    cases h
    rfl

theorem lines?_line (h : LineAt source before line ending rest) (hmore : line ++ (ending ++ rest) ≠ []) :
    lines? ⟨source, byteLength before⟩ = (lines? ⟨source, byteLength (before ++ (line ++ ending))⟩).map
      ((Line.ofPiece? (byteLength before) line).toList ++ ·) := by
  rw [lines?_of_next? (mt (atEnd_iff h.source_eq).1 hmore) (next?_eq h), Line.classifyBytes?_eq,
    String.toList_ofList]
  rfl

/-- What a cursor reads after whole lines is what is read of the text after them. -/
theorem lines?_eq {text : List Char} (hsource : source.toList = before ++ text) :
    lines? ⟨source, byteLength before⟩ = some (Line.ofText (byteLength before) text) := by
  induction text using lines_induction generalizing before with
  | last line hline =>
    by_cases hempty : line = []
    · rw [lines?_of_atEnd ((atEnd_iff hsource).2 hempty), hempty, Line.ofText_nil]
    · have hline' : line ++ ([] ++ []) = line := by rw [List.append_nil, List.append_nil]
      rw [← hline'] at hsource hempty
      have hend : (⟨source, byteLength (before ++ (line ++ []))⟩ : Cursor).atEnd = true := by
        refine (atEnd_iff ?_).2 rfl
        rw [hsource, List.append_nil, List.append_nil, List.append_nil]
      rw [lines?_line ⟨hsource, hline, .inr ⟨rfl, rfl⟩⟩ hempty, lines?_of_atEnd hend, Line.ofText_of_not_mem hline,
        Option.map_some, List.append_nil]
  | feed line rest hline ih =>
    have hnext : source.toList = before ++ (line ++ ['\n']) ++ rest := by
      rw [hsource, List.append_assoc, List.append_assoc, List.singleton_append]
    rw [lines?_line ⟨hsource, hline, .inl rfl⟩ (by simp), ih hnext, Option.map_some, Line.ofText_feed hline,
      byteLength_append, byteLength_feed, byteLength_nil]
    rfl

end Cursor

namespace Line

/-! ## The pieces of a source -/

/-- The pieces of a source that line feeds keep apart, where they stand. -/
def pieces (source : String) : List (Located (List Char)) :=
  locate (afterMark source.toList).1 ((afterMark source.toList).2.splitOn '\n')

theorem ofSource_eq_filterMap (source : String) : ofSource source = (pieces source).filterMap fun piece =>
    (classify? piece.content).map fun line => piece.map fun _ => line := rfl

theorem exists_mark (text : List Char) :
    ∃ mark, text = mark ++ (afterMark text).2 ∧ (afterMark text).1 = byteLength mark := by
  unfold afterMark
  split
  · exact ⟨['\ufeff'], rfl, rfl⟩
  · exact ⟨[], rfl, rfl⟩

theorem index_ofSource (source : String) : (Cursor.ofSource source).index = (afterMark source.toList).1 := by
  unfold Cursor.ofSource
  by_cases hmark : source.toList.head? = some '\ufeff'
  · obtain ⟨rest, hrest⟩ := List.head?_eq_some_iff.1 hmark
    rw [hrest, afterMark_mark]
    rfl
  · rw [if_neg hmark, afterMark_of_head? hmark]

variable {source : String} {start : Nat} {text : List Char} {piece : Located (List Char)}

theorem le_start_of_mem_locate {pieces : List (List Char)} (h : piece ∈ locate start pieces) : start ≤ piece.start := by
  induction pieces generalizing start with
  | nil => cases h
  | cons first rest ih =>
    rcases List.mem_cons.1 h with rfl | hrest
    · exact Nat.le_refl _
    · have hle := ih hrest
      omega

theorem byteLength_withoutReturn_le (text : List Char) : byteLength (withoutReturn text) ≤ byteLength text := by
  obtain ⟨ending, -, htext⟩ := exists_return text
  have hbytes := congrArg byteLength htext
  rw [byteLength_append] at hbytes
  omega

/-- Between two pieces there is a line feed. -/
theorem locate_ascending (start : Nat) (pieces : List (List Char)) :
    (locate start pieces).Pairwise fun a b => a.stop < b.start := by
  induction pieces generalizing start with
  | nil => exact .nil
  | cons first rest ih =>
    refine .cons (fun later hlater => ?_) (ih _)
    have hstart := le_start_of_mem_locate hlater
    have hstop := byteLength_withoutReturn_le first
    dsimp only
    omega

theorem not_mem_withoutReturn {c : Char} (h : c ∉ text) : c ∉ withoutReturn text := by
  obtain ⟨ending, -, htext⟩ := exists_return text
  exact fun hmem => h (htext ▸ List.mem_append_left _ hmem)

theorem slice?_of_mem_locate {before : List Char} (hsource : source.toList = before ++ text)
    (h : piece ∈ locate (byteLength before) (text.splitOn '\n')) :
    slice? source piece.start piece.stop = some (String.ofList piece.content) ∧ '\n' ∉ piece.content := by
  induction text using lines_induction generalizing before with
  | last line hline =>
    rw [splitOn_of_not_mem hline, locate, locate, List.mem_singleton] at h
    subst h
    have hwhole : source.toList = before ++ (line ++ []) := by rw [hsource, List.append_nil]
    exact ⟨slice?_withoutReturn hwhole, not_mem_withoutReturn hline⟩
  | feed line rest hline ih =>
    rw [splitOn_append hline, locate, List.mem_cons] at h
    rcases h with rfl | hrest
    · exact ⟨slice?_withoutReturn hsource, not_mem_withoutReturn hline⟩
    · have hnext : source.toList = before ++ (line ++ ['\n']) ++ rest := by
        rw [hsource, List.append_assoc, List.append_assoc, List.singleton_append]
      refine ih hnext ?_
      rw [byteLength_append, byteLength_feed, byteLength_nil]
      exact hrest

theorem slice?_of_mem_pieces (h : piece ∈ pieces source) :
    slice? source piece.start piece.stop = some (String.ofList piece.content) ∧ '\n' ∉ piece.content := by
  obtain ⟨mark, htext, hstart⟩ := exists_mark source.toList
  rw [pieces, hstart] at h
  exact slice?_of_mem_locate htext h

/-! ## The lines of a source -/

theorem classify?_isSome {text : List Char} (htrim : trim text ≠ []) (hcomment : ¬"//".toList <+: trim text) :
    ∃ line, classify? text = some line := by
  have hkept : ((trim text).isEmpty || "//".toList.isPrefixOf (trim text)) = false := by
    rw [Bool.or_eq_false_iff, List.isEmpty_eq_false_iff, Bool.eq_false_iff]
    exact ⟨htrim, mt List.isPrefixOf_iff_prefix.1 hcomment⟩
  unfold classify?
  dsimp only
  rw [hkept, if_neg Bool.false_ne_true]
  split
  · exact ⟨_, rfl⟩
  · split <;> exact ⟨_, rfl⟩

theorem ne_nil_of_classify? {text : List Char} {line : Line} (h : classify? text = some line) : text ≠ [] := by
  rintro rfl
  cases h

theorem eq_trimEnd_of_classify? {text : List Char} {content : String} (h : classify? text = some (.content content)) :
    String.ofList (trimEnd text) = content := by
  unfold classify? at h
  dsimp only at h
  split at h
  · cases h
  · split at h
    · cases h
    · split at h <;> cases h
      rfl

theorem mem_ofSource_iff {line : Located Line} : line ∈ ofSource source ↔
    ∃ piece ∈ pieces source, classify? piece.content = some line.content ∧
      piece.start = line.start ∧ piece.stop = line.stop := by
  rw [ofSource_eq_filterMap, List.mem_filterMap]
  refine exists_congr fun piece => and_congr_right fun _ => ?_
  rw [Option.map_eq_some_iff]
  constructor
  · rintro ⟨read, hread, rfl⟩
    exact ⟨hread, rfl, rfl⟩
  · rintro ⟨hread, hstart, hstop⟩
    exact ⟨line.content, hread, by rw [Located.map, hstart, hstop]⟩

/-- How lines stand in a source. -/
structure Spans (source : String) (lines : List (Located Line)) : Prop where
  /-- No two lines share a byte or touch, and they keep the order of the source. -/
  ascending : lines.Pairwise fun a b => a.stop < b.start
  nonempty : ∀ line ∈ lines, line.start < line.stop
  /-- A line takes the bytes of a piece of the source, and is what that piece is. -/
  cut : ∀ line ∈ lines, ∃ piece ∈ pieces source, piece.start = line.start ∧ piece.stop = line.stop ∧
    slice? source line.start line.stop = some (String.ofList piece.content) ∧ '\n' ∉ piece.content ∧
    classify? piece.content = some line.content
  /-- Content is the text at its bytes without the white space at the end. -/
  content : ∀ line ∈ lines, ∀ text, line.content = .content text →
    (slice? source line.start line.stop).map (fun piece => String.ofList (trimEnd piece.toList)) = some text
  /-- No piece is left out but the blank ones and the comments. -/
  complete : ∀ piece ∈ pieces source, trim piece.content ≠ [] → ¬"//".toList <+: trim piece.content →
    ∃ line ∈ lines, line.start = piece.start ∧ line.stop = piece.stop

theorem spans_ofSource (source : String) : Spans source (ofSource source) where
  ascending := by
    rw [ofSource_eq_filterMap]
    refine (locate_ascending _ _).filterMap _ fun a b hlt a' ha b' hb => ?_
    obtain ⟨_, -, rfl⟩ := Option.map_eq_some_iff.1 ha
    obtain ⟨_, -, rfl⟩ := Option.map_eq_some_iff.1 hb
    exact hlt
  nonempty := by
    intro line hline
    obtain ⟨piece, hpiece, hread, hstart, hstop⟩ := mem_ofSource_iff.1 hline
    obtain ⟨-, -, -, -, hlength⟩ := exists_of_slice? (slice?_of_mem_pieces hpiece).1
    have hpos := byteLength_pos (ne_nil_of_classify? hread)
    rw [String.toList_ofList] at hlength
    omega
  cut := by
    intro line hline
    obtain ⟨piece, hpiece, hread, hstart, hstop⟩ := mem_ofSource_iff.1 hline
    obtain ⟨hslice, hfeedless⟩ := slice?_of_mem_pieces hpiece
    rw [hstart, hstop] at hslice
    exact ⟨piece, hpiece, hstart, hstop, hslice, hfeedless, hread⟩
  content := by
    intro line hline text htext
    obtain ⟨piece, hpiece, hread, hstart, hstop⟩ := mem_ofSource_iff.1 hline
    rw [htext] at hread
    rw [← hstart, ← hstop, (slice?_of_mem_pieces hpiece).1, Option.map_some, String.toList_ofList,
      eq_trimEnd_of_classify? hread]
  complete := by
    intro piece hpiece htrim hcomment
    obtain ⟨read, hread⟩ := classify?_isSome htrim hcomment
    exact ⟨piece.map fun _ => read, mem_ofSource_iff.2 ⟨piece, hpiece, hread, rfl, rfl⟩, rfl, rfl⟩

/-- **Scanning is splitting.** Going through a source by its bytes comes to an end without
a cut out of range or within a character, and finds the lines of the source as it is
split at its line feeds, each at its own bytes. -/
theorem scan?_eq (source : String) : scan? source = some (ofSource source) ∧ Spans source (ofSource source) := by
  obtain ⟨mark, htext, hstart⟩ := exists_mark source.toList
  refine ⟨?_, spans_ofSource source⟩
  have hlines := Cursor.lines?_eq htext
  rw [← hstart, ← index_ofSource] at hlines
  rw [scan?, ofSource_eq, ← index_ofSource]
  exact hlines

end Line

end ManiaChart
