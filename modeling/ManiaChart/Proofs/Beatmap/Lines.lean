/-
A source line by line. A text is a line without a feed, or such a line, a feed
and the text after it (`Text.lines_induction`); what is read of it is read line by
line in the same way (`Line.ofText_feed`), moves with the text (`Line.ofText_moved`)
and does not hang on carriage returns at the ends of lines
(`Line.map_content_withReturns`).

Every line that is read stands at a place of its own in the text, with its ending
and what is read before and after it (`Line.exists_cut`).
-/
import ManiaChart.Beatmap.Line
import ManiaChart.Proofs.Text.Parts

namespace ManiaChart

/-- A value at a place `n` bytes further on. -/
def Located.moved {α : Type} (n : Nat) (x : Located α) : Located α :=
  { x with start := x.start + n, stop := x.stop + n }

namespace Text

/-! ## Texts by their lines -/

theorem lines_induction {motive : List Char → Prop} (last : ∀ line, '\n' ∉ line → motive line)
    (feed : ∀ line rest, '\n' ∉ line → motive rest → motive (line ++ '\n' :: rest)) (text : List Char) :
    motive text := by
  -- Along the text, with the part of its first line that has been passed.
  suffices hpassed : ∀ passed, '\n' ∉ passed → motive (passed ++ text) from hpassed [] List.not_mem_nil
  induction text with
  | nil =>
    intro passed hpassed
    rw [List.append_nil]
    exact last passed hpassed
  | cons c rest ih =>
    intro passed hpassed
    by_cases hc : c = '\n'
    · rw [hc]
      exact feed passed rest hpassed (ih [] List.not_mem_nil)
    · rw [← List.singleton_append, ← List.append_assoc]
      refine ih (passed ++ [c]) fun hmem => ?_
      rcases List.mem_append.1 hmem with hmem | hmem
      · exact hpassed hmem
      · exact hc (List.mem_singleton.1 hmem).symm

/-- Texts of lines that all have their feed. -/
inductive WholeLines : List Char → Prop
  | nil : WholeLines []
  | feed {line rest : List Char} : '\n' ∉ line → WholeLines rest → WholeLines (line ++ '\n' :: rest)

/-- A line in a text: what stands before it, the line, its ending and what follows.
A line feed ends a line, with a carriage return before it or without; at the end of
the text there need not be one. -/
structure Cut (text before line ending after : List Char) : Prop where
  text_eq : text = before ++ line ++ ending ++ after
  feedless : '\n' ∉ line
  ending : ending = ['\n'] ∨ ending = ['\r', '\n'] ∨ after = [] ∧ (ending = [] ∨ ending = ['\r'])

/-- The text with a carriage return before every line feed. -/
def withReturns (text : List Char) : List Char :=
  text.flatMap fun c => if c = '\n' then ['\r', '\n'] else [c]

theorem withReturns_of_not_mem {line : List Char} (h : '\n' ∉ line) : withReturns line = line := by
  induction line with
  | nil => rfl
  | cons c rest ih =>
    obtain ⟨hc, hrest⟩ := not_or.1 (mt List.mem_cons.2 h)
    rw [withReturns, List.flatMap_cons, if_neg (Ne.symm hc), List.singleton_append]
    exact congrArg (c :: ·) (ih hrest)

theorem withReturns_feed {line : List Char} (h : '\n' ∉ line) (rest : List Char) :
    withReturns (line ++ '\n' :: rest) = line ++ ['\r'] ++ '\n' :: withReturns rest := by
  have hline := withReturns_of_not_mem h
  unfold withReturns at hline ⊢
  rw [List.flatMap_append, hline, List.flatMap_cons, if_pos rfl, List.append_assoc]
  rfl

/-! ## Bytes -/

theorem byteLength_nil : byteLength [] = 0 := rfl

theorem byteLength_cons (c : Char) (text : List Char) : byteLength (c :: text) = c.utf8Size + byteLength text := rfl

theorem byteLength_pos {text : List Char} (h : text ≠ []) : 0 < byteLength text := by
  cases text with
  | nil => exact absurd rfl h
  | cons c rest => exact Nat.add_pos_left c.utf8Size_pos _

theorem byteLength_append (a b : List Char) : byteLength (a ++ b) = byteLength a + byteLength b := by
  induction a with
  | nil => exact (Nat.zero_add _).symm
  | cons c rest ih => rw [List.cons_append, byteLength_cons, byteLength_cons, ih, Nat.add_assoc]

theorem byteLength_feed (line rest : List Char) :
    byteLength (line ++ '\n' :: rest) = byteLength line + 1 + byteLength rest := by
  have hfeed : Char.utf8Size '\n' = 1 := by decide
  rw [byteLength_append, byteLength_cons, hfeed, Nat.add_assoc]

/-- Texts that start alike and are cut after equally many bytes are cut at the same
place. -/
theorem append_inj_of_byteLength {a b c d : List Char} (h : a ++ b = c ++ d) (hbytes : byteLength a = byteLength c) :
    a = c ∧ b = d := by
  induction a generalizing c with
  | nil =>
    cases c with
    | nil => exact ⟨rfl, h⟩
    | cons y c => exact absurd hbytes (Nat.ne_of_lt (byteLength_pos (List.cons_ne_nil y c)))
  | cons x a ih =>
    cases c with
    | nil => exact absurd hbytes.symm (Nat.ne_of_lt (byteLength_pos (List.cons_ne_nil x a)))
    | cons y c =>
      obtain ⟨rfl, hrest⟩ := List.cons.inj h
      rw [byteLength_cons, byteLength_cons, Nat.add_left_cancel_iff] at hbytes
      obtain ⟨rfl, hbd⟩ := ih hrest hbytes
      exact ⟨rfl, hbd⟩

theorem Cut.unique {text before line ending after before' line' ending' after' : List Char}
    (h : Cut text before line ending after) (h' : Cut text before' line' ending' after')
    (hbefore : byteLength before = byteLength before') (hline : byteLength line = byteLength line') :
    before = before' ∧ line = line' ∧ ending = ending' ∧ after = after' := by
  have htext : before ++ (line ++ (ending ++ after)) = before' ++ (line' ++ (ending' ++ after')) := by
    simp only [← List.append_assoc]
    rw [← h.text_eq, h'.text_eq]
  obtain ⟨rfl, hrest⟩ := append_inj_of_byteLength htext hbefore
  obtain ⟨rfl, hrest⟩ := append_inj_of_byteLength hrest hline
  obtain ⟨-, -, hending⟩ := h
  obtain ⟨-, -, hending'⟩ := h'
  rcases hending with rfl | rfl | ⟨rfl, rfl | rfl⟩ <;> rcases hending' with rfl | rfl | ⟨rfl, rfl | rfl⟩ <;>
    simp_all

/-! ## A carriage return at the end -/

theorem trimEnd_append_return (text : List Char) : trimEnd (text ++ ['\r']) = trimEnd text := by
  have hblank : isBlank '\r' = true := by decide
  rw [trimEnd, trimEnd, List.reverse_append, List.reverse_singleton, List.singleton_append,
    List.dropWhile_cons_of_pos hblank]

theorem trim_append_return (text : List Char) : trim (text ++ ['\r']) = trim text := by
  have hblank : isBlank '\r' = true := by decide
  rw [trim, trim, trimStart, trimStart, List.dropWhile_append]
  split
  next hempty =>
    rw [List.dropWhile_cons_of_pos hblank, List.isEmpty_iff.1 hempty]
    rfl
  · exact trimEnd_append_return _

end Text

namespace Line

open Text

theorem classify?_append_return (text : List Char) : classify? (text ++ ['\r']) = classify? text := by
  simp only [classify?, trim_append_return, trimEnd_append_return]

theorem exists_return (text : List Char) :
    ∃ ending, (ending = [] ∨ ending = ['\r']) ∧ text = withoutReturn text ++ ending := by
  unfold withoutReturn
  split
  next hlast =>
    obtain ⟨before, rfl⟩ := List.getLast?_eq_some_iff.1 hlast
    exact ⟨['\r'], .inr rfl, by rw [List.dropLast_concat]⟩
  · exact ⟨[], .inl rfl, (List.append_nil text).symm⟩

theorem classify?_withoutReturn (text : List Char) : classify? (withoutReturn text) = classify? text := by
  obtain ⟨ending, rfl | rfl, htext⟩ := exists_return text
  · rw [List.append_nil] at htext
    rw [← htext]
  · rw [← classify?_append_return, ← htext]

/-! ## Reading a text line by line -/

/-- What is read of one line of a text. -/
def ofPiece? (start : Nat) (piece : List Char) : Option (Located Line) :=
  (classify? (withoutReturn piece)).map (⟨·, start, start + byteLength (withoutReturn piece)⟩)

/-- The lines of a text that starts at a byte. -/
def ofText (start : Nat) (text : List Char) : List (Located Line) :=
  (locate start (text.splitOn '\n')).filterMap fun piece =>
    (classify? piece.content).map fun line => piece.map fun _ => line

variable {start : Nat} {text line : List Char}

theorem ofSource_eq (source : String) :
    ofSource source = ofText (afterMark source.toList).1 (afterMark source.toList).2 := rfl

theorem filterMap_locate_cons (start : Nat) (piece : List Char) (rest : List (List Char)) :
    ((locate start (piece :: rest)).filterMap fun piece =>
      (classify? piece.content).map fun line => piece.map fun _ => line) =
      (ofPiece? start piece).toList ++ ((locate (start + byteLength piece + 1) rest).filterMap fun piece =>
        (classify? piece.content).map fun line => piece.map fun _ => line) := by
  simp only [locate, List.filterMap_cons, ofPiece?]
  cases classify? (withoutReturn piece) <;> rfl

theorem ofText_of_not_mem (h : '\n' ∉ text) : ofText start text = (ofPiece? start text).toList := by
  rw [ofText, splitOn_of_not_mem h, filterMap_locate_cons]
  exact List.append_nil _

theorem ofText_feed (h : '\n' ∉ line) (rest : List Char) :
    ofText start (line ++ '\n' :: rest) =
      (ofPiece? start line).toList ++ ofText (start + byteLength line + 1) rest := by
  rw [ofText, splitOn_append h, filterMap_locate_cons, ofText]

theorem ofText_nil : ofText start [] = [] := by
  rw [ofText_of_not_mem List.not_mem_nil]
  rfl

/-- Lines move with their text. -/
theorem ofText_moved (n start : Nat) (text : List Char) :
    ofText (start + n) text = (ofText start text).map (·.moved n) := by
  have hpiece : ∀ start piece, (ofPiece? (start + n) piece).toList = (ofPiece? start piece).toList.map (·.moved n) := by
    intro start piece
    unfold ofPiece?
    cases classify? (withoutReturn piece) with
    | none => rfl
    | some line =>
      simp only [Option.map_some, Option.toList_some, List.map_cons, List.map_nil, Located.moved,
        Nat.add_right_comm start n]
  induction text using lines_induction generalizing start with
  | last line h => rw [ofText_of_not_mem h, ofText_of_not_mem h, hpiece]
  | feed line rest h ih =>
    rw [ofText_feed h, ofText_feed h, List.map_append, hpiece, ← ih]
    congr 2
    omega

/-- After whole lines a text is read as if they were not there. -/
theorem ofText_append {before : List Char} (h : WholeLines before) (start : Nat) (after : List Char) :
    ofText start (before ++ after) = ofText start before ++ ofText (start + byteLength before) after := by
  induction h generalizing start with
  | nil =>
    rw [ofText_nil]
    rfl
  | @feed line rest hline _ ih =>
    rw [List.append_assoc, List.cons_append, ofText_feed hline, ofText_feed hline, ih, List.append_assoc,
      byteLength_feed, ← Nat.add_assoc, ← Nat.add_assoc]

/-- Carriage returns before line feeds change no line but its place. -/
theorem map_content_withReturns (start start' : Nat) (text : List Char) :
    (ofText start' (withReturns text)).map Located.content = (ofText start text).map Located.content := by
  have hpiece : ∀ start piece,
      (ofPiece? start piece).toList.map Located.content = (classify? piece).toList := by
    intro start piece
    rw [ofPiece?, classify?_withoutReturn]
    cases classify? piece <;> rfl
  induction text using lines_induction generalizing start start' with
  | last line h => rw [withReturns_of_not_mem h, ofText_of_not_mem h, ofText_of_not_mem h, hpiece, hpiece]
  | feed line rest h ih =>
    have hreturn : '\n' ∉ line ++ ['\r'] := by
      rw [List.mem_append, List.mem_singleton]
      exact fun hmem => hmem.elim h (by decide)
    rw [withReturns_feed h, ofText_feed hreturn, ofText_feed h, List.map_append, List.map_append, hpiece, hpiece,
      classify?_append_return, ih]

/-! ## Where lines stand -/

theorem of_ofPiece? {piece : List Char} {read : Located Line} (h : ofPiece? start piece = some read) :
    read.start = start ∧ read.stop = start + byteLength (withoutReturn piece) := by
  obtain ⟨line, -, rfl⟩ := Option.map_eq_some_iff.1 h
  exact ⟨rfl, rfl⟩

/-- Where a value stands in a list that starts with at most one value of an
option: it is that one, or it stands in the rest. -/
theorem cases_of_toList_append {α : Type} {first? : Option α} {rest before after : List α} {x : α}
    (h : first?.toList ++ rest = before ++ x :: after) :
    first? = some x ∧ before = [] ∧ rest = after ∨
      ∃ others, before = first?.toList ++ others ∧ rest = others ++ x :: after := by
  cases first? with
  | none => exact .inr ⟨before, rfl, h⟩
  | some first =>
    cases before with
    | nil =>
      obtain ⟨rfl, rfl⟩ := List.cons.inj h
      exact .inl ⟨rfl, rfl, rfl⟩
    | cons y others =>
      obtain ⟨rfl, hrest⟩ := List.cons.inj h
      exact .inr ⟨others, rfl, hrest⟩

/-- A line that is read, with the texts that the lines before and after it are
read from. -/
theorem exists_cut {earlier later : List (Located Line)} {read : Located Line}
    (h : ofText start text = earlier ++ read :: later) :
    ∃ before line ending after, Cut text before line ending after ∧ WholeLines before ∧
      read.start = start + byteLength before ∧ read.stop = read.start + byteLength line ∧
      earlier = ofText start before ∧
      later = ofText (start + byteLength before + byteLength line + byteLength ending) after := by
  induction text using lines_induction generalizing start earlier with
  | last text hfeedless =>
    rw [ofText_of_not_mem hfeedless, ← List.append_nil (ofPiece? start text).toList] at h
    rcases cases_of_toList_append h with ⟨hread, rfl, rfl⟩ | ⟨others, -, hrest⟩
    · obtain ⟨ending, hending, htext⟩ := exists_return text
      obtain ⟨hstart, hstop⟩ := of_ofPiece? hread
      refine ⟨[], withoutReturn text, ending, [], ⟨?_, ?_, .inr (.inr ⟨rfl, hending⟩)⟩, .nil, hstart, ?_,
        ofText_nil.symm, ofText_nil.symm⟩
      · rw [List.nil_append, List.append_nil, ← htext]
      · exact fun hmem => hfeedless (htext ▸ List.mem_append_left _ hmem)
      · rw [hstop, hstart]
    · exact absurd hrest.symm (List.append_ne_nil_of_right_ne_nil _ (List.cons_ne_nil _ _))
  | feed first rest hfeedless ih =>
    rw [ofText_feed hfeedless] at h
    rcases cases_of_toList_append h with ⟨hread, rfl, rfl⟩ | ⟨others, rfl, hrest⟩
    · obtain ⟨ending, hending, hfirst⟩ := exists_return first
      obtain ⟨hstart, hstop⟩ := of_ofPiece? hread
      refine ⟨[], withoutReturn first, ending ++ ['\n'], rest, ⟨?_, ?_, ?_⟩, .nil, hstart, ?_, ofText_nil.symm, ?_⟩
      · rw [List.nil_append, ← List.append_assoc, ← hfirst, List.append_assoc, List.singleton_append]
      · exact fun hmem => hfeedless (hfirst ▸ List.mem_append_left _ hmem)
      · rcases hending with rfl | rfl
        · exact .inl rfl
        · exact .inr (.inl rfl)
      · rw [hstop, hstart]
      · have hbytes := congrArg byteLength hfirst
        rw [byteLength_append] at hbytes
        rw [byteLength_feed, hbytes]
        simp only [byteLength, List.foldr_nil, Nat.add_zero, Nat.add_assoc]
    · obtain ⟨before, line, ending, after, hcut, hwhole, hstart, hstop, hearlier, hlater⟩ := ih hrest
      refine ⟨first ++ '\n' :: before, line, ending, after, ⟨?_, hcut.feedless, hcut.ending⟩, .feed hfeedless hwhole,
        ?_, hstop, ?_, ?_⟩
      · rw [hcut.text_eq]
        simp only [List.append_assoc, List.cons_append]
      · rw [hstart, byteLength_feed, ← Nat.add_assoc, ← Nat.add_assoc]
      · rw [ofText_feed hfeedless, ← hearlier]
      · rw [hlater, byteLength_feed, ← Nat.add_assoc, ← Nat.add_assoc]

/-! ## Sources -/

theorem afterMark_mark (text : List Char) : afterMark ('\ufeff' :: text) = (3, text) := rfl

theorem afterMark_of_head? (h : text.head? ≠ some '\ufeff') : afterMark text = (0, text) := by
  unfold afterMark
  split
  · exact absurd rfl h
  · rfl

theorem ofSource_marked {source : String} (h : source.toList.head? ≠ some '\ufeff') :
    ofSource ("\ufeff" ++ source) = (ofSource source).map (·.moved 3) := by
  have hmarked : ("\ufeff" ++ source).toList = '\ufeff' :: source.toList := String.toList_append
  rw [ofSource_eq, ofSource_eq, hmarked, afterMark_mark, afterMark_of_head? h, ← ofText_moved]

theorem afterMark_withReturns (text : List Char) :
    afterMark (withReturns text) = ((afterMark text).1, withReturns (afterMark text).2) := by
  cases text with
  | nil => rfl
  | cons c rest =>
    have hcons : withReturns (c :: rest) = (if c = '\n' then ['\r', '\n'] else [c]) ++ withReturns rest :=
      List.flatMap_cons
    by_cases hmark : c = '\ufeff'
    · subst hmark
      rw [hcons, if_neg (by decide)]
      rfl
    · have hhead : (c :: rest).head? ≠ some '\ufeff' := fun heq => hmark (Option.some.inj heq)
      have hreturns : (withReturns (c :: rest)).head? ≠ some '\ufeff' := by
        rw [hcons]
        split
        · exact fun heq => absurd (Option.some.inj heq) (by decide)
        · exact hhead
      rw [afterMark_of_head? hreturns, afterMark_of_head? hhead]

theorem map_content_ofSource_withReturns (source : String) :
    (ofSource (String.ofList (withReturns source.toList))).map Located.content =
      (ofSource source).map Located.content := by
  rw [ofSource_eq, ofSource_eq, String.toList_ofList, afterMark_withReturns]
  exact map_content_withReturns ..

theorem exists_cut_of_ofSource {source : String} {earlier later : List (Located Line)} {read : Located Line}
    (h : ofSource source = earlier ++ read :: later) :
    ∃ before line ending after, Cut source.toList before line ending after ∧
      read.start = byteLength before ∧ read.stop = read.start + byteLength line ∧
      ((before = [] → after.head? ≠ some '\ufeff') →
        ∃ rest, ofSource (String.ofList (before ++ after)) = earlier ++ rest ∧
          later = rest.map (·.moved (byteLength line + byteLength ending))) := by
  rw [ofSource_eq] at h
  obtain ⟨before, line, ending, after, hcut, hwhole, hstart, hstop, hearlier, hlater⟩ := exists_cut h
  clear h
  generalize htext : source.toList = text at hcut hstart hearlier hlater
  have hrest : ∀ start,
      ofText start (before ++ after) = ofText start before ++ ofText (start + byteLength before) after :=
    fun start => ofText_append hwhole start after
  have hmoved : ∀ start, ofText (start + byteLength line + byteLength ending) after =
      (ofText start after).map (·.moved (byteLength line + byteLength ending)) := fun start => by
    rw [Nat.add_assoc, ofText_moved]
  by_cases hmark : text.head? = some '\ufeff'
  · obtain ⟨tail, rfl⟩ := List.head?_eq_some_iff.1 hmark
    rw [afterMark_mark] at hcut hstart hearlier hlater
    refine ⟨'\ufeff' :: before, line, ending, after, ⟨?_, hcut.feedless, hcut.ending⟩, hstart, hstop, fun _ =>
      ⟨ofText (3 + byteLength before) after, ?_, ?_⟩⟩
    · exact congrArg ('\ufeff' :: ·) hcut.text_eq
    · rw [ofSource_eq, String.toList_ofList, List.cons_append, afterMark_mark, hrest, hearlier]
    · rw [hlater, hmoved]
  · rw [afterMark_of_head? hmark] at hcut hstart hearlier hlater
    refine ⟨before, line, ending, after, hcut, ?_, hstop, fun hafter => ⟨ofText (byteLength before) after, ?_, ?_⟩⟩
    · rw [hstart, Nat.zero_add]
    · have hhead : (before ++ after).head? ≠ some '\ufeff' := by
        cases before with
        | nil => exact hafter rfl
        | cons c others =>
          have hfirst : text = c :: others ++ line ++ ending ++ after := hcut.text_eq
          rw [hfirst] at hmark
          exact hmark
      rw [ofSource_eq, String.toList_ofList, afterMark_of_head? hhead, hrest, hearlier, Nat.zero_add]
    · rw [hlater, hmoved, Nat.zero_add]

end Line

end ManiaChart
