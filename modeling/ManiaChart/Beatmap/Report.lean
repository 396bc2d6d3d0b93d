/-
Reports that show a problem together with its line.

A report names the file, line and column, and quotes the part in question. A
part within one line is underlined, and its middle points at the message. A
part that runs over several lines is held by a bracket at the margin, which
leads from its first line to its last one and on to the message; the lines in
between are left out.

Here every character that can end a line does so, and therefore one line of a
beatmap may be several lines of its report. Places are counted in characters,
so the bytes of a problem's place are right for a source in ASCII.
-/
import ManiaChart.Beatmap.Problem
import ManiaChart.Text.Blank
import ManiaChart.Text.Located

namespace ManiaChart.Report

/-! ## The lines of a source -/

def endsLine (c : Char) : Bool :=
  c == '\n' || c == '\r' || c == '\x0b' || c == '\x0c' || c == '\u0085' || c == '\u2028' || c == '\u2029'

/-- Whether the character after `c` stands on the same line; a carriage return
and a line feed after it are one end. -/
def sameLine (c next : Char) : Bool := !endsLine c || (c == '\r' && next == '\n')

structure Excerpt where
  /-- The number of the line, counted from one. -/
  number : Nat
  start : Nat
  /-- The line with the characters that end it. -/
  text : List Char
deriving DecidableEq

namespace Excerpt

/-- Lines one after another, the first one with a number and a start. -/
def locate (number start : Nat) : List (List Char) → List Excerpt
  | [] => []
  | text :: rest => ⟨number, start, text⟩ :: locate (number + 1) (start + text.length) rest

def ofSource (source : String) : List Excerpt := locate 1 0 (source.toList.splitBy sameLine)

/-- Whether the characters `start ≤ i < stop`, or the one at `start` if there
are none, are in part on the line. -/
def meets (line : Excerpt) (start stop : Nat) : Bool :=
  line.start ≤ max start (stop - 1) && start < line.start + line.text.length

/-- The line without the blank characters at its end. -/
def quoted (line : Excerpt) : String := String.ofList (Text.trimEnd line.text)

end Excerpt

/-! ## Rows -/

def run (n : Nat) (c : Char) : String := String.ofList (List.replicate n c)

/-- A row that quotes a line, with its number at the margin. -/
def numbered (width : Nat) (line : Excerpt) (lead : String) : String :=
  let number := toString line.number
  run (width + 1 - number.length) ' ' ++ number ++ " │ " ++ lead ++ line.quoted

def unnumbered (width : Nat) (text : String) : String := run (width + 2) ' ' ++ text

/-- What stands in each column of the row under a line: a rule below the part
in question, with a branch at its middle. -/
def underline (middle stop column : Nat) : Char :=
  if column = middle then '┬' else if column < stop then '─' else ' '

/-- What stands in each column of the row that leads to the message. -/
def arrow (middle column : Nat) : Char :=
  if column < middle then ' ' else if column = middle then '╰' else '─'

def underlined (width : Nat) (line : Excerpt) (problem : Located LineProblem) : List String :=
  let stop := problem.stop - line.start
  let middle := (problem.start + problem.stop) / 2 - line.start
  let columns := List.range (stop + 2)
  [ numbered width line "",
    unnumbered width ("│ " ++ String.ofList (columns.map (underline middle stop))),
    unnumbered width
      ("│ " ++ String.ofList (columns.map (arrow middle)) ++ " " ++ problem.content.message) ]

/-- The rows for a part from one line to another one. The bracket reaches past
the end of the last line. -/
def bracketed (width : Nat) (first last : Excerpt) (problem : Located LineProblem) : List String :=
  let reach := last.text.length + 4
  let gap := if first.number + 1 < last.number then [unnumbered width "┆ ┆   "] else []
  [numbered width first "╭─▶ "] ++ gap ++
    [ numbered width last "├─▶ ",
      unnumbered width ("│ │" ++ run reach ' ' ++ " "),
      unnumbered width ("│ ╰" ++ run reach '─' ++ "─ " ++ problem.content.message) ]

/-- The rows of a report, under the title that all of them share. -/
def rows (name : String) (source : List Excerpt) (problem : Located LineProblem) : List String :=
  let title := "Warning: osu parse: line skipped"
  match source.filter (·.meets problem.start problem.stop) with
  | [] => [title]
  | first :: rest =>
    let last := rest.getLastD first
    let width := (toString last.number).length
    let column := toString (problem.start - first.start + 1)
    let part := if rest.isEmpty then underlined width first problem
      else bracketed width first last problem
    [ title,
      unnumbered width ("╭─[ " ++ name ++ ":" ++ toString first.number ++ ":" ++ column ++ " ]"),
      unnumbered width "│" ] ++ part ++ [run (width + 2) '─' ++ "╯"]

/-! ## Reports -/

/-- The reports of problems in a named source, one for each. -/
def renderEach (name source : String) (problems : List (Located LineProblem)) : List String :=
  let source := Excerpt.ofSource source
  problems.map fun problem => String.join ((rows name source problem).map (· ++ "\n"))

/-- The reports of problems, one after another. -/
def renderAll (name source : String) (problems : List (Located LineProblem)) : String :=
  String.join (renderEach name source problems)

end ManiaChart.Report
