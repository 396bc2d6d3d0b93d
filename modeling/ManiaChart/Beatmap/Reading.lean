/-
Reading a beatmap: its lines one after another, what each one says put into the
records, the lines with a problem passed over.

A problem never ends the reading. Lines before the first section header are a
problem each; of a section with an unknown name only the header is.
-/
import ManiaChart.Beatmap.Entry
import ManiaChart.Beatmap.Line

namespace ManiaChart

namespace Beatmap

/-- How far a beatmap has been read: the records so far, the section of the
next line, and the problems so far with their lines. -/
structure Reading where
  beatmap : Beatmap := {}
  current : Option Section := none
  problems : Array (Located LineProblem) := #[]
deriving DecidableEq

namespace Reading

def enter (reading : Reading) (entry : Entry) : Reading :=
  { reading with beatmap := reading.beatmap.enter entry }

def report (reading : Reading) (line : Located Line) (problem : LineProblem) : Reading :=
  { reading with problems := reading.problems.push (line.map fun _ => problem) }

/-- Reads one more line. -/
def step (reading : Reading) (line : Located Line) : Reading :=
  match line.content with
  | .formatVersion version => { reading with beatmap.formatVersion := version }
  | .header name =>
    match Section.ofName? name with
    | some sect => { reading with current := some sect }
    | none => { reading with current := some .ignored }.report line (.unknownSection name)
  | .content text =>
    match reading.current with
    | none => reading.report line .outsideSections
    | some sect =>
      match Entry.ofLine sect text with
      | .ok entry => reading.enter entry
      | .error problem => reading.report line problem

end Reading

/-- Reads lines in order. -/
def ofLines (lines : List (Located Line)) : Reading := lines.foldl Reading.step {}

/-- Reads the source of a beatmap. -/
def read (source : String) : Reading := ofLines (Line.ofSource source)

end Beatmap

end ManiaChart
