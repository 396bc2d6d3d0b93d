/-
Taking texts apart: at a separator, out of a pair of delimiters, after a
prefix.
-/

namespace ManiaChart.Text

/-- The parts before and after the first `separator`, if there is one. -/
def cut? (separator : Char) (text : List Char) : Option (List Char × List Char) :=
  match text.span (· ≠ separator) with
  | (_, []) => none
  | (before, _ :: after) => some (before, after)

/-- What stands between an opening character at the start and a closing one at
the end; one character alone is not both. -/
def within? (opening closing : Char) : List Char → Option (List Char)
  | [] => none
  | first :: rest =>
    if first = opening ∧ rest.getLast? = some closing then some rest.dropLast else none

/-- Whether a text starts with `start`, the case of ASCII letters aside. -/
def startsWithAnyCase (start text : List Char) : Bool :=
  (start.map Char.toLower).isPrefixOf (text.map Char.toLower)

/-- The length of a text in UTF-8 bytes. -/
def byteLength (text : List Char) : Nat := text.foldr (fun c bytes => c.utf8Size + bytes) 0

end ManiaChart.Text
