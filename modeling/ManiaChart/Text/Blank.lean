/-
White space and trimming, on a text as its list of characters.

`isBlank` is the Unicode property White_Space. `trim` drops the blank
characters at both ends of a text and no others.
-/

namespace ManiaChart.Text

/-- The characters with the Unicode property White_Space. -/
def isBlank (c : Char) : Bool :=
  ('\t' ≤ c && c ≤ '\r') || c == ' ' || c == '\u0085' || c == '\u00a0' || c == '\u1680' ||
    ('\u2000' ≤ c && c ≤ '\u200a') || c == '\u2028' || c == '\u2029' || c == '\u202f' ||
    c == '\u205f' || c == '\u3000'

/-- A text without the blank characters it starts with. -/
def trimStart (text : List Char) : List Char := text.dropWhile isBlank

/-- A text without the blank characters it ends with. -/
def trimEnd (text : List Char) : List Char := (text.reverse.dropWhile isBlank).reverse

/-- A text without the blank characters at its ends. -/
def trim (text : List Char) : List Char := trimEnd (trimStart text)

end ManiaChart.Text
