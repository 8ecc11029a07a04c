import PyAtlas.Text.Lines
import PyAtlas.Text.Measure

/-!
# Docstrings

A docstring is written with the indentation of the code around it. `Docstring.clean` removes
that indentation: the first line loses its blanks, the other lines their common margin, and
blank lines at both ends go away.
-/

namespace PyAtlas.Docstring

/-- The text with each tab replaced by eight blanks. -/
def expandTabs (cs : List Char) : List Char :=
  cs.flatMap fun c => if c == '\t' then List.replicate 8 ' ' else [c]

/-- The number of bytes of white space at the start of a line. -/
def lineMargin (line : List Char) : Nat :=
  Text.byteSize line - Text.byteSize (Text.trimStart line)

/-- The smallest margin of the lines that are not blank; zero when all are. -/
def commonMargin (lines : List (List Char)) : Nat :=
  ((lines.filter fun line => !Text.isBlank line).map lineMargin).min?.getD 0

/-- A line without the first `margin` bytes and the white space at its end. A line that ends
    before the margin does, or that would be cut inside a character, becomes empty. -/
def dedentLine (margin : Nat) (line : List Char) : List Char :=
  Text.trimEnd ((Text.dropBytes margin line).getD [])

/-- The lines without the empty ones at both ends. -/
def dropEmptyEdges (lines : List (List Char)) : List (List Char) :=
  ((lines.reverse.dropWhile List.isEmpty).reverse).dropWhile List.isEmpty

/-- The lines of a docstring without its indentation. -/
def cleanLines (lines : List (List Char)) : List (List Char) :=
  match lines with
  | [] => []
  | first :: rest =>
    dropEmptyEdges (Text.trim first :: rest.map (dedentLine (commonMargin rest)))

/-- The docstring without its indentation. -/
def clean (doc : String) : String :=
  String.ofList (Text.joinLines (cleanLines (Text.lines (expandTabs doc.toList))))

end PyAtlas.Docstring
