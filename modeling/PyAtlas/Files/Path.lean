import PyAtlas.Text.Lines

/-!
# Paths

Paths are texts with slashes between the names of directories. They are shown as they were put
together: nothing here removes a superfluous slash or a `.` in the middle.
-/

namespace PyAtlas.Path

/-- Whether a path starts at the top of all files. -/
def isAbsolute (path : String) : Bool :=
  path.toList.head? == some '/'

/-- A path seen from a directory. An absolute path is its own, and a directory that ends with a
    slash, or is empty, needs none after it. -/
def join (dir path : String) : String :=
  let last := dir.toList.getLast?
  if isAbsolute path then path
  else if last == none || last == some '/' then dir ++ path
  else dir ++ "/" ++ path

/-- The pieces of a path between its slashes. -/
def pieces (path : String) : List String :=
  (Text.splitAt (· == '/') path.toList).map String.ofList

/-- Whether a piece of a path stays in its directory. -/
def isStill (piece : String) : Bool :=
  piece == "" || piece == "."

/-- The name that a path ends with, unless it goes up at its end. -/
def fileName? (path : String) : Option String :=
  ((pieces path).filter fun piece => !isStill piece).getLast?.filter (· != "..")

/-- A text cut at the last character that satisfies `p`, which is left out. -/
def cutLast? (p : Char → Bool) (cs : List Char) : Option (List Char × List Char) :=
  match cs.reverse.span fun c => !p c with
  | (_, []) => none
  | (back, _ :: front) => some (front.reverse, back.reverse)

/-- The last name of a path up to its last point. A point at the start of the name does not
    count. -/
def stem? (path : String) : Option String := do
  let name ← fileName? path
  match cutLast? (· == '.') name.toList with
  | some (c :: front, _) => pure (String.ofList (c :: front))
  | _ => pure name

end PyAtlas.Path
