import PyAtlas.Atlas.Query
import PyAtlas.Text.Measure

/-!
# Lists of members

The names of an entity with their categories, one to a line and set in two columns.
-/

namespace PyAtlas.Report

open Atlas

/-- The text with blanks up to a number of characters. -/
def padded (width : Nat) (text : String) : String :=
  text ++ String.ofList (List.replicate (width - text.length) ' ')

/-- The width of a column of names: the size of the largest in bytes. -/
def columnWidth (names : List String) : Nat :=
  (names.map String.utf8ByteSize).max?.getD 0

/-- How the members of an entity are listed. Instances are asked about with `onInstance`. -/
def listAccess (a : Atlas) (ref : EntityRef) (onInstance : Bool) : Access :=
  if a.isClass ref then (if onInstance then .onInstance else .onClass) else .unqualified

/-- The line for one name. -/
def memberLine (ref : EntityRef) (access : Access) (width : Nat) (name : String) :
    Query String := do
  let found ← member? ref access name
  let a ← get
  let category := (found.map a.category).getD .unknown
  pure (padded width name ++ "  " ++ category.text)

/-- The lines for all members of an entity. -/
def memberLines (ref : EntityRef) (onInstance : Bool) : Query (List String) := do
  let a ← get
  let access := listAccess a ref onInstance
  let names ← memberNames ref access
  names.mapM (memberLine ref access (columnWidth names))

/-- The lines for all members of a module, or of its member at a path. -/
def listMembers (module : EntityRef) (path : Option String) (onInstance : Bool) :
    Query (Except MemberNotFound (List String)) := do
  match path with
  | none => .ok <$> memberLines module onInstance
  | some path =>
    match ← memberAt? module path with
    | .ok ref => .ok <$> memberLines ref onInstance
    | .error e => pure (.error e)

end PyAtlas.Report
