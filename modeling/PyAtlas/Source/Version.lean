import PyAtlas.Text.Digits
import PyAtlas.Text.Lines

/-!
# Versions

The releases whose grammar can be read. The version of a module is part of its identity: it
decides which words are reserved, which operators exist and where the implicit names live.
-/

namespace PyAtlas

/-- A release of the language, in order of appearance. -/
inductive Version
  | v26
  | v27
  | v33
  | v34
  | v35
  | v36
  | v37
  | v38
  | v39
  | v310
  | v311
  | v312
deriving Repr, DecidableEq, Hashable

namespace Version

/-- The version that is read when none is asked for. -/
def standard : Version := .v37

instance : Inhabited Version := ⟨standard⟩

/-- All versions, oldest first. -/
def all : List Version :=
  [.v26, .v27, .v33, .v34, .v35, .v36, .v37, .v38, .v39, .v310, .v311, .v312]

/-- Every version is listed. -/
@[simp] theorem mem_all (v : Version) : v ∈ all := by
  cases v <;> decide

/-- The first number of a version. -/
def major : Version → Nat
  | .v26 | .v27 => 2
  | _ => 3

/-- The second number of a version. -/
def minor : Version → Nat
  | .v26 => 6
  | .v27 => 7
  | .v33 => 3
  | .v34 => 4
  | .v35 => 5
  | .v36 => 6
  | .v37 => 7
  | .v38 => 8
  | .v39 => 9
  | .v310 => 10
  | .v311 => 11
  | .v312 => 12

/-- Whether the version belongs to the third line. -/
def is3x (v : Version) : Bool :=
  v.major == 3

/-- Whether the version is the given release or a later one. -/
def atLeast (v : Version) (major minor : Nat) : Bool :=
  major < v.major || (major == v.major && minor ≤ v.minor)

/-- The module that holds the names visible everywhere. -/
def builtinsModule (v : Version) : String :=
  if v.is3x then "builtins" else "__builtin__"

/-- The written form, two numbers with a point between them. -/
def render (v : Version) : String :=
  toString v.major ++ "." ++ toString v.minor

/-- Reads a version: two numbers from 0 to 255 with a point between them. The text may be
    surrounded by white space, and what follows a second point is not looked at. -/
def ofText? (text : String) : Option Version :=
  match Text.splitAt (· == '.') (Text.trim text.toList) with
  | first :: second :: _ => do
    let major ← Text.decimal? 255 first
    let minor ← Text.decimal? 255 second
    all.find? fun v => v.major == major && v.minor == minor
  | _ => none

end Version

/-- The text does not name a version that can be read. -/
structure UnsupportedVersion where
  text : String
deriving Repr, DecidableEq

/-- The report about an unreadable version. -/
def UnsupportedVersion.message (e : UnsupportedVersion) : String :=
  "unsupported language version '" ++ e.text ++ "'"

end PyAtlas
