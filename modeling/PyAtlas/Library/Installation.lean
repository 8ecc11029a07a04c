import PyAtlas.Library.Locate
import PyAtlas.Source.Version

/-!
# Installations

An interpreter is installed below one directory, with its libraries in places that depend on
the system: `Lib` and `DLLs` on one kind, `lib/pythonX.Y` on the other.
-/

namespace PyAtlas

/-- An interpreter of some version below a directory. -/
structure Installation where
  dir : String
  version : Version
deriving Repr, DecidableEq

namespace Installation

/-- The places where an installation may have libraries. -/
def candidates (i : Installation) : List String :=
  let versioned := Path.join (Path.join i.dir "lib") ("python" ++ i.version.render)
  [Path.join i.dir "Lib", Path.join (Path.join i.dir "Lib") "site-packages",
    Path.join i.dir "DLLs", versioned, Path.join versioned "lib-dynload",
    Path.join versioned "site-packages"]

/-- The libraries of an installation: the candidates that are directories. -/
def libraries (i : Installation) (fs : FileSystem) : SearchPath :=
  i.candidates.filter fun path => (fs.entries? path).isSome

end Installation

end PyAtlas
