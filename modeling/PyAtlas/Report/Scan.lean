import PyAtlas.Atlas.Query
import PyAtlas.Library.Walk

/-!
# Scans

A scan reads every module of the libraries of an atlas and looks up all that can be reached
from their names. It reports what it could read, what it could not, and what it passed over
because it is not source text.

## Key definitions
- `firstOfEachName`: the modules that a scan looks at.
- `scan`: the report, or the failure to read any module.
- `ScanReport.render`: the report in writing.
-/

namespace PyAtlas.Report

open Atlas

/-- A module that was read. -/
structure ModuleSummary where
  name : String
  path : String
  /-- The number of names of the module, those of star imports included. -/
  members : Nat
  classes : Nat
  errors : Nat
deriving Repr, DecidableEq

/-- A module that could not be read, and why. -/
structure ScanWarning where
  module : String
  cause : ImportError
deriving Repr, DecidableEq

/-- A module that was passed over. -/
structure SkippedModule where
  name : String
  kind : ModuleKind
deriving Repr, DecidableEq

/-- The outcome of a scan. Each list is in the order of the names. -/
structure ScanReport where
  resolved : List ModuleSummary
  skipped : List SkippedModule
  warnings : List ScanWarning
deriving Repr, DecidableEq

/-- A scan that could not read any module. -/
structure NothingResolved where
  skipped : Nat
  warnings : List ScanWarning
deriving Repr, DecidableEq

/-- The number of modules that were tried. -/
def NothingResolved.attempted (e : NothingResolved) : Nat :=
  e.warnings.length

/-- The report about a scan that could not read any module. -/
def NothingResolved.message (e : NothingResolved) : String :=
  "no module could be resolved (" ++ toString e.attempted ++ " attempted, "
    ++ toString e.skipped ++ " skipped)"

/-- The number of modules that were tried. -/
def ScanReport.attempted (r : ScanReport) : Nat :=
  r.resolved.length + r.warnings.length

/-! ### Scanning -/

/-- The modules of a list without those whose name came before: on a search path, earlier
    libraries hide later ones. -/
def firstOfEachName (modules : List ModuleLocation) : List ModuleLocation :=
  modules.foldl
    (fun kept m => if kept.any (·.name == m.name) then kept else kept ++ [m]) []

/-- Looks up a name of a module, and what instances have if it is a class. Tells whether it
    is. -/
def inspectMember (module : EntityRef) (name : String) : Query Bool := do
  match ← member? module .unqualified name with
  | none => pure false
  | some found =>
    let a ← get
    if a.isClass found then
      let _ ← memberNames found .onInstance
      pure true
    else pure false

/-- Reads a module and looks up all its names. -/
def inspectModule (m : ModuleLocation) : Query (Except ImportError ModuleSummary) := do
  match ← (fun a => a.addLocation m : Query _) with
  | .error e => pure (.error e)
  | .ok module =>
    let names ← memberNames module .unqualified
    let classes ← names.mapM (inspectMember module)
    let a ← get
    pure (.ok ⟨m.name, m.path, names.length, classes.count true,
      (a.graph module.module).errors.length⟩)

/-- A list in the order of the names of its items. -/
def sortedBy {α : Type} (name : α → String) (items : List α) : List α :=
  items.mergeSort fun x y => name x ≤ name y

/-- Scans the libraries of an atlas. -/
def scan : Query (Except NothingResolved ScanReport) := do
  let a ← get
  let modules := firstOfEachName (a.libraries.modules a.files)
  let (readable, others) := modules.partition (·.kind.analyzable)
  let outcomes ← readable.mapM fun m => do
    let outcome ← inspectModule m
    pure (m, outcome)
  let resolved := outcomes.filterMap fun (_, outcome) => outcome.toOption
  let warnings := outcomes.filterMap fun (m, outcome) =>
    match outcome with
    | .error cause => some ⟨m.name, cause⟩
    | .ok _ => none
  let skipped := others.map fun m => ⟨m.name, m.kind⟩
  let warnings := sortedBy ScanWarning.module warnings
  if resolved.isEmpty then pure (.error ⟨skipped.length, warnings⟩)
  else
    pure (.ok ⟨sortedBy ModuleSummary.name resolved, sortedBy SkippedModule.name skipped,
      warnings⟩)

/-! ### Rendering -/

/-- The line for a module that was read. -/
def ModuleSummary.render (m : ModuleSummary) : String :=
  let errors := if m.errors = 0 then "" else " [" ++ toString m.errors ++ " syntax errors]"
  "ok      " ++ m.name ++ " (" ++ toString m.members ++ " members, " ++ toString m.classes
    ++ " classes)" ++ errors ++ "\n"

/-- The line for a module that could not be read. -/
def ScanWarning.render (w : ScanWarning) : String :=
  "failed  " ++ w.module ++ ": " ++ w.cause.message ++ "\n"

/-- The line for a module that was passed over. -/
def SkippedModule.render (m : SkippedModule) : String :=
  "skipped " ++ m.name ++ " (" ++ m.kind.text ++ ")\n"

/-- The whole report, with the numbers at the end. -/
def ScanReport.render (r : ScanReport) : String :=
  String.join (r.resolved.map ModuleSummary.render)
    ++ String.join (r.warnings.map ScanWarning.render)
    ++ String.join (r.skipped.map SkippedModule.render)
    ++ "\n" ++ toString r.resolved.length ++ " resolved, " ++ toString r.warnings.length
    ++ " failed, " ++ toString r.skipped.length ++ " skipped\n"

end PyAtlas.Report
