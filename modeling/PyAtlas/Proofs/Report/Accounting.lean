import PyAtlas.Proofs.Atlas.Identity
import PyAtlas.Proofs.Atlas.Refinement
import PyAtlas.Proofs.Library.Agreement
import PyAtlas.Report.Scan

/-!
# A scan accounts for every module

A walk may list a name more than once, and the first module listed under it is the one that a scan
looks at. If that is no source text it is passed over. Otherwise it is read, unless the import of
another module has settled before what it is, and the scan reports what was settled. What is settled
stays, so whether a module was resolved can be told from the atlas that the scan leaves.

## Key definitions
- `FirstListed`: the modules that a scan looks at.
- `Resolves`, `Fails`, `PassedOver`: the three things that can be said of a module.
- `Accounting`: lists that account for every module once.

## Key results
- `mem_firstOfEachName`: the first module of each name is kept.
- `inspectModule_tells`: what is told of a module is what is settled about it.
- `scan_accounts`: whatever a scan reports accounts for every module once.
-/

namespace PyAtlas.Report

open Atlas

/-! ### The first of each name -/

section FirstOfEachName

variable {modules kept : List ModuleLocation}

/-- One more module, unless its name came before. -/
private def keepFirst (kept : List ModuleLocation) (m : ModuleLocation) : List ModuleLocation :=
  if kept.any (·.name == m.name) then kept else kept ++ [m]

private theorem find?_foldl_keepFirst (modules kept : List ModuleLocation) (name : String) :
    (modules.foldl keepFirst kept).find? (·.name == name)
      = (kept ++ modules).find? (·.name == name) := by
  induction modules generalizing kept with
  | nil => rw [List.foldl_nil, List.append_nil]
  | cons m modules ih =>
    rw [List.foldl_cons, ih, keepFirst]
    split
    · rename_i hany
      -- A module of the name that `m` has is found among those kept.
      rw [List.find?_append, List.find?_append, List.find?_cons]
      split
      · rename_i hname
        obtain ⟨d, hd, hsame⟩ := List.any_eq_true.1 hany
        have hfound : (kept.find? (·.name == name)).isSome = true := by
          rw [List.find?_isSome]
          exact ⟨d, hd, by rw [beq_iff_eq, eq_of_beq hsame, eq_of_beq hname]⟩
        obtain ⟨first, hfirst⟩ := Option.isSome_iff_exists.1 hfound
        rw [hfirst, Option.some_or, Option.some_or]
      · rfl
    · rw [List.append_assoc, List.singleton_append]

/-- Under each name the first module is kept. -/
theorem find?_firstOfEachName (modules : List ModuleLocation) (name : String) :
    (firstOfEachName modules).find? (·.name == name) = modules.find? (·.name == name) :=
  find?_foldl_keepFirst modules [] name

private theorem nodup_foldl_keepFirst (h : (kept.map (·.name)).Nodup) :
    ((modules.foldl keepFirst kept).map (·.name)).Nodup := by
  induction modules generalizing kept with
  | nil => exact h
  | cons m modules ih =>
    rw [List.foldl_cons]
    refine ih ?_
    rw [keepFirst]
    split
    · exact h
    · rename_i hany
      rw [List.map_append, List.nodup_append]
      refine ⟨h, List.nodup_singleton _, ?_⟩
      rintro name hname _ hm rfl
      obtain ⟨d, hd, hsame⟩ := List.mem_map.1 hname
      rw [List.map_singleton, List.mem_singleton] at hm
      exact hany (List.any_eq_true.2 ⟨d, hd, by rw [beq_iff_eq, hsame, hm]⟩)

/-- No name is kept twice. -/
theorem nodup_firstOfEachName (modules : List ModuleLocation) :
    ((firstOfEachName modules).map (·.name)).Nodup :=
  nodup_foldl_keepFirst List.nodup_nil

/-- What is kept is the first of its name. -/
theorem mem_firstOfEachName {d : ModuleLocation} :
    d ∈ firstOfEachName modules ↔ modules.find? (·.name == d.name) = some d := by
  rw [← find?_firstOfEachName]
  constructor
  · intro hmem
    cases hfound : (firstOfEachName modules).find? (·.name == d.name) with
    | none =>
      have hne := List.find?_eq_none.1 hfound d hmem
      rw [beq_self_eq_true] at hne
      exact absurd rfl hne
    | some first =>
      have hname : (first.name == d.name) = true :=
        List.find?_some (p := fun m : ModuleLocation => m.name == d.name) hfound
      have hfirst := List.mem_of_find?_eq_some hfound
      have hnodup := nodup_firstOfEachName modules
      exact congrArg some (List.inj_on_of_nodup_map hnodup hfirst hmem (eq_of_beq hname))
  · exact List.mem_of_find?_eq_some

end FirstOfEachName

/-! ### Lists in order -/

section SortedBy

variable {α : Type} {name : α → String} {items : List α}

theorem mem_sortedBy {x : α} : x ∈ sortedBy name items ↔ x ∈ items :=
  List.mem_mergeSort

theorem mem_map_sortedBy {β : Type} {f : α → β} {y : β} :
    y ∈ (sortedBy name items).map f ↔ y ∈ items.map f :=
  ((List.mergeSort_perm items _).map f).mem_iff

theorem length_sortedBy : (sortedBy name items).length = items.length :=
  List.length_mergeSort items

/-- Items with names of their own stand strictly in order. -/
theorem sortedBy_strictly (h : (items.map name).Nodup) :
    (sortedBy name items).Pairwise fun x y => name x < name y := by
  have hle : (sortedBy name items).Pairwise fun x y => name x ≤ name y := by
    refine (List.pairwise_mergeSort (fun x y z hxy hyz => ?_) (fun x y => ?_) items).imp ?_
    · exact decide_eq_true (String.le_trans (of_decide_eq_true hxy) (of_decide_eq_true hyz))
    · rw [Bool.or_eq_true, decide_eq_true_eq, decide_eq_true_eq]
      exact String.le_total _ _
    · exact fun hxy => of_decide_eq_true hxy
  have hne : (sortedBy name items).Pairwise fun x y => name x ≠ name y := by
    rw [← List.pairwise_map (f := name) (R := (· ≠ ·))]
    exact ((List.mergeSort_perm items _).map name).nodup_iff.2 h
  -- The sort gives one half of the strict order, and the names of their own the other.
  refine (hle.and hne).imp fun {x y} hxy => String.not_le.1 fun hyx => hxy.2 ?_
  exact String.le_antisymm hxy.1 hyx

end SortedBy

/-! ### What a scan does -/

section Inspect

variable {a b : Atlas}

/-- One query for each item of a list. -/
theorem leadsTo_mapM {α β : Type} {f : α → Query β} (hf : ∀ x (a : Atlas), a.LeadsTo (f x a).2)
    (items : List α) (a : Atlas) : a.LeadsTo (items.mapM f a).2 := by
  induction items generalizing a with
  | nil => exact .refl
  | cons x items ih =>
    rw [List.mapM_cons]
    exact (hf x a).trans (ih (f x a).2)

theorem inspectMember_leadsTo (module : EntityRef) (name : String) (a : Atlas) :
    a.LeadsTo (inspectMember module name a).2 := by
  have hmember : a.LeadsTo (member? module .unqualified name a).2 := .perform a (.ask _)
  rw [inspectMember]
  simp only [bind, StateT.bind]
  split
  rename_i found b hfound
  rw [hfound] at hmember
  cases found with
  | none => exact hmember
  | some found =>
    -- What instances have is asked of classes only.
    show a.LeadsTo ((if b.isClass found then (do
      let _ ← memberNames found .onInstance
      pure true) else pure false : Query Bool) b).2
    split
    · exact hmember.trans (.perform b (.ask _))
    · exact hmember

/-- Once a module is registered, questions are asked about it. -/
theorem inspectModule_leadsTo (m : ModuleLocation) (a : Atlas) :
    (a.addLocation m).2.LeadsTo (inspectModule m a).2 := by
  rw [inspectModule]
  simp only [bind, StateT.bind]
  cases (a.addLocation m).1 with
  | error e => exact .refl
  | ok module =>
    have hnames : (a.addLocation m).2.LeadsTo
        (memberNames module .unqualified (a.addLocation m).2).2 := .perform _ (.ask _)
    exact hnames.trans (leadsTo_mapM (inspectMember_leadsTo module) _ _)

/-- What is told of a module is what was settled about it. -/
theorem inspectModule_tells (m : ModuleLocation) (a : Atlas) :
    (inspectModule m a).1.map (fun summary => (summary.name, summary.path))
      = (a.addLocation m).1.map fun _ => (m.name, m.path) := by
  rw [inspectModule]
  simp only [bind, StateT.bind]
  cases (a.addLocation m).1 with
  | error e => rfl
  | ok module => rfl

/-- What was settled about a module is what later imports of it are answered. -/
theorem import?_of_addLocation {m : ModuleLocation} (h : (a.addLocation m).2.LeadsTo b) :
    (b.import? m.name b.version).1 = (a.addLocation m).1 := by
  have hadded : a.LeadsTo (a.addLocation m).2 := .perform a (.addLocation m)
  have hslot := h.lookup_modules (a.lookup_settle_self ⟨m.name, a.version⟩
    fun _ => .ofLocation a.files a.version m)
  rw [h.version_eq, hadded.version_eq]
  have himport := congrArg Prod.fst (answers_of_lookup hslot).imports
  exact himport

end Inspect

/-! ### Outcomes -/

/-- A module that a scan reads, and what is told of it. -/
abbrev Outcome := ModuleLocation × Except ImportError ModuleSummary

/-- What an atlas answers to the import of the module is what is told of it. -/
def Outcome.IsToldIn (b : Atlas) (outcome : Outcome) : Prop :=
  outcome.2.map (fun summary => (summary.name, summary.path))
    = (b.import? outcome.1.name b.version).1.map fun _ => (outcome.1.name, outcome.1.path)

/-- Reads some modules, one after the other. -/
def readModules (modules : List ModuleLocation) : Query (List Outcome) :=
  modules.mapM fun m => do
    let outcome ← inspectModule m
    pure (m, outcome)

section ReadModules

variable {modules : List ModuleLocation}

theorem readModules_leadsTo (modules : List ModuleLocation) (a : Atlas) :
    a.LeadsTo (readModules modules a).2 := by
  rw [readModules]
  refine leadsTo_mapM (fun m b => ?_) modules a
  have hadded : b.LeadsTo (b.addLocation m).2 := .perform b (.addLocation m)
  exact hadded.trans (inspectModule_leadsTo m b)

/-- Each module is read once, in the order given. -/
theorem readModules_modules (modules : List ModuleLocation) (a : Atlas) :
    (readModules modules a).1.map Prod.fst = modules := by
  induction modules generalizing a with
  | nil => rfl
  | cons m modules ih =>
    rw [readModules, List.mapM_cons]
    exact congrArg (m :: ·) (ih (inspectModule m a).2)

/-- What is told of a module stays right. -/
theorem readModules_tells {a b : Atlas} (h : (readModules modules a).2.LeadsTo b) :
    ∀ outcome ∈ (readModules modules a).1, outcome.IsToldIn b := by
  induction modules generalizing a with
  | nil => exact fun _ hmem => nomatch hmem
  | cons m modules ih =>
    rw [readModules, List.mapM_cons] at h ⊢
    intro outcome hmem
    rcases List.mem_cons.1 hmem with rfl | hmem
    · -- What was settled about the first module stays while the others are read.
      have hrest : (inspectModule m a).2.LeadsTo b :=
        (readModules_leadsTo modules (inspectModule m a).2).trans h
      rw [Outcome.IsToldIn, import?_of_addLocation ((inspectModule_leadsTo m a).trans hrest)]
      exact inspectModule_tells m a
    · exact ih h outcome hmem

end ReadModules

/-- The summaries of the modules that were read. -/
def resolvedOf (outcomes : List Outcome) : List ModuleSummary :=
  outcomes.filterMap fun (_, outcome) => outcome.toOption

/-- Why the others could not be read. -/
def warningsOf (outcomes : List Outcome) : List ScanWarning :=
  outcomes.filterMap fun (m, outcome) =>
    match outcome with
    | .error cause => some ⟨m.name, cause⟩
    | .ok _ => none

/-- The modules that are passed over. -/
def skippedOf (modules : List ModuleLocation) : List SkippedModule :=
  modules.map fun m => ⟨m.name, m.kind⟩

/-- The modules that a scan looks at. -/
def scanned (a : Atlas) : List ModuleLocation :=
  firstOfEachName (a.libraries.modules a.files)

/-- What a scan finds out about the modules of source text. -/
def scanOutcomes (a : Atlas) : List Outcome × Atlas :=
  readModules ((scanned a).filter (·.kind.analyzable)) a

/-- The modules that are no source text. -/
def scanSkipped (a : Atlas) : List SkippedModule :=
  skippedOf ((scanned a).filter fun m => !m.kind.analyzable)

theorem scanOutcomes_leadsTo (a : Atlas) : a.LeadsTo (scanOutcomes a).2 :=
  readModules_leadsTo _ a

/-- A scan sorts what it finds out. -/
theorem scan_eq (a : Atlas) :
    scan a =
      (if (resolvedOf (scanOutcomes a).1).isEmpty then
        .error ⟨(scanSkipped a).length, sortedBy ScanWarning.module (warningsOf (scanOutcomes a).1)⟩
      else
        .ok ⟨sortedBy ModuleSummary.name (resolvedOf (scanOutcomes a).1),
          sortedBy SkippedModule.name (scanSkipped a),
          sortedBy ScanWarning.module (warningsOf (scanOutcomes a).1)⟩,
      (scanOutcomes a).2) := by
  rw [scan]
  simp only [bind, StateT.bind, List.partition_eq_filter_filter]
  -- Both ends of a scan leave the atlas as it is.
  show (if (resolvedOf (scanOutcomes a).1).isEmpty = true then pure (.error _)
    else pure (.ok _) : Query (Except NothingResolved ScanReport)) (scanOutcomes a).2 = _
  split
  · rfl
  · rfl

theorem scan_of_nothing {a : Atlas} (h : resolvedOf (scanOutcomes a).1 = []) :
    scan a = (.error ⟨(scanSkipped a).length,
      sortedBy ScanWarning.module (warningsOf (scanOutcomes a).1)⟩, (scanOutcomes a).2) := by
  rw [scan_eq, h]
  rfl

theorem scan_of_some {a : Atlas} (h : resolvedOf (scanOutcomes a).1 ≠ []) :
    scan a = (.ok ⟨sortedBy ModuleSummary.name (resolvedOf (scanOutcomes a).1),
      sortedBy SkippedModule.name (scanSkipped a),
      sortedBy ScanWarning.module (warningsOf (scanOutcomes a).1)⟩, (scanOutcomes a).2) := by
  rw [scan_eq, if_neg fun hempty => h (List.isEmpty_iff.1 hempty)]

/-! ### Every module once -/

/-- The module is the first of its name that a walk lists. -/
def FirstListed (a : Atlas) (d : ModuleLocation) : Prop :=
  (a.libraries.modules a.files).find? (·.name == d.name) = some d

/-- The module is source text, and an atlas can import it. -/
def Resolves (b : Atlas) (d : ModuleLocation) : Prop :=
  d.kind = .source ∧ ∃ ref, (b.import? d.name b.version).1 = .ok ref

/-- The module is source text, and an atlas cannot import it. -/
def Fails (b : Atlas) (cause : ImportError) (d : ModuleLocation) : Prop :=
  d.kind = .source ∧ (b.import? d.name b.version).1 = .error cause

/-- The module is no source text. -/
def PassedOver (d : ModuleLocation) : Prop :=
  d.kind = .compiled ∨ d.kind = .native

/-- Three lists that account for every module of the libraries of an atlas once: for those that
    another atlas can import, for those that it cannot, and for those that are no source text. -/
structure Accounting (a b : Atlas) (resolved : List ModuleSummary) (warnings : List ScanWarning)
    (skipped : List SkippedModule) : Prop where
  resolved_sorted : resolved.Pairwise fun x y => x.name < y.name
  warnings_sorted : warnings.Pairwise fun x y => x.module < y.module
  skipped_sorted : skipped.Pairwise fun x y => x.name < y.name
  resolved_warnings : (resolved.map (·.name)).Disjoint (warnings.map (·.module))
  resolved_skipped : (resolved.map (·.name)).Disjoint (skipped.map (·.name))
  warnings_skipped : (warnings.map (·.module)).Disjoint (skipped.map (·.name))
  all : ∀ name, (∃ d ∈ a.libraries.modules a.files, d.name = name)
    ↔ name ∈ resolved.map (·.name) ++ warnings.map (·.module) ++ skipped.map (·.name)
  resolved_iff : ∀ name path, (∃ s ∈ resolved, s.name = name ∧ s.path = path)
    ↔ ∃ d, FirstListed a d ∧ d.name = name ∧ d.path = path ∧ Resolves b d
  warnings_iff : ∀ w, w ∈ warnings ↔ ∃ d, FirstListed a d ∧ d.name = w.module ∧ Fails b w.cause d
  skipped_iff : ∀ s, s ∈ skipped ↔ ∃ d, FirstListed a d ∧ PassedOver d ∧ s = ⟨d.name, d.kind⟩

namespace FirstListed

variable {a : Atlas} {d d' : ModuleLocation}

theorem eq (h : FirstListed a d) (h' : FirstListed a d') (hname : d.name = d'.name) : d = d' := by
  rw [FirstListed, hname] at h
  rw [FirstListed, h] at h'
  exact Option.some_inj.1 h'

theorem mem (h : FirstListed a d) : d ∈ a.libraries.modules a.files :=
  List.mem_of_find?_eq_some h

/-- Some module of each name that is listed is the first. -/
theorem exists_of_mem (h : d ∈ a.libraries.modules a.files) :
    ∃ first, FirstListed a first ∧ first.name = d.name := by
  have hfound : ((a.libraries.modules a.files).find? (·.name == d.name)).isSome = true := by
    rw [List.find?_isSome]
    exact ⟨d, h, beq_self_eq_true _⟩
  obtain ⟨first, hfirst⟩ := Option.isSome_iff_exists.1 hfound
  have hname : first.name = d.name := by
    have hbeq := List.find?_some (p := fun m : ModuleLocation => m.name == d.name) hfirst
    exact eq_of_beq hbeq
  exact ⟨first, by rw [FirstListed, hname, hfirst], hname⟩

end FirstListed

theorem mem_scanned {a : Atlas} {d : ModuleLocation} : d ∈ scanned a ↔ FirstListed a d :=
  mem_firstOfEachName

theorem analyzable_iff {kind : ModuleKind} :
    kind.analyzable = true ↔ kind = .source :=
  beq_iff_eq

theorem not_analyzable_iff {kind : ModuleKind} :
    (!kind.analyzable) = true ↔ kind = .compiled ∨ kind = .native := by
  cases kind <;> decide

/-! ### One of three things -/

section Fates

variable {a b : Atlas} {d : ModuleLocation}

theorem resolves_or_fails_or_passedOver (b : Atlas) (d : ModuleLocation) :
    Resolves b d ∨ (∃ cause, Fails b cause d) ∨ PassedOver d := by
  cases hkind : d.kind with
  | compiled => exact .inr (.inr (.inl hkind))
  | native => exact .inr (.inr (.inr hkind))
  | source =>
    cases himport : (b.import? d.name b.version).1 with
    | ok ref => exact .inl ⟨hkind, ref, himport⟩
    | error cause => exact .inr (.inl ⟨cause, hkind, himport⟩)

theorem Resolves.not_fails (h : Resolves b d) (cause : ImportError) : ¬Fails b cause d := by
  intro hfails
  obtain ⟨-, ref, himport⟩ := h
  have hfailed := hfails.2
  rw [himport] at hfailed
  cases hfailed

theorem not_passedOver_of_source (h : d.kind = .source) : ¬PassedOver d := by
  intro hother
  rw [PassedOver, h] at hother
  rcases hother with hother | hother <;> cases hother

/-- The names are those of the modules that a scan looks at and that satisfy a condition. -/
def NamesOf (a : Atlas) (P : ModuleLocation → Prop) (names : List String) : Prop :=
  ∀ name, name ∈ names ↔ ∃ d, FirstListed a d ∧ d.name = name ∧ P d

/-- There is one first module of each name, so it cannot be in two lists for different reasons. -/
theorem NamesOf.disjoint {P Q : ModuleLocation → Prop} {names names' : List String}
    (h : NamesOf a P names) (h' : NamesOf a Q names') (hnot : ∀ d, P d → ¬Q d) :
    names.Disjoint names' := by
  intro name hmem hmem'
  obtain ⟨d, hfirst, hname, hp⟩ := (h name).1 hmem
  obtain ⟨d', hfirst', hname', hq⟩ := (h' name).1 hmem'
  obtain rfl := hfirst.eq hfirst' (hname.trans hname'.symm)
  exact hnot d hp hq

theorem NamesOf.sortedBy {α : Type} {key name : α → String} {items : List α}
    {P : ModuleLocation → Prop} (h : NamesOf a P (items.map name)) :
    NamesOf a P ((Report.sortedBy key items).map name) :=
  fun n => mem_map_sortedBy.trans (h n)

end Fates

/-! ### The outcomes account for the modules of source text -/

section Outcomes

variable {a b : Atlas} {outcomes : List Outcome} {m : ModuleLocation}

theorem Outcome.isToldIn_ok {summary : ModuleSummary} :
    Outcome.IsToldIn b (m, .ok summary)
      ↔ summary.name = m.name ∧ summary.path = m.path
        ∧ ∃ ref, (b.import? m.name b.version).1 = .ok ref := by
  rw [IsToldIn]
  cases (b.import? m.name b.version).1 with
  | error e => simp [Except.map]
  | ok ref => simp [Except.map]

theorem Outcome.isToldIn_error {cause : ImportError} :
    Outcome.IsToldIn b (m, .error cause) ↔ (b.import? m.name b.version).1 = .error cause := by
  rw [IsToldIn]
  cases (b.import? m.name b.version).1 with
  | error e => simp [Except.map, eq_comm]
  | ok ref => simp [Except.map]

theorem mem_resolvedOf {summary : ModuleSummary} :
    summary ∈ resolvedOf outcomes ↔ ∃ m, (m, .ok summary) ∈ outcomes := by
  rw [resolvedOf, List.mem_filterMap]
  constructor
  · rintro ⟨⟨m, outcome⟩, hmem, hok⟩
    cases outcome with
    | error e => cases hok
    | ok found =>
      cases hok
      exact ⟨m, hmem⟩
  · rintro ⟨m, hmem⟩
    exact ⟨_, hmem, rfl⟩

theorem mem_warningsOf {w : ScanWarning} :
    w ∈ warningsOf outcomes ↔ ∃ m, (m, .error w.cause) ∈ outcomes ∧ m.name = w.module := by
  rw [warningsOf, List.mem_filterMap]
  constructor
  · rintro ⟨⟨m, outcome⟩, hmem, hw⟩
    cases outcome with
    | ok found => cases hw
    | error e =>
      cases hw
      exact ⟨m, hmem, rfl⟩
  · rintro ⟨m, hmem, hname⟩
    exact ⟨_, hmem, congrArg some (by rw [hname])⟩

theorem mem_skippedOf {s : SkippedModule} {modules : List ModuleLocation} :
    s ∈ skippedOf modules ↔ ∃ d ∈ modules, s = ⟨d.name, d.kind⟩ := by
  rw [skippedOf, List.mem_map]
  exact exists_congr fun d => and_congr_right fun _ => eq_comm

/-- The outcomes are for the modules of source text that are looked at, and tell what an atlas
    answers. -/
structure Surveyed (a b : Atlas) (outcomes : List Outcome) : Prop where
  modules : outcomes.map Prod.fst = (scanned a).filter (·.kind.analyzable)
  told : ∀ outcome ∈ outcomes, outcome.IsToldIn b

theorem surveyed (a : Atlas) : Surveyed a (scanOutcomes a).2 (scanOutcomes a).1 :=
  ⟨readModules_modules _ a, readModules_tells .refl⟩

namespace Surveyed

variable (h : Surveyed a b outcomes)
include h

theorem firstListed {outcome : Except ImportError ModuleSummary} (hmem : (m, outcome) ∈ outcomes) :
    FirstListed a m ∧ m.kind = .source := by
  have hm : m ∈ (scanned a).filter (·.kind.analyzable) := by
    rw [← h.modules]
    exact List.mem_map_of_mem hmem
  obtain ⟨hscanned, hkind⟩ := List.mem_filter.1 hm
  exact ⟨mem_scanned.1 hscanned, analyzable_iff.1 hkind⟩

theorem exists_outcome (hfirst : FirstListed a m) (hkind : m.kind = .source) :
    ∃ outcome, (m, outcome) ∈ outcomes := by
  have hm : m ∈ outcomes.map Prod.fst := by
    rw [h.modules]
    exact List.mem_filter.2 ⟨mem_scanned.2 hfirst, analyzable_iff.2 hkind⟩
  obtain ⟨⟨_, outcome⟩, hmem, rfl⟩ := List.mem_map.1 hm
  exact ⟨outcome, hmem⟩

theorem resolved_iff (name path : String) :
    (∃ s ∈ resolvedOf outcomes, s.name = name ∧ s.path = path)
      ↔ ∃ d, FirstListed a d ∧ d.name = name ∧ d.path = path ∧ Resolves b d := by
  constructor
  · rintro ⟨s, hs, rfl, rfl⟩
    obtain ⟨d, hmem⟩ := mem_resolvedOf.1 hs
    obtain ⟨hfirst, hkind⟩ := h.firstListed hmem
    obtain ⟨hname, hpath, himport⟩ := Outcome.isToldIn_ok.1 (h.told _ hmem)
    exact ⟨d, hfirst, hname.symm, hpath.symm, hkind, himport⟩
  · rintro ⟨d, hfirst, rfl, rfl, hresolves⟩
    obtain ⟨outcome, hmem⟩ := h.exists_outcome hfirst hresolves.1
    cases outcome with
    | error cause =>
      -- The atlas would answer an import of the module in two ways.
      have hfailed := Outcome.isToldIn_error.1 (h.told _ hmem)
      exact absurd ⟨hresolves.1, hfailed⟩ (hresolves.not_fails cause)
    | ok s =>
      obtain ⟨hname, hpath, -⟩ := Outcome.isToldIn_ok.1 (h.told _ hmem)
      exact ⟨s, mem_resolvedOf.2 ⟨d, hmem⟩, hname, hpath⟩

theorem warnings_iff (w : ScanWarning) :
    w ∈ warningsOf outcomes
      ↔ ∃ d, FirstListed a d ∧ d.name = w.module ∧ Fails b w.cause d := by
  rw [mem_warningsOf]
  constructor
  · rintro ⟨d, hmem, hname⟩
    obtain ⟨hfirst, hkind⟩ := h.firstListed hmem
    exact ⟨d, hfirst, hname, hkind, Outcome.isToldIn_error.1 (h.told _ hmem)⟩
  · rintro ⟨d, hfirst, hname, hfails⟩
    obtain ⟨outcome, hmem⟩ := h.exists_outcome hfirst hfails.1
    cases outcome with
    | ok s =>
      obtain ⟨-, -, himport⟩ := Outcome.isToldIn_ok.1 (h.told _ hmem)
      exact absurd hfails (Resolves.not_fails ⟨hfails.1, himport⟩ w.cause)
    | error cause =>
      have hfailed := Outcome.isToldIn_error.1 (h.told _ hmem)
      rw [hfails.2] at hfailed
      cases hfailed
      exact ⟨d, hmem, hname⟩

theorem namesOf_resolved : NamesOf a (Resolves b) ((resolvedOf outcomes).map (·.name)) := by
  intro name
  rw [List.mem_map]
  constructor
  · rintro ⟨s, hs, rfl⟩
    obtain ⟨d, hfirst, hname, -, hd⟩ := (h.resolved_iff s.name s.path).1 ⟨s, hs, rfl, rfl⟩
    exact ⟨d, hfirst, hname, hd⟩
  · rintro ⟨d, hfirst, rfl, hd⟩
    obtain ⟨s, hs, hname, -⟩ := (h.resolved_iff d.name d.path).2 ⟨d, hfirst, rfl, rfl, hd⟩
    exact ⟨s, hs, hname⟩

theorem namesOf_warnings :
    NamesOf a (fun d => ∃ cause, Fails b cause d) ((warningsOf outcomes).map (·.module)) := by
  intro name
  rw [List.mem_map]
  constructor
  · rintro ⟨w, hw, rfl⟩
    obtain ⟨d, hfirst, hname, hfails⟩ := (h.warnings_iff w).1 hw
    exact ⟨d, hfirst, hname, w.cause, hfails⟩
  · rintro ⟨d, hfirst, rfl, cause, hfails⟩
    exact ⟨⟨d.name, cause⟩, (h.warnings_iff _).2 ⟨d, hfirst, rfl, hfails⟩, rfl⟩

/-- No two outcomes are for modules of one name. -/
theorem names_ne : outcomes.Pairwise fun x y => x.1.name ≠ y.1.name := by
  have hnodup : ((outcomes.map Prod.fst).map (·.name)).Nodup := by
    rw [h.modules]
    exact (nodup_firstOfEachName _).sublist (List.filter_sublist.map _)
  rwa [List.map_map, List.Nodup, List.pairwise_map] at hnodup

theorem nodup_resolved : ((resolvedOf outcomes).map (·.name)).Nodup := by
  rw [List.Nodup, List.pairwise_map, resolvedOf, List.pairwise_filterMap]
  refine h.names_ne.imp_of_mem ?_
  rintro ⟨m, outcome⟩ ⟨m', outcome'⟩ hmem hmem' hne s hs s' hs'
  -- Each summary has the name of its module.
  cases outcome with
  | error e => cases hs
  | ok found =>
    cases outcome' with
    | error e => cases hs'
    | ok found' =>
      cases hs
      cases hs'
      rw [(Outcome.isToldIn_ok.1 (h.told _ hmem)).1, (Outcome.isToldIn_ok.1 (h.told _ hmem')).1]
      exact hne

theorem nodup_warnings : ((warningsOf outcomes).map (·.module)).Nodup := by
  rw [List.Nodup, List.pairwise_map, warningsOf, List.pairwise_filterMap]
  refine h.names_ne.imp ?_
  rintro ⟨m, outcome⟩ ⟨m', outcome'⟩ hne w hw w' hw'
  cases outcome with
  | ok found => cases hw
  | error e =>
    cases outcome' with
    | ok found' => cases hw'
    | error e' =>
      cases hw
      cases hw'
      exact hne

end Surveyed

end Outcomes

/-! ### The modules that are passed over -/

section Skipped

variable {a : Atlas}

theorem skipped_iff (s : SkippedModule) :
    s ∈ scanSkipped a ↔ ∃ d, FirstListed a d ∧ PassedOver d ∧ s = ⟨d.name, d.kind⟩ := by
  rw [scanSkipped, mem_skippedOf]
  simp only [List.mem_filter, mem_scanned, not_analyzable_iff, PassedOver, and_assoc]

theorem namesOf_skipped : NamesOf a PassedOver ((scanSkipped a).map (·.name)) := by
  intro name
  rw [List.mem_map]
  constructor
  · rintro ⟨s, hs, rfl⟩
    obtain ⟨d, hfirst, hkind, rfl⟩ := (skipped_iff s).1 hs
    exact ⟨d, hfirst, rfl, hkind⟩
  · rintro ⟨d, hfirst, rfl, hkind⟩
    exact ⟨⟨d.name, d.kind⟩, (skipped_iff _).2 ⟨d, hfirst, hkind, rfl⟩, rfl⟩

theorem nodup_skipped (a : Atlas) : ((scanSkipped a).map (·.name)).Nodup := by
  rw [scanSkipped, skippedOf, List.map_map]
  exact (nodup_firstOfEachName _).sublist (List.filter_sublist.map _)

end Skipped

/-! ### The accounts of a scan -/

section Accounts

variable {a b : Atlas} {outcomes : List Outcome}

theorem Surveyed.accounting (h : Surveyed a b outcomes) :
    Accounting a b (sortedBy ModuleSummary.name (resolvedOf outcomes))
      (sortedBy ScanWarning.module (warningsOf outcomes))
      (sortedBy SkippedModule.name (scanSkipped a)) where
  resolved_sorted := sortedBy_strictly h.nodup_resolved
  warnings_sorted := sortedBy_strictly h.nodup_warnings
  skipped_sorted := sortedBy_strictly (nodup_skipped a)
  resolved_warnings := by
    refine h.namesOf_resolved.sortedBy.disjoint h.namesOf_warnings.sortedBy fun d hd hfails => ?_
    obtain ⟨cause, hfails⟩ := hfails
    exact hd.not_fails cause hfails
  resolved_skipped := by
    refine h.namesOf_resolved.sortedBy.disjoint namesOf_skipped.sortedBy fun d hd => ?_
    exact not_passedOver_of_source hd.1
  warnings_skipped := by
    refine h.namesOf_warnings.sortedBy.disjoint namesOf_skipped.sortedBy fun d hfails => ?_
    obtain ⟨cause, hfails⟩ := hfails
    exact not_passedOver_of_source hfails.1
  all := by
    intro name
    rw [List.mem_append, List.mem_append, h.namesOf_resolved.sortedBy name,
      h.namesOf_warnings.sortedBy name, namesOf_skipped.sortedBy name]
    constructor
    · rintro ⟨d, hmem, rfl⟩
      -- The first module that is listed under the name stands for all of them.
      obtain ⟨first, hfirst, hname⟩ := FirstListed.exists_of_mem hmem
      rcases resolves_or_fails_or_passedOver b first with hresolves | hfails | hother
      · exact .inl (.inl ⟨first, hfirst, hname, hresolves⟩)
      · exact .inl (.inr ⟨first, hfirst, hname, hfails⟩)
      · exact .inr ⟨first, hfirst, hname, hother⟩
    · rintro ((⟨d, hfirst, hname, -⟩ | ⟨d, hfirst, hname, -⟩) | ⟨d, hfirst, hname, -⟩)
      · exact ⟨d, hfirst.mem, hname⟩
      · exact ⟨d, hfirst.mem, hname⟩
      · exact ⟨d, hfirst.mem, hname⟩
  resolved_iff := by
    intro name path
    simp only [mem_sortedBy]
    exact h.resolved_iff name path
  warnings_iff := fun w => mem_sortedBy.trans (h.warnings_iff w)
  skipped_iff := fun s => mem_sortedBy.trans (skipped_iff s)

/-- A scan only adds to what is settled, and accounts for every module that a walk lists once. It
    fails if and only if no module that it looks at can be imported, and then it tells how many it
    tried and how many it passed over. -/
theorem scan_accounts (a : Atlas) :
    a.LeadsTo (scan a).2
    ∧ (match (scan a).1 with
      | .ok report =>
        report.resolved ≠ []
          ∧ Accounting a (scan a).2 report.resolved report.warnings report.skipped
      | .error failure =>
        ∃ skipped, Accounting a (scan a).2 [] failure.warnings skipped
          ∧ failure.attempted = failure.warnings.length ∧ failure.skipped = skipped.length)
    ∧ ((∃ failure, (scan a).1 = .error failure)
      ↔ ∀ d, FirstListed a d → ¬Resolves (scan a).2 d) := by
  have hsurveyed := surveyed a
  have haccounting := hsurveyed.accounting
  by_cases hnone : resolvedOf (scanOutcomes a).1 = []
  · rw [scan_of_nothing hnone]
    have hsorted : sortedBy ModuleSummary.name [] = [] := List.mergeSort_nil
    rw [hnone, hsorted] at haccounting
    refine ⟨scanOutcomes_leadsTo a, ⟨_, haccounting, rfl, length_sortedBy.symm⟩, ?_⟩
    refine ⟨fun _ d hfirst hresolves => ?_, fun _ => ⟨_, rfl⟩⟩
    obtain ⟨s, hs, -⟩ := (haccounting.resolved_iff _ _).2 ⟨d, hfirst, rfl, rfl, hresolves⟩
    cases hs
  · rw [scan_of_some hnone]
    -- Some module was read, and an atlas that has read it can import it.
    obtain ⟨s, hs⟩ := List.exists_mem_of_ne_nil _ hnone
    refine ⟨scanOutcomes_leadsTo a, ⟨fun hnil => ?_, haccounting⟩, fun hfailed => ?_, fun hall => ?_⟩
    · have hmem : s ∈ sortedBy ModuleSummary.name (resolvedOf (scanOutcomes a).1) :=
        mem_sortedBy.2 hs
      exact List.ne_nil_of_mem hmem hnil
    · obtain ⟨failure, hfailure⟩ := hfailed
      cases hfailure
    · obtain ⟨d, hfirst, -, -, hresolves⟩ :=
        (hsurveyed.resolved_iff s.name s.path).1 ⟨s, hs, rfl, rfl⟩
      exact absurd hresolves (hall d hfirst)

end Accounts

end PyAtlas.Report
