import Mathlib.Data.List.Basic
import Mathlib.Data.List.TakeDrop
import PyAtlas.Library.Walk
import PyAtlas.Proofs.Files.Ordered

/-!
# Walking and locating agree

A walk through a library lists a module under a dotted name exactly where locating the name in
that library finds it, and lists it once. The walk goes from the files to the names and decides
for each file whether something stands in front of it; locating goes from a name to the files
that may hold it. What both have in common is the file that `moduleFile?` chooses, and in a
directory whose entries are in order one entry at most has the name of that file.

Two kinds of names are left out: those in a directory that no walk looks into, and the file of
a package, which can be located under its own name as well.

## Key results
- `flatMap_of_only`: where entries of one name alone contribute, their contribution is all.
- `modulesBelow_filter`: the modules of a name below a directory.
- `libraryModules_filter`: the modules of a name in a library.
- `SearchPath.walk_agrees`: the same for all libraries of a search path.
-/

namespace PyAtlas

/-! ### Names -/

/-- Identifiers have no points in them. -/
theorem point_not_mem_of_isIdentifier {name : String} (h : Text.isIdentifier name = true) :
    '.' ∉ name.toList := by
  have hpart : Text.isIdentPart '.' = false := by decide
  obtain ⟨first, rest, hname, hfirst, hrest⟩ := Text.isIdentifier_iff.1 h
  rw [hname]
  intro hmem
  rcases List.mem_cons.1 hmem with rfl | hmem
  · rw [Text.isIdentPart_of_isIdentStart hfirst] at hpart
    cases hpart
  · rw [hrest _ hmem] at hpart
    cases hpart

/-- The parts of the names of packages around a module. -/
def packageSegments : Option String → List String
  | some package => DottedName.segments package
  | none => []

theorem segments_qualify {name : String} (package : Option String)
    (h : Text.isIdentifier name = true) :
    DottedName.segments (qualify package name) = packageSegments package ++ [name] := by
  have hname := DottedName.segments_of_not_mem (point_not_mem_of_isIdentifier h)
  cases package with
  | none => exact hname
  | some package => rw [qualify, DottedName.segments_append, hname]; rfl

/-- A walk finds modules below directories whose names are identifiers only. -/
theorem isIdentifier_of_isPackageName {name : String} (h : isPackageName name = true) :
    Text.isIdentifier name = true :=
  (Bool.and_eq_true_iff.1 h).2

/-! ### Module files -/

theorem Path.cutLast?_append_cons {p : Char → Bool} {c : Char} (cs : List Char) {ds : List Char}
    (hc : p c = true) (hds : ∀ d ∈ ds, p d = false) :
    cutLast? p (cs ++ c :: ds) = some (cs, ds) := by
  have hback : ∀ d ∈ ds.reverse, (!p d) = true := fun d hd => by
    rw [hds d (List.mem_reverse.1 hd)]
    rfl
  have hreverse : (cs ++ c :: ds).reverse = ds.reverse ++ c :: cs.reverse := by simp
  rw [cutLast?, hreverse, List.span_eq_takeWhile_dropWhile, List.takeWhile_append_of_pos hback,
    List.dropWhile_append_of_pos hback]
  simp [hc]

/-- A file with one of the preferred extensions holds the module that it is named for. -/
theorem classifyFile?_of_preferred {name extension : String} {kind : ModuleKind}
    (hname : Text.isIdentifier name = true) (h : (extension, kind) ∈ preferredExtensions) :
    classifyFile? (name ++ "." ++ extension) = some (name, kind) := by
  have hpoint : extension.toList.all (fun d => !(d == '.')) = true := by
    simp only [preferredExtensions, List.mem_cons, Prod.mk.injEq, List.not_mem_nil, or_false] at h
    rcases h with ⟨rfl, -⟩ | ⟨rfl, -⟩ | ⟨rfl, -⟩ | ⟨rfl, -⟩ <;> decide
  have hkind : ModuleKind.ofExtension? extension = some kind ∧ kind ≠ .native := by
    simp only [preferredExtensions, List.mem_cons, Prod.mk.injEq, List.not_mem_nil, or_false] at h
    rcases h with ⟨rfl, rfl⟩ | ⟨rfl, rfl⟩ | ⟨rfl, rfl⟩ | ⟨rfl, rfl⟩ <;> decide
  have htext : (name ++ "." ++ extension).toList = name.toList ++ '.' :: extension.toList := by
    rw [String.toList_append, String.toList_append, List.append_assoc]
    rfl
  rw [classifyFile?, htext, Path.cutLast?_append_cons _ rfl fun d hd => by
    simpa using List.all_eq_true.1 hpoint d hd]
  simp [hkind.1, hkind.2, hname]

/-- The file that is chosen for a module is there, and holds the module of that name. -/
theorem moduleFile?_spec {entries : Entries} {name file : String} {kind : ModuleKind}
    (hname : Text.isIdentifier name = true) (h : moduleFile? entries name = some (file, kind)) :
    classifyFile? file = some (name, kind) ∧ ∃ content, (file, .file content) ∈ entries := by
  -- It has one of the extensions that are looked for by name, or else it is the first file of its
  -- kind.
  rcases Option.or_eq_some_iff.1 h with h | ⟨-, h⟩
  · obtain ⟨⟨extension, preferred⟩, hmem, hfile⟩ := List.exists_of_findSome?_eq_some h
    simp only [Option.ite_none_right_eq_some, Option.some.injEq, Prod.mk.injEq] at hfile
    obtain ⟨hfound, rfl, rfl⟩ := hfile
    refine ⟨classifyFile?_of_preferred hname hmem, ?_⟩
    rw [hasFile] at hfound
    split at hfound
    · rename_i tree hchild
      cases tree with
      | file content => exact ⟨content, FileTree.mem_of_child? hchild⟩
      | directory inner => cases hfound
    · cases hfound
  · obtain ⟨⟨fileName, tree⟩, hmem, hfile⟩ := List.exists_of_findSome?_eq_some h
    simp only [Option.ite_none_right_eq_some, Bool.and_eq_true, beq_iff_eq, Option.some.injEq,
      Prod.mk.injEq] at hfile
    obtain ⟨⟨htree, hclass⟩, rfl, rfl⟩ := hfile
    refine ⟨hclass, ?_⟩
    cases tree with
    | file content => exact ⟨content, hmem⟩
    | directory inner => cases htree

/-- A directory in a directory is a package if it has the file that makes it one. -/
theorem package?_of_mem {entries inner : Entries} {name : String}
    (h : FileTree.NamesInOrder entries) (hmem : (name, .directory inner) ∈ entries) :
    package? entries name = (moduleFile? inner packageStem).map fun init => (inner, init) := by
  rw [package?, (FileTree.child?_eq_some_iff h).2 hmem]

/-! ### One entry alone -/

/-- Where the entry of one name alone contributes, its contribution is all there is. -/
theorem flatMap_of_only {α : Type} {g : String × FileTree → List α} {entries : Entries}
    (h : FileTree.NamesInOrder entries) (key : String)
    (honly : ∀ entry ∈ entries, entry.1 ≠ key → g entry = []) :
    entries.flatMap g = ((FileTree.child? entries key).map fun tree => g (key, tree)).getD [] := by
  induction entries with
  | nil => rfl
  | cons entry rest ih =>
    obtain ⟨name, tree⟩ := entry
    obtain ⟨hfirst, hrest⟩ := List.pairwise_cons.1 h
    rw [List.flatMap_cons]
    by_cases hkey : name = key
    · subst hkey
      have hnone : rest.flatMap g = [] := List.flatMap_eq_nil_iff.2 fun entry hentry =>
        honly entry (List.mem_cons_of_mem _ hentry) fun heq =>
          String.lt_irrefl _ (heq ▸ hfirst entry hentry)
      rw [hnone, List.append_nil, FileTree.child?, List.lookup_cons_self]
      rfl
    · rw [honly _ List.mem_cons_self hkey, List.nil_append,
        ih hrest fun entry hentry => honly entry (List.mem_cons_of_mem _ hentry)]
      have hbeq : (key == name) = false := beq_eq_false_iff_ne.2 (Ne.symm hkey)
      rw [FileTree.child?, FileTree.child?, List.lookup_cons, hbeq]

theorem filterMap_of_only {α : Type} {g : String × FileTree → Option α} {entries : Entries}
    (h : FileTree.NamesInOrder entries) (key : String)
    (honly : ∀ entry ∈ entries, entry.1 ≠ key → g entry = none) :
    entries.filterMap g
      = ((FileTree.child? entries key).bind fun tree => g (key, tree)).toList := by
  rw [List.filterMap_eq_flatMap_toList,
    flatMap_of_only h key fun entry hentry hne => by rw [honly entry hentry hne]; rfl]
  cases FileTree.child? entries key <;> rfl

/-! ### The modules of one name -/

/-- A walk lists modules whose names are identifiers only. -/
theorem isIdentifier_of_classifyFile? {fileName name : String} {kind : ModuleKind}
    (h : classifyFile? fileName = some (name, kind)) : Text.isIdentifier name = true := by
  simp only [classifyFile?, Option.bind_eq_bind, Option.bind_eq_some_iff,
    Option.ite_none_right_eq_some, Option.some.injEq, Prod.mk.injEq] at h
  obtain ⟨_, _, _, _, hname, rfl, -⟩ := h
  exact hname

section

variable {library dir : String} {package : Option String} {entries : Entries}

/-- The module that a directory stands for. -/
theorem entryModule?_directory {name : String} {inner : Entries} {d : ModuleLocation} :
    entryModule? library dir package entries (name, .directory inner) = some d ↔
      isPackageName name = true ∧ ∃ file kind, moduleFile? inner packageStem = some (file, kind)
        ∧ d = ⟨qualify package name, Path.join (Path.join dir name) file, library, kind, true⟩ := by
  rw [entryModule?, Option.ite_none_right_eq_some, Option.map_eq_some_iff]
  simp only [Prod.exists, eq_comm]

/-- The module that a file stands for. -/
theorem entryModule?_file {fileName : String} {content : ByteArray} {d : ModuleLocation} :
    entryModule? library dir package entries (fileName, .file content) = some d ↔
      ∃ name kind, classifyFile? fileName = some (name, kind) ∧ name ≠ packageStem
        ∧ package? entries name = none
        ∧ (moduleFile? entries name).map Prod.fst = some fileName
        ∧ d = ⟨qualify package name, Path.join dir fileName, library, kind, false⟩ := by
  rw [entryModule?, Option.bind_eq_bind, Option.bind_eq_some_iff]
  simp only [Prod.exists, Option.ite_none_left_eq_some, Option.isSome_iff_ne_none, ne_eq,
    bne_iff_ne, Decidable.not_not, Option.some.injEq, @eq_comm _ d]

/-- A module that an entry stands for has a name of its own in the package. -/
theorem entryModule?_name {entry : String × FileTree} {d : ModuleLocation}
    (h : entryModule? library dir package entries entry = some d) :
    ∃ name, Text.isIdentifier name = true ∧ d.name = qualify package name := by
  obtain ⟨fileName, tree⟩ := entry
  cases tree with
  | file content =>
    obtain ⟨name, kind, hclass, -, -, -, rfl⟩ := entryModule?_file.1 h
    exact ⟨name, isIdentifier_of_classifyFile? hclass, rfl⟩
  | directory inner =>
    obtain ⟨hname, _, _, -, rfl⟩ := entryModule?_directory.1 h
    exact ⟨fileName, isIdentifier_of_isPackageName hname, rfl⟩

theorem qualify_injective {a b : String} (ha : Text.isIdentifier a = true)
    (hb : Text.isIdentifier b = true) (h : qualify package a = qualify package b) : a = b := by
  have hsegments := segments_qualify package ha
  rw [h, segments_qualify package hb] at hsegments
  exact (List.cons.inj (List.append_cancel_left hsegments)).1.symm

/-- The entry of a directory that holds the module of a name: a package of that name or, where
    there is none, the file that is chosen for it. -/
def holder? (entries : Entries) (name : String) : Option String :=
  match package? entries name with
  | some _ => some name
  | none => (moduleFile? entries name).map Prod.fst

/-- An entry that stands for the module of a name holds it. -/
theorem holder?_of_entryModule? (horder : FileTree.NamesInOrder entries) {name : String}
    (hname : Text.isIdentifier name = true) {entry : String × FileTree} (hmem : entry ∈ entries)
    {d : ModuleLocation} (h : entryModule? library dir package entries entry = some d)
    (hd : d.name = qualify package name) : holder? entries name = some entry.1 := by
  obtain ⟨entryName, tree⟩ := entry
  cases tree with
  | file content =>
    obtain ⟨_, _, hclass, -, hpackage, hfile, rfl⟩ := entryModule?_file.1 h
    obtain rfl := qualify_injective (isIdentifier_of_classifyFile? hclass) hname hd
    rw [holder?, hpackage]
    exact hfile
  | directory inner =>
    obtain ⟨hentry, _, _, hinit, rfl⟩ := entryModule?_directory.1 h
    obtain rfl := qualify_injective (isIdentifier_of_isPackageName hentry) hname hd
    rw [holder?, package?_of_mem horder hmem, hinit]
    rfl

/-- The entry that holds the module of a name stands for the module that is located. -/
theorem entryModule?_of_holder? (horder : FileTree.NamesInOrder entries) {name key : String}
    (hname : isPackageName name = true) (hinit : name ≠ packageStem)
    (h : holder? entries name = some key) :
    ((FileTree.child? entries key).bind fun tree =>
        (entryModule? library dir package entries (key, tree)).filter
          (·.name == qualify package name))
      = moduleIn? library dir entries (qualify package name) name := by
  have hident := isIdentifier_of_isPackageName hname
  rw [holder?] at h
  rw [moduleIn?]
  -- A package of the name holds the module, whatever files there are. Without one a file does.
  cases hpackage : package? entries name with
  | some found =>
    obtain ⟨inner, file, kind⟩ := found
    rw [hpackage] at h
    obtain rfl := Option.some.inj h
    rw [package?] at hpackage
    split at hpackage
    · rename_i inner' hchild
      obtain ⟨_, hfile, heq⟩ := Option.map_eq_some_iff.1 hpackage
      obtain ⟨rfl, rfl⟩ := Prod.mk.inj heq
      have hentry : entryModule? library dir package entries (name, .directory inner') = _ :=
        entryModule?_directory.2 ⟨hname, file, kind, hfile, rfl⟩
      rw [hchild, Option.bind_some, hentry]
      simp
    · cases hpackage
  | none =>
    rw [hpackage] at h
    obtain ⟨⟨file, kind⟩, hfile, rfl⟩ := Option.map_eq_some_iff.1 h
    obtain ⟨hclass, content, hmem⟩ := moduleFile?_spec hident hfile
    have hentry : entryModule? library dir package entries (file, .file content) = _ :=
      entryModule?_file.2 ⟨name, kind, hclass, hinit, hpackage, by rw [hfile]; rfl, rfl⟩
    rw [(FileTree.child?_eq_some_iff horder).2 hmem, Option.bind_some, hentry, hfile]
    simp

/-- The modules of a name that entries of a directory stand for: the one that is located. -/
theorem entryModules_filter (horder : FileTree.NamesInOrder entries) {name : String}
    (hname : isPackageName name = true) (hinit : name ≠ packageStem) :
    (entries.filterMap (entryModule? library dir package entries)).filter
        (·.name == qualify package name)
      = (moduleIn? library dir entries (qualify package name) name).toList := by
  have hholder : ∀ entry ∈ entries, holder? entries name ≠ some entry.1 →
      (entryModule? library dir package entries entry).filter (·.name == qualify package name)
        = none := by
    intro entry hmem hne
    refine Option.eq_none_iff_forall_ne_some.2 fun d hd => hne ?_
    obtain ⟨hd, hnamed⟩ := Option.filter_eq_some_iff.1 hd
    exact holder?_of_entryModule? horder (isIdentifier_of_isPackageName hname) hmem hd
      (eq_of_beq hnamed)
  -- At most one entry is left by the filter: the holder of the name.
  rw [List.filter_filterMap]
  cases hkey : holder? entries name with
  | some key =>
    rw [filterMap_of_only horder key, entryModule?_of_holder? horder hname hinit hkey]
    refine fun entry hmem hne => hholder entry hmem fun heq => hne ?_
    exact Option.some.inj (heq.symm.trans hkey)
  | none =>
    rw [List.filterMap_eq_nil_iff.2 fun entry hmem =>
      hholder entry hmem (by rw [hkey]; exact fun h => nomatch h)]
    rw [holder?] at hkey
    rw [moduleIn?]
    cases hpackage : package? entries name with
    | some found => rw [hpackage] at hkey; cases hkey
    | none =>
      rw [hpackage] at hkey
      rw [Option.map_eq_none_iff.1 hkey]
      rfl

end

/-! ### The modules below a directory -/

/-- What a walk lists below the packages in a directory, package by package. -/
def packageModules (library dir : String) (package : Option String) (entry : String × FileTree) :
    List ModuleLocation :=
  if isPackageName entry.1 && (moduleFile? entry.2.entries packageStem).isSome then
    modulesBelow library (Path.join dir entry.1) (some (qualify package entry.1)) entry.2
  else []

theorem modulesInPackages_eq (library dir : String) (package : Option String)
    (entries : Entries) :
    modulesInPackages library dir package entries
      = entries.flatMap (packageModules library dir package) := by
  induction entries with
  | nil => rfl
  | cons entry rest ih => rw [modulesInPackages, ih, List.flatMap_cons]; rfl

/-- The parts of a dotted name are those of the package and some identifiers more. -/
def Beneath (package : Option String) (name : String) (more : List String) : Prop :=
  DottedName.segments name = packageSegments package ++ more
    ∧ more.all Text.isIdentifier = true ∧ more ≠ []

theorem Beneath.package {package : Option String} {name part : String} {more : List String}
    (h : Beneath (some (qualify package part)) name more) (hpart : Text.isIdentifier part = true) :
    Beneath package name (part :: more) := by
  obtain ⟨hsegments, hmore, -⟩ := h
  refine ⟨?_, ?_, List.cons_ne_nil _ _⟩
  · rw [hsegments, packageSegments, segments_qualify package hpart, List.append_assoc]
    rfl
  · rw [List.all_cons, hpart, hmore]
    rfl

/-- What leads on from a directory leads on from the package that its first part names. -/
theorem Beneath.inner {package : Option String} {name part next : String} {more : List String}
    (h : Beneath package name (part :: next :: more)) (hpart : Text.isIdentifier part = true) :
    Beneath (some (qualify package part)) name (next :: more) := by
  obtain ⟨hsegments, hmore, -⟩ := h
  refine ⟨?_, ?_, List.cons_ne_nil _ _⟩
  · rw [hsegments, packageSegments, segments_qualify package hpart, List.append_assoc]
    rfl
  · rw [List.all_cons, Bool.and_eq_true_iff] at hmore
    exact hmore.2

theorem Beneath.more_unique {package : Option String} {name : String} {more more' : List String}
    (h : Beneath package name more) (h' : Beneath package name more') : more = more' :=
  List.append_cancel_left (h.1.symm.trans h'.1)

theorem Beneath.of_entry {library dir : String} {package : Option String} {entries : Entries}
    {entry : String × FileTree} {d : ModuleLocation}
    (h : entryModule? library dir package entries entry = some d) :
    ∃ part, Beneath package d.name [part] := by
  obtain ⟨part, hpart, hname⟩ := entryModule?_name h
  refine ⟨part, ?_, ?_, List.cons_ne_nil _ _⟩
  · rw [hname, segments_qualify package hpart]
  · rw [List.all_cons, hpart]
    rfl

mutual

/-- The modules below a directory are named for their places. -/
theorem Beneath.of_modulesBelow (library dir : String) (package : Option String) :
    (tree : FileTree) → ∀ d ∈ modulesBelow library dir package tree,
      ∃ more, Beneath package d.name more
  | .file _, d, h => by cases h
  | .directory entries, d, h => by
    rw [modulesBelow] at h
    rcases List.mem_append.1 h with h | h
    · obtain ⟨entry, -, hentry⟩ := List.mem_filterMap.1 h
      obtain ⟨part, hpart⟩ := Beneath.of_entry hentry
      exact ⟨_, hpart⟩
    · obtain ⟨part, more, -, hmore⟩ := Beneath.of_modulesInPackages library dir package entries d h
      exact ⟨_, hmore⟩

/-- So are those below the packages in it, and they lie one level further down at least. -/
theorem Beneath.of_modulesInPackages (library dir : String) (package : Option String) :
    (entries : Entries) → ∀ d ∈ modulesInPackages library dir package entries,
      ∃ part more, more ≠ [] ∧ Beneath package d.name (part :: more)
  | [], d, h => by cases h
  | (name, tree) :: rest, d, h => by
    rw [modulesInPackages] at h
    rcases List.mem_append.1 h with h | h
    · split at h
      · rename_i hcond
        have hname := isIdentifier_of_isPackageName (Bool.and_eq_true_iff.1 hcond).1
        obtain ⟨more, hmore⟩ := Beneath.of_modulesBelow library _ _ tree d h
        exact ⟨name, more, hmore.2.2, hmore.package hname⟩
      · cases h
    · exact Beneath.of_modulesInPackages library dir package rest d h

end

/-- A module directly in a directory is not listed below the packages in it. -/
theorem modulesInPackages_filter_single {library dir : String} {package : Option String}
    {entries : Entries} {name part : String} (h : Beneath package name [part]) :
    (modulesInPackages library dir package entries).filter (·.name == name) = [] := by
  refine List.filter_eq_nil_iff.2 fun d hd hname => ?_
  obtain ⟨part', more, hne, hmore⟩ := Beneath.of_modulesInPackages library dir package entries d hd
  rw [eq_of_beq hname] at hmore
  exact hne (List.cons.inj (h.more_unique hmore)).2.symm

/-- A module further down is not among those that the entries stand for. -/
theorem entryModules_filter_nested {library dir : String} {package : Option String}
    {entries : Entries} {name part next : String} {more : List String}
    (h : Beneath package name (part :: next :: more)) :
    (entries.filterMap (entryModule? library dir package entries)).filter (·.name == name)
      = [] := by
  refine List.filter_eq_nil_iff.2 fun d hd hname => ?_
  obtain ⟨entry, -, hentry⟩ := List.mem_filterMap.1 hd
  obtain ⟨part', hpart'⟩ := Beneath.of_entry hentry
  rw [eq_of_beq hname] at hpart'
  exact List.cons_ne_nil _ _ (List.cons.inj (h.more_unique hpart')).2

/-- It is listed below the package that its name leads to. -/
theorem packageModules_filter_other {library dir : String} {package : Option String}
    {entry : String × FileTree} {name part : String} {more : List String}
    (h : Beneath package name (part :: more)) (hne : entry.1 ≠ part) :
    (packageModules library dir package entry).filter (·.name == name) = [] := by
  refine List.filter_eq_nil_iff.2 fun d hd hname => ?_
  rw [packageModules] at hd
  split at hd
  · rename_i hcond
    have hentry := isIdentifier_of_isPackageName (Bool.and_eq_true_iff.1 hcond).1
    obtain ⟨more', hmore'⟩ := Beneath.of_modulesBelow library _ _ entry.2 d hd
    have hbeneath := hmore'.package hentry
    rw [eq_of_beq hname] at hbeneath
    exact hne (List.cons.inj (h.more_unique hbeneath)).1.symm
  · cases hd

/-- Names that a walk may list: it looks into no `__pycache__`, and the file of a package is
    listed as the package. -/
def Listable (parts : List String) : Prop :=
  "__pycache__" ∉ parts ∧ parts.getLast? ≠ some packageStem

theorem Listable.tail {part next : String} {more : List String}
    (h : Listable (part :: next :: more)) : Listable (next :: more) :=
  ⟨fun hmem => h.1 (List.mem_cons_of_mem _ hmem), fun hlast => h.2 hlast⟩

/-- The modules of a name below a directory: the one that the parts of the name lead to. -/
theorem modulesBelow_filter {library name : String} {parts : List String} {dir : String}
    {package : Option String} {entries : Entries} (horder : (FileTree.directory entries).Ordered)
    (hbeneath : Beneath package name parts) (hlistable : Listable parts) :
    (modulesBelow library dir package (.directory entries)).filter (·.name == name)
      = (locateFrom? library name parts dir entries).toList := by
  induction parts generalizing dir package entries with
  | nil => exact absurd rfl hbeneath.2.2
  | cons part more ih =>
    obtain ⟨hnames, hbelow⟩ := FileTree.ordered_directory.1 horder
    have hall := hbeneath.2.1
    rw [List.all_cons, Bool.and_eq_true_iff] at hall
    have hcache : part ≠ "__pycache__" := fun h => hlistable.1 (h ▸ List.mem_cons_self)
    have hpart : isPackageName part = true := by
      rw [isPackageName, hall.1, Bool.and_true, bne_iff_ne]
      exact hcache
    rw [modulesBelow, List.filter_append]
    -- The last part of the name is the module itself. It is not listed below any package.
    cases more with
    | nil =>
      have hname : name = qualify package part :=
        DottedName.segments_injective (by rw [hbeneath.1, segments_qualify package hall.1])
      have hinit : part ≠ packageStem := fun h => hlistable.2 (h ▸ rfl)
      rw [modulesInPackages_filter_single hbeneath, List.append_nil, hname,
        entryModules_filter hnames hpart hinit]
      rfl
    | cons next more =>
      -- Otherwise the module is below the package of the first part, if there is one, and nowhere
      -- else.
      rw [entryModules_filter_nested hbeneath, List.nil_append, modulesInPackages_eq,
        List.filter_flatMap, flatMap_of_only hnames part fun entry _ hne =>
          packageModules_filter_other hbeneath hne]
      rw [locateFrom?.eq_3 _ _ _ _ _ _ (List.cons_ne_nil next more), package?]
      cases hchild : FileTree.child? entries part with
      | none => rfl
      | some tree =>
        cases tree with
        | file content =>
          have hfile : moduleFile? [] packageStem = none := by decide
          simp [packageModules, FileTree.entries, hfile]
        | directory inner =>
          cases hinit : moduleFile? inner packageStem with
          | none => simp [packageModules, FileTree.entries, hinit]
          | some init =>
            have hinner := @ih (Path.join dir part) (some (qualify package part)) inner
              (hbelow _ (FileTree.mem_of_child? hchild)) (hbeneath.inner hall.1) hlistable.tail
            simpa [packageModules, FileTree.entries, hinit, hpart] using hinner

/-! ### Libraries and search paths -/

/-- Nothing is found in an empty directory. -/
theorem locateFrom?_empty (library name : String) (parts : List String) (dir : String) :
    locateFrom? library name parts dir [] = none := by
  have hfile : ∀ part, moduleFile? [] part = none := fun part => by
    simp [moduleFile?, preferredExtensions, hasFile, FileTree.child?]
  have hpackage : ∀ part, package? [] part = none := fun _ => rfl
  match parts with
  | [] => rfl
  | [part] => simp [locateFrom?, moduleIn?, hpackage, hfile]
  | part :: next :: more => simp [locateFrom?, hpackage]

/-- The modules of a name in a library: the one that is located. -/
theorem libraryModules_filter {fs : FileSystem} (hfs : fs.Ordered) (library name : String)
    (hlistable : Listable (DottedName.segments name)) :
    (libraryModules fs library).filter (·.name == name)
      = if (DottedName.segments name).all Text.isIdentifier then
          (locateIn? fs library name).toList
        else [] := by
  by_cases hall : (DottedName.segments name).all Text.isIdentifier = true
  · have hbeneath : Beneath none name (DottedName.segments name) :=
      ⟨rfl, hall, DottedName.segments_ne_nil name⟩
    rw [if_pos hall, libraryModules, locateIn?, FileSystem.entries?]
    cases hfind : fs.find library with
    | error e =>
      show [] = (locateFrom? library name _ library []).toList
      rw [locateFrom?_empty]
      rfl
    | ok tree =>
      cases tree with
      | file content =>
        show [] = (locateFrom? library name _ library []).toList
        rw [locateFrom?_empty]
        rfl
      | directory entries => exact modulesBelow_filter (hfs.find hfind) hbeneath hlistable
  -- A walk lists only names whose parts are identifiers.
  · rw [if_neg hall]
    refine List.filter_eq_nil_iff.2 fun d hd hname => hall ?_
    rw [libraryModules] at hd
    split at hd
    · obtain ⟨more, hmore⟩ := Beneath.of_modulesBelow library _ none _ d hd
      rw [← eq_of_beq hname, hmore.1]
      exact hmore.2.1
    · cases hd

/-- Walking and locating agree: a name is located where a walk lists it first, and a walk lists
    no name twice in one library. -/
theorem SearchPath.walk_agrees (libraries : SearchPath) (fs : FileSystem) (hfs : fs.Ordered)
    (name : String) (hcache : "__pycache__" ∉ DottedName.segments name)
    (hinit : (DottedName.segments name).getLast? ≠ some packageStem) :
    (∀ d, libraries.locate? fs name = some d ↔
        (libraries.modules fs).find? (·.name == name) = some d)
      ∧ ∀ library ∈ libraries,
          ((libraryModules fs library).filter (·.name == name)).length ≤ 1 := by
  have hlibrary := fun library => libraryModules_filter hfs library name ⟨hcache, hinit⟩
  refine ⟨fun d => ?_, fun library _ => ?_⟩
  · -- The first module of the name is the first one of the first library that has one.
    have hfirst : ∀ library, (libraryModules fs library).find? (·.name == name)
        = if (DottedName.segments name).all Text.isIdentifier then locateIn? fs library name
          else none := by
      intro library
      rw [← List.head?_filter, hlibrary library]
      split
      · cases locateIn? fs library name <;> rfl
      · rfl
    rw [SearchPath.modules, List.find?_flatMap, SearchPath.locate?]
    simp only [hfirst]
    split
    · rfl
    · rw [List.findSome?_eq_none_iff.2 fun _ _ => rfl]
  · rw [hlibrary library]
    split
    · cases locateIn? fs library name <;> simp
    · exact Nat.zero_le _

/-- A package stands in front of a file in the same library, and a native module in another
    library comes too late. -/
theorem walk_agrees_package_before_file :
    let tree := [(["a", "m", "__init__.pyc"], .file .empty), (["a", "m.py"], .file .empty),
        (["a", "__init__.py"], .file .empty), (["a", "m", "x.so"], .file .empty)].foldr
      (fun (entry : List String × FileTree) tree => FileTree.put entry.1 entry.2 tree)
      (.directory [])
    let other := FileTree.put ["a.cpython.so"] (.file .empty) (.directory [])
    let fs : FileSystem := ⟨[("/lib", tree), ("/ext", other)]⟩
    fs.Ordered ∧ "__pycache__" ∉ DottedName.segments "a.m"
      ∧ (DottedName.segments "a.m").getLast? ≠ some packageStem
      ∧ (∀ d, SearchPath.locate? ["/ext", "/lib"] fs "a.m" = some d ↔
          (SearchPath.modules ["/ext", "/lib"] fs).find? (·.name == "a.m") = some d)
      ∧ (∀ library ∈ ["/ext", "/lib"],
          ((libraryModules fs library).filter (·.name == "a.m")).length ≤ 1)
      ∧ SearchPath.locate? ["/ext", "/lib"] fs "a.m"
          = some ⟨"a.m", "/lib/a/m/__init__.pyc", "/lib", .compiled, true⟩ := by
  intro tree other fs
  have hfile : (FileTree.file .empty).Ordered := trivial
  have hfs : fs.Ordered := by
    intro mount hmem
    simp only [fs, List.mem_cons, List.not_mem_nil, or_false] at hmem
    rcases hmem with rfl | rfl
    · exact .put _ hfile (.put _ hfile (.put _ hfile (.put _ hfile .empty)))
    · exact .put _ hfile .empty
  have hcache : "__pycache__" ∉ DottedName.segments "a.m" := by decide
  have hinit : (DottedName.segments "a.m").getLast? ≠ some packageStem := by decide
  obtain ⟨hagree, honce⟩ := SearchPath.walk_agrees ["/ext", "/lib"] fs hfs "a.m" hcache hinit
  exact ⟨hfs, hcache, hinit, hagree, honce, by decide +kernel⟩

end PyAtlas
