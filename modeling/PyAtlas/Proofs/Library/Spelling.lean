import PyAtlas.Proofs.Library.Agreement
import PyAtlas.Proofs.Module.RelativeImports
import PyAtlas.Proofs.Syntax.StmtNames
import PyAtlas.Proofs.Token.Identifiers

/-!
# The spelling of imports

A module is located under a dotted name only if all segments of the name are identifiers. What the
lexer reads as a name is an identifier, and a parser draws all names from the tokens, so every name
in a syntax tree is made of identifiers, in particular every name of an import. So no import is
turned away for how it is written, and the libraries are searched for it. Where an import is
relative, the segments in front of it are those of the name of its own module.

## Key definitions
- `DottedName.OfIdentifiers`: all segments of a name are identifiers.
- `ImportedIn`: a name is imported by some statements.
- `ImportTarget.asked`: the modules that are asked for to follow an import.

## Key results
- `isIdentifier_of_drawn`: names drawn from the tokens of a text are identifiers.
- `SearchPath.locate?_of_identifiers`: the libraries are searched for a name made of identifiers.
- `bodyDeclarations_import`: declarations import what is written.
- `identifiers_agree`: the lexer, the parser and the search for modules agree on identifiers.
-/

namespace PyAtlas

/-! ### Names made of identifiers -/

/-- All segments of the dotted name are identifiers. -/
def DottedName.OfIdentifiers (name : String) : Prop :=
  ∀ segment ∈ segments name, Text.isIdentifier segment = true

namespace DottedName

variable {name front back : String}

theorem segments_of_isIdentifier (h : Text.isIdentifier name = true) : segments name = [name] :=
  segments_of_not_mem (point_not_mem_of_isIdentifier h)

/-- The segments of some names with points between them. -/
theorem segments_join {parts : List String} (hne : parts ≠ []) :
    segments (join parts) = parts.flatMap segments := by
  induction parts with
  | nil => exact absurd rfl hne
  | cons part parts ih =>
    cases parts with
    | nil => simp [join]
    | cons next parts =>
      rw [join_cons_cons, segments_append, ih (List.cons_ne_nil _ _), ← List.flatMap_cons]

/-- Segments are not cut any further. -/
theorem mem_segments_of_mem {part segment : String} (hpart : part ∈ segments name)
    (hsegment : segment ∈ segments part) : segment ∈ segments name := by
  have hcut := segments_join (segments_ne_nil name)
  rw [join_segments] at hcut
  rw [hcut]
  exact List.mem_flatMap.2 ⟨part, hpart, hsegment⟩

theorem head_mem_segments (name : String) : head name ∈ segments name := by
  rw [head]
  cases hsegments : segments name with
  | nil => exact absurd hsegments (segments_ne_nil name)
  | cons part parts => exact List.mem_cons_self

namespace OfIdentifiers

theorem of_isIdentifier (h : Text.isIdentifier name = true) : OfIdentifiers name := by
  rw [OfIdentifiers, segments_of_isIdentifier h]
  exact List.forall_mem_singleton.2 h

theorem append (h : OfIdentifiers front) (h' : OfIdentifiers back) :
    OfIdentifiers (front ++ "." ++ back) := by
  rw [OfIdentifiers, segments_append]
  exact List.forall_mem_append.2 ⟨h, h'⟩

theorem head (h : OfIdentifiers name) : OfIdentifiers (DottedName.head name) :=
  of_isIdentifier (h _ (head_mem_segments name))

end OfIdentifiers

end DottedName

/-- Names that are drawn from the tokens of a text are identifiers, also where they are words that
    only some versions reserve. -/
theorem isIdentifier_of_drawn {v : Version} {source : String} {ident : Identifier}
    (h : Drawn (tokenize v source) ident) : Text.isIdentifier ident.name = true := by
  obtain ⟨t, ht, hident⟩ := h
  have hletters : t.kind.isLetters = true ∧ ident.name = t.text := by
    rw [Parser.identifier?] at hident
    split at hident
    case h_4 => cases hident
    all_goals
      rename_i hkind
      obtain rfl := Option.some.inj hident
      exact ⟨by rw [hkind]; rfl, rfl⟩
  rw [hletters.2]
  exact isIdentifier_of_mem_tokenize ht hletters.1

/-- So are the segments of dotted names that are put together from them. -/
theorem DottedFrom.ofIdentifiers {v : Version} {source dotted : String}
    (h : DottedFrom (tokenize v source) dotted) : DottedName.OfIdentifiers dotted := by
  induction h with
  | name h => exact .of_isIdentifier (isIdentifier_of_drawn h)
  | point _ h ih => exact ih.append (.of_isIdentifier (isIdentifier_of_drawn h))

/-- The libraries are searched for a name made of identifiers. -/
theorem SearchPath.locate?_of_identifiers (libraries : SearchPath) (fs : FileSystem) {name : String}
    (h : DottedName.OfIdentifiers name) :
    libraries.locate? fs name = libraries.findSome? fun library => locateIn? fs library name :=
  if_pos (List.all_eq_true.2 h)

/-! ### Declared imports -/

/-- The names that an import is written with. -/
def ImportRef.names : ImportRef → List String
  | .module name => [name]
  | .member base _ name => base.toList ++ [name]
  | .star base _ => base.toList

/-- One of the statements imports the name, or a dotted name that begins with it. -/
def ImportedIn (leaves : List Stmt) (name : String) : Prop :=
  ∃ leaf ∈ leaves, ∃ dotted ∈ leaf.importedNames, name = dotted ∨ name = DottedName.head dotted

/-- If the declaration is an import, its names are imported by the statements. -/
def Declaration.WrittenIn (leaves : List Stmt) (d : Declaration) : Prop :=
  ∀ ref, d.kind = .imported ref → ∀ name ∈ ref.names, ImportedIn leaves name

section Imports

variable {leaves : List Stmt}

/-- A declaration that is no import. -/
theorem Declaration.WrittenIn.of_ne {d : Declaration} (h : ∀ ref, d.kind ≠ .imported ref) :
    d.WrittenIn leaves :=
  fun ref href => absurd href (h ref)

theorem targetDeclarations_import (scopes : Scopes) (value : ValueKind) (target : Expr) :
    ∀ d ∈ targetDeclarations scopes value target, d.WrittenIn leaves := by
  unfold targetDeclarations
  split
  · exact List.forall_mem_map.2 fun _ _ => .of_ne nofun
  · exact List.forall_mem_nil _
  · exact List.forall_mem_map.2 fun _ _ => .of_ne nofun

/-- The import of a module is declared under its name, or under the first part of it. -/
theorem aliasDeclaration_import (scopes : Scopes) {names : List Alias} {span : Span}
    (h : Stmt.importModules names span ∈ leaves) {a : Alias} (ha : a ∈ names) :
    (aliasDeclaration scopes a).WrittenIn leaves := by
  have hname : a.name ∈ (Stmt.importModules names span).importedNames := List.mem_map_of_mem ha
  intro ref href name hwritten
  rw [aliasDeclaration] at href
  cases hasname : a.asname with
  | some asname =>
    rw [hasname] at href
    cases href
    rw [List.mem_singleton.1 hwritten]
    exact ⟨_, h, _, hname, .inl rfl⟩
  | none =>
    rw [hasname] at href
    cases href
    rw [List.mem_singleton.1 hwritten]
    exact ⟨_, h, _, hname, .inr rfl⟩

theorem importDeclarations_import (scopes : Scopes) {module : Option String} {level : Nat}
    {names : ImportNames} {span : Span} (h : Stmt.importFrom module level names span ∈ leaves) :
    ∀ d ∈ importDeclarations scopes module level names, d.WrittenIn leaves := by
  have hmodule : ∀ name ∈ module.toList, ImportedIn leaves name := fun name hname =>
    ⟨_, h, name, List.mem_append_left _ hname, .inl rfl⟩
  cases names with
  | star starSpan =>
    refine List.forall_mem_singleton.2 fun ref href => ?_
    cases href
    exact hmodule
  | names aliases =>
    refine List.forall_mem_map.2 fun a ha ref href => ?_
    cases href
    refine List.forall_mem_append.2 ⟨hmodule, List.forall_mem_singleton.2 ?_⟩
    exact ⟨_, h, a.name, List.mem_append_right _ (List.mem_map_of_mem ha), .inl rfl⟩

mutual

/-- The imports that a statement declares are written in it. -/
theorem stmtDeclarations_import (scopes : Scopes) (next : Nat) : (stmt : Stmt) →
    stmt.leaves ⊆ leaves → ∀ d ∈ stmtDeclarations scopes next stmt, d.WrittenIn leaves
  | .classDef _ body _, hleaves => by
    rw [stmtDeclarations]
    exact List.forall_mem_cons.2 ⟨.of_ne nofun, bodyDeclarations_import _ _ body hleaves⟩
  | .functionDef _ body _, hleaves => by
    rw [stmtDeclarations]
    exact List.forall_mem_cons.2 ⟨.of_ne nofun, bodyDeclarations_import _ _ body hleaves⟩
  | .assign targets value _, _ => by
    rw [stmtDeclarations]
    intro d hd
    obtain ⟨target, -, hd⟩ := List.mem_flatMap.1 hd
    exact targetDeclarations_import scopes _ target d hd
  | .annAssign target _ value _, _ => by
    rw [stmtDeclarations]
    exact targetDeclarations_import scopes _ target
  | .importModules names span, hleaves => by
    rw [stmtDeclarations]
    split
    · exact List.forall_mem_nil _
    · exact List.forall_mem_map.2 fun a ha =>
        aliasDeclaration_import scopes (hleaves (List.mem_singleton_self _)) ha
  | .importFrom module level names span, hleaves => by
    rw [stmtDeclarations]
    split
    · exact List.forall_mem_nil _
    · exact importDeclarations_import scopes (hleaves (List.mem_singleton_self _))
  | .compound _ _ clauses _, hleaves => by
    rw [stmtDeclarations]
    exact clauseDeclarations_import scopes next clauses hleaves
  | .augAssign .., _ | .expr _, _ | .simple .., _ | .error _, _ => List.forall_mem_nil _

/-- So are those of some clauses. -/
theorem clauseDeclarations_import (scopes : Scopes) (next : Nat) : (clauses : List Clause) →
    clauseLeaves clauses ⊆ leaves →
    ∀ d ∈ clauseDeclarations scopes next clauses, d.WrittenIn leaves
  | [], _ => List.forall_mem_nil _
  | .mk _ body _ :: clauses, hleaves => by
    obtain ⟨hbody, hclauses⟩ := List.append_subset.1 hleaves
    exact List.forall_mem_append.2 ⟨bodyDeclarations_import scopes next body hbody,
      clauseDeclarations_import scopes _ clauses hclauses⟩

/-- So are those of a body. -/
theorem bodyDeclarations_import (scopes : Scopes) (next : Nat) : (body : List Stmt) →
    bodyLeaves body ⊆ leaves → ∀ d ∈ bodyDeclarations scopes next body, d.WrittenIn leaves
  | [], _ => List.forall_mem_nil _
  | stmt :: body, hleaves => by
    obtain ⟨hstmt, hbody⟩ := List.append_subset.1 hleaves
    exact List.forall_mem_append.2 ⟨stmtDeclarations_import scopes next stmt hstmt,
      bodyDeclarations_import scopes _ body hbody⟩

end

end Imports

/-! ### The modules that are asked for -/

/-- The modules that are asked for to follow an import: its module, and the member that is taken
    from it, which may be a module inside. -/
def ImportTarget.asked : ImportTarget → List String
  | .module name => [name]
  | .member base taken => [base, base ++ "." ++ taken]
  | .unresolved => []

section Asked

variable {home : String} {isPackage : Bool}

/-- Every segment of the name is one of the name `home` or an identifier. -/
def SpelledFrom (home name : String) : Prop :=
  ∀ segment ∈ DottedName.segments name,
    segment ∈ DottedName.segments home ∨ Text.isIdentifier segment = true

theorem DottedName.OfIdentifiers.spelledFrom {name : String} (h : OfIdentifiers name) :
    SpelledFrom home name :=
  fun segment hsegment => .inr (h segment hsegment)

/-- A relative import keeps some segments of the name of its module. -/
theorem spelledFrom_absoluteModule {module : Option String} {level : Nat} {target : String}
    (hmodule : ∀ name ∈ module, DottedName.OfIdentifiers name)
    (h : absoluteModule home isPackage module level = some target) : SpelledFrom home target := by
  cases level with
  | zero => exact (hmodule target h).spelledFrom
  | succ up =>
    by_cases hdepth : 1 ≤ packageDepth home isPackage (up + 1)
    · rw [absoluteModule_of_pos (Nat.le_add_left 1 up) hdepth] at h
      obtain rfl := Option.some.inj h
      have hkept : (DottedName.segments home).take (packageDepth home isPackage (up + 1)).toNat
          ≠ [] := by
        rw [ne_eq, List.take_eq_nil_iff, not_or]
        exact ⟨by omega, DottedName.segments_ne_nil home⟩
      intro segment hsegment
      rw [DottedName.segments_join (List.append_ne_nil_of_left_ne_nil hkept _)] at hsegment
      obtain ⟨part, hpart, hsegment⟩ := List.mem_flatMap.1 hsegment
      rcases List.mem_append.1 hpart with hpart | hpart
      · exact .inl (DottedName.mem_segments_of_mem (List.mem_of_mem_take hpart) hsegment)
      · exact .inr (hmodule part (Option.mem_toList.1 hpart) segment hsegment)
    · rw [absoluteModule_of_nonpos (Nat.le_add_left 1 up) (by omega)] at h
      cases h

/-- What is asked for to follow an import is spelled from the name of its module. -/
theorem spelledFrom_asked {ref : ImportRef}
    (href : ∀ name ∈ ref.names, DottedName.OfIdentifiers name) :
    ∀ asked ∈ (ImportTarget.ofRef home isPackage ref).asked, SpelledFrom home asked := by
  cases ref with
  | module name =>
    exact List.forall_mem_singleton.2 (href name (List.mem_singleton_self name)).spelledFrom
  | member base level taken =>
    obtain ⟨hbase, htaken⟩ := List.forall_mem_append.1 href
    rw [ImportTarget.ofRef]
    split
    · rename_i target htarget
      have hspelled : SpelledFrom home target :=
        spelledFrom_absoluteModule (fun name hname => hbase name (Option.mem_toList.2 hname))
          htarget
      refine List.forall_mem_cons.2 ⟨hspelled, List.forall_mem_singleton.2 ?_⟩
      rw [SpelledFrom, DottedName.segments_append]
      exact List.forall_mem_append.2
        ⟨hspelled, (List.forall_mem_singleton.1 htaken).spelledFrom⟩
    · exact List.forall_mem_nil _
  | star base level =>
    rw [ImportTarget.ofRef]
    split
    · rename_i target htarget
      exact List.forall_mem_singleton.2 (spelledFrom_absoluteModule
        (fun name hname => href name (Option.mem_toList.2 hname)) htarget)
    · exact List.forall_mem_nil _

end Asked

/-! ### Agreement -/

/-- The names that the statements of a text import are made of identifiers. -/
theorem SyntaxTree.parse_importedNames (v : Version) (source : String) :
    ∀ leaf ∈ (parse v source).leaves, ∀ dotted ∈ leaf.importedNames,
      DottedName.OfIdentifiers dotted :=
  fun leaf hleaf dotted hdotted =>
    ((parse_names_drawn v source).imported leaf hleaf dotted hdotted).ofIdentifiers

/-- What is asked for to follow the imports of a text is spelled from the name of its module. -/
theorem SyntaxTree.spelledFrom_of_leadsTo {v : Version} {source home : String}
    {path : Option String} {isPackage : Bool} {target : ImportTarget}
    (h : (ModuleGraph.ofTree home path isPackage (parse v source)).LeadsTo target) :
    ∀ asked ∈ target.asked, SpelledFrom home asked := by
  obtain ⟨d, hd, ref, hkind, rfl⟩ := Assembly.Imports.ofTree home path isPackage _ h
  refine spelledFrom_asked fun name hname => ?_
  have hwritten := bodyDeclarations_import [] 0 (parse v source).body (List.Subset.refl _) d hd
  obtain ⟨leaf, hleaf, dotted, hdotted, hsame⟩ := hwritten ref hkind name hname
  have hidentifiers := parse_importedNames v source leaf hleaf dotted hdotted
  rcases hsame with rfl | rfl
  · exact hidentifiers
  · exact hidentifiers.head

/-- The lexer, the parser and the search for modules agree on what an identifier is. A text is an
    identifier if and only if it is read as one token, an identifier or a reserved word, that covers
    it, in front of a newline and the end of input. Every identifier in the syntax tree of a text is
    one, and so is every segment of what is imported, whether or not there are errors. So the
    libraries are searched for every name of an import, and the names that are asked for to follow
    an import have no other segments than these and those of the name of the importing module. -/
theorem identifiers_agree (v : Version) :
    (∀ name : String,
      let size := name.utf8ByteSize
      Text.isIdentifier name = true ↔
        ∃ kind, (kind = .identifier ∨ ∃ word, kind = .keyword word) ∧ tokenize v name
          = [⟨kind, ⟨0, size⟩, name⟩, ⟨.newline, ⟨size, size⟩, ""⟩, .endOfInput size])
    ∧ ∀ source : String,
      let tree := SyntaxTree.parse v source
      (∀ ident ∈ bodyIdentifiers tree.body, Text.isIdentifier ident.name = true)
      ∧ (∀ stmt ∈ tree.leaves, ∀ dotted ∈ stmt.importedNames,
        (∀ segment ∈ DottedName.segments dotted, Text.isIdentifier segment = true)
        ∧ ∀ (libraries : SearchPath) (fs : FileSystem), libraries.locate? fs dotted
          = libraries.findSome? fun library => locateIn? fs library dotted)
      ∧ ∀ home path isPackage target, (ModuleGraph.ofTree home path isPackage tree).LeadsTo target →
        ∀ asked ∈ target.asked, ∀ segment ∈ DottedName.segments asked,
          segment ∈ DottedName.segments home ∨ Text.isIdentifier segment = true := by
  refine ⟨isIdentifier_iff_tokenize v, fun source => ⟨fun ident hident => ?_, ?_, ?_⟩⟩
  · exact isIdentifier_of_drawn ((SyntaxTree.parse_names_drawn v source).identifiers ident hident)
  · intro stmt hstmt dotted hdotted
    have hidentifiers := SyntaxTree.parse_importedNames v source stmt hstmt dotted hdotted
    exact ⟨hidentifiers, fun libraries fs => libraries.locate?_of_identifiers fs hidentifiers⟩
  · exact fun home path isPackage target => SyntaxTree.spelledFrom_of_leadsTo

/-- Two imports behind an error, the second of them relative: both have names, and the second one
    leads into the package of its module. -/
theorem identifiers_agree_on_imports :
    let source := "class 1:\nimport a.b as c\nfrom .d import print\n"
    let tree := SyntaxTree.parse .v37 source
    tree.errors ≠ []
      ∧ (bodyIdentifiers tree.body).map Identifier.name = ["c"] ∧ Text.isIdentifier "c" = true
      ∧ tree.leaves.flatMap Stmt.importedNames = ["a.b", "d", "print"]
      ∧ (∀ (libraries : SearchPath) (fs : FileSystem), libraries.locate? fs "a.b"
        = libraries.findSome? fun library => locateIn? fs library "a.b")
      ∧ (ModuleGraph.ofTree "p-q.r" none false tree).LeadsTo (.member "p-q.d" "print")
      ∧ ("d" ∈ DottedName.segments "p-q.r" ∨ Text.isIdentifier "d" = true) := by
  intro source tree
  obtain ⟨-, hagree⟩ := identifiers_agree .v37
  obtain ⟨hidents, himports, hasked⟩ := hagree source
  have hnames : (bodyIdentifiers tree.body).map Identifier.name = ["c"] := by decide +kernel
  have hwritten : tree.leaves.flatMap Stmt.importedNames = ["a.b", "d", "print"] := by
    decide +kernel
  have hleads : (ModuleGraph.ofTree "p-q.r" none false tree).LeadsTo (.member "p-q.d" "print") :=
    .inr ⟨.declared 1, by decide +kernel⟩
  refine ⟨by decide +kernel, hnames, ?_, hwritten, ?_, hleads, ?_⟩
  · have hmem : "c" ∈ (bodyIdentifiers tree.body).map Identifier.name := by
      rw [hnames]
      exact List.mem_singleton_self _
    obtain ⟨ident, hident, hname⟩ := List.mem_map.1 hmem
    rw [← hname]
    exact hidents ident hident
  · have hmem : "a.b" ∈ tree.leaves.flatMap Stmt.importedNames := by
      rw [hwritten]
      exact List.mem_cons_self
    obtain ⟨stmt, hstmt, hdotted⟩ := List.mem_flatMap.1 hmem
    exact (himports stmt hstmt "a.b" hdotted).2
  · exact hasked "p-q.r" none false _ hleads "p-q.d" List.mem_cons_self "d" (by decide +kernel)

end PyAtlas
