import PyAtlas.Declaration.Outline
import PyAtlas.Proofs.Syntax.StmtPlacing
import Mathlib.Data.List.Forall2

/-!
# Declarations in the text

Every declaration points at a name that the syntax tree mentions, and the declarations of a module
come in the order of these names. The names stand in the text one after the other, whether or not
the text has errors, and so the declarations point at different places of it, in order. What stands
there is the declared name. Only an import of a dotted name that is not given a name of its own
points at all of the dotted name, of which it declares the first part.

## Key definitions
- `Declaration.Records`: a declaration points at a name.

## Key results
- `stmtDeclarations_follow`: the declarations of a statement follow the names in it.
- `Outline.declarations_in_order`: declarations stand in the text in order, and under their names.
-/

namespace PyAtlas

/-! ### Declarations of names -/

/-- The declaration is made by an import of a module that is not given a name of its own. -/
structure Declaration.OfImport (d : Declaration) (leaves : List Stmt) (a : Alias) : Prop where
  imported : ∃ names span, Stmt.importModules names span ∈ leaves ∧ a ∈ names
  unnamed : a.asname = none
  span : d.span = a.span
  name : d.name = DottedName.head a.name
  kind : d.kind = .imported (.module d.name)

/-- The declaration points at a name and declares it, or the first part of it in an import that is
    among the statements `leaves`. -/
def Declaration.Records (leaves : List Stmt) (d : Declaration) : Mention → Prop
  | .name ident => d.name = ident.name ∧ d.span = ident.span
  | .path dotted span => ∃ a, d.OfImport leaves a ∧ a.name = dotted ∧ a.span = span

theorem Declaration.Records.span_eq {leaves : List Stmt} {d : Declaration} {m : Mention}
    (h : d.Records leaves m) : d.span = m.span := by
  cases m with
  | name ident => exact h.2
  | path dotted span =>
    obtain ⟨a, himport, -, hspan⟩ := h
    exact himport.span.trans hspan

/-- The declarations point at some of the names, in order. -/
def Follow (leaves : List Stmt) (ds : List Declaration) (ms : List Mention) : Prop :=
  List.SublistForall₂ (Declaration.Records leaves) ds ms

namespace Follow

variable {leaves : List Stmt} {ds ds' : List Declaration} {ms ms' : List Mention}

theorem nil : Follow leaves [] ms := List.SublistForall₂.nil

theorem cons {d : Declaration} {m : Mention} (hd : d.Records leaves m) (h : Follow leaves ds ms) :
    Follow leaves (d :: ds) (m :: ms) :=
  List.SublistForall₂.cons hd h

theorem sublist (h : Follow leaves ds ms) (hsub : ms.Sublist ms') : Follow leaves ds ms' := by
  obtain ⟨named, hrecords, hnamed⟩ := List.sublistForall₂_iff.1 h
  exact List.sublistForall₂_iff.2 ⟨named, hrecords, hnamed.trans hsub⟩

theorem append (h : Follow leaves ds ms) (h' : Follow leaves ds' ms') :
    Follow leaves (ds ++ ds') (ms ++ ms') := by
  obtain ⟨named, hrecords, hnamed⟩ := List.sublistForall₂_iff.1 h
  obtain ⟨named', hrecords', hnamed'⟩ := List.sublistForall₂_iff.1 h'
  exact List.sublistForall₂_iff.2
    ⟨named ++ named', List.rel_append hrecords hrecords', hnamed.append hnamed'⟩

/-- A declaration of a name. -/
theorem cons_name {d : Declaration} (ident : Identifier) (hname : d.name = ident.name)
    (hspan : d.span = ident.span) (h : Follow leaves ds ms) :
    Follow leaves (d :: ds) (.name ident :: ms) :=
  cons ⟨hname, hspan⟩ h

/-- Declarations of some names. -/
theorem of_idents {α : Type} {bound : List (Identifier × α)} {g : Identifier × α → Declaration}
    (hg : ∀ b, (g b).name = b.1.name ∧ (g b).span = b.1.span) :
    Follow leaves (bound.map g) (bound.map fun b => Mention.name b.1) := by
  induction bound with
  | nil => exact nil
  | cons b bound ih => exact ih.cons (hg b)

/-- One declaration for each of some things, at the name in it. -/
theorem of_map {α : Type} {xs : List α} {g : α → Declaration} {tree : α → SpanTree}
    (h : ∀ x ∈ xs, Follow leaves [g x] (tree x).mentions) :
    Follow leaves (xs.map g) (SpanTree.mentionsIn (xs.map tree)) := by
  induction xs with
  | nil => exact nil
  | cons x xs ih =>
    obtain ⟨hx, hxs⟩ := List.forall_mem_cons.1 h
    exact hx.append (ih hxs)

end Follow

/-! ### Targets -/

open SpanTree

mutual

/-- The names that a target binds are mentioned in it in order. -/
theorem boundNames_sublist (value : ValueKind) : (e : Expr) →
    ((boundNames value e).map fun b => Mention.name b.1).Sublist e.spanTree.mentions
  | .name ident => .refl _
  | .tuple items _ | .list items _ => boundNamesIn_sublist items
  | .starred target _ => by
    rw [boundNames, Expr.spanTree, mentions, mentionsIn, mentionsIn, List.append_nil]
    exact boundNames_sublist .unknown target
  | .attribute .. | .call .. | .subscript .. | .literal .. | .str .. | .set .. | .dict ..
  | .unary .. | .binary .. | .other _ | .error _ => List.nil_sublist _

/-- So are those of its parts. -/
theorem boundNamesIn_sublist : (es : List Expr) →
    ((boundNamesIn es).map fun b => Mention.name b.1).Sublist (mentionsIn (exprTrees es))
  | [] => .refl _
  | e :: es => by
    rw [boundNamesIn, List.map_append, exprTrees, mentionsIn]
    exact (boundNames_sublist .unknown e).append (boundNamesIn_sublist es)

end

mutual

/-- The attributes that a target binds are mentioned in it in order. -/
theorem boundAttributes_sublist (receiver : String) (value : ValueKind) : (e : Expr) →
    ((boundAttributes receiver value e).map fun b => Mention.name b.1).Sublist e.spanTree.mentions
  | .attribute object attr _ => by
    rw [boundAttributes]
    split
    · rw [Expr.spanTree, mentions, mentionsIn, mentionsIn, mentionsIn, List.append_nil]
      exact List.sublist_append_right _ _
    · exact List.nil_sublist _
  | .tuple items _ | .list items _ => boundAttributesIn_sublist receiver items
  | .name _ | .starred .. | .call .. | .subscript .. | .literal .. | .str .. | .set .. | .dict ..
  | .unary .. | .binary .. | .other _ | .error _ => List.nil_sublist _

/-- So are those of its parts. -/
theorem boundAttributesIn_sublist (receiver : String) : (es : List Expr) →
    ((boundAttributesIn receiver es).map fun b => Mention.name b.1).Sublist
      (mentionsIn (exprTrees es))
  | [] => .refl _
  | e :: es => by
    rw [boundAttributesIn, List.map_append, exprTrees, mentionsIn]
    exact (boundAttributes_sublist receiver .unknown e).append
      (boundAttributesIn_sublist receiver es)

end

variable {leaves : List Stmt}

/-- What an assignment to a target declares. -/
theorem targetDeclarations_follow (scopes : Scopes) (value : ValueKind) (target : Expr) :
    Follow leaves (targetDeclarations scopes value target) target.spanTree.mentions := by
  unfold targetDeclarations
  split
  · exact (Follow.of_idents fun _ => ⟨rfl, rfl⟩).sublist (boundAttributes_sublist _ value target)
  · exact .nil
  · exact (Follow.of_idents fun _ => ⟨rfl, rfl⟩).sublist (boundNames_sublist value target)

theorem targetsDeclarations_follow (scopes : Scopes) (value : ValueKind) (targets : List Expr) :
    Follow leaves (targets.flatMap (targetDeclarations scopes value))
      (mentionsIn (exprTrees targets)) := by
  induction targets with
  | nil => exact .nil
  | cons target targets ih =>
    rw [List.flatMap_cons, exprTrees, mentionsIn]
    exact (targetDeclarations_follow scopes value target).append ih

/-! ### Imports -/

/-- What the import of a module declares. -/
theorem aliasDeclaration_follows (scopes : Scopes) {names : List Alias} {span : Span}
    (h : Stmt.importModules names span ∈ leaves) {a : Alias} (ha : a ∈ names) :
    Follow leaves [aliasDeclaration scopes a] a.moduleTree.mentions := by
  rw [aliasDeclaration, Alias.moduleTree]
  cases hasname : a.asname with
  | some asname => exact .cons ⟨rfl, rfl⟩ .nil
  | none =>
    exact .cons ⟨a, ⟨⟨names, span, h, ha⟩, hasname, rfl, rfl, rfl⟩, rfl, rfl⟩ .nil

/-- What the import of a member of a module declares. -/
theorem memberDeclaration_follows (scopes : Scopes) (module : Option String) (level : Nat)
    (a : Alias) :
    Follow leaves [memberDeclaration scopes module level a] a.memberTree.mentions := by
  rw [memberDeclaration, Alias.memberTree]
  cases a.asname with
  | some asname => exact .cons ⟨rfl, rfl⟩ .nil
  | none => exact .cons ⟨rfl, rfl⟩ .nil

theorem importDeclarations_follow (scopes : Scopes) (module : Option String) (level : Nat)
    (names : ImportNames) :
    Follow leaves (importDeclarations scopes module level names) (mentionsIn names.spanTrees) := by
  cases names with
  | star span => exact .cons ⟨rfl, rfl⟩ .nil
  | names aliases => exact .of_map fun a _ => memberDeclaration_follows scopes module level a

/-! ### Statements -/

/-- The name in a header and those in the body are mentioned in this order. -/
theorem header_sublist (name : Identifier) (decorators middle body : List SpanTree) :
    (Mention.name name :: mentionsIn body).Sublist
      (mentionsIn (decorators ++ name.spanTree :: middle ++ body)) := by
  rw [mentionsIn_append, mentionsIn_append, mentionsIn, List.append_assoc]
  exact ((List.sublist_append_right _ _).cons_cons _).trans (List.sublist_append_right _ _)

mutual

/-- The declarations of a statement point at names in it, in order. -/
theorem stmtDeclarations_follow (scopes : Scopes) (next : Nat) : (stmt : Stmt) →
    stmt.leaves ⊆ leaves →
    Follow leaves (stmtDeclarations scopes next stmt) stmt.spanTree.mentions
  | .classDef header body _, hleaves => by
    have hbody := bodyDeclarations_follow (⟨next, header.name.name, .classBody⟩ :: scopes)
      (next + 1) body hleaves
    rw [stmtDeclarations]
    exact (hbody.cons_name header.name rfl rfl).sublist (header_sublist header.name _ _ _)
  | .functionDef header body _, hleaves => by
    have hbody := bodyDeclarations_follow
      (⟨next, header.name.name, .functionBody (receiver? scopes header)⟩ :: scopes)
      (next + 1) body hleaves
    rw [stmtDeclarations]
    -- The names between that of the function and its body are those of parameters and hints.
    refine (hbody.cons_name header.name rfl rfl).sublist ?_
    rw [Stmt.spanTree, mentions, List.append_assoc (exprTrees header.decorators)]
    exact header_sublist header.name _ _ _
  | .assign targets value _, _ => by
    rw [stmtDeclarations, Stmt.spanTree, mentions, exprTrees_append, mentionsIn_append]
    exact (targetsDeclarations_follow scopes _ targets).sublist (List.sublist_append_left _ _)
  | .annAssign target hint value _, _ => by
    rw [stmtDeclarations, Stmt.spanTree, mentions, exprTrees, mentionsIn]
    exact (targetDeclarations_follow scopes _ target).sublist (List.sublist_append_left _ _)
  | .importModules names span, hleaves => by
    rw [stmtDeclarations]
    split
    · exact .nil
    · exact .of_map fun a ha =>
        aliasDeclaration_follows scopes (hleaves (List.mem_singleton_self _)) ha
  | .importFrom module level names _, _ => by
    rw [stmtDeclarations]
    split
    · exact .nil
    · exact importDeclarations_follow scopes module level names
  | .compound _ _ clauses _, hleaves => by
    rw [stmtDeclarations]
    exact clauseDeclarations_follow scopes next clauses hleaves
  | .augAssign .., _ | .expr _, _ | .simple .., _ | .error _, _ => .nil

/-- Those of some clauses point at names in them. -/
theorem clauseDeclarations_follow (scopes : Scopes) (next : Nat) : (clauses : List Clause) →
    clauseLeaves clauses ⊆ leaves →
    Follow leaves (clauseDeclarations scopes next clauses) (mentionsIn (clauseNodes clauses))
  | [], _ => .nil
  | .mk _ body _ :: clauses, hleaves => by
    obtain ⟨hbody, hclauses⟩ := List.append_subset.1 hleaves
    exact (bodyDeclarations_follow scopes next body hbody).append
      (clauseDeclarations_follow scopes _ clauses hclauses)

/-- Those of a body point at names in it. -/
theorem bodyDeclarations_follow (scopes : Scopes) (next : Nat) : (body : List Stmt) →
    bodyLeaves body ⊆ leaves →
    Follow leaves (bodyDeclarations scopes next body) (mentionsIn (bodyTrees body))
  | [], _ => .nil
  | stmt :: body, hleaves => by
    obtain ⟨hstmt, hbody⟩ := List.append_subset.1 hleaves
    exact (stmtDeclarations_follow scopes next stmt hstmt).append
      (bodyDeclarations_follow scopes _ body hbody)

end

/-! ### Places -/

namespace Follow

variable {ds : List Declaration} {ms : List Mention}

/-- The spans of the declarations are some of those of the names. -/
theorem spans_sublist (h : Follow leaves ds ms) :
    (ds.map Declaration.span).Sublist (ms.map Mention.span) := by
  induction h with
  | nil => exact List.nil_sublist _
  | cons hd _ ih =>
    rw [List.map_cons, List.map_cons, hd.span_eq]
    exact ih.cons_cons _
  | cons_right _ ih => exact ih.cons _

/-- Every declaration points at one of the names. -/
theorem exists_of_mem (h : Follow leaves ds ms) : ∀ d ∈ ds, ∃ m ∈ ms, d.Records leaves m := by
  induction h with
  | nil => exact nofun
  | cons hd _ ih =>
    refine List.forall_mem_cons.2 ⟨⟨_, List.mem_cons_self, hd⟩, fun d hmem => ?_⟩
    obtain ⟨m, hm, hrecord⟩ := ih d hmem
    exact ⟨m, List.mem_cons_of_mem _ hm, hrecord⟩
  | cons_right _ ih =>
    intro d hmem
    obtain ⟨m, hm, hrecord⟩ := ih d hmem
    exact ⟨m, List.mem_cons_of_mem _ hm, hrecord⟩

end Follow

/-- What stands under a declaration of a name that stands in the text. -/
theorem Declaration.Records.stands {source : String} {d : Declaration} {m : Mention}
    (h : d.Records leaves m) (hm : m.Genuine source) :
    d.span.text source = d.name
      ∨ (∃ a, d.OfImport leaves a ∧ '.' ∈ a.name.toList)
        ∧ d.name.toList <+: (d.span.text source).toList := by
  cases m with
  | name ident =>
    obtain ⟨hname, hspan⟩ := h
    rw [hname, hspan]
    exact .inl hm.stands
  | path dotted span =>
    obtain ⟨a, himport, rfl, rfl⟩ := h
    obtain ⟨hfirst, hwhole⟩ := hm.stands
    rw [himport.name, himport.span]
    -- A dotted name of one part is all that stands there.
    by_cases hpoint : '.' ∈ a.name.toList
    · exact .inr ⟨⟨a, himport, hpoint⟩, hfirst⟩
    · rw [hwhole hpoint, DottedName.head, DottedName.segments_of_not_mem hpoint]
      exact .inl rfl

/-- The declarations of a text point at places of it that follow each other, with or without errors
    in it. Each of these is a range of the text that cuts no character, where the declared name
    stands. Only where a dotted name is imported without a name of its own more than the declared
    name may stand there. -/
theorem Outline.declarations_in_order (v : Version) (source : String) :
    let tree := SyntaxTree.parse v source
    let declarations := (Outline.ofTree tree).declarations
    declarations.Pairwise (fun a b => a.span.start < b.span.start ∧ a.span.stop ≤ b.span.start)
    ∧ ∀ d ∈ declarations,
      d.span.start < d.span.stop ∧ d.span.stop ≤ source.utf8ByteSize
      ∧ Text.IsBoundary source.toList d.span.start ∧ Text.IsBoundary source.toList d.span.stop
      ∧ (d.span.text source = d.name
        ∨ (∃ a, d.OfImport tree.leaves a ∧ '.' ∈ a.name.toList)
          ∧ d.name.toList <+: (d.span.text source).toList) := by
  intro tree declarations
  obtain ⟨-, hrow⟩ := SyntaxTree.row_parse ⟨source, False⟩ v False.elim
  have hfollow : Follow tree.leaves declarations (mentionsIn (bodyTrees tree.body)) :=
    bodyDeclarations_follow [] 0 tree.body (List.Subset.refl _)
  have hplace : ∀ d ∈ declarations, ∃ m, d.Records tree.leaves m ∧ m.Genuine source := by
    intro d hd
    obtain ⟨m, hm, hrecord⟩ := hfollow.exists_of_mem d hd
    rw [mentionsIn_eq_flatMap] at hm
    obtain ⟨t, ht, hm⟩ := List.mem_flatMap.1 hm
    exact ⟨m, hrecord, hrow.genuine t ht m hm⟩
  refine ⟨?_, fun d hd => ?_⟩
  · have hapart := ((hrow.names id).sublist hfollow.spans_sublist).apart
    refine (List.pairwise_map.1 hapart).imp_of_mem fun {a b} ha _ hab => ⟨?_, hab⟩
    obtain ⟨m, hrecord, hm⟩ := hplace a ha
    have hnonempty : a.span.start < a.span.stop := hrecord.span_eq ▸ hm.nonempty
    exact Nat.lt_of_lt_of_le hnonempty hab
  · obtain ⟨m, hrecord, hm⟩ := hplace d hd
    have hstands := hrecord.stands hm
    rw [hrecord.span_eq] at hstands ⊢
    exact ⟨hm.nonempty, hm.inText.stop_le, hm.inText.start, hm.inText.stop, hstands⟩

/-- Two imports behind an error: the first of them stands under all of its dotted name. -/
theorem Outline.declarations_in_order_of_imports :
    let source := "class :\nimport a.b, c as d\n"
    let tree := SyntaxTree.parse .v37 source
    let declarations := (Outline.ofTree tree).declarations
    declarations.map (fun d => (d.name, d.span.text source)) = [("a", "a.b"), ("d", "d")]
      ∧ declarations.Pairwise (fun a b => a.span.start < b.span.start ∧ a.span.stop ≤ b.span.start)
      ∧ ∃ d ∈ declarations, d.name = "a" ∧ d.span.stop ≤ source.utf8ByteSize
        ∧ ∃ a, d.OfImport tree.leaves a ∧ '.' ∈ a.name.toList := by
  intro source tree declarations
  have hlist : declarations.map (fun d => (d.name, d.span.text source))
      = [("a", "a.b"), ("d", "d")] := by decide +kernel
  obtain ⟨hpairwise, hplaces⟩ := declarations_in_order .v37 source
  refine ⟨hlist, hpairwise, ?_⟩
  have hmem : ("a", "a.b") ∈ declarations.map fun d => (d.name, d.span.text source) := by
    rw [hlist]
    exact List.mem_cons_self
  obtain ⟨d, hd, hfirst⟩ := List.mem_map.1 hmem
  obtain ⟨hname, htext⟩ := Prod.mk.inj hfirst
  obtain ⟨-, hstop, -, -, hstands⟩ := hplaces d hd
  rw [hname, htext] at hstands
  exact ⟨d, hd, hname, hstop, (hstands.resolve_left (by decide)).1⟩

end PyAtlas
