import PyAtlas.Declaration.Outline

/-!
# Declarations nest

Every declaration of an outline names the class or function around it by its place, which is an
earlier one, and its path leads to that class or function. Which kinds of declarations may stand
where is part of this: attributes of instances belong to classes, and no variable and no import
belongs to a function. So whoever takes the declarations one by one has always met the scope of the
next one before.

## Key definitions
- `Scopes.DeclaredIn`: the scopes around a statement are among the declarations before it.
- `Declaration.StandsIn`: a declaration stands where its parent and its path say.

## Key results
- `bodyDeclarations_wellNested`: what a body declares stands in the scopes around it.
- `Outline.wellNested_ofTree`: the declarations of an outline nest.
-/

namespace PyAtlas

/-! ### Kinds of declarations -/

namespace DeclarationKind

/-- Classes and functions, in which other declarations stand. -/
def isScope : DeclarationKind → Bool
  | .class _ | .function _ => true
  | _ => false

def isClass : DeclarationKind → Bool
  | .class _ => true
  | _ => false

/-- Attributes that methods set on instances. -/
def isAttribute : DeclarationKind → Bool
  | .variable _ onInstance => onInstance
  | _ => false

/-- Imports and variables of a module or a class. -/
def isPlain : DeclarationKind → Bool
  | .variable _ onInstance => !onInstance
  | .imported _ => true
  | _ => false

end DeclarationKind

/-! ### Where a declaration stands -/

/-- The declaration at the place `i` stands where its parent and its path say: inside the class or
    function that is its parent, or outside of all. -/
structure Declaration.StandsIn (ds : List Declaration) (i : Nat) (d : Declaration) : Prop where
  inside : ∀ p, d.parent = some p →
    p < i ∧ ∃ e, ds[p]? = some e ∧ e.kind.isScope = true ∧ d.path = e.path ++ [e.name]
  outside : d.parent = none → d.path = []
  ofClass : d.kind.isAttribute = true →
    ∃ p e, d.parent = some p ∧ ds[p]? = some e ∧ e.kind.isClass = true
  notOfFunction : d.kind.isPlain = true →
    d.parent = none ∨ ∃ p e, d.parent = some p ∧ ds[p]? = some e ∧ e.kind.isClass = true

/-- Each of the declarations stands where its parent and its path say. -/
def WellNested (ds : List Declaration) : Prop :=
  ∀ (i : Nat) (d : Declaration), ds[i]? = some d → d.StandsIn ds i

section Lists

variable {before more : List Declaration} {d : Declaration}

theorem getElem?_append_of_some {p : Nat} (h : before[p]? = some d) :
    (before ++ more)[p]? = some d :=
  (List.getElem?_append_left (List.getElem?_eq_some_iff.1 h).1).trans h

/-- Where a declaration stands depends on the declarations before it only. -/
theorem Declaration.StandsIn.congr {ds ds' : List Declaration} {i j : Nat} (h : d.StandsIn ds i)
    (hij : i ≤ j) (hkept : ∀ p e, p < i → ds[p]? = some e → ds'[p]? = some e) :
    d.StandsIn ds' j where
  inside p hp := by
    obtain ⟨hless, e, he, hscope, hpath⟩ := h.inside p hp
    exact ⟨Nat.lt_of_lt_of_le hless hij, e, hkept p e hless he, hscope, hpath⟩
  outside := h.outside
  ofClass hd := by
    obtain ⟨p, e, hp, he, hclass⟩ := h.ofClass hd
    exact ⟨p, e, hp, hkept p e (h.inside p hp).1 he, hclass⟩
  notOfFunction hd := by
    refine (h.notOfFunction hd).imp_right ?_
    rintro ⟨p, e, hp, he, hclass⟩
    exact ⟨p, e, hp, hkept p e (h.inside p hp).1 he, hclass⟩

/-- More declarations behind the others move nothing. -/
theorem Declaration.StandsIn.append {i j : Nat} (h : d.StandsIn before i) (hij : i ≤ j) :
    d.StandsIn (before ++ more) j :=
  h.congr hij fun _ _ _ he => getElem?_append_of_some he

theorem WellNested.nil : WellNested [] := fun _ _ h => nomatch h

/-- Declarations that all stand among those before them. -/
theorem WellNested.append (h : WellNested before)
    (hmore : ∀ d ∈ more, d.StandsIn before before.length) : WellNested (before ++ more) := by
  intro i d hd
  by_cases hi : i < before.length
  · rw [List.getElem?_append_left hi] at hd
    exact (h i d hd).append (Nat.le_refl i)
  · rw [List.getElem?_append_right (Nat.le_of_not_lt hi)] at hd
    exact (hmore d (List.mem_of_getElem? hd)).append (Nat.le_of_not_lt hi)

/-- Each declaration stands among those before it. -/
theorem WellNested.stands_take (h : WellNested before) {i : Nat} (hd : before[i]? = some d) :
    d.StandsIn (before.take i) (before.take i).length := by
  have hlength : (before.take i).length = i :=
    List.length_take_of_le (Nat.le_of_lt (List.getElem?_eq_some_iff.1 hd).1)
  refine (h i d hd).congr (Nat.le_of_eq hlength.symm) fun p e hp he => ?_
  rw [List.getElem?_take, if_pos hp, he]

theorem WellNested.stands_last (h : WellNested (before ++ [d])) :
    d.StandsIn before before.length := by
  have hlast := h.stands_take (i := before.length) List.getElem?_concat_length
  rwa [List.take_left' rfl] at hlast

/-- Without the last declarations the others still nest. -/
theorem WellNested.of_append (h : WellNested (before ++ more)) : WellNested before := by
  intro i d hd
  have hi := (List.getElem?_eq_some_iff.1 hd).1
  refine (h i d (getElem?_append_of_some hd)).congr (Nat.le_refl i) fun p e hp he => ?_
  rwa [List.getElem?_append_left (Nat.lt_trans hp hi)] at he

theorem WellNested.take (h : WellNested before) (n : Nat) : WellNested (before.take n) := by
  rw [← List.take_append_drop n before] at h
  exact h.of_append

end Lists

/-! ### The scopes around a statement -/

/-- A scope is of the kind of its declaration. -/
def ScopeKind.Fits : ScopeKind → DeclarationKind → Prop
  | .classBody, kind => kind.isClass = true
  | .functionBody _, kind => kind.isScope = true ∧ kind.isClass = false

theorem ScopeKind.Fits.isScope {s : ScopeKind} {kind : DeclarationKind} (h : s.Fits kind) :
    kind.isScope = true := by
  cases s with
  | classBody => cases kind <;> first | rfl | cases h
  | functionBody => exact h.1

namespace Scopes

/-- The scopes are among the declarations, each with the path that leads to it. -/
inductive DeclaredIn (ds : List Declaration) : Scopes → Prop
  | nil : DeclaredIn ds []
  | cons {s : Scope} {outer : Scopes} {e : Declaration} :
    ds[s.declaration]? = some e → e.name = s.name → s.kind.Fits e.kind →
    e.path = Scopes.path outer → DeclaredIn ds outer → DeclaredIn ds (s :: outer)

variable {before more : List Declaration} {scopes : Scopes}

theorem DeclaredIn.append (h : DeclaredIn before scopes) : DeclaredIn (before ++ more) scopes := by
  induction h with
  | nil => exact .nil
  | cons he hname hkind hpath _ ih => exact .cons (getElem?_append_of_some he) hname hkind hpath ih

theorem path_cons (s : Scope) (outer : Scopes) : path (s :: outer) = path outer ++ [s.name] := by
  rw [path, List.map_cons, List.reverse_cons]
  rfl

/-- Inside a class body the innermost scope is a class. -/
def HeadIsClass : Scopes → Prop
  | ⟨_, _, .classBody⟩ :: _ => True
  | _ => False

/-- A declaration in the innermost scope stands there, if its kind may. -/
theorem DeclaredIn.declare (h : DeclaredIn before scopes) (ident : Identifier)
    {kind : DeclarationKind} (hattribute : kind.isAttribute = true → scopes.HeadIsClass)
    (hplain : kind.isPlain = true → scopes = [] ∨ scopes.HeadIsClass) :
    (scopes.declare ident kind).StandsIn before before.length := by
  cases h with
  | nil =>
    refine ⟨nofun, fun _ => rfl, fun hkind => (hattribute hkind).elim, fun _ => .inl rfl⟩
  | @cons s outer e he hname hfits hpath _ =>
    have hclass : HeadIsClass (s :: outer) → e.kind.isClass = true := by
      intro hhead
      obtain ⟨place, name, kind⟩ := s
      cases kind with
      | classBody => exact hfits
      | functionBody => exact hhead.elim
    refine ⟨?_, nofun, fun hkind => ?_, fun hkind => ?_⟩
    · rintro p ⟨⟩
      refine ⟨(List.getElem?_eq_some_iff.1 he).1, e, he, hfits.isScope, ?_⟩
      show path (s :: outer) = e.path ++ [e.name]
      rw [path_cons, hpath, hname]
    · exact ⟨_, e, rfl, he, hclass (hattribute hkind)⟩
    · rcases hplain hkind with heq | hhead
      · cases heq
      · exact .inr ⟨_, e, rfl, he, hclass hhead⟩

/-- Outside of functions an import or a variable may stand. -/
theorem eq_nil_or_headIsClass (h : scopes.inFunction = false) :
    scopes = [] ∨ scopes.HeadIsClass := by
  cases scopes with
  | nil => exact .inl rfl
  | cons s outer =>
    obtain ⟨place, name, kind⟩ := s
    cases kind with
    | classBody => exact .inr trivial
    | functionBody => cases h

end Scopes

/-! ### Statements without a body -/

section Leaves

variable {before : List Declaration} {scopes : Scopes}

open Scopes

/-- What an assignment declares: attributes of the class around a method, or variables outside of
    functions. -/
theorem targetDeclarations_stand (h : DeclaredIn before scopes) (value : ValueKind)
    (target : Expr) :
    ∀ d ∈ targetDeclarations scopes value target, d.StandsIn before before.length := by
  intro d hd
  unfold targetDeclarations at hd
  split at hd
  · obtain ⟨⟨ident, kind⟩, -, rfl⟩ := List.mem_map.1 hd
    -- The attribute stands in the class, so the scope of the method is left out.
    cases h with
    | cons _ _ _ _ houter => exact houter.declare ident (fun _ => trivial) nofun
  · cases hd
  · rename_i hmethod hfunction
    obtain ⟨⟨ident, kind⟩, -, rfl⟩ := List.mem_map.1 hd
    have houtside : scopes.inFunction = false := by
      unfold inFunction
      split
      · rename_i place name receiver outer
        exact absurd rfl (hfunction place name receiver outer)
      · rfl
    exact h.declare ident nofun fun _ => eq_nil_or_headIsClass houtside

theorem aliasDeclaration_stands (h : DeclaredIn before scopes) (houtside : scopes.inFunction = false)
    (names : Alias) : (aliasDeclaration scopes names).StandsIn before before.length := by
  rw [aliasDeclaration]
  split <;> exact h.declare _ nofun fun _ => eq_nil_or_headIsClass houtside

theorem importDeclarations_stand (h : DeclaredIn before scopes)
    (houtside : scopes.inFunction = false) (module : Option String) (level : Nat)
    (names : ImportNames) :
    ∀ d ∈ importDeclarations scopes module level names, d.StandsIn before before.length := by
  intro d hd
  cases names with
  | star span =>
    obtain rfl := List.mem_singleton.1 hd
    exact h.declare _ nofun fun _ => eq_nil_or_headIsClass houtside
  | names aliases =>
    obtain ⟨a, -, rfl⟩ := List.mem_map.1 hd
    exact h.declare _ nofun fun _ => eq_nil_or_headIsClass houtside

end Leaves

/-! ### Bodies -/

section Bodies

open Scopes

/-- A class or function, and what its body declares behind it. -/
theorem wellNested_scope {before inner : List Declaration} {scopes : Scopes} {ident : Identifier}
    {kind : DeclarationKind} (scopeKind : ScopeKind) (h : WellNested before)
    (hscopes : DeclaredIn before scopes) (hfits : scopeKind.Fits kind)
    (hinner : WellNested (before ++ [scopes.declare ident kind]) →
      DeclaredIn (before ++ [scopes.declare ident kind])
        (⟨before.length, ident.name, scopeKind⟩ :: scopes) →
      WellNested (before ++ [scopes.declare ident kind] ++ inner)) :
    WellNested (before ++ scopes.declare ident kind :: inner) := by
  have hkind := hfits.isScope
  have hattribute : kind.isAttribute = false := by cases kind <;> first | rfl | cases hkind
  have hplain : kind.isPlain = false := by cases kind <;> first | rfl | cases hkind
  have hstands : (scopes.declare ident kind).StandsIn before before.length :=
    hscopes.declare ident (fun heq => by rw [hattribute] at heq; cases heq)
      fun heq => by rw [hplain] at heq; cases heq
  have hfirst := h.append (List.forall_mem_singleton.2 hstands)
  have hplace : (before ++ [scopes.declare ident kind])[before.length]?
      = some (scopes.declare ident kind) := List.getElem?_concat_length
  have hbody := hinner hfirst (.cons hplace rfl hfits rfl hscopes.append)
  rwa [List.append_assoc, List.singleton_append] at hbody

mutual

/-- What a statement declares nests, wherever the statement stands. -/
theorem stmtDeclarations_wellNested {before : List Declaration} {scopes : Scopes}
    (h : WellNested before) (hscopes : DeclaredIn before scopes) : (stmt : Stmt) →
    WellNested (before ++ stmtDeclarations scopes before.length stmt)
  -- A class and a function are declared before what stands in their bodies.
  | .classDef header body _ => by
    rw [stmtDeclarations]
    refine wellNested_scope .classBody h hscopes rfl fun hfirst hinner => ?_
    have hbody := bodyDeclarations_wellNested hfirst hinner body
    rwa [List.length_append, List.length_singleton] at hbody
  | .functionDef header body _ => by
    rw [stmtDeclarations]
    refine wellNested_scope (.functionBody (receiver? scopes header)) h hscopes ⟨rfl, rfl⟩
      fun hfirst hinner => ?_
    have hbody := bodyDeclarations_wellNested hfirst hinner body
    rwa [List.length_append, List.length_singleton] at hbody
  | .assign targets value _ => by
    rw [stmtDeclarations]
    refine h.append fun d hd => ?_
    obtain ⟨target, -, hd⟩ := List.mem_flatMap.1 hd
    exact targetDeclarations_stand hscopes _ target d hd
  | .annAssign target _ value _ => by
    rw [stmtDeclarations]
    exact h.append (targetDeclarations_stand hscopes _ target)
  | .importModules names _ => by
    rw [stmtDeclarations]
    split
    · rwa [List.append_nil]
    · rename_i houtside
      refine h.append fun d hd => ?_
      obtain ⟨a, -, rfl⟩ := List.mem_map.1 hd
      exact aliasDeclaration_stands hscopes (Bool.eq_false_iff.2 houtside) a
  | .importFrom module level names _ => by
    rw [stmtDeclarations]
    split
    · rwa [List.append_nil]
    · rename_i houtside
      exact h.append (importDeclarations_stand hscopes (Bool.eq_false_iff.2 houtside) _ _ names)
  | .compound _ _ clauses _ => by
    rw [stmtDeclarations]
    exact clauseDeclarations_wellNested h hscopes clauses
  | .augAssign .. | .expr _ | .simple .. | .error _ => by
    rw [stmtDeclarations, List.append_nil]
    exact h

/-- What some clauses declare nests. -/
theorem clauseDeclarations_wellNested {before : List Declaration} {scopes : Scopes}
    (h : WellNested before) (hscopes : DeclaredIn before scopes) : (clauses : List Clause) →
    WellNested (before ++ clauseDeclarations scopes before.length clauses)
  | [] => by rwa [clauseDeclarations, List.append_nil]
  | .mk _ body _ :: clauses => by
    have hbody := bodyDeclarations_wellNested h hscopes body
    have hrest := clauseDeclarations_wellNested hbody hscopes.append clauses
    rwa [List.length_append, List.append_assoc] at hrest

/-- What a body declares nests. -/
theorem bodyDeclarations_wellNested {before : List Declaration} {scopes : Scopes}
    (h : WellNested before) (hscopes : DeclaredIn before scopes) : (body : List Stmt) →
    WellNested (before ++ bodyDeclarations scopes before.length body)
  | [] => by rwa [bodyDeclarations, List.append_nil]
  | stmt :: body => by
    have hstmt := stmtDeclarations_wellNested h hscopes stmt
    have hrest := bodyDeclarations_wellNested hstmt hscopes.append body
    rwa [List.length_append, List.append_assoc] at hrest

end

theorem Outline.wellNested_ofTree (tree : SyntaxTree) :
    WellNested (Outline.ofTree tree).declarations :=
  bodyDeclarations_wellNested .nil .nil tree.body

end Bodies

end PyAtlas
