import PyAtlas.Proofs.Token.Arrangement
import PyAtlas.Syntax.Tree
import PyAtlas.Text.DottedName
import Mathlib.Data.List.Flatten

/-!
# Spans in syntax trees

Of a syntax tree only the spans are kept here, each with the spans of what stands directly in it,
in the order of the source. The names in it are kept as well, since what stands under the span of a
name is that name. Only an import of a dotted name binds the first part of what stands there.

Some trees in a row are in order if they stand between two offsets and each of them ends before the
next one begins. `Row` says that of trees without errors, together with what is in them. Where there
are errors nodes may overlap, but their names are still in order.

## Key definitions
- `Mention`, `SpanTree`: names with their spans, and spans with what is in them.
- `Expr.spanTree`, `Stmt.spanTree`: the spans of expressions and statements.
- `SpanTree.Nested`: what is in a span stands there in order.
- `Row`: trees in a row.

## Key results
- `Row.append`, `Row.wrap`: rows behind each other, and a row in one node.
-/

namespace PyAtlas

/-! ### Names in a text -/

/-- A name that a text mentions. -/
inductive Mention
  | name (ident : Identifier)
  /-- A dotted name of which only the first part counts. -/
  | path (dotted : String) (span : Span)

namespace Mention

/-- Where the name stands. -/
def span : Mention → Span
  | .name ident => ident.span
  | .path _ span => span

/-- What stands under the span is the name, or, if that is dotted, begins with its first part. -/
def Stands (source : String) : Mention → Prop
  | .name ident => ident.span.text source = ident.name
  | .path dotted span => (DottedName.head dotted).toList <+: (span.text source).toList
    ∧ ('.' ∉ dotted.toList → span.text source = dotted)

/-- The name stands in the text where its span says so. -/
structure Genuine (m : Mention) (source : String) : Prop where
  inText : m.span.InText source
  nonempty : m.span.start < m.span.stop
  stands : m.Stands source

end Mention

/-! ### First parts of dotted names -/

/-- A dotted name begins with its first part. -/
theorem DottedName.head_prefix (name : String) : (head name).toList <+: name.toList := by
  have hjoin := congrArg String.toList (join_segments name)
  rw [join, String.toList_intercalate] at hjoin
  rw [← hjoin, head]
  cases hname : segments name with
  | nil => exact absurd hname (segments_ne_nil name)
  | cons part parts =>
    cases parts with
    | nil => simp
    | cons next parts => simp [List.intercalate]

namespace Mention.Genuine

variable {source : String} {ident : Identifier} {dotted : String} {span : Span}

/-- A name is a dotted name of one part. -/
theorem path (h : (Mention.name ident).Genuine source) :
    (Mention.path ident.name ident.span).Genuine source where
  inText := h.inText
  nonempty := h.nonempty
  stands := by
    have htext : ident.span.text source = ident.name := h.stands
    refine ⟨?_, fun _ => htext⟩
    rw [htext]
    exact DottedName.head_prefix ident.name

/-- A dotted name grows by one part. -/
theorem segment (h : (Mention.path dotted span).Genuine source)
    (hident : (Mention.name ident).Genuine source) :
    (Mention.path (dotted ++ "." ++ ident.name) (span.merge ident.span)).Genuine source where
  inText := h.inText.merge hident.inText
  nonempty := Nat.lt_of_lt_of_le h.nonempty (Nat.le_max_right _ _)
  stands := by
    refine ⟨?_, fun hpoint => absurd ?_ hpoint⟩
    · rw [DottedName.head_append]
      exact h.stands.1.trans (Span.text_prefix h.inText (h.inText.merge hident.inText) rfl
        (Nat.le_max_right _ _))
    · simp

end Mention.Genuine

/-! ### Spans put together -/

/-- From the start of a span to the end of the last of it and some others. -/
def Span.mergeAll (s : Span) (others : List Span) : Span :=
  others.foldl Span.merge s

namespace Span

variable {s other : Span} {others : List Span}

theorem mergeAll_start (s : Span) (others : List Span) : (s.mergeAll others).start = s.start := by
  induction others generalizing s with
  | nil => rfl
  | cons other others ih => exact ih (s.merge other)

theorem stop_le_mergeAll (s : Span) (others : List Span) : s.stop ≤ (s.mergeAll others).stop := by
  induction others generalizing s with
  | nil => exact Nat.le_refl _
  | cons other others ih => exact Nat.le_trans (Nat.le_max_right _ _) (ih (s.merge other))

theorem stop_le_mergeAll_of_mem (h : other ∈ others) : other.stop ≤ (s.mergeAll others).stop := by
  induction others generalizing s with
  | nil => cases h
  | cons first others ih =>
    rcases List.mem_cons.1 h with rfl | h
    · exact Nat.le_trans (Nat.le_max_left _ _) (stop_le_mergeAll (s.merge other) others)
    · exact ih h

theorem mergeAll_stop_le {hi : Nat} (hs : s.stop ≤ hi) (h : ∀ other ∈ others, other.stop ≤ hi) :
    (s.mergeAll others).stop ≤ hi := by
  induction others generalizing s with
  | nil => exact hs
  | cons other others ih =>
    obtain ⟨hother, hothers⟩ := List.forall_mem_cons.1 h
    exact ih (Nat.max_le.2 ⟨hother, hs⟩) hothers

theorem InText.mergeAll {source : String} (hs : s.InText source)
    (h : ∀ other ∈ others, other.InText source) : (s.mergeAll others).InText source := by
  induction others generalizing s with
  | nil => exact hs
  | cons other others ih =>
    obtain ⟨hother, hothers⟩ := List.forall_mem_cons.1 h
    exact ih (hs.merge hother) hothers

end Span

/-! ### Trees of spans -/

/-- A span with what stands directly in it. -/
inductive SpanTree
  | mention (m : Mention)
  | node (span : Span) (inner : List SpanTree)

namespace SpanTree

/-- The span of the whole. -/
def span : SpanTree → Span
  | mention m => m.span
  | node span _ => span

mutual

/-- All spans in a tree. -/
def spans : SpanTree → List Span
  | mention m => [m.span]
  | node span inner => span :: spansIn inner

/-- All spans in some trees. -/
def spansIn : List SpanTree → List Span
  | [] => []
  | t :: ts => t.spans ++ spansIn ts

end

mutual

/-- The names in a tree, in the order of the source. -/
def mentions : SpanTree → List Mention
  | mention m => [m]
  | node _ inner => mentionsIn inner

/-- The names in some trees. -/
def mentionsIn : List SpanTree → List Mention
  | [] => []
  | t :: ts => t.mentions ++ mentionsIn ts

end

end SpanTree

/-- The spans stand between two offsets, and each of them ends before the next one begins. -/
structure InOrder (lo hi : Nat) (spans : List Span) : Prop where
  bounds : ∀ s ∈ spans, lo ≤ s.start ∧ s.stop ≤ hi
  apart : spans.Pairwise fun a b => a.stop ≤ b.start

namespace SpanTree

mutual

/-- What stands in a span of the tree stands between its ends, in order. -/
def Nested : SpanTree → Prop
  | mention _ => True
  | node span inner => InOrder span.start span.stop (inner.map SpanTree.span) ∧ NestedIn inner

/-- The same of some trees. -/
def NestedIn : List SpanTree → Prop
  | [] => True
  | t :: ts => t.Nested ∧ NestedIn ts

end

theorem spansIn_eq_flatMap (ts : List SpanTree) : spansIn ts = ts.flatMap spans := by
  induction ts with
  | nil => rfl
  | cons t ts ih => rw [spansIn, ih, List.flatMap_cons]

theorem mentionsIn_eq_flatMap (ts : List SpanTree) : mentionsIn ts = ts.flatMap mentions := by
  induction ts with
  | nil => rfl
  | cons t ts ih => rw [mentionsIn, ih, List.flatMap_cons]

theorem mentionsIn_append (ts ts' : List SpanTree) :
    mentionsIn (ts ++ ts') = mentionsIn ts ++ mentionsIn ts' := by
  rw [mentionsIn_eq_flatMap, List.flatMap_append, ← mentionsIn_eq_flatMap, ← mentionsIn_eq_flatMap]

theorem nestedIn_iff {ts : List SpanTree} : NestedIn ts ↔ ∀ t ∈ ts, t.Nested := by
  induction ts with
  | nil => exact ⟨fun _ => nofun, fun _ => trivial⟩
  | cons t ts ih => rw [NestedIn, ih, List.forall_mem_cons]

theorem span_mem_spans (t : SpanTree) : t.span ∈ t.spans := by
  cases t with
  | mention m => exact List.mem_singleton_self _
  | node span inner => exact List.mem_cons_self

end SpanTree

/-! ### The spans of expressions -/

/-- A name on its own. -/
def Identifier.spanTree (ident : Identifier) : SpanTree := .mention (.name ident)

mutual

/-- The spans in an expression. -/
def Expr.spanTree : Expr → SpanTree
  | .name ident => ident.spanTree
  | .attribute value attr span => .node span [value.spanTree, attr.spanTree]
  | .call func arguments span => .node span (func.spanTree :: argumentTrees arguments)
  | .subscript value index span => .node span [value.spanTree, index.spanTree]
  | .literal _ span => .node span []
  | .str _ _ span => .node span []
  | .list items span => .node span (exprTrees items)
  | .tuple items span => .node span (exprTrees items)
  | .set items span => .node span (exprTrees items)
  | .dict items span => .node span (entryTrees items)
  | .unary _ operand span => .node span [operand.spanTree]
  | .binary _ lhs rhs span => .node span [lhs.spanTree, rhs.spanTree]
  | .starred value span => .node span [value.spanTree]
  | .other span => .node span []
  | .error span => .node span []

/-- The spans in an argument, which has none of its own. -/
def Argument.spanTrees : Argument → List SpanTree
  | .positional value => [value.spanTree]
  | .keyword name value => [name.spanTree, value.spanTree]
  | .star value => [value.spanTree]
  | .doubleStar value => [value.spanTree]

/-- The spans in some expressions. -/
def exprTrees : List Expr → List SpanTree
  | [] => []
  | e :: es => e.spanTree :: exprTrees es

/-- The spans in some arguments. -/
def argumentTrees : List Argument → List SpanTree
  | [] => []
  | a :: as => a.spanTrees ++ argumentTrees as

/-- The spans in the entries of a dictionary: keys and values in turns. -/
def entryTrees : List (Expr × Expr) → List SpanTree
  | [] => []
  | (key, value) :: entries => key.spanTree :: value.spanTree :: entryTrees entries

end

@[simp] theorem Expr.span_spanTree (e : Expr) : e.spanTree.span = e.span := by
  cases e <;> rw [spanTree] <;> rfl

@[simp] theorem exprTrees_append (es es' : List Expr) :
    exprTrees (es ++ es') = exprTrees es ++ exprTrees es' := by
  induction es with
  | nil => rfl
  | cons e es ih => rw [List.cons_append, exprTrees, exprTrees, ih, List.cons_append]

@[simp] theorem argumentTrees_append (as as' : List Argument) :
    argumentTrees (as ++ as') = argumentTrees as ++ argumentTrees as' := by
  induction as with
  | nil => rfl
  | cons a as ih => rw [List.cons_append, argumentTrees, argumentTrees, ih, List.append_assoc]

@[simp] theorem entryTrees_append (entries entries' : List (Expr × Expr)) :
    entryTrees (entries ++ entries') = entryTrees entries ++ entryTrees entries' := by
  induction entries with
  | nil => rfl
  | cons entry entries ih =>
    rw [List.cons_append, entryTrees, entryTrees, ih, List.cons_append, List.cons_append]

/-! ### The spans of statements -/

/-- The spans in a parameter. -/
def Parameter.spanTree (p : Parameter) : SpanTree :=
  .node p.span (p.name.spanTree :: exprTrees (p.hint.toList ++ p.default.toList))

/-- The spans in a module of an import statement. Without a name of its own the dotted name is all
    there is. -/
def Alias.moduleTree (names : Alias) : SpanTree :=
  match names.asname with
  | some asname => .node names.span [asname.spanTree]
  | none => .mention (.path names.name names.span)

/-- The spans in a member of a from-import. -/
def Alias.memberTree (names : Alias) : SpanTree :=
  match names.asname with
  | some asname => .node names.span [asname.spanTree]
  | none => .mention (.name ⟨names.name, names.span⟩)

/-- The spans in what a from-import takes. -/
def ImportNames.spanTrees : ImportNames → List SpanTree
  | .star span => [.mention (.name ⟨"*", span⟩)]
  | .names aliases => aliases.map Alias.memberTree

mutual

/-- The spans in a statement. -/
def Stmt.spanTree : Stmt → SpanTree
  | .classDef header body span => .node span (exprTrees header.decorators
      ++ header.name.spanTree :: argumentTrees header.arguments ++ bodyTrees body)
  | .functionDef header body span => .node span (exprTrees header.decorators
      ++ header.name.spanTree :: header.parameters.map Parameter.spanTree
      ++ exprTrees header.returns.toList ++ bodyTrees body)
  | .assign targets value span => .node span (exprTrees (targets ++ [value]))
  | .annAssign target hint value span => .node span (exprTrees (target :: hint :: value.toList))
  | .augAssign target _ value span => .node span (exprTrees [target, value])
  | .importModules names span => .node span (names.map Alias.moduleTree)
  | .importFrom _ _ names span => .node span names.spanTrees
  | .expr value => value.spanTree
  | .compound _ _ clauses span => .node span (clauseNodes clauses)
  | .simple _ span => .node span []
  | .error span => .node span []

/-- The spans in some clauses. -/
def clauseNodes : List Clause → List SpanTree
  | [] => []
  | .mk _ body span :: clauses => .node span (bodyTrees body) :: clauseNodes clauses

/-- The spans in a body. -/
def bodyTrees : List Stmt → List SpanTree
  | [] => []
  | stmt :: body => stmt.spanTree :: bodyTrees body

end

@[simp] theorem Stmt.span_spanTree (stmt : Stmt) : stmt.spanTree.span = stmt.span := by
  cases stmt with
  | expr value =>
    rw [spanTree]
    exact value.span_spanTree
  | _ =>
    rw [spanTree]
    rfl

@[simp] theorem clauseNodes_append (clauses clauses' : List Clause) :
    clauseNodes (clauses ++ clauses') = clauseNodes clauses ++ clauseNodes clauses' := by
  induction clauses with
  | nil => rfl
  | cons clause clauses ih =>
    obtain ⟨kind, body, span⟩ := clause
    rw [List.cons_append, clauseNodes, clauseNodes, ih, List.cons_append]

@[simp] theorem bodyTrees_append (body body' : List Stmt) :
    bodyTrees (body ++ body') = bodyTrees body ++ bodyTrees body' := by
  induction body with
  | nil => rfl
  | cons stmt body ih => rw [List.cons_append, bodyTrees, bodyTrees, ih, List.cons_append]

/-! ### Spans in order -/

namespace InOrder

variable {lo lo' mid mid' hi hi' : Nat} {a b : Span} {as bs : List Span}

theorem nil : InOrder lo hi [] := ⟨nofun, .nil⟩

theorem mono (h : InOrder lo hi as) (hlo : lo' ≤ lo) (hhi : hi ≤ hi') : InOrder lo' hi' as :=
  ⟨fun s hs => ⟨Nat.le_trans hlo (h.bounds s hs).1, Nat.le_trans (h.bounds s hs).2 hhi⟩, h.apart⟩

theorem sublist (h : InOrder lo hi bs) (hsub : as.Sublist bs) : InOrder lo hi as :=
  ⟨fun s hs => h.bounds s (hsub.subset hs), h.apart.sublist hsub⟩

theorem singleton (hlo : lo ≤ a.start) (hhi : a.stop ≤ hi) : InOrder lo hi [a] :=
  ⟨List.forall_mem_singleton.2 ⟨hlo, hhi⟩, List.pairwise_singleton _ _⟩

theorem append (h : InOrder lo mid as) (h' : InOrder mid' hi bs) (hmid : mid ≤ mid')
    (hlo : lo ≤ mid') (hhi : mid ≤ hi) : InOrder lo hi (as ++ bs) where
  bounds := List.forall_mem_append.2
    ⟨(h.mono (Nat.le_refl _) hhi).bounds, (h'.mono hlo (Nat.le_refl _)).bounds⟩
  apart := List.pairwise_append.2 ⟨h.apart, h'.apart, fun a ha b hb =>
    Nat.le_trans (h.bounds a ha).2 (Nat.le_trans hmid (h'.bounds b hb).1)⟩

/-- Two spans in a row make one. -/
theorem merge (h : InOrder lo hi [a, b]) : InOrder lo hi [a.merge b] := by
  obtain ⟨ha, hb⟩ := List.forall_mem_cons.1 h.bounds
  exact .singleton ha.1 (Nat.max_le.2 ⟨(hb b (List.mem_singleton_self b)).2, ha.2⟩)

end InOrder

/-! ### Trees in a row -/

/-- What is asked of the spans in trees. -/
structure Survey where
  /-- The text that the spans are about. -/
  source : String
  /-- Only trees without errors are looked at. -/
  quiet : Prop

/-- The spans in the trees are ranges of the text, and the names stand in it. The names stand
    between two offsets in order, and so do the trees and what is in them if they have no errors. -/
structure Row (w : Survey) (lo hi : Nat) (ts : List SpanTree) : Prop where
  inText : ∀ t ∈ ts, ∀ s ∈ t.spans, s.InText w.source
  genuine : ∀ t ∈ ts, ∀ m ∈ t.mentions, m.Genuine w.source
  names : ¬ w.quiet → InOrder lo hi ((SpanTree.mentionsIn ts).map Mention.span)
  trees : w.quiet → InOrder lo hi (ts.map SpanTree.span)
  nested : w.quiet → ∀ t ∈ ts, t.Nested

namespace Row

open SpanTree

variable {w : Survey} {lo lo' mid mid' hi hi' : Nat} {x : SpanTree} {ts ts' : List SpanTree}
  {span : Span}

theorem nil : Row w lo hi [] :=
  ⟨nofun, nofun, fun _ => .nil, fun _ => .nil, fun _ => nofun⟩

theorem mono (h : Row w lo hi ts) (hlo : lo' ≤ lo) (hhi : hi ≤ hi') : Row w lo' hi' ts :=
  ⟨h.inText, h.genuine, fun hq => (h.names hq).mono hlo hhi, fun hq => (h.trees hq).mono hlo hhi,
    h.nested⟩

/-- Some of the trees may be left out. -/
theorem sublist (h : Row w lo hi ts) (hsub : ts'.Sublist ts) : Row w lo hi ts' where
  inText t ht := h.inText t (hsub.subset ht)
  genuine t ht := h.genuine t (hsub.subset ht)
  names hq := (h.names hq).sublist <| by
    rw [mentionsIn_eq_flatMap, mentionsIn_eq_flatMap]
    exact (hsub.flatMap mentions).map _
  trees hq := (h.trees hq).sublist (hsub.map _)
  nested hq t ht := h.nested hq t (hsub.subset ht)

/-- Two rows behind each other. -/
theorem append (h : Row w lo mid ts) (h' : Row w mid' hi ts') (hmid : mid ≤ mid') (hlo : lo ≤ mid')
    (hhi : mid ≤ hi) : Row w lo hi (ts ++ ts') where
  inText := List.forall_mem_append.2 ⟨h.inText, h'.inText⟩
  genuine := List.forall_mem_append.2 ⟨h.genuine, h'.genuine⟩
  names hq := by
    rw [mentionsIn_append, List.map_append]
    exact (h.names hq).append (h'.names hq) hmid hlo hhi
  trees hq := by
    rw [List.map_append]
    exact (h.trees hq).append (h'.trees hq) hmid hlo hhi
  nested hq := List.forall_mem_append.2 ⟨h.nested hq, h'.nested hq⟩

/-- Without errors one tree is a row from its own start on. -/
theorem from_start (h : Row w lo hi [x]) (hq : w.quiet) : Row w x.span.start hi [x] where
  inText := h.inText
  genuine := h.genuine
  names hreported := absurd hq hreported
  trees _ := .singleton (Nat.le_refl _)
    (List.forall_mem_singleton.1 (List.forall_mem_map.1 (h.trees hq).bounds)).2
  nested := h.nested

/-- A span with nothing in it. -/
theorem node (hin : span.InText w.source) (hlo : lo ≤ span.start) (hhi : span.stop ≤ hi) :
    Row w lo hi [.node span []] where
  inText := List.forall_mem_singleton.2 (List.forall_mem_singleton.2 hin)
  genuine := List.forall_mem_singleton.2 nofun
  names _ := .nil
  trees _ := .singleton hlo hhi
  nested _ := List.forall_mem_singleton.2 ⟨.nil, trivial⟩

/-- A name. -/
theorem mention {m : Mention} (hm : m.Genuine w.source) (hlo : lo ≤ m.span.start)
    (hhi : m.span.stop ≤ hi) : Row w lo hi [.mention m] where
  inText := List.forall_mem_singleton.2 (List.forall_mem_singleton.2 hm.inText)
  genuine := List.forall_mem_singleton.2 (List.forall_mem_singleton.2 hm)
  names _ := .singleton hlo hhi
  trees _ := .singleton hlo hhi
  nested _ := List.forall_mem_singleton.2 trivial

/-- The trees, or some of them, in one node. Without errors it begins where they may begin. -/
theorem wrap (h : Row w lo hi ts) (hsub : ts'.Sublist ts) (hin : span.InText w.source)
    (hquiet : w.quiet → span.start = lo ∧ span.stop ≤ hi ∧ ∀ t ∈ ts', t.span.stop ≤ span.stop) :
    Row w lo hi [.node span ts'] where
  inText := by
    refine List.forall_mem_singleton.2 (List.forall_mem_cons.2 ⟨hin, fun s hs => ?_⟩)
    rw [spansIn_eq_flatMap] at hs
    obtain ⟨t, ht, hs⟩ := List.mem_flatMap.1 hs
    exact h.inText t (hsub.subset ht) s hs
  genuine := by
    refine List.forall_mem_singleton.2 fun m hm => ?_
    rw [mentions, mentionsIn_eq_flatMap] at hm
    obtain ⟨t, ht, hm⟩ := List.mem_flatMap.1 hm
    exact h.genuine t (hsub.subset ht) m hm
  names hq := by
    rw [mentionsIn, mentions, mentionsIn, List.append_nil]
    exact (h.sublist hsub).names hq
  trees hq := by
    obtain ⟨hstart, hstop, -⟩ := hquiet hq
    exact .singleton (Nat.le_of_eq hstart.symm) hstop
  nested hq := by
    obtain ⟨hstart, -, hinner⟩ := hquiet hq
    have htrees := (h.trees hq).sublist (hsub.map SpanTree.span)
    refine List.forall_mem_singleton.2 ⟨⟨List.forall_mem_map.2 fun t ht => ?_, htrees.apart⟩, ?_⟩
    · exact ⟨hstart ▸ (htrees.bounds _ (List.mem_map_of_mem ht)).1, hinner t ht⟩
    · exact nestedIn_iff.2 fun t ht => h.nested hq t (hsub.subset ht)

/-- Where there are errors it does not matter how nodes stand to each other. -/
theorem with_node (h : Row w lo hi ts) (hreported : ¬ w.quiet) (hin : span.InText w.source) :
    Row w lo hi (ts ++ [.node span []]) where
  inText := List.forall_mem_append.2
    ⟨h.inText, List.forall_mem_singleton.2 (List.forall_mem_singleton.2 hin)⟩
  genuine := List.forall_mem_append.2 ⟨h.genuine, List.forall_mem_singleton.2 nofun⟩
  names hq := by
    rw [mentionsIn_append, mentionsIn, mentions, mentionsIn, List.append_nil, List.append_nil]
    exact h.names hq
  trees hq := absurd hq hreported
  nested hq := absurd hq hreported

/-- A name is a dotted name of one part. -/
theorem path {ident : Identifier} (h : Row w lo hi [.mention (.name ident)]) :
    Row w lo hi [.mention (.path ident.name ident.span)] := by
  have hpath := (List.forall_mem_singleton.1 h.genuine _ (List.mem_singleton_self _)).path
  exact {
    inText := List.forall_mem_singleton.2 (List.forall_mem_singleton.2 hpath.inText)
    genuine := List.forall_mem_singleton.2 (List.forall_mem_singleton.2 hpath)
    names := h.names
    trees := h.trees
    nested := fun _ => List.forall_mem_singleton.2 trivial }

/-- A dotted name and the name behind the next point make a longer dotted name. -/
theorem segment {ident : Identifier} {dotted : String}
    (h : Row w lo hi [.mention (.path dotted span), .mention (.name ident)]) :
    Row w lo hi [.mention (.path (dotted ++ "." ++ ident.name) (span.merge ident.span))] := by
  have hgenuine := List.forall_mem_cons.1 h.genuine
  have hdotted := hgenuine.1 _ (List.mem_singleton_self _)
  have hident := List.forall_mem_singleton.1 hgenuine.2 _ (List.mem_singleton_self _)
  have hwhole := hdotted.segment hident
  exact {
    inText := List.forall_mem_singleton.2 (List.forall_mem_singleton.2 hwhole.inText)
    genuine := List.forall_mem_singleton.2 (List.forall_mem_singleton.2 hwhole)
    names := fun hq => (h.names hq).merge
    trees := fun hq => (h.trees hq).merge
    nested := fun _ => List.forall_mem_singleton.2 trivial }

/-- Two spans with nothing in them make one. -/
theorem merge {a b : Span} (h : Row w lo hi [.node a [], .node b []]) :
    Row w lo hi [.node (a.merge b) []] where
  inText := by
    obtain ⟨ha, hb⟩ := List.forall_mem_cons.1 h.inText
    refine List.forall_mem_singleton.2 (List.forall_mem_singleton.2 ?_)
    exact (ha _ (List.mem_singleton_self _)).merge
      (List.forall_mem_singleton.1 hb _ (List.mem_singleton_self _))
  genuine := List.forall_mem_singleton.2 nofun
  names _ := .nil
  trees hq := (h.trees hq).merge
  nested _ := List.forall_mem_singleton.2 ⟨.nil, trivial⟩

end Row

end PyAtlas
