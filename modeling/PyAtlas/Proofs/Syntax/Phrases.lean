import PyAtlas.Proofs.Syntax.Colons
import PyAtlas.Proofs.Syntax.Sketch
import PyAtlas.Proofs.Syntax.TermParsing

/-!
# Lambdas and their colons

Three productions ask which colon belongs to a lambda: the one that reads a lambda, the one that
passes over a header, and the look ahead that tells a dictionary from a set. A `Phrase` is an
expression of names, numbers, calls, subscripts, displays, conditionals and lambdas, whose
parameters may have phrases as their defaults. Each of its colons outside of brackets belongs to
one of its lambdas, so headers end behind it. Two forms are not read as they stand, and a
`strict` phrase has neither: a default with a lambda outside of brackets, whose colon ends the
parameters, and a first key of a dictionary with a comma outside of brackets.

## Key results
- `Phrase.owned`: each colon of a phrase outside of brackets belongs to a lambda.
- `Phrase.reads`: a strict phrase is read as its tree.
- `Phrase.colons_agree`: where the three productions agree.
-/

namespace PyAtlas

open PyAtlas.Parser

/-! ### How phrases are written -/

/-- A parameter of a lambda, or a mark that stands between its parameters. -/
inductive LambdaParameter
  | named (mark : ParameterMark) (name : String) (default : Option Piece)
  | star
  | slash

namespace LambdaParameter

def words : LambdaParameter → List Word
  | .named mark name none => mark.words ++ [.name name]
  | .named mark name (some default) => mark.words ++ .name name :: .equals :: default.words
  | .star => [.star]
  | .slash => [⟨.operator .slash, "/"⟩]

/-- The default of a parameter, if it has one. -/
def default? : LambdaParameter → Option Piece
  | .named _ _ default => default
  | _ => none

end LambdaParameter

/-- Some parts with commas between them, and what stands behind the last one. -/
def joined (groups : List (List Word)) (trailing : List Word) : List Word :=
  (behindCommas groups).tail ++ trailing

/-- The rest of a comprehension behind its first expression. -/
structure Comprehends (words : List Word) : Prop where
  nested : Nested (kindsOf words)
  announced : kindAt words 0 = .keyword .for
    ∨ kindAt words 0 = .keyword .async ∧ kindAt words 1 = .keyword .for

namespace Piece

def inParens (x : Piece) : Piece := ⟨.lParen :: (x.words ++ [.rParen]), x.tree⟩

def call (func : Piece) (arguments : List (CallForm × Piece)) (trailing : List Word) : Piece :=
  ⟨func.words ++ .lParen :: (joined (arguments.map argumentPieceWords) trailing ++ [.rParen]),
    .call func.tree (arguments.map fun a => a.1.argument a.2.tree) .nowhere⟩

def subscript (value : Piece) (slots : List Slot) (trailing : List Word) : Piece :=
  ⟨value.words ++ .lBracket :: (joined (slots.map Slot.words) trailing ++ [.rBracket]),
    .subscript value.tree (subscriptTree slots trailing) .nowhere⟩

def list (items : List Piece) (trailing : List Word) : Piece :=
  ⟨.lBracket :: (joined (items.map Piece.words) trailing ++ [.rBracket]),
    .list (items.map Piece.tree) .nowhere⟩

def tuple (items : List Piece) (trailing : List Word) : Piece :=
  ⟨.lParen :: (joined (items.map Piece.words) trailing ++ [.rParen]),
    .tuple (items.map Piece.tree) .nowhere⟩

def set (items : List Piece) (trailing : List Word) : Piece :=
  ⟨.lCurly :: (joined (items.map Piece.words) trailing ++ [.rCurly]),
    .set (items.map Piece.tree) .nowhere⟩

def dict (entries : List (Piece × Piece)) (trailing : List Word) : Piece :=
  ⟨.lCurly :: (joined (entries.map entryPieceWords) trailing ++ [.rCurly]),
    .dict (entries.map fun e => (e.1.tree, e.2.tree)) .nowhere⟩

/-- A display of what a comprehension computes. -/
def computed (opening : Word) (words tail : List Word) (closing : Word) : Piece :=
  ⟨opening :: (words ++ (tail ++ [closing])), .other .nowhere⟩

def conditional (value condition alternative : Piece) : Piece :=
  ⟨value.words ++ Keyword.if.word :: (condition.words ++ Keyword.else.word :: alternative.words),
    .other .nowhere⟩

/-- The words of the parameters of a lambda. -/
def parameterWords (parameters : List LambdaParameter) (trailing : List Word) : List Word :=
  joined (parameters.map LambdaParameter.words) trailing

def lambda (parameters : List LambdaParameter) (trailing : List Word) (body : Piece) : Piece :=
  ⟨Keyword.lambda.word :: (parameterWords parameters trailing ++ .colon :: body.words),
    .other .nowhere⟩

end Piece

/-- Expressions of names, numbers, calls, subscripts, displays, conditionals and lambdas, with
    the trees they stand for. Operands are all of them but conditionals and lambdas. Where a
    phrase is strict, no default has a lambda outside of brackets and no first key a comma, and
    `await` is no name where it may be an operator. -/
inductive Phrase (v : Version) (strict : Bool) : (operand : Bool) → Piece → Prop
  | operand {x : Piece} : Phrase v strict true x → Phrase v strict false x
  | name {text : String} : (strict = true → v.hasSoftAsync = true → text ≠ "await") →
    Phrase v strict true ⟨[.name text], .name ⟨text, .nowhere⟩⟩
  | number {kind : NumberKind} {text : String} :
    Phrase v strict true ⟨[⟨.number kind, text⟩], .literal kind.literal .nowhere⟩
  | parens {x : Piece} : Phrase v strict false x → Phrase v strict true x.inParens
  | call {func : Piece} {arguments : List (CallForm × Piece)} {trailing : List Word} :
    Phrase v strict true func → (∀ a ∈ arguments, Phrase v strict false a.2) →
    Trailing trailing → (arguments = [] → trailing = []) →
    Phrase v strict true (func.call arguments trailing)
  | subscript {value : Piece} {slots : List Slot} {trailing : List Word} :
    Phrase v strict true value → slots ≠ [] →
    (∀ slot ∈ slots, slot.lower.isSome ∨ slot.bounds ≠ []) →
    (∀ slot ∈ slots, ∀ x ∈ slot.lower, Phrase v strict false x) →
    (∀ slot ∈ slots, ∀ bound ∈ slot.bounds, ∀ x ∈ bound, Phrase v strict false x) →
    Trailing trailing → Phrase v strict true (value.subscript slots trailing)
  | list {items : List Piece} {trailing : List Word} :
    (∀ item ∈ items, Phrase v strict false item) → Trailing trailing →
    (items = [] → trailing = []) → Phrase v strict true (.list items trailing)
  | tuple {items : List Piece} {trailing : List Word} :
    (∀ item ∈ items, Phrase v strict false item) → Trailing trailing →
    (items = [] → trailing = []) → (items.length = 1 → trailing = [.comma]) →
    Phrase v strict true (.tuple items trailing)
  | set {items : List Piece} {trailing : List Word} :
    (∀ item ∈ items, Phrase v strict false item) → Trailing trailing → items ≠ [] →
    Phrase v strict true (.set items trailing)
  | dict {entries : List (Piece × Piece)} {trailing : List Word} :
    (∀ e ∈ entries, Phrase v strict false e.1) → (∀ e ∈ entries, Phrase v strict false e.2) →
    Trailing trailing → (entries = [] → trailing = []) →
    (strict = true → ∀ e ∈ entries.head?, ¬ StandsOutside e.1.words (.operator .comma)) →
    Phrase v strict true (.dict entries trailing)
  | listFor {x : Piece} {tail : List Word} : Phrase v strict false x → Comprehends tail →
    Phrase v strict true (.computed .lBracket x.words tail .rBracket)
  | setFor {x : Piece} {tail : List Word} : Phrase v strict false x → Comprehends tail →
    Phrase v strict true (.computed .lCurly x.words tail .rCurly)
  | dictFor {key value : Piece} {tail : List Word} :
    Phrase v strict false key → Phrase v strict false value → Comprehends tail →
    (strict = true → ¬ StandsOutside key.words (.operator .comma)) →
    Phrase v strict true (.computed .lCurly (entryPieceWords (key, value)) tail .rCurly)
  | conditional {value condition alternative : Piece} :
    Phrase v strict true value → Phrase v strict true condition →
    Phrase v strict false alternative →
    Phrase v strict false (value.conditional condition alternative)
  | lambda {parameters : List LambdaParameter} {trailing : List Word} {body : Piece} :
    (∀ p ∈ parameters, ∀ x ∈ p.default?, Phrase v strict false x) → Trailing trailing →
    (parameters = [] → trailing = []) → Phrase v strict false body →
    (strict = true → ¬ StandsOutside (Piece.parameterWords parameters trailing) (.keyword .lambda)) →
    Phrase v strict false (.lambda parameters trailing body)

/-! ### Whose the colons are -/

/-- What holds of nothing, of a comma and of parts next to each other holds of a row. -/
theorem joined_induction {P : List Word → Prop} (hnil : P []) (hcomma : P [.comma])
    (happend : ∀ words words', P words → P words' → P (words ++ words'))
    {groups : List (List Word)} (hgroups : ∀ words ∈ groups, P words) {trailing : List Word}
    (htrailing : Trailing trailing) : P (joined groups trailing) := by
  have hrow : ∀ groups : List (List Word), (∀ words ∈ groups, P words) →
      P (behindCommas groups) := by
    intro groups hgroups
    induction groups with
    | nil => exact hnil
    | cons words groups ih =>
      obtain ⟨hwords, hgroups⟩ := List.forall_mem_cons.1 hgroups
      exact happend _ _ (happend [.comma] words hcomma hwords) (ih hgroups)
  have hends : P trailing := by
    rcases htrailing with rfl | rfl
    · exact hnil
    · exact hcomma
  refine happend _ _ ?_ hends
  cases groups with
  | nil => exact hnil
  | cons words groups =>
    obtain ⟨hwords, hgroups⟩ := List.forall_mem_cons.1 hgroups
    exact happend _ _ hwords (hrow groups hgroups)

/-- Brackets match, each colon outside of them belongs to a lambda, and no `for` stands there. -/
structure Owned (words : List Word) : Prop where
  nested : Nested (kindsOf words)
  pending : ∀ lambdas, pendingLambdas lambdas (outside (kindsOf words)) = some lambdas
  noFor : ¬ StandsOutside words (.keyword .for)

namespace Owned

variable {w : Word} {words words' : List Word}

theorem nil : Owned [] := ⟨.nil, fun _ => rfl, nofun⟩

theorem append (h : Owned words) (h' : Owned words') : Owned (words ++ words') where
  nested := by
    rw [kindsOf_append]
    exact h.nested.append h'.nested
  pending lambdas := by
    rw [kindsOf_append, h.nested.outside_append, pendingLambdas_append, h.pending]
    exact h'.pending lambdas
  noFor := by
    rw [StandsOutside, kindsOf_append, h.nested.outside_append, List.mem_append, not_or]
    exact ⟨h.noFor, h'.noFor⟩

/-- Words that have no part in the matter. -/
theorem one (hw : w.kind.isInline = true)
    (hplain : w.kind ≠ .keyword .lambda ∧ w.kind ≠ .operator .colon ∧ w.kind ≠ .keyword .for) :
    Owned [w] where
  nested := .one hw
  pending lambdas := by
    show pendingLambdas lambdas (outside [w.kind]) = some lambdas
    rw [outside_one hw]
    exact pendingLambdas_of_forall (List.forall_mem_singleton.2 ⟨hplain.1, hplain.2.1⟩) lambdas
  noFor := by
    show .keyword .for ∉ outside [w.kind]
    rw [outside_one hw, List.mem_singleton]
    exact fun h => hplain.2.2 h.symm

theorem cons (hw : Owned [w]) (h : Owned words) : Owned (w :: words) := hw.append h

theorem comma : Owned [.comma] := .one rfl ⟨nofun, nofun, nofun⟩

theorem name (text : String) : Owned [.name text] := .one rfl ⟨nofun, nofun, nofun⟩

/-- Anything may stand in brackets. -/
theorem bracket {opening closing : Operator} {text text' : String}
    (ho : opening.isOpening = true) (hc : closing.isClosing = true)
    (h : Nested (kindsOf words)) :
    Owned (⟨.operator opening, text⟩ :: (words ++ [⟨.operator closing, text'⟩])) := by
  have hnested : Nested (.operator opening :: kindsOf words ++ [.operator closing]) :=
    .bracket ho hc h
  have houtside : outside (.operator opening :: kindsOf words ++ [.operator closing]) = [] :=
    outside_bracket ho hc h []
  have hkinds : kindsOf (⟨.operator opening, text⟩ :: (words ++ [⟨.operator closing, text'⟩]))
      = .operator opening :: kindsOf words ++ [.operator closing] := by
    simp
  constructor
  · rw [hkinds]
    exact hnested
  · intro lambdas
    rw [hkinds, houtside]
    rfl
  · rw [StandsOutside, hkinds, houtside]
    exact List.not_mem_nil

/-- The colon behind the parameters belongs to the lambda, whatever colons they have. -/
theorem lambda (h : Owned words) (h' : Owned words') :
    Owned (Keyword.lambda.word :: (words ++ .colon :: words')) where
  nested := by
    rw [kindsOf_cons, kindsOf_append, kindsOf_cons]
    exact .cons rfl (h.nested.append (.cons rfl h'.nested))
  pending lambdas := by
    rw [kindsOf_cons, kindsOf_append, kindsOf_cons]
    show pendingLambdas lambdas (outside ([.keyword .lambda] ++ (_ ++ ([.operator .colon] ++ _))))
      = _
    rw [Nested.outside_append (.one rfl), h.nested.outside_append,
      Nested.outside_append (.one rfl), pendingLambdas_append, outside_one rfl,
      outside_one rfl]
    show pendingLambdas (lambdas + 1) _ = _
    rw [pendingLambdas_append, h.pending, Option.bind_some]
    exact h'.pending lambdas
  noFor := by
    rw [StandsOutside, kindsOf_cons, kindsOf_append, kindsOf_cons]
    show .keyword .for ∉ outside ([.keyword .lambda] ++ (_ ++ ([.operator .colon] ++ _)))
    rw [Nested.outside_append (.one rfl), h.nested.outside_append,
      Nested.outside_append (.one rfl), outside_one rfl, outside_one rfl]
    simp only [List.mem_append, List.mem_singleton, not_or]
    exact ⟨nofun, h.noFor, nofun, h'.noFor⟩

theorem joined {groups : List (List Word)} (h : ∀ words ∈ groups, Owned words)
    {trailing : List Word} (htrailing : Trailing trailing) :
    Owned (joined groups trailing) :=
  joined_induction .nil .comma (fun _ _ => .append) h htrailing

end Owned

theorem Nested.joined {groups : List (List Word)} (h : ∀ words ∈ groups, Nested (kindsOf words))
    {trailing : List Word} (htrailing : Trailing trailing) :
    Nested (kindsOf (joined groups trailing)) := by
  refine joined_induction (P := fun words => Nested (kindsOf words)) .nil (.one rfl)
    (fun words words' h h' => ?_) h htrailing
  rw [kindsOf_append]
  exact h.append h'

theorem CallForm.owned (form : CallForm) : Owned form.words := by
  cases form with
  | positional => exact .nil
  | keyword name => exact .cons (.name name) (.one rfl ⟨nofun, nofun, nofun⟩)
  | star => exact .one rfl ⟨nofun, nofun, nofun⟩
  | doubleStar => exact .one rfl ⟨nofun, nofun, nofun⟩

theorem LambdaParameter.owned {p : LambdaParameter} (h : ∀ x ∈ p.default?, Owned x.words) :
    Owned p.words := by
  have hmark : ∀ mark : ParameterMark, Owned mark.words := by
    intro mark
    cases mark with
    | none => exact .nil
    | star => exact .one rfl ⟨nofun, nofun, nofun⟩
    | doubleStar => exact .one rfl ⟨nofun, nofun, nofun⟩
  cases p with
  | named mark name default =>
    cases default with
    | none => exact (hmark mark).append (.name name)
    | some x =>
      exact (hmark mark).append (.cons (.name name)
        (.cons (.one rfl ⟨nofun, nofun, nofun⟩) (h x rfl)))
  | star => exact .one rfl ⟨nofun, nofun, nofun⟩
  | slash => exact .one rfl ⟨nofun, nofun, nofun⟩

theorem nested_entry {e : Piece × Piece} (hkey : Owned e.1.words) (hvalue : Owned e.2.words) :
    Nested (kindsOf (entryPieceWords e)) := by
  rw [entryPieceWords, kindsOf_append, kindsOf_cons]
  exact hkey.nested.append (.cons rfl hvalue.nested)

theorem nested_bound {bound : Option Piece} (h : ∀ x ∈ bound, Owned x.words) :
    Nested (kindsOf (boundWords bound)) := by
  cases bound with
  | none => exact .nil
  | some x => exact (h x rfl).nested

theorem nested_behindColons {bounds : List (Option Piece)}
    (h : ∀ bound ∈ bounds, ∀ x ∈ bound, Owned x.words) :
    Nested (kindsOf (behindColons bounds)) := by
  induction bounds with
  | nil => exact .nil
  | cons bound bounds ih =>
    obtain ⟨hbound, hbounds⟩ := List.forall_mem_cons.1 h
    rw [behindColons, kindsOf_append, kindsOf_cons]
    exact .append (.cons rfl (nested_bound hbound)) (ih hbounds)

theorem Slot.nested {slot : Slot} (hlower : ∀ x ∈ slot.lower, Owned x.words)
    (hbounds : ∀ bound ∈ slot.bounds, ∀ x ∈ bound, Owned x.words) :
    Nested (kindsOf slot.words) := by
  rw [Slot.words, kindsOf_append]
  exact (nested_bound hlower).append (nested_behindColons hbounds)

section Phrase

variable {v : Version} {strict operand : Bool} {x : Piece}

/-- Each colon of a phrase outside of brackets belongs to a lambda of it. -/
theorem Phrase.owned (h : Phrase v strict operand x) : Owned x.words := by
  induction h with
  | operand _ ih => exact ih
  | name _ => exact .name _
  | number => exact .one rfl ⟨nofun, nofun, nofun⟩
  | parens _ ih => exact .bracket rfl rfl ih.nested
  | call _ _ htrailing _ ih iha =>
    refine ih.append (.bracket rfl rfl (Owned.joined ?_ htrailing).nested)
    exact List.forall_mem_map.2 fun a ha => a.1.owned.append (iha a ha)
  | subscript _ _ _ _ _ htrailing ih ihl ihb =>
    refine ih.append (.bracket rfl rfl (Nested.joined ?_ htrailing))
    exact List.forall_mem_map.2 fun slot hslot => Slot.nested (ihl slot hslot) (ihb slot hslot)
  | list _ htrailing _ ih =>
    exact .bracket rfl rfl (Owned.joined (List.forall_mem_map.2 ih) htrailing).nested
  | tuple _ htrailing _ _ ih =>
    exact .bracket rfl rfl (Owned.joined (List.forall_mem_map.2 ih) htrailing).nested
  | set _ htrailing _ ih =>
    exact .bracket rfl rfl (Owned.joined (List.forall_mem_map.2 ih) htrailing).nested
  | dict _ _ htrailing _ _ ihk ihv =>
    refine .bracket rfl rfl (Nested.joined ?_ htrailing)
    exact List.forall_mem_map.2 fun e he => nested_entry (ihk e he) (ihv e he)
  | listFor _ htail ih | setFor _ htail ih =>
    rw [Piece.computed, ← List.append_assoc]
    refine .bracket rfl rfl ?_
    rw [kindsOf_append]
    exact ih.nested.append htail.nested
  | dictFor _ _ htail _ ihk ihv =>
    rw [Piece.computed, ← List.append_assoc]
    refine .bracket rfl rfl ?_
    rw [kindsOf_append]
    exact (nested_entry ihk ihv).append htail.nested
  | conditional _ _ _ ih ihc iha =>
    refine ih.append (.cons (.one rfl ⟨nofun, nofun, nofun⟩) (ihc.append ?_))
    exact .cons (.one rfl ⟨nofun, nofun, nofun⟩) iha
  | lambda _ htrailing _ _ _ ihp ihb =>
    refine .lambda (Owned.joined ?_ htrailing) ihb
    exact List.forall_mem_map.2 fun p hp => LambdaParameter.owned (ihp p hp)

/-! ### Reading strict phrases -/

/-- A row between brackets does not begin with an equals sign. -/
theorem joined_first_ne {groups : List (List Word)} (h : ∀ words ∈ groups.head?, Starts words)
    {trailing : List Word} (hempty : groups = [] → trailing = []) {w : Word}
    (hw : w.kind ≠ .equal) : kindAt (joined groups trailing ++ [w]) 0 ≠ .equal := by
  cases groups with
  | nil =>
    obtain rfl := hempty rfl
    exact hw
  | cons words groups =>
    have hsplit : joined (words :: groups) trailing ++ [w]
        = words ++ (behindCommas groups ++ (trailing ++ [w])) := by
      simp [joined, behindCommas]
    rw [hsplit]
    exact TokenKind.ne_of_opensTerm ((h words rfl).kindAt _) rfl

theorem head?_map_starts {α : Type} {words : α → List Word} {items : List α}
    (h : ∀ item ∈ items, Starts (words item)) : ∀ ws ∈ (items.map words).head?, Starts ws := by
  cases items with
  | nil => nofun
  | cons item items =>
    rintro _ ⟨⟩
    exact h item List.mem_cons_self

theorem starts_entry {e : Piece × Piece} (h : Starts e.1.words) : Starts (entryPieceWords e) :=
  h.append TokenKind.noConfusion

theorem LambdaParameter.first_ne (p : LambdaParameter) (rest : List Word) :
    kindAt (p.words ++ rest) 0 ≠ .equal := by
  cases p with
  | named mark name default => cases mark <;> cases default <;> exact TokenKind.noConfusion
  | star => exact TokenKind.noConfusion
  | slash => exact TokenKind.noConfusion

/-- A phrase begins with a word that begins an expression. -/
theorem Phrase.starts (h : Phrase v strict operand x) : Starts x.words := by
  induction h with
  | operand _ ih => exact ih
  | name _ => exact ⟨_, _, rfl, rfl, TokenKind.noConfusion⟩
  | number => exact ⟨_, _, rfl, rfl, TokenKind.noConfusion⟩
  | parens _ ih => exact ⟨_, _, rfl, rfl, TokenKind.ne_of_opensTerm (ih.kindAt _) rfl⟩
  | call _ _ _ _ ih _ => exact ih.append TokenKind.noConfusion
  | subscript _ _ _ _ _ _ ih _ _ => exact ih.append TokenKind.noConfusion
  | list _ _ hempty ih | tuple _ _ hempty _ ih =>
    refine ⟨_, _, rfl, rfl, joined_first_ne (head?_map_starts ih) (fun h => hempty ?_) nofun⟩
    exact List.map_eq_nil_iff.1 h
  | set _ _ hne ih =>
    refine ⟨_, _, rfl, rfl, joined_first_ne (head?_map_starts ih) (fun h => absurd ?_ hne) nofun⟩
    exact List.map_eq_nil_iff.1 h
  | dict _ _ _ hempty _ ihk _ =>
    refine ⟨_, _, rfl, rfl, joined_first_ne (head?_map_starts fun e he => starts_entry (ihk e he))
      (fun h => hempty ?_) nofun⟩
    exact List.map_eq_nil_iff.1 h
  | listFor _ _ ih | setFor _ _ ih =>
    exact ⟨_, _, rfl, rfl, TokenKind.ne_of_opensTerm (ih.kindAt _) rfl⟩
  | dictFor _ _ _ _ ihk _ =>
    exact ⟨_, _, rfl, rfl, TokenKind.ne_of_opensTerm ((starts_entry ihk).kindAt _) rfl⟩
  | conditional _ _ _ ih _ _ => exact ih.append TokenKind.noConfusion
  | @lambda parameters _ _ _ _ hempty _ _ _ _ =>
    refine ⟨_, _, rfl, rfl, ?_⟩
    cases parameters with
    | nil =>
      rw [Piece.parameterWords, hempty rfl]
      exact TokenKind.noConfusion
    | cons p ps =>
      rw [Piece.parameterWords, joined, List.map_cons, behindCommas, List.cons_append,
        List.tail_cons, List.append_assoc, List.append_assoc]
      exact p.first_ne _

section Comprehension

variable {expr : ExprParser} {limit level edge : Nat} {rest tail : List Word} {w : Word}

theorem Comprehends.follows (h : Comprehends tail) : Follows (tail ++ rest) 0 := by
  intro c hc
  obtain ⟨-, hfirst⟩ := h
  cases tail with
  | nil => rcases hfirst with h | ⟨h, -⟩ <;> cases h
  | cons w tail =>
    have hw : w.kind = .keyword .for ∨ w.kind = .keyword .async := hfirst.imp id And.left
    rw [List.cons_append, kindAt_zero] at hc
    rcases hw with hw | hw <;> rw [hw] at hc <;> cases hc

theorem Comprehends.atComprehension (h : Comprehends tail) {s : ParserState}
    (hs : s.ahead = tail ++ rest) : s.cursor.atComprehension v = true := by
  have hkind : ∀ n, n < tail.length → s.cursor.kindAt n = kindAt tail n := by
    intro n hn
    rw [s.kindAt_eq hs, kindAt, List.getElem?_append_left hn]
    rfl
  obtain ⟨-, hfirst | ⟨hfirst, hsecond⟩⟩ := h
  · have hpos : 0 < tail.length := by
      cases tail with
      | nil => cases hfirst
      | cons _ _ => exact Nat.succ_pos _
    rw [Cursor.atComprehension, Cursor.kind, hkind 0 hpos, hfirst]
    rfl
  · have hlength : 1 < tail.length := by
      rcases tail with - | ⟨w, - | ⟨w', tail⟩⟩
      · cases hfirst
      · cases hsecond
      · simp
    rw [Cursor.atComprehension, Cursor.atAsync, hkind 0 (Nat.lt_of_succ_lt hlength),
      hkind 1 hlength, hfirst, hsecond]
    exact Bool.or_true _

/-- The rest of a comprehension is passed over with the bracket that closes it. -/
theorem takes_comprehension (h : Comprehends tail) {closing : Operator}
    (hw : w.kind = .operator closing) (hc : closing.isClosing = true) (start : Span) :
    Takes (tail ++ w :: rest) rest (comprehension start closing)
      fun e => e.unplaced = .other .nowhere :=
  (takes_skipToClosing h.nested hw hc).bind fun _ _ =>
    (takes_expectClosing hw).bind fun _ _ => Takes.spanFrom_bind fun _ => .pure rfl

/-- A comprehension goes on with no colon of an entry. -/
theorem Comprehends.colonFollows (h : Comprehends tail) {us : List Token}
    (hus : us.map Token.word = tail ++ rest) : colonFollows 0 0 us = false := by
  obtain ⟨-, hfirst | ⟨hfirst, hsecond⟩⟩ := h
  · refine colonFollows_of_separator (.inr (.inr ?_)) hus
    cases tail with
    | nil => cases hfirst
    | cons w tail => exact hfirst
  · match tail, us with
    | [], _ => cases hfirst
    | _ :: _, [] => cases hus
    | async :: tail, token :: us =>
      obtain ⟨htoken, hus⟩ := List.cons.inj hus
      have hkind : token.kind = .keyword .async := (congrArg Word.kind htoken).trans hfirst
      have hnext : PyAtlas.colonFollows 0 0 us = false := by
        refine colonFollows_of_separator (.inr (.inr ?_)) hus
        cases tail with
        | nil => cases hsecond
        | cons w tail => exact hsecond
      rw [PyAtlas.colonFollows.eq_def]
      dsimp only
      rw [hkind]
      exact hnext

/-- A comprehension in square brackets. -/
theorem reads_listFor (h : x.Read v) (htail : Comprehends tail) :
    Reads v (Piece.computed .lBracket x.words tail .rBracket).words level edge
      (.other .nowhere) := by
  rw [Piece.computed, ← List.append_assoc]
  refine .inSquares fun expr limit rest start hexpr hlimit => ?_
  rw [List.append_assoc] at hlimit ⊢
  refine Takes.eats_false (h.first_ne rfl) ((h.item hexpr hlimit htail.follows).bind fun _ _ => ?_)
  refine Takes.look_bind (a := true) (fun s hs => htail.atComprehension hs) ?_
  exact takes_comprehension htail rfl rfl start

/-- A comprehension of a set is told from one of a dictionary. -/
theorem reads_setFor (h : x.Read v) (howned : Owned x.words) (htail : Comprehends tail) :
    Reads v (Piece.computed .lCurly x.words tail .rCurly).words level edge (.other .nowhere) := by
  rw [Piece.computed, ← List.append_assoc]
  refine .inCurlies fun expr limit rest start hexpr hlimit => ?_
  rw [List.append_assoc] at hlimit ⊢
  refine Takes.eats_false (h.first_ne rfl) (Takes.look_bind (a := false) (fun s hs => ?_) ?_)
  · exact atDictEntry_of_separator howned.nested (howned.pending 0) (h.first_ne rfl)
      (fun us hus => htail.colonFollows hus) hs
  refine (h.item hexpr hlimit htail.follows).bind fun _ _ => ?_
  refine Takes.look_bind (a := true) (fun s hs => htail.atComprehension hs) ?_
  exact takes_comprehension htail rfl rfl start

/-- One entry and the rest of a comprehension of a dictionary. -/
theorem takes_dictEntries_for {key value : Piece} (hkey : key.Read v) (hvalue : value.Read v)
    (htail : Comprehends tail) (hexpr : Inner v limit expr)
    (hlimit : (entryPieceWords (key, value) ++ (tail ++ rest)).length < limit) :
    Takes (entryPieceWords (key, value) ++ (tail ++ rest)) (tail ++ rest) (dictEntries v expr)
      fun r => r = none := by
  refine Takes.loop_finished ((takes_dictEntry hkey hvalue hexpr hlimit htail.follows).bind ?_)
  rintro _ ⟨k, e, rfl, -, -⟩
  refine Takes.look_bind (a := true) (fun s hs => htail.atComprehension hs) ?_
  exact .pure ⟨none, rfl, rfl⟩

/-- A comprehension of a dictionary is told from one of a set. -/
theorem reads_dictFor {key value : Piece} (hkey : key.Read v) (hvalue : value.Read v)
    (hdict : key.OpensDict) (htail : Comprehends tail) :
    Reads v (Piece.computed .lCurly (entryPieceWords (key, value)) tail .rCurly).words level edge
      (.other .nowhere) := by
  rw [Piece.computed, ← List.append_assoc]
  refine .inCurlies fun expr limit rest start hexpr hlimit => ?_
  rw [List.append_assoc] at hlimit ⊢
  refine Takes.eats_false ?_ (Takes.look_bind (a := true) (fun s hs => ?_) ?_)
  · rw [entryPieceWords, List.append_assoc]
    exact hkey.first_ne rfl
  · rw [entryPieceWords, List.append_assoc, List.cons_append] at hs
    exact hdict s _ hs
  refine (takes_dictEntries_for hkey hvalue htail hexpr hlimit).bind ?_
  rintro _ rfl
  exact takes_comprehension htail rfl rfl start

end Comprehension

/-- A lambda is read with its body where no colon of its parameters stands outside of
    brackets. -/
theorem reads_lambda {words : List Word} {body : Piece} {level : Nat}
    (hwords : Nested (kindsOf words)) (hcolon : ¬ StandsOutside words (.operator .colon))
    (hbody : body.Read v) :
    Reads v (Keyword.lambda.word :: (words ++ .colon :: body.words)) level 0 (.other .nowhere) := by
  refine .of_first rfl TokenKind.noConfusion fun expr limit rest token hexpr hlimit hrest hkind => ?_
  rw [operandAfter, hkind]
  rw [List.append_assoc, List.cons_append] at hlimit ⊢
  have hless : (body.words ++ rest).length < limit := by
    rw [List.length_append, List.length_cons] at hlimit
    omega
  refine (takes_lambdaParameters hwords hcolon).bind ?_
  rintro _ rfl
  exact (hbody.takes hexpr hless hrest (p := Precedence.named) (by decide)).bind fun _ _ => .pure rfl

/-- A conditional takes in everything up to its end. -/
theorem reads_conditional {value condition alternative : Piece}
    (hvalue : Reads v value.words (trailerStrength + 2) (trailerStrength + 2) value.tree)
    (hcondition : Reads v condition.words (trailerStrength + 2) (trailerStrength + 2)
      condition.tree)
    (halternative : alternative.Read v) :
    Reads v (value.conditional condition alternative).words 2 0 (.other .nowhere) := by
  intro expr limit p rest after Q hexpr hlimit hp hrest hnext
  have hsplit : (value.conditional condition alternative).words ++ rest
      = value.words ++ Keyword.if.word :: (condition.words
        ++ Keyword.else.word :: (alternative.words ++ rest)) := by
    simp [Piece.conditional]
  rw [hsplit] at hlimit ⊢
  have hfollows : ∀ words : List Word, Follows (Keyword.if.word :: words) (trailerStrength + 2) :=
    fun words c hc => by cases hc; decide
  -- The value is an operand, and the rest is what continues it.
  refine hvalue expr limit p _ after Q hexpr hlimit (by simp [trailerStrength]; omega)
    (hfollows _) fun lhs _ => ?_
  have hmiddle : (condition.words ++ Keyword.else.word :: (alternative.words ++ rest)).length
      < limit := by
    simp only [List.length_append, List.length_cons] at hlimit ⊢
    omega
  have hlast : (alternative.words ++ rest).length < limit := by
    simp only [List.length_append, List.length_cons] at hlimit ⊢
    omega
  -- The condition ends in front of `else`, which no operator may be.
  have helse : ∀ q, Follows (Keyword.else.word :: (alternative.words ++ rest)) q :=
    fun q c hc => by cases hc
  have hcontinued : ∀ token, Takes
      (condition.words ++ Keyword.else.word :: (alternative.words ++ rest)) rest
      (continued v expr lhs token .conditional) fun e => e.unplaced = .other .nowhere := by
    intro token
    refine (hcondition.run hexpr hmiddle (by decide) (helse _) (helse _)).discard.bind fun _ _ => ?_
    refine Takes.peekKind_bind fun _ _ => Takes.eats_true rfl ?_
    refine (halternative.takes hexpr hlast hrest (p := Precedence.named) (by decide)).discard.bind
      fun _ _ => ?_
    exact Takes.spanFrom_bind fun _ => .pure rfl
  have hshorter : rest.length
      < (Keyword.if.word :: (condition.words
        ++ Keyword.else.word :: (alternative.words ++ rest))).length := by
    simp only [List.length_append, List.length_cons]
    omega
  exact takes_continuations_again rfl hp hcontinued (Nat.le_of_lt_succ hshorter) hnext

/-- Where an operand and where any phrase may stand. -/
def phraseLevel (operand : Bool) : Nat := if operand then trailerStrength + 2 else 2

/-- How tight an operator may be that stands after a phrase. -/
def phraseEdge (operand : Bool) : Nat := if operand then trailerStrength + 2 else 0

theorem Owned.any_endsKey_iff {words : List Word} (h : Owned words) :
    (outside (kindsOf words)).any TokenKind.endsKey = true
      ↔ StandsOutside words (.operator .comma) := by
  rw [List.any_eq_true]
  constructor
  · rintro ⟨k, hk, hends⟩
    cases k with
    | operator op => cases op <;> first | exact hk | cases hends
    | keyword word => cases word <;> first | exact absurd hk h.noFor | cases hends
    | _ => cases hends
  · exact fun hcomma => ⟨_, hcomma, rfl⟩

/-- In front of a colon a phrase is taken for a key unless it has a comma outside of
    brackets. -/
theorem Owned.atDictEntry_iff {words rest : List Word} (h : Owned words) (hstarts : Starts words)
    {s : ParserState} (hs : s.ahead = words ++ .colon :: rest) :
    s.cursor.atDictEntry = true ↔ ¬ StandsOutside words (.operator .comma) := by
  have hfirst : kindAt (words ++ .colon :: rest) 0 ≠ .operator .doubleStar :=
    TokenKind.ne_of_opensTerm (hstarts.kindAt _) rfl
  rw [atDictEntry_of_colon h.nested (h.pending 0) hfirst rfl hs, Bool.not_eq_true',
    ← Bool.not_eq_true, h.any_endsKey_iff]

/-- In front of what separates the items of a set no phrase is taken for a key. -/
theorem Owned.opensSet (h : Owned x.words) (hstarts : Starts x.words) : x.OpensSet := by
  intro s rest hs hrest
  refine atDictEntry_of_separator h.nested (h.pending 0)
    (TokenKind.ne_of_opensTerm (hstarts.kindAt rest) rfl) (fun us hus => ?_) hs
  exact colonFollows_of_separator (hrest.imp_right .inl) hus

/-- A strict phrase is read as its tree. -/
theorem Phrase.reads (h : Phrase v true operand x) :
    Reads v x.words (phraseLevel operand) (phraseEdge operand) x.tree := by
  induction h with
  | operand _ ih => exact ih.mono (by decide) (by decide)
  | name h => exact reads_name (h rfl)
  | number => exact reads_number
  | parens hx ih => exact Piece.Read.inParens ⟨hx.starts, ih⟩
  | call _ harguments htrailing hempty ih iha =>
    exact ih.call (fun a ha => ⟨(harguments a ha).starts, iha a ha⟩) htrailing hempty
  | subscript _ hne hslots hlower hbounds htrailing ih ihl ihb =>
    refine ih.subscript hne (fun slot hslot => ⟨hslots slot hslot, fun x hx => ?_,
      fun bound hb x hx => ?_⟩) htrailing
    · exact ⟨(hlower slot hslot x hx).starts, ihl slot hslot x hx⟩
    · exact ⟨(hbounds slot hslot bound hb x hx).starts, ihb slot hslot bound hb x hx⟩
  | list hitems htrailing hempty ih =>
    exact reads_list (fun item hi => ⟨(hitems item hi).starts, ih item hi⟩) htrailing hempty
  | tuple hitems htrailing hempty hone ih =>
    exact reads_tuple (fun item hi => ⟨(hitems item hi).starts, ih item hi⟩) htrailing hempty hone
  | set hitems htrailing hne ih =>
    refine reads_set (fun item hi => ⟨(hitems item hi).starts, ih item hi⟩) htrailing hne
      fun first hfirst => ?_
    have hphrase := hitems first (List.mem_of_mem_head? hfirst)
    exact hphrase.owned.opensSet hphrase.starts
  | dict hkeys hvalues htrailing hempty hstrict ihk ihv =>
    refine reads_dict (fun e he => ⟨⟨(hkeys e he).starts, ihk e he⟩, (hvalues e he).starts,
      ihv e he⟩) htrailing hempty fun e he s rest hs => ?_
    have hkey := hkeys e (List.mem_of_mem_head? he)
    exact (hkey.owned.atDictEntry_iff hkey.starts hs).2 (hstrict rfl e he)
  | listFor hx htail ih => exact reads_listFor ⟨hx.starts, ih⟩ htail
  | setFor hx htail ih => exact reads_setFor ⟨hx.starts, ih⟩ hx.owned htail
  | dictFor hkey hvalue htail hstrict ihk ihv =>
    refine reads_dictFor ⟨hkey.starts, ihk⟩ ⟨hvalue.starts, ihv⟩ (fun s rest hs => ?_) htail
    exact (hkey.owned.atDictEntry_iff hkey.starts hs).2 (hstrict rfl)
  | conditional _ _ ha ih ihc iha => exact reads_conditional ih ihc ⟨ha.starts, iha⟩
  | lambda hparameters htrailing _ hbody hstrict _ ih =>
    have howned : Owned (Piece.parameterWords _ _) := Owned.joined (List.forall_mem_map.2
      fun p hp => LambdaParameter.owned fun x hx => (hparameters p hp x hx).owned) htrailing
    exact reads_lambda howned.nested
      (colon_notMem_of_pendingLambdas (hstrict rfl) (howned.pending 0)) ⟨hbody.starts, ih⟩

/-! ### Where the three productions agree -/

/-- A strict phrase where an expression is expected. -/
theorem Phrase.expression (h : Phrase v true operand x) {rest : List Word}
    (hrest : Follows rest 0) :
    Takes (x.words ++ rest) rest (Parser.expression v) fun e => e.unplaced = x.tree := by
  have hread : x.Read v := by
    refine ⟨h.starts, h.reads.mono ?_ ?_⟩
    · cases operand <;> decide
    · exact Nat.zero_le _
  have hexpr : Inner v ((x.words ++ rest).length + 1) (parseExpr v) := fun _ _ _ => rfl
  exact hread.alone hexpr (Nat.lt_succ_self _) hrest

/-- In front of a colon a phrase is passed over by a header up to that colon, whatever it is made
    of. It is taken for a key of a dictionary unless a comma stands in it outside of brackets, and
    if it is strict it is read as its tree and nothing is reported. -/
theorem Phrase.colons_agree (h : Phrase v false operand x) (rest : List Word) :
    Takes (x.words ++ .colon :: rest) rest skipHeader (fun _ => True)
      ∧ (∀ s : ParserState, s.ahead = x.words ++ .colon :: rest →
        (s.cursor.atDictEntry = true ↔ ¬ StandsOutside x.words (.operator .comma)))
      ∧ (Phrase v true operand x → Takes (x.words ++ .colon :: rest) (.colon :: rest)
        (Parser.expression v) fun e => e.unplaced = x.tree) := by
  refine ⟨takes_skipHeader_nested h.owned.nested (h.owned.pending 0), fun s hs => ?_, fun h => ?_⟩
  · exact h.owned.atDictEntry_iff h.starts hs
  · exact h.expression (.of_endsTerm rfl 0)

end Phrase

/-- A lambda whose default is a subscript with a slice, and whose body is a conditional that ends
    with a lambda. -/
theorem colons_agree_nested_lambda :
    let one : Piece := ⟨[⟨.number .int, "1"⟩], .literal .int .nowhere⟩
    let name (text : String) : Piece := ⟨[.name text], .name ⟨text, .nowhere⟩⟩
    let slice : Piece := (name "f").subscript [⟨some one, [none, some one]⟩] []
    let body : Piece := (name "a").conditional (name "b") (.lambda [] [] one)
    let x : Piece := .lambda [.named .none "a" (some slice)] [] body
    Takes (x.words ++ [.colon, ⟨.newline, ""⟩]) [⟨.newline, ""⟩] skipHeader (fun _ => True)
      ∧ (∀ s : ParserState, s.ahead = x.words ++ [.colon, ⟨.newline, ""⟩] →
        s.cursor.atDictEntry = true)
      ∧ Takes (x.words ++ [.colon, ⟨.newline, ""⟩]) [.colon, ⟨.newline, ""⟩]
        (Parser.expression .v37) fun e => e.unplaced = .other .nowhere := by
  intro one name slice body x
  have hphrase : ∀ strict, Phrase .v37 strict false x := by
    intro strict
    have hname : ∀ text, Phrase .v37 strict true (name text) := fun _ => .name fun _ h => by cases h
    have hone : Phrase .v37 strict false one := .operand .number
    refine .lambda ?_ (.inl rfl) nofun
      (.conditional (hname "a") (hname "b") (.lambda nofun (.inl rfl) (fun _ => rfl) hone ?_)) ?_
    · rintro p hp y hy
      obtain rfl := List.mem_singleton.1 hp
      obtain rfl := Option.some_inj.1 hy
      refine .operand (.subscript (hname "f") nofun ?_ ?_ ?_ (.inl rfl))
      all_goals simp [hone]
    all_goals exact fun _ => by decide
  obtain ⟨hheader, hdict, hexpression⟩ := Phrase.colons_agree (hphrase false) [⟨.newline, ""⟩]
  exact ⟨hheader, fun s hs => (hdict s hs).2 (by decide), hexpression (hphrase true)⟩

/-- A colon of a lambda in a default ends the parameters, so the rest of the expression is left;
    and a lambda with two parameters is taken for no key. -/
theorem colons_disagree :
    let one : Piece := ⟨[⟨.number .int, "1"⟩], .literal .int .nowhere⟩
    let nested : Piece := .lambda [.named .none "a" (some (.lambda [] [] one))] [] one
    let double : Piece := .lambda [.named .none "a" none, .named .none "b" none] [] one
    (Phrase .v37 false false nested
        ∧ ¬ Takes (nested.words ++ [.colon, ⟨.newline, ""⟩, ⟨.eof, ""⟩])
          [.colon, ⟨.newline, ""⟩, ⟨.eof, ""⟩] (Parser.expression .v37) fun _ => True)
      ∧ (Phrase .v37 false false double
        ∧ (Parser.start .v37 "lambda a, b: 1:").ahead
          = double.words ++ [.colon, ⟨.newline, ""⟩, ⟨.eof, ""⟩]
        ∧ (Parser.start .v37 "lambda a, b: 1:").cursor.atDictEntry = false) := by
  intro one nested double
  have hone : Phrase .v37 false false one := .operand .number
  refine ⟨⟨?_, fun h => ?_⟩, ?_, by decide +kernel, by decide +kernel⟩
  · refine .lambda ?_ (.inl rfl) nofun hone nofun
    rintro p hp x hx
    obtain rfl := List.mem_singleton.1 hp
    obtain rfl := Option.some_inj.1 hx
    exact .lambda nofun (.inl rfl) (fun _ => rfl) hone nofun
  · have hstart : (Parser.start .v37 "lambda a=lambda: 1: 1:").ahead
        = nested.words ++ [.colon, ⟨.newline, ""⟩, ⟨.eof, ""⟩] := by decide +kernel
    have hleft : (Parser.expression .v37 (Parser.start .v37 "lambda a=lambda: 1: 1:")).2.ahead
        ≠ [.colon, ⟨.newline, ""⟩, ⟨.eof, ""⟩] := by decide +kernel
    exact hleft (h _ hstart).1
  · refine .lambda ?_ (.inl rfl) nofun hone nofun
    rintro p hp x hx
    simp only [List.mem_cons, List.not_mem_nil, or_false] at hp
    rcases hp with rfl | rfl <;> cases hx

end PyAtlas
