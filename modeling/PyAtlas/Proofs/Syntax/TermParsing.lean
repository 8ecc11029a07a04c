import PyAtlas.Proofs.Syntax.Colons
import PyAtlas.Proofs.Syntax.Pieces
import PyAtlas.Syntax.ParseStmt

/-!
# Parsing what was written

Parsing the text of a term yields its syntax tree. The words of a term are read as the term
wherever they may stand: for each operator this is one step that puts together what is known of
the operands. Parentheses are needed just where the level of an operand does not suffice. In
brackets a term is a piece like any other.

## Key results
- `Term.Read.piece`: a term that is read is a piece that is read.
- `Reads.binary`, `Reads.unary`: one step of the climb.
- `Term.Valid.reads`: the words of a term are read as the term.
- `Term.Valid.parse_text`: parsing undoes writing.
-/

namespace PyAtlas

open PyAtlas.Parser

/-! ### Terms as pieces -/

/-- How tight an operator may be that stands after a term: a power takes in further powers. -/
def Term.edge (t : Term) : Nat :=
  if t.strength = BinaryOp.strength (.operator .doubleStar) then t.strength + 1
  else t.strength + 2

/-- A term that is read as what it stands for. -/
structure Term.Read (v : Version) (t : Term) : Prop where
  valid : t.Valid v
  reads : Reads v t.words (t.strength + 2) t.edge t.expr

/-- The words of a term and its tree. -/
def Term.piece (t : Term) : Piece := ⟨t.words, t.expr⟩

section Rows

variable {v : Version} {t : Term} {rest : List Word} {expr : ExprParser} {limit : Nat}

theorem Term.Read.piece (h : t.Read v) : t.piece.Read v where
  starts := h.valid.starts
  reads := fun expr limit p rest after Q hexpr hlimit hp hrest hnext =>
    h.reads expr limit p rest after Q hexpr hlimit (Nat.lt_of_lt_of_le hp (Nat.le_add_left 2 _))
      (hrest.mono (Nat.zero_le _)) hnext

theorem itemWords_eq (items : List Term) : itemWords items = rowWords (items.map Term.piece) := by
  induction items with
  | nil => rfl
  | cons item items ih => rw [itemWords, ih]; rfl

theorem itemExprs_eq (items : List Term) :
    itemExprs items = (items.map Term.piece).map Piece.tree := by
  induction items with
  | nil => rfl
  | cons item items ih => rw [itemExprs, ih]; rfl

theorem argumentWords_eq (arguments : List (CallForm × Term)) :
    argumentWords arguments
      = behindCommas ((arguments.map fun a => (a.1, a.2.piece)).map argumentPieceWords) := by
  induction arguments with
  | nil => rfl
  | cons a arguments ih => rw [argumentWords, ih]; rfl

theorem argumentExprs_eq (arguments : List (CallForm × Term)) :
    argumentExprs arguments
      = (arguments.map fun a => (a.1, a.2.piece)).map fun a => a.1.argument a.2.tree := by
  induction arguments with
  | nil => rfl
  | cons a arguments ih => rw [argumentExprs, ih]; rfl

theorem entryWords_eq (entries : List (Term × Term)) :
    entryWords entries
      = behindCommas ((entries.map fun e => (e.1.piece, e.2.piece)).map entryPieceWords) := by
  induction entries with
  | nil => rfl
  | cons e entries ih =>
    rw [entryWords, ih]
    rfl

theorem entryExprs_eq (entries : List (Term × Term)) :
    entryExprs entries
      = (entries.map fun e => (e.1.piece, e.2.piece)).map fun e => (e.1.tree, e.2.tree) := by
  induction entries with
  | nil => rfl
  | cons e entries ih => rw [entryExprs, ih]; rfl

theorem read_pieces {items : List Term} (h : ∀ item ∈ items, item.Read v) :
    ∀ x ∈ items.map Term.piece, x.Read v :=
  List.forall_mem_map.2 fun item hitem => (h item hitem).piece

/-- The arguments of a call and the closing parenthesis. -/
theorem takes_termArguments (hexpr : Inner v limit expr) {arguments : List (CallForm × Term)}
    (hread : ∀ a ∈ arguments, a.2.Read v)
    (hlimit : ((argumentWords arguments).tail ++ .rParen :: rest).length < limit) :
    Takes ((argumentWords arguments).tail ++ .rParen :: rest) rest (callArguments v expr)
      fun as => unplacedArguments as = argumentExprs arguments := by
  rw [argumentExprs_eq]
  rw [argumentWords_eq] at hlimit ⊢
  refine takes_callArguments hexpr ?_ (.inl rfl) (fun _ => rfl) hlimit
  exact List.forall_mem_map.2 fun a ha => (hread a ha).piece

/-- No comma outside of brackets keeps a term from being a key. -/
theorem Term.Valid.any_endsKey (h : t.Valid v) :
    (outside (kindsOf t.words)).any TokenKind.endsKey = false := by
  rw [List.any_eq_false]
  exact fun k hk => by simpa using (h.balanced.outside k hk).1 rfl

/-- A colon after the first term makes a dictionary. -/
theorem Term.Valid.opensDict (h : t.Valid v) : t.piece.OpensDict := by
  intro s rest hs
  have hfirst : kindAt (t.words ++ .colon :: rest) 0 ≠ .operator .doubleStar :=
    TokenKind.ne_of_opensTerm (h.starts.kindAt _) rfl
  rw [atDictEntry_of_colon h.balanced.nested (h.balanced.pendingLambdas 0) hfirst rfl hs,
    h.any_endsKey]
  rfl

/-- Without one it is a set. -/
theorem Term.Valid.opensSet (h : t.Valid v) : t.piece.OpensSet := by
  intro s rest hs hrest
  have hfirst : kindAt (t.words ++ rest) 0 ≠ .operator .doubleStar :=
    TokenKind.ne_of_opensTerm (h.starts.kindAt rest) rfl
  refine atDictEntry_of_separator h.balanced.nested (h.balanced.pendingLambdas 0) hfirst
    (fun us hus => colonFollows_of_separator ?_ hus) hs
  exact hrest.imp_right .inl

end Rows

/-! ### One step -/

section Terms

variable {v : Version} {t lhs rhs : Term} {level edge : Nat} {w : Word}
  {words : List Word} {tree : Expr}

/-- A term in parentheses stands anywhere. -/
theorem Term.Read.in_parens (h : t.Read v) :
    Reads v (.lParen :: (t.words ++ [.rParen])) level edge t.expr :=
  h.piece.inParens

/-- An operand that has to hold tighter than the operator. -/
theorem Term.Read.tighter (h : t.Read v) (strength : Nat) :
    Reads v (parenthesize (t.needsParens strength false) t.words) (strength + 3) (strength + 2)
      t.expr := by
  cases hneeded : t.needsParens strength false with
  | true => exact h.in_parens
  | false =>
    have hless : strength < t.strength := by simpa [Term.needsParens] using hneeded
    refine h.reads.mono (by omega) ?_
    rw [Term.edge]
    split <;> omega

/-- An operand that has to hold as tightly as the operator. -/
theorem Term.Read.asTight (h : t.Read v) {strength : Nat}
    (hedge : strength = BinaryOp.strength (.operator .doubleStar) → edge ≤ strength + 1)
    (hedge' : edge ≤ strength + 2) :
    Reads v (parenthesize (t.needsParens strength true) t.words) (strength + 2) edge t.expr := by
  cases hneeded : t.needsParens strength true with
  | true => exact h.in_parens
  | false =>
    have hle : strength ≤ t.strength := by simpa [Term.needsParens] using hneeded
    refine h.reads.mono (by omega) ?_
    rw [Term.edge]
    split
    · next hpower =>
      by_cases heq : strength = t.strength
      · have := hedge (heq.trans hpower)
        omega
      · omega
    · omega

/-- An operator before its operand. -/
theorem Reads.unary {op : UnaryOp} (hop : op ≠ .await) (h : t.Read v) :
    Reads v (op.word :: parenthesize (t.needsParens op.strength false) t.words) level
      (op.strength + 2) (.unary op t.expr .nowhere) := by
  refine .of_first (by cases op <;> first | rfl | exact absurd rfl hop)
    (by cases op <;> exact TokenKind.noConfusion)
    fun expr limit rest token hexpr hlimit hedge hkind => ?_
  have hoperand : Takes (parenthesize (t.needsParens op.strength false) t.words ++ rest) rest
      (Parser.unary expr op (op.strength + 2) token.span)
      fun e => e.unplaced = .unary op t.expr .nowhere := by
    refine ((h.tighter op.strength).run hexpr hlimit (Nat.lt_succ_self _) hedge hedge).bind
      fun e he => .pure ?_
    rw [Expr.unplaced, he]
  rw [operandAfter, hkind]
  cases op with
  | await => exact absurd rfl hop
  | _ => exact hoperand

/-- What an operator between two operands makes of what follows it. -/
theorem takes_continued_binary {expr : ExprParser} {op : BinaryOp} {lhs : Expr} {token : Token}
    {rest after : List Word} {Q : Expr → Prop} (p : Nat)
    (hp : p = if op == .operator .doubleStar then (Continuation.binary op).precedence - 1
      else (Continuation.binary op).precedence)
    (h : Takes rest after (expr p) fun e => Q (Parser.binary op lhs e)) :
    Takes (op.words.tail ++ rest) after (continued v expr lhs token (.binary op)) Q := by
  have hrhs : Takes rest after (expr p >>= fun rhs => pure (Parser.binary op lhs rhs)) Q :=
    h.bind fun e he => .pure he
  subst hp
  cases op with
  | notIn => exact Takes.advance_bind hrhs
  | isNot => exact Takes.advance_bind hrhs
  | _ => exact hrhs

/-- The words of an operator and what follows them on the right side. -/
theorem BinaryOp.exists_words (op : BinaryOp) :
    ∃ w, op.words = w :: op.words.tail := by
  cases op <;> exact ⟨_, rfl⟩

/-- An operator between two operands. `edge` is where the right operand ends. -/
theorem Reads.binary {op : BinaryOp} (hop : op.strength ≠ 0) {leftWords rightWords : List Word}
    {left right : Expr} (hleft : Reads v leftWords (op.strength + 2) (op.strength + 2) left)
    (hright : Reads v rightWords (edge + 1) edge right)
    (hedge : edge = if op == .operator .doubleStar then op.strength + 2 - 1 else op.strength + 2)
    (his : ∀ rest, op = .is → kindAt (rightWords ++ rest) 0 ≠ .keyword .not) :
    Reads v (leftWords ++ op.words ++ rightWords) (op.strength + 2) edge
      (.binary op left right .nowhere) := by
  intro expr limit p rest after Q hexpr hlimit hp hrest hnext
  rw [List.append_assoc, List.append_assoc] at hlimit ⊢
  have hannounced := BinaryOp.ofKinds?_words hop (his rest)
  refine hleft expr limit p _ after Q hexpr hlimit hp ?_ fun lhs hlhs => ?_
  · intro c hc
    rw [hannounced, Option.some_inj] at hc
    exact hc ▸ Nat.le_of_eq (BinaryOp.precedence_eq hop)
  · obtain ⟨w, hw⟩ := op.exists_words
    have hless : (rightWords ++ rest).length < limit := by
      rw [hw] at hlimit
      simp only [List.length_append, List.length_cons] at hlimit ⊢
      omega
    have hcontinued : ∀ token, Takes (op.words.tail ++ (rightWords ++ rest)) rest
        (continued v expr lhs token (.binary op))
        fun e => e.unplaced = .binary op left right .nowhere := by
      intro token
      refine takes_continued_binary edge (by rw [hedge, BinaryOp.precedence_eq hop]) ?_
      refine (hright.run hexpr hless (Nat.lt_succ_self _) hrest hrest).weaken fun rhs hrhs => ?_
      rw [Parser.binary, Expr.unplaced, hlhs, hrhs]
    rw [hw, List.cons_append] at hannounced ⊢
    refine takes_continuations_again hannounced (by rw [BinaryOp.precedence_eq hop]; exact hp)
      hcontinued ?_ hnext
    simp only [List.length_append]
    omega

/-- What stands after `is` is no `not`, which would make another operator of it. -/
theorem Term.Valid.not_behind_is (h : t.Valid v) {strength : Nat} (equal : Bool) {op : BinaryOp}
    (hstrength : strength = op.strength) (rest : List Word) (hop : op = .is) :
    kindAt (parenthesize (t.needsParens strength equal) t.words ++ rest) 0 ≠ .keyword .not := by
  subst hop hstrength
  rw [(h.starts.parenthesize _).kindAt_append]
  exact not_first_parenthesize equal (by decide) h.not_first

/-- A power nests to the right: its right operand may be a power, so it ends where powers do. -/
theorem Term.Read.power (hl : lhs.Read v) (hr : rhs.Read v) :
    let t : Term := .binary (.operator .doubleStar) lhs rhs
    Reads v t.words (t.strength + 2) t.edge t.expr := by
  have hright : Reads v (parenthesize (rhs.needsParens
      (BinaryOp.strength (.operator .doubleStar)) true) rhs.words) 14 13 rhs.expr :=
    hr.asTight (fun _ => Nat.le_refl _) (by decide)
  exact .binary (by decide) ((hl.tighter _).mono (by decide) (Nat.le_refl _)) hright rfl
    (hr.valid.not_behind_is _ rfl)

/-- All other operators nest to the left. -/
theorem Term.Read.binary {op : BinaryOp} (hop : op.strength ≠ 0)
    (hpower : (op == .operator .doubleStar) = false) (hl : lhs.Read v) (hr : rhs.Read v) :
    let t : Term := .binary op lhs rhs
    Reads v t.words (t.strength + 2) t.edge t.expr := by
  intro t
  have hne : op.strength ≠ BinaryOp.strength (.operator .doubleStar) := fun heq =>
    beq_eq_false_iff_ne.1 hpower (BinaryOp.eq_doubleStar heq)
  have hedge : t.edge = op.strength + 2 := if_neg hne
  have hwords : t.words = parenthesize (lhs.needsParens op.strength true) lhs.words ++ op.words
      ++ parenthesize (rhs.needsParens op.strength false) rhs.words := by
    rw [Term.words, hpower]
    rfl
  rw [hedge, hwords]
  exact .binary hop (hl.asTight (fun heq => absurd heq hne) (Nat.le_refl _)) (hr.tighter _)
    (by rw [hpower]; rfl) (hr.valid.not_behind_is _ rfl)

/-- A term with parentheses where they are needed in front of an attribute, a subscript or a
    call. -/
theorem Term.Read.before_trailer (h : t.Read v) :
    Reads v (parenthesize (t.needsParens trailerStrength true) t.words) (trailerStrength + 2)
      (trailerStrength + 2) t.expr :=
  h.asTight (by decide) (Nat.le_refl _)

/-! ### Whole terms -/

/-- The words of a term are read as the term. -/
theorem Term.Valid.reads (h : t.Valid v) : Reads v t.words (t.strength + 2) t.edge t.expr := by
  induction h with
  | name h => exact reads_name fun _ => h.notAwait
  | int _ => exact reads_number
  | none => exact reads_none
  | @unary op operand hop hvalid ih =>
    have hedge : (Term.unary op operand).edge = op.strength + 2 := by
      cases op <;> rfl
    rw [hedge]
    exact .unary hop ⟨hvalid, ih⟩
  | @binary op lhs rhs hop hl hr ihl ihr =>
    have hlhs : Term.Read v lhs := ⟨hl, ihl⟩
    have hrhs : Term.Read v rhs := ⟨hr, ihr⟩
    cases hpower : op == .operator .doubleStar with
    | true =>
      obtain rfl := eq_of_beq hpower
      exact hlhs.power hrhs
    | false => exact hlhs.binary hop hpower hrhs
  | @member value attr hvalue hattr ih =>
    have hread : Term.Read v value := ⟨hvalue, ih⟩
    exact hread.before_trailer.member attr
  | @subscript value index hvalue hindex ih ihi =>
    have hread : Term.Read v value := ⟨hvalue, ih⟩
    have hslot : Slot.Read v ⟨some index.piece, []⟩ :=
      ⟨.inl rfl, fun x hx => Option.some_inj.1 hx ▸ Term.Read.piece ⟨hindex, ihi⟩,
        List.forall_mem_nil _⟩
    have hslots := hread.before_trailer.subscript (List.cons_ne_nil _ _)
      (List.forall_mem_singleton.2 hslot) (.inl rfl)
    -- An index without a colon is a subscript of one item without bounds.
    have hwords : (behindCommas ([⟨some index.piece, []⟩].map Slot.words)).tail = index.words := by
      simp [behindCommas, Slot.words, boundWords, behindColons, Term.piece]
    rw [hwords, List.append_nil] at hslots
    rw [Term.words, List.append_assoc]
    exact hslots
  | @call func arguments hfunc _ hvalues ih iha =>
    have hread : Term.Read v func := ⟨hfunc, ih⟩
    have hpieces : ∀ a ∈ arguments.map fun a => (a.1, a.2.piece), a.2.Read v :=
      List.forall_mem_map.2 fun a ha => Term.Read.piece ⟨hvalues a ha, iha a ha⟩
    have hcall := hread.before_trailer.call hpieces (.inl rfl) fun _ => rfl
    rw [← argumentWords_eq, ← argumentExprs_eq, List.append_nil] at hcall
    rw [Term.words, List.append_assoc]
    exact hcall
  | @list items hvalid ih =>
    have hpieces := read_pieces fun item hitem => ⟨hvalid item hitem, ih item hitem⟩
    have hlist : Reads v _ ((Term.list items).strength + 2) (Term.list items).edge _ :=
      reads_list hpieces (.inl rfl) fun _ => rfl
    rw [← itemWords_eq, ← itemExprs_eq, List.append_nil] at hlist
    exact hlist
  | @tuple items hvalid ih =>
    have htrailing : Trailing (if items.length = 1 then [.comma] else []) := by
      split
      · exact .inr rfl
      · exact .inl rfl
    have hpieces := read_pieces fun item hitem => ⟨hvalid item hitem, ih item hitem⟩
    have htuple : Reads v _ ((Term.tuple items).strength + 2) (Term.tuple items).edge _ :=
      reads_tuple hpieces htrailing (fun hnil => by rw [List.map_eq_nil_iff.1 hnil]; rfl)
        fun hone => if_pos (by rwa [List.length_map] at hone)
    rw [← itemWords_eq, ← itemExprs_eq] at htuple
    exact htuple
  | @set first more hfirst hmore ih ihm =>
    have hread : ∀ item ∈ first :: more, item.Read v :=
      List.forall_mem_cons.2 ⟨⟨hfirst, ih⟩, fun item hitem => ⟨hmore item hitem, ihm item hitem⟩⟩
    have hset : Reads v _ ((Term.set first more).strength + 2) (Term.set first more).edge _ :=
      reads_set (read_pieces hread) (.inl rfl) (List.cons_ne_nil _ _)
        (by rintro _ ⟨⟩; exact hfirst.opensSet)
    rw [← itemWords_eq, ← itemExprs_eq, List.append_nil] at hset
    exact hset
  | @dict entries hkeys hvalues ihk ihv =>
    have hpieces : ∀ e ∈ entries.map fun e => (e.1.piece, e.2.piece), e.1.Read v ∧ e.2.Read v :=
      List.forall_mem_map.2 fun e he =>
        ⟨Term.Read.piece ⟨hkeys e he, ihk e he⟩, Term.Read.piece ⟨hvalues e he, ihv e he⟩⟩
    have hfirst : ∀ e ∈ (entries.map fun e => (e.1.piece, e.2.piece)).head?, e.1.OpensDict := by
      cases entries with
      | nil => rintro _ ⟨⟩
      | cons e entries => rintro _ ⟨⟩; exact (hkeys e List.mem_cons_self).opensDict
    have hdict : Reads v _ ((Term.dict entries).strength + 2) (Term.dict entries).edge _ :=
      reads_dict hpieces (.inl rfl) (fun _ => rfl) hfirst
    rw [← entryWords_eq, ← entryExprs_eq, List.append_nil] at hdict
    exact hdict

/-- A term where an expression is expected. -/
theorem Term.Valid.expression (h : t.Valid v) {rest : List Word}
    (hrest : (kindAt rest 0).endsTerm = true) :
    Takes (t.words ++ rest) rest (Parser.expression v) fun e => e.unplaced = t.expr := by
  have hread : t.Read v := ⟨h, h.reads⟩
  have hexpr : Inner v ((t.words ++ rest).length + 1) (parseExpr v) := fun _ _ _ => rfl
  exact hread.piece.alone hexpr (Nat.lt_succ_self _) (.of_endsTerm hrest 0)

/-- An expression without a star and without a comma where several are allowed. -/
theorem Takes.starExpressions {before rest : List Word} {Q : Expr → Prop}
    (h : Takes before rest (Parser.expression v) Q) (hstar : kindAt before 0 ≠ .operator .star)
    (hcomma : kindAt rest 0 ≠ .operator .comma) :
    Takes before rest (Parser.starExpressions v) Q :=
  (Takes.starOrExpr hstar h).bind fun _ hQ => Takes.at?_false hcomma (.pure hQ)

theorem Term.Valid.starExpressions (h : t.Valid v) {rest : List Word}
    (hrest : (kindAt rest 0).endsTerm = true) (hcomma : kindAt rest 0 ≠ .operator .comma) :
    Takes (t.words ++ rest) rest (Parser.starExpressions v) fun e => e.unplaced = t.expr :=
  (h.expression hrest).starExpressions (TokenKind.ne_of_opensTerm (h.starts.kindAt _) rfl) hcomma

end Terms

theorem Term.text_eq (t : Term) : t.text = String.ofList (Lexer.spaced t.words) := by
  rw [Term.text, ← String.toList_inj, String.toList_ofList, String.toList_intercalate, List.map_map]
  rfl

theorem Term.Valid.ahead_start {v : Version} {t : Term} (h : t.Valid v) :
    (Parser.start v t.text).ahead = t.words ++ [⟨.newline, ""⟩, ⟨.eof, ""⟩] := by
  have hne : t.words ≠ [] := List.ne_nil_of_length_pos h.starts.length_pos
  rw [t.text_eq]
  exact tokenize_words hne h.separate

/-- Parsing what was written gives back what was written: the tree of a term comes back with
    places added, nothing is reported, and only the end of the line and of the input is left. -/
theorem Term.Valid.parse_text {v : Version} {t : Term} (h : t.Valid v) :
    (Parser.starExpressions v (Parser.start v t.text)).1.unplaced = t.expr
      ∧ (Parser.starExpressions v (Parser.start v t.text)).2.errors = []
      ∧ (Parser.starExpressions v (Parser.start v t.text)).2.ahead
        = [⟨.newline, ""⟩, ⟨.eof, ""⟩] := by
  obtain ⟨hahead, herrors, htree⟩ :=
    h.starExpressions rfl TokenKind.noConfusion _ h.ahead_start
  exact ⟨htree, herrors, hahead⟩

/-- The sum needs parentheses, the subscript does not. -/
theorem parse_text_product :
    let t : Term := .binary (.operator .star)
      (.binary (.operator .plus) (.name "a") (.name "b"))
      (.unary .minus (.subscript (.name "c") (.int "1")))
    t.text = "( a + b ) * - c [ 1 ]"
      ∧ (Parser.starExpressions .v27 (Parser.start .v27 t.text)).1.unplaced = t.expr
      ∧ (Parser.starExpressions .v27 (Parser.start .v27 t.text)).2.errors = []
      ∧ (Parser.starExpressions .v27 (Parser.start .v27 t.text)).2.ahead
        = [⟨.newline, ""⟩, ⟨.eof, ""⟩] := by
  intro t
  have hname : ∀ text ∈ ["a", "b", "c"], FreeName .v27 text := by decide +kernel
  have hdigits : Digits "1" := ⟨by decide, List.all_eq_true.1 (by decide)⟩
  refine ⟨by decide +kernel, Term.Valid.parse_text (.binary (by decide) ?_ ?_)⟩
  · exact .binary (by decide) (.name (hname "a" (by decide))) (.name (hname "b" (by decide)))
  · exact .unary (by decide) (.subscript (.name (hname "c" (by decide))) (.int hdigits))

end PyAtlas
