import PyAtlas.Proofs.Syntax.TermWords
import PyAtlas.Syntax.ParseExpr

/-!
# Parsing the parts of a term

How far an expression reaches is decided at two places: words may stand where an expression of
some precedence is asked for if they hold together tighter (`level`), and what follows them is
left alone where it holds no tighter than their last operator does (`edge`). The two differ for
powers, whose right operand takes in further powers. `Reads` says that words are read as a tree
wherever level and edge allow it.

## Key results
- `BinaryOp.precedence_eq`: the parser holds operands in the order of `BinaryOp.strength`.
- `Reads.run`: an expression in an expression is read as its tree.
- `Reads.of_operand`, `Reads.of_first`, `Reads.trailer`: the steps of the climb.
-/

namespace PyAtlas

open PyAtlas.Parser

/-! ### The order of the operators -/

theorem BinaryOp.precedence_eq {op : BinaryOp} (h : op.strength ≠ 0) :
    (Continuation.binary op).precedence = op.strength + 2 := by
  cases op with
  | operator op => cases op <;> first | rfl | exact absurd rfl h
  | _ => rfl

/-- Nothing else holds as tightly as a power. -/
theorem BinaryOp.eq_doubleStar {op : BinaryOp}
    (h : op.strength = BinaryOp.strength (.operator .doubleStar)) :
    op = .operator .doubleStar := by
  cases op with
  | operator op => cases op <;> first | rfl | cases h
  | _ => cases h

/-- The words of an operator announce it. -/
theorem BinaryOp.ofKinds?_words {op : BinaryOp} (h : op.strength ≠ 0) {rest : List Word}
    (hrest : op = .is → kindAt rest 0 ≠ .keyword .not) :
    Continuation.ofKinds? (kindAt (op.words ++ rest) 0) (kindAt (op.words ++ rest) 1)
      = some (.binary op) := by
  cases op with
  | operator op => cases op <;> first | rfl | exact absurd rfl h
  | is => exact if_neg (hrest rfl)
  | _ => rfl

/-! ### What follows an expression -/

/-- What comes next holds the operand before it no tighter than `p`. -/
def Follows (rest : List Word) (p : Nat) : Prop :=
  ∀ c, Continuation.ofKinds? (kindAt rest 0) (kindAt rest 1) = some c → c.precedence ≤ p

/-- Kinds of words behind which an expression does not go on. -/
def TokenKind.endsTerm : TokenKind → Bool
  | .newline | .equal => true
  | .operator op => op.isClosing || op == .comma || op == .colon
  | _ => false

section EndsTerm

variable {rest : List Word}

theorem Continuation.ofKinds?_of_endsTerm {k k' : TokenKind} (h : k.endsTerm = true) :
    Continuation.ofKinds? k k' = none := by
  cases k with
  | operator op => cases op <;> first | rfl | cases h
  | _ => first | rfl | cases h

theorem ne_of_endsTerm {k k' : TokenKind} (h : k.endsTerm = true) (h' : k'.endsTerm = false) :
    k ≠ k' := by
  rintro rfl
  rw [h] at h'
  cases h'

theorem Follows.of_endsTerm (h : (kindAt rest 0).endsTerm = true) (p : Nat) :
    Follows rest p := by
  intro c hc
  rw [Continuation.ofKinds?_of_endsTerm h] at hc
  cases hc

theorem Follows.mono {p p' : Nat} (h : Follows rest p) (hp : p ≤ p') : Follows rest p' :=
  fun c hc => Nat.le_trans (h c hc) hp

/-- No comprehension begins there. -/
theorem atComprehension_of_endsTerm (v : Version) {s : ParserState} (hs : s.ahead = rest)
    (h : (kindAt rest 0).endsTerm = true) : s.cursor.atComprehension v = false := by
  have hne : ∀ k : TokenKind, k.endsTerm = false → (s.cursor.kindAt 0 == k) = false := by
    intro k hk
    rw [s.kindAt_eq hs, beq_eq_false_iff_ne]
    exact ne_of_endsTerm h hk
  have hword : (s.cursor.peekNth 0).isWord "async" = false :=
    Bool.and_eq_false_iff.2 (.inl (hne .identifier rfl))
  have hasync : s.cursor.atAsync v 0 = false := by
    rw [Cursor.atAsync, hword, hne (.keyword .async) rfl, Bool.and_false]
    rfl
  rw [Cursor.atComprehension, hasync, Cursor.kind, hne (.keyword .for) rfl]
  rfl

end EndsTerm

/-! ### Parsers of the expressions in an expression -/

/-- A parser of expressions on what is shorter than `limit`. -/
def Inner (v : Version) (limit : Nat) (expr : ExprParser) : Prop :=
  ∀ p s, s.remaining < limit → expr p s = parseExpr v p s

/-- Parsing one expression parses the expressions in it the same way. -/
theorem exists_inner (v : Version) (p : Nat) (s : ParserState) :
    ∃ expr, Inner v s.remaining expr ∧ parseExpr v p s = exprWith v expr p s := by
  refine ⟨_, ?_, by rw [parseExpr]⟩
  intro p t ht
  exact nested_of_lt ht

/-! ### Reading a tree -/

/-- The words are read as the tree wherever an expression of the level is asked for and
    nothing holds tighter after them than the edge. -/
def Reads (v : Version) (words : List Word) (level edge : Nat) (tree : Expr) : Prop :=
  ∀ (expr : ExprParser) (limit : Nat) (p : Nat) (rest after : List Word)
    (Q : Expr → Prop), Inner v limit expr → (words ++ rest).length ≤ limit → p < level →
    Follows rest edge →
    (∀ e : Expr, e.unplaced = tree → Takes rest after (continuations v expr p e) Q) →
    Takes (words ++ rest) after (exprWith v expr p) Q

section Climb

variable {v : Version} {expr : ExprParser} {limit : Nat} {p : Nat}
  {words rest after : List Word} {level edge : Nat} {tree lhs : Expr} {w : Word}

/-- An operand that nothing continues is the whole expression. -/
theorem takes_continuations_finished (h : Follows rest p) (hlhs : lhs.unplaced = tree) :
    Takes rest rest (continuations v expr p lhs) fun e => e.unplaced = tree := by
  refine Takes.loop_finished (Takes.look_bind
    (a := Continuation.ofKinds? (kindAt rest 0) (kindAt rest 1)) (fun s hs => ?_) ?_)
  · rw [Cursor.continuation?, Cursor.kind, s.kindAt_eq hs, s.kindAt_eq hs]
  · split
    · exact .pure ⟨_, rfl, hlhs⟩
    · next c hc =>
      rw [if_pos (h c hc)]
      exact .pure ⟨_, rfl, hlhs⟩

/-- A continuation that holds tighter is taken in. -/
theorem takes_continuations_again {c : Continuation} {middle : List Word} {S Q : Expr → Prop}
    (hc : Continuation.ofKinds? w.kind (kindAt rest 0) = some c) (hp : p < c.precedence)
    (h : ∀ token, Takes rest middle (continued v expr lhs token c) S)
    (hmiddle : middle.length ≤ rest.length)
    (hnext : ∀ e, S e → Takes middle after (continuations v expr p e) Q) :
    Takes (w :: rest) after (continuations v expr p lhs) Q := by
  refine Takes.loop_again (S := S) ?_ (Nat.lt_succ_of_le hmiddle) hnext
  refine Takes.look_bind (a := some c) (fun s hs => ?_) ?_
  · rw [Cursor.continuation?, Cursor.kind, s.kindAt_eq hs, s.kindAt_eq hs]
    exact hc
  · dsimp only
    rw [if_neg (Nat.not_le.2 hp)]
    exact Takes.next_bind fun token _ =>
      Takes.map ((h token).weaken fun e he => ⟨e, rfl, he⟩)

/-- An expression in an expression is read as its tree. -/
theorem Reads.run (h : Reads v words level edge tree) (hexpr : Inner v limit expr)
    (hlimit : (words ++ rest).length < limit) (hp : p < level) (hedge : Follows rest edge)
    (hstop : Follows rest p) :
    Takes (words ++ rest) rest (expr p) fun e => e.unplaced = tree := by
  intro s hs
  have hremaining : s.remaining = (words ++ rest).length := by rw [s.remaining_eq, hs]
  obtain ⟨inner, hinner, heq⟩ := exists_inner v p s
  rw [hexpr p s (hremaining ▸ hlimit), heq]
  exact h inner _ p rest rest _ hinner (Nat.le_of_eq hremaining.symm) hp hedge
    (fun e he => takes_continuations_finished hstop he) s hs

theorem Reads.mono {level' edge' : Nat} (h : Reads v words level edge tree)
    (hlevel : level' ≤ level) (hedge : edge' ≤ edge) : Reads v words level' edge' tree :=
  fun expr limit p rest after Q hexpr hlimit hp hrest hnext =>
    h expr limit p rest after Q hexpr hlimit (Nat.lt_of_lt_of_le hp hlevel) (hrest.mono hedge)
      hnext

/-- An operand is read whatever is asked for. -/
theorem Reads.of_operand
    (h : ∀ (expr : ExprParser) (limit : Nat) (rest : List Word), Inner v limit expr →
      (words ++ rest).length ≤ limit → Follows rest edge →
      Takes (words ++ rest) rest (operand v expr) fun e => e.unplaced = tree) :
    Reads v words level edge tree :=
  fun expr limit _ rest _ _ hexpr hlimit _ hedge hnext =>
    (h expr limit rest hexpr hlimit hedge).bind hnext

/-! ### Operands -/

/-- What is no name and no end of an operand is read by `operandAfter`. -/
theorem takes_operandAfter {Q : Expr → Prop}
    (hname : ∀ token : Token, token.kind = w.kind → identifier? token = none)
    (hends : w.kind.endsOperand = false)
    (h : ∀ token : Token, token.word = w → Takes rest after (operandAfter v expr token) Q) :
    Takes (w :: rest) after (operand v expr) Q := by
  refine Takes.peek_bind fun token htoken => ?_
  have hkind : token.kind = w.kind := congrArg Word.kind htoken
  have hends : token.kind.endsOperand = false := hkind ▸ hends
  rw [hname token hkind]
  dsimp only
  rw [hends]
  exact Takes.advance_bind (h token htoken)

/-- What begins a term without being a name is read by `operandAfter`. -/
theorem takes_operand {Q : Expr → Prop} (hw : w.kind.opensTerm = true)
    (hname : w.kind ≠ .identifier)
    (h : ∀ token : Token, token.kind = w.kind → Takes rest after (operandAfter v expr token) Q) :
    Takes (w :: rest) after (operand v expr) Q := by
  refine takes_operandAfter (fun token hkind => ?_) ?_ fun token htoken =>
    h token (congrArg Word.kind htoken)
  · rw [identifier?, hkind]
    revert hw hname
    cases w.kind with
    | keyword word => cases word <;> intro h _ <;> first | rfl | cases h
    | identifier => exact fun _ h => absurd rfl h
    | _ => exact fun _ _ => rfl
  · revert hw
    cases w.kind with
    | operator op => cases op <;> intro h <;> first | rfl | cases h
    | keyword word => exact fun _ => rfl
    | _ => intro h; first | rfl | cases h

/-- A word that begins an operand, and the rest of the operand. -/
theorem Reads.of_first (hw : w.kind.opensTerm = true) (hname : w.kind ≠ .identifier)
    (h : ∀ (expr : ExprParser) (limit : Nat) (rest : List Word) (token : Token),
      Inner v limit expr → (words ++ rest).length < limit → Follows rest edge →
      token.kind = w.kind →
      Takes (words ++ rest) rest (operandAfter v expr token) fun e => e.unplaced = tree) :
    Reads v (w :: words) level edge tree :=
  .of_operand fun expr limit rest hexpr hlimit hedge =>
    takes_operand hw hname fun token htoken => h expr limit rest token hexpr hlimit hedge htoken

/-- A value behind which an attribute, a subscript or a call stands. -/
theorem Reads.trailer {c : Continuation} {valueWords : List Word} {valueTree : Expr}
    (h : Reads v valueWords (trailerStrength + 2) (trailerStrength + 2) valueTree)
    (hc : ∀ second, Continuation.ofKinds? w.kind second = some c)
    (hprecedence : c.precedence = trailerStrength + 2)
    (hcontinued : ∀ (expr : ExprParser) (limit : Nat) (rest : List Word) (value : Expr)
      (token : Token), Inner v limit expr → (words ++ rest).length < limit →
      value.unplaced = valueTree →
      Takes (words ++ rest) rest (continued v expr value token c) fun e => e.unplaced = tree) :
    Reads v (valueWords ++ w :: words) (trailerStrength + 2) (trailerStrength + 2) tree := by
  intro expr limit p rest after Q hexpr hlimit hp _ hnext
  rw [List.append_assoc, List.cons_append] at hlimit ⊢
  refine h expr limit p _ after Q hexpr hlimit hp ?_ fun value hvalue => ?_
  · rintro c' hc'
    rw [kindAt_zero, hc, Option.some_inj] at hc'
    exact hc' ▸ Nat.le_of_eq hprecedence
  · have hless : (words ++ rest).length < limit := by
      rw [List.length_append, List.length_cons] at hlimit
      omega
    refine takes_continuations_again (hc _) (hprecedence ▸ hp)
      (fun token => hcontinued expr limit rest value token hexpr hless hvalue) ?_ hnext
    rw [List.length_append]
    omega

/-- A name is read as such where it is not an operator that the version does not reserve. -/
theorem reads_name {text : String} (h : v.hasSoftAsync = true → text ≠ "await") :
    Reads v [.name text] level edge (.name ⟨text, .nowhere⟩) := by
  refine .of_operand fun expr limit rest _ _ _ => Takes.peek_bind fun token htoken => ?_
  have hkind : token.kind = .identifier := congrArg Word.kind htoken
  have htext : token.text = text := Token.text_of_word htoken rfl
  have hident : identifier? token = some ⟨text, token.span⟩ := by rw [identifier?, hkind, htext]
  rw [hident]
  refine Takes.look_bind (a := false) (fun s hs => ?_) ?_
  · have hpeek : s.cursor.peek.text = text := Token.text_of_word (s.word_peek hs) rfl
    cases hv : v.hasSoftAsync with
    | false => rw [Cursor.atSoftAwait, hv, Bool.false_and, Bool.false_and]
    | true =>
      have hword : s.cursor.peek.isWord "await" = false := by
        rw [Token.isWord, hpeek, beq_eq_false_iff_ne.2 (h hv), Bool.and_false]
      rw [Cursor.atSoftAwait, hword, Bool.and_false, Bool.false_and]
  · exact Takes.advance_bind (.pure rfl)

/-- The literal that a number is. -/
def NumberKind.literal : NumberKind → LiteralKind
  | .int => .int
  | .float => .float
  | .imaginary => .complex

theorem reads_number {kind : NumberKind} {digits : String} :
    Reads v [⟨.number kind, digits⟩] level edge (.literal kind.literal .nowhere) := by
  refine .of_operand fun expr limit rest _ _ _ => takes_operand rfl TokenKind.noConfusion ?_
  intro token hkind
  rw [operandAfter, hkind]
  cases kind <;> exact .pure rfl

theorem reads_none : Reads v [⟨.keyword .none, "None"⟩] level edge (.literal .none .nowhere) := by
  refine .of_operand fun expr limit rest _ _ _ => takes_operand rfl TokenKind.noConfusion ?_
  intro token hkind
  rw [operandAfter, hkind]
  exact .pure rfl

end Climb

end PyAtlas
