import PyAtlas.Proofs.Syntax.SketchLines

/-!
# Parsing what stands before a body

Headers of control flow are passed over word by word, and what matters is where the colon is
found that ends them. Classes and functions have a header of their own, whose parts are kept.

## Key results
- `takes_skipHeader`: a header with matching brackets ends at the first colon outside of them.
- `takes_parameterList`: the parameters of a function.
- `takes_classArguments`: the arguments of a class.
-/

namespace PyAtlas

open PyAtlas.Parser

variable {v : Version} {rest after : List Word}

/-! ### Headers of control flow -/

/-- A header and its colon are passed over. -/
theorem takes_skipHeader {header : List Word} (h : Header v header) :
    Takes (header ++ .colon :: rest) rest skipHeader fun _ => True :=
  takes_skipHeader_nested h.balanced.nested (h.balanced.pendingLambdas 0)

theorem takes_expectColon : Takes (.colon :: rest) rest expectColon fun _ => True :=
  Takes.peek_bind fun _ _ => Takes.eats_true rfl (.pure trivial)

/-! ### Classes -/

/-- The arguments of a class, if it has any. -/
theorem takes_classArguments {arguments : Option (List (CallForm × Term))}
    (h : ∀ as ∈ arguments, ∀ a ∈ as, a.1.Valid v ∧ a.2.Valid v)
    (hrest : kindAt rest 0 ≠ .operator .lParen) :
    Takes (classArgumentWords arguments ++ rest) rest (classArguments v)
      fun as => unplacedArguments as = argumentExprs (arguments.getD []) := by
  cases arguments with
  | none => exact Takes.eats_false hrest (.pure rfl)
  | some as =>
    have hexpr : Inner v (((argumentWords as).tail ++ .rParen :: rest).length + 1) (parseExpr v) :=
      fun _ _ _ => rfl
    have hread : ∀ a ∈ as, a.2.Read v :=
      fun a ha => ⟨(h as rfl a ha).2, (h as rfl a ha).2.reads⟩
    rw [classArgumentWords, List.append_assoc]
    exact Takes.eats_true rfl (takes_termArguments hexpr hread (Nat.lt_succ_self _))

/-! ### Parameters -/

section Parameters

variable {name : String} {hint default : Option Term} {kind : ParameterKind}

/-- Behind a parameter comes a comma or the closing parenthesis. -/
def EndsParameter (words : List Word) : Prop :=
  kindAt words 0 = .operator .comma ∨ kindAt words 0 = .operator .rParen

theorem EndsParameter.endsTerm (h : EndsParameter rest) : (kindAt rest 0).endsTerm = true := by
  rcases h with h | h <;> rw [h] <;> rfl

theorem EndsParameter.ne_equal (h : EndsParameter rest) : kindAt rest 0 ≠ .equal := by
  rcases h with h | h <;> exact h ▸ TokenKind.noConfusion

/-- An expression behind a mark, if there is one. -/
theorem takes_expressionAfter (mark : Word) {t : Option Term} (h : ValidOption v t)
    (hends : (kindAt rest 0).endsTerm = true) (hmark : kindAt rest 0 ≠ mark.kind) :
    Takes (optionWords mark t ++ rest) rest (expressionAfter v mark.kind)
      fun e => e.map Expr.unplaced = t.map Term.expr := by
  cases t with
  | none => exact Takes.eats_false hmark (.pure rfl)
  | some t =>
    refine Takes.eats_true rfl (Takes.map ?_)
    exact ((h t rfl).expression hends).weaken fun e he => by rw [Option.map_some, he]; rfl

/-- An annotation is read as the expression behind its colon. -/
theorem takes_parameterHint (hv : v.atLeast 3 7 = true) (h : ValidOption v hint)
    (hends : (kindAt rest 0).endsTerm = true) (hcolon : kindAt rest 0 ≠ .operator .colon) :
    Takes (optionWords .colon hint ++ rest) rest (parameterHint v)
      fun e => e.map Expr.unplaced = hint.map Term.expr := by
  cases hint with
  | none => exact Takes.eat_none hcolon (.pure rfl)
  | some t =>
    have hfeature : Feature.parameterAnnotations.supportedBy v = true := by
      revert hv
      cases v <;> decide
    refine Takes.eat_some rfl fun colon _ => ?_
    dsimp only
    rw [requireFeature, hfeature]
    exact (Takes.pure (Q := fun _ => True) trivial).bind fun _ _ => Takes.map
      (((h t rfl).expression hends).weaken fun e he => by rw [Option.map_some, he]; rfl)

theorem takes_parameter (hv : v.atLeast 3 7 = true) (hhint : ValidOption v hint)
    (hdefault : ValidOption v default) (hrest : EndsParameter rest) :
    Takes (.name name :: (optionWords .colon hint ++ (optionWords .equals default ++ rest))) rest
      (parameter v kind)
      fun r => ∃ p, r = some p ∧ p.unplaced
        = ⟨⟨name, .nowhere⟩, kind, hint.map Term.expr, default.map Term.expr, .nowhere⟩ := by
  have hbehind : (kindAt (optionWords .equals default ++ rest) 0).endsTerm = true
      ∧ kindAt (optionWords .equals default ++ rest) 0 ≠ .operator .colon := by
    cases default with
    | none =>
      refine ⟨hrest.endsTerm, fun heq => ?_⟩
      rcases hrest with h | h <;> cases heq.symm.trans h
    | some _ => exact ⟨rfl, TokenKind.noConfusion⟩
  refine Takes.expectIdentifier_bind rfl fun ident hident => ?_
  refine (takes_parameterHint hv hhint hbehind.1 hbehind.2).bind fun h hh => ?_
  refine (takes_expressionAfter .equals hdefault hrest.endsTerm hrest.ne_equal).bind
    fun d hd => .pure ⟨_, rfl, ?_⟩
  rw [Parameter.unplaced, hh, hd, Identifier.unplaced, hident]
  rfl

/-- Whether parameters behind this one are given by keyword only. -/
def SketchParameter.keywordOnly (before : Bool) : SketchParameter → Bool
  | .named mark _ _ _ => before || mark == .star
  | .bareStar => true

theorem parameterTrees_cons (keywordOnly : Bool) (p : SketchParameter)
    (ps : List SketchParameter) :
    parameterTrees keywordOnly (p :: ps)
      = parameterTrees keywordOnly [p] ++ parameterTrees (p.keywordOnly keywordOnly) ps := by
  cases p <;> rfl

/-- A step reads the mark of a parameter, which tells the kind of the parameter and whether further
    ones are given by keyword only. -/
theorem takes_parameterStep_marked (mark : ParameterMark) {params : List Parameter}
    {keywordOnly : Bool} {Q : LoopStep (List Parameter × Bool) (List Parameter) → Prop}
    (h : Takes (.name name :: rest) after
      (do
        let param ← parameter v (mark.kind keywordOnly)
        pure (LoopStep.again (params ++ param.toList, keywordOnly || mark == .star)) :
        Parser (LoopStep (List Parameter × Bool) (List Parameter))) Q) :
    Takes (mark.words ++ .name name :: rest) after (parameterStep v (params, keywordOnly)) Q := by
  cases mark with
  | none =>
    refine Takes.peek_bind fun token htoken => ?_
    have hkind : token.kind = .identifier := congrArg Word.kind htoken
    have hname : identifier? token = some ⟨token.text, token.span⟩ := by rw [identifier?, hkind]
    rw [hname, hkind]
    rw [show (keywordOnly || ParameterMark.none == .star) = keywordOnly from Bool.or_false _] at h
    exact h
  | star =>
    refine Takes.peek_bind fun token htoken => ?_
    have hkind : token.kind = .operator .star := congrArg Word.kind htoken
    rw [hkind]
    refine Takes.advance_bind (Takes.peek_bind fun next hnext => ?_)
    have hname : identifier? next = some ⟨next.text, next.span⟩ := by
      rw [identifier?, show next.kind = .identifier from congrArg Word.kind hnext]
    rw [hname]
    rw [show (keywordOnly || ParameterMark.star == .star) = true from Bool.or_true _] at h
    exact h
  | doubleStar =>
    refine Takes.peek_bind fun token htoken => ?_
    have hkind : token.kind = .operator .doubleStar := congrArg Word.kind htoken
    rw [hkind]
    rw [show (keywordOnly || ParameterMark.doubleStar == .star) = keywordOnly
      from Bool.or_false _] at h
    exact Takes.advance_bind h

/-- Behind a star of its own no name stands. -/
theorem takes_parameterStep_bareStar (hrest : EndsParameter rest) (params : List Parameter)
    (keywordOnly : Bool) :
    Takes (.star :: rest) rest (parameterStep v (params, keywordOnly))
      fun r => r = .again (params, true) := by
  refine Takes.peek_bind fun token htoken => ?_
  have hkind : token.kind = .operator .star := congrArg Word.kind htoken
  rw [hkind]
  refine Takes.advance_bind (Takes.peekKind_bind (x := rest) fun next hnext => ?_)
  have hnone : identifier? next = none := by
    rw [identifier?, hnext]
    rcases hrest with h | h <;> rw [h]
  rw [hnone]
  exact .pure rfl

/-- A comma is read by a step of its own, the parameter behind it by the next one. -/
theorem takes_moreParameters_comma {before : List Parameter × Bool} {Q : List Parameter → Prop}
    (h : Takes rest after (moreParameters v before) Q) :
    Takes (.comma :: rest) after (moreParameters v before) Q := by
  refine Takes.loop_again (S := fun c => c = before) (Takes.peek_bind fun token htoken => ?_)
    (Nat.lt_succ_self _) ?_
  · have hkind : token.kind = .operator .comma := congrArg Word.kind htoken
    rw [hkind]
    exact Takes.advance_bind (.pure ⟨_, rfl, rfl⟩)
  · rintro _ rfl
    exact h

theorem takes_moreParameters_end (before : List Parameter × Bool) :
    Takes (.rParen :: rest) rest (moreParameters v before) fun all => all = before.1 := by
  refine Takes.loop_finished (Takes.peek_bind fun token htoken => ?_)
  have hkind : token.kind = .operator .rParen := congrArg Word.kind htoken
  rw [hkind]
  exact Takes.advance_bind (.pure ⟨_, rfl, rfl⟩)

theorem SketchParameter.named_words (mark : ParameterMark) (name : String)
    (hint default : Option Term) (rest : List Word) :
    (SketchParameter.named mark name hint default).words ++ rest
      = mark.words
        ++ .name name :: (optionWords .colon hint ++ (optionWords .equals default ++ rest)) := by
  simp [SketchParameter.words]

/-- Where a parameter begins it is read before all others. -/
theorem takes_moreParameters_one (hv : v.atLeast 3 7 = true) {p : SketchParameter}
    (hp : p.Valid v) (hrest : EndsParameter rest) (params : List Parameter) (keywordOnly : Bool)
    {Q : List Parameter → Prop}
    (hnext : ∀ more : List Parameter,
      more.map Parameter.unplaced = parameterTrees keywordOnly [p] →
      Takes rest after (moreParameters v (params ++ more, p.keywordOnly keywordOnly)) Q) :
    Takes (p.words ++ rest) after (moreParameters v (params, keywordOnly)) Q := by
  have hless : rest.length < (p.words ++ rest).length := by
    cases p with
    | bareStar => exact Nat.lt_succ_self _
    | named mark name hint default =>
      rw [SketchParameter.named_words]
      simp only [List.length_append, List.length_cons]
      omega
  refine Takes.loop_again (y := rest)
    (S := fun r => ∃ more : List Parameter, r = (params ++ more, p.keywordOnly keywordOnly)
      ∧ more.map Parameter.unplaced = parameterTrees keywordOnly [p]) ?_ hless ?_
  · cases p with
    | bareStar =>
      refine (takes_parameterStep_bareStar hrest params keywordOnly).weaken ?_
      rintro _ rfl
      exact ⟨_, rfl, [], by rw [List.append_nil]; rfl, rfl⟩
    | named mark name hint default =>
      obtain ⟨-, hhint, hdefault⟩ := hp
      rw [SketchParameter.named_words]
      refine takes_parameterStep_marked mark ((takes_parameter hv hhint hdefault hrest).bind ?_)
      rintro _ ⟨q, rfl, hq⟩
      exact .pure ⟨_, rfl, [q], rfl, by rw [List.map_singleton, hq]; rfl⟩
  · rintro _ ⟨more, rfl, hmore⟩
    exact hnext more hmore

theorem endsParameter_behindCommas (ps : List SketchParameter) :
    EndsParameter (behindCommas (ps.map SketchParameter.words) ++ .rParen :: rest) := by
  cases ps with
  | nil => exact .inr rfl
  | cons _ _ => exact .inl rfl

/-- Parameters behind a comma each and the closing parenthesis. -/
theorem takes_moreParameters (hv : v.atLeast 3 7 = true) {ps : List SketchParameter}
    (hps : ∀ p ∈ ps, p.Valid v) (params : List Parameter) (keywordOnly : Bool) :
    Takes (behindCommas (ps.map SketchParameter.words) ++ .rParen :: rest) rest
      (moreParameters v (params, keywordOnly))
      fun all => all.map Parameter.unplaced
        = params.map Parameter.unplaced ++ parameterTrees keywordOnly ps := by
  induction ps generalizing params keywordOnly with
  | nil =>
    refine (takes_moreParameters_end (params, keywordOnly)).weaken ?_
    rintro _ rfl
    exact (List.append_nil _).symm
  | cons p ps ih =>
    obtain ⟨hp, hps⟩ := List.forall_mem_cons.1 hps
    have hsplit : behindCommas ((p :: ps).map SketchParameter.words) ++ .rParen :: rest
        = .comma :: (p.words
          ++ (behindCommas (ps.map SketchParameter.words) ++ .rParen :: rest)) := by
      simp [behindCommas]
    rw [hsplit]
    refine takes_moreParameters_comma (takes_moreParameters_one hv hp
      (endsParameter_behindCommas ps) params keywordOnly fun more hmore => ?_)
    refine (ih hps (params ++ more) _).weaken fun all hall => ?_
    rw [hall, List.map_append, hmore, parameterTrees_cons _ p ps, List.append_assoc]

/-- The parameters of a function and their parentheses. -/
theorem takes_parameterList (hv : v.atLeast 3 7 = true) {ps : List SketchParameter}
    (hps : ∀ p ∈ ps, p.Valid v) :
    Takes (.lParen :: (parameterWords ps ++ .rParen :: rest)) rest (parameterList v)
      fun all => all.map Parameter.unplaced = parameterTrees false ps := by
  refine Takes.peek_bind fun _ _ => Takes.eats_true rfl ?_
  cases ps with
  | nil => exact takes_moreParameters hv hps [] false
  | cons p ps =>
    obtain ⟨hp, hps⟩ := List.forall_mem_cons.1 hps
    rw [parameterWords, List.map_cons, behindCommas, List.cons_append, List.tail_cons,
      List.append_assoc]
    refine takes_moreParameters_one hv hp (endsParameter_behindCommas ps) [] false
      fun more hall => (takes_moreParameters hv hps _ _).weaken fun all h => ?_
    rw [h, List.nil_append, hall, parameterTrees_cons _ p ps]

end Parameters

end PyAtlas
