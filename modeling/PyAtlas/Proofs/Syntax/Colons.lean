import PyAtlas.Proofs.Syntax.Outside
import PyAtlas.Proofs.Syntax.Reading
import PyAtlas.Syntax.ParseStmt

/-!
# Passing over rows with matching brackets

Three productions look for a colon or a bracket without reading what stands before it: headers,
the parameters of a lambda, and the rest of a comprehension. All of them count brackets, so
inside of brackets they pass over anything, and what they do outside is decided by `outside`.

## Key results
- `takes_skipHeader_outside`: a header ends at the first colon that belongs to no lambda.
- `takes_lambdaParameters`: the parameters of a lambda end at the first colon.
- `atDictEntry_of_colon`, `atDictEntry_of_separator`: what makes a dictionary and what a set.
- `takes_skipToClosing`: the rest of a comprehension ends at the bracket that closes it.
-/

namespace PyAtlas

open PyAtlas.Parser

variable {β : Type} {w : Word} {words rest after : List Word} {depth lambdas : Nat}

/-- What counts brackets passes over anything that stands in brackets. -/
theorem Nested.takes_inside {p : Nat → Parser β} {Q : β → Prop}
    (hone : ∀ w rest depth, w.kind.isInline = true → Takes rest after (p (depth + 1)) Q →
      Takes (w :: rest) after (p (depth + 1)) Q)
    (hopening : ∀ op w rest depth, w.kind = .operator op → op.isOpening = true →
      Takes rest after (p (depth + 1)) Q → Takes (w :: rest) after (p depth) Q)
    (hclosing : ∀ op w rest depth, w.kind = .operator op → op.isClosing = true →
      Takes rest after (p depth) Q → Takes (w :: rest) after (p (depth + 1)) Q)
    {ks : List TokenKind} (h : Nested ks) (hwords : kindsOf words = ks)
    (hrest : Takes rest after (p (depth + 1)) Q) :
    Takes (words ++ rest) after (p (depth + 1)) Q := by
  induction h generalizing depth words rest with
  | nil =>
    obtain rfl := List.map_eq_nil_iff.1 hwords
    exact hrest
  | append _ _ ih ih' =>
    obtain ⟨left, right, rfl, hleft, hright⟩ := List.map_eq_append_iff.1 hwords
    rw [List.append_assoc]
    exact ih hleft (ih' hright hrest)
  | one hk =>
    obtain ⟨w, rfl, rfl⟩ := List.map_eq_singleton_iff.1 hwords
    exact hone w rest depth hk hrest
  | bracket ho hc _ ih =>
    obtain ⟨left, right, rfl, hleft, hright⟩ := List.map_eq_append_iff.1 hwords
    obtain ⟨w, inner, rfl, hw, hinner⟩ := List.map_eq_cons_iff.1 hleft
    obtain ⟨w', rfl, hw'⟩ := List.map_eq_singleton_iff.1 hright
    rw [List.append_assoc, List.cons_append]
    exact hopening _ w _ _ hw ho (ih hinner (hclosing _ w' _ _ hw' hc hrest))

/-! ### Headers -/

section Header

variable {Q : Unit → Prop}

/-- What one more token makes of the brackets that are open and the lambdas that lack their
    colon; `none` where the header ends. -/
def headerCount : Nat × Nat → TokenKind → Option (Nat × Nat)
  | (depth, lambdas), .operator op =>
    if op == .colon && depth == 0 then
      if lambdas == 0 then none else some (depth, lambdas - 1)
    else some (bracketDepth op depth, lambdas)
  | (depth, lambdas), .keyword .lambda => some (depth, if depth == 0 then lambdas + 1 else lambdas)
  | before, k => if k.isInline then some before else none

theorem takes_restOfHeader_cons {before behind : Nat × Nat}
    (hcount : headerCount before w.kind = some behind)
    (h : Takes rest after (restOfHeader behind) Q) :
    Takes (w :: rest) after (restOfHeader before) Q := by
  refine Takes.loop_again (S := fun c => c = behind) (Takes.peek_bind fun token htoken => ?_)
    (Nat.lt_succ_self _) fun c hc => hc ▸ h
  have hkind : token.kind = w.kind := congrArg Word.kind htoken
  have hagain : Takes (w :: rest) rest
      (do
        advance
        pure (LoopStep.again behind) : Parser (LoopStep (Nat × Nat) Unit))
      fun r => ∃ c, r = .again c ∧ c = behind :=
    Takes.advance_bind (.pure ⟨_, rfl, rfl⟩)
  -- What is counted tells the tests of the loop apart, one kind of token at a time.
  obtain ⟨depth, lambdas⟩ := before
  rw [hkind]
  generalize w.kind = k at hcount
  cases k with
  | operator op =>
    rw [headerCount] at hcount
    dsimp only
    split
    · next hcolon =>
      rw [if_pos hcolon] at hcount
      split
      · next hzero => rw [if_pos hzero] at hcount; cases hcount
      · next hzero =>
        rw [if_neg hzero] at hcount
        cases hcount
        exact hagain
    · next hcolon =>
      rw [if_neg hcolon] at hcount
      cases hcount
      exact hagain
  | keyword word => cases word <;> cases hcount <;> exact hagain
  | newline => cases hcount
  | eof => cases hcount
  | error cause => cases hcount
  | indent => cases hcount
  | dedent => cases hcount
  | _ =>
    cases hcount
    exact hagain

theorem headerCount_eq {k : TokenKind} (hk : k.goesOn = true) {lambdas' : Nat}
    (hlambdas : pendingLambdas lambdas (outsideFrom depth [k]) = some lambdas') :
    headerCount (depth, lambdas) k = some (depthBehind depth k, lambdas') := by
  cases k with
  | operator op =>
    by_cases hcolon : op = .colon
    -- Outside of brackets a colon takes a lambda, inside of them it does nothing.
    · subst hcolon
      cases depth with
      | zero =>
        cases lambdas <;> cases hlambdas
        rfl
      | succ depth =>
        cases hlambdas
        rfl
    · have hsame : pendingLambdas lambdas (outsideFrom depth [.operator op]) = some lambdas := by
        refine pendingLambdas_of_forall (fun k hk => ?_) lambdas
        have heq : k = .operator op := by
          revert hk
          simp only [outsideFrom]
          split
          · exact fun hmem => absurd hmem List.not_mem_nil
          · split
            · exact fun hmem => absurd hmem List.not_mem_nil
            · split
              · exact List.mem_singleton.1
              · exact fun hmem => absurd hmem List.not_mem_nil
        rw [heq]
        exact ⟨TokenKind.noConfusion, fun h => hcolon (TokenKind.operator.inj h)⟩
      rw [hsame] at hlambdas
      cases hlambdas
      simp [headerCount, bracketDepth, depthBehind, hcolon]
  | keyword word => cases depth <;> cases word <;> cases hlambdas <;> rfl
  | _ => first | (cases hk; done) | (cases depth <;> cases hlambdas <;> rfl)

/-- Outside of brackets a header goes on for as long as each colon belongs to a lambda. -/
theorem takes_restOfHeader_outside (hwords : ∀ w ∈ words, w.kind.goesOn = true) {lambdas' : Nat}
    (hlambdas : pendingLambdas lambdas (outsideFrom depth (kindsOf words)) = some lambdas')
    (hrest : Takes rest after
      (restOfHeader ((kindsOf words).foldl depthBehind depth, lambdas')) Q) :
    Takes (words ++ rest) after (restOfHeader (depth, lambdas)) Q := by
  induction words generalizing depth lambdas with
  | nil =>
    cases hlambdas
    exact hrest
  | cons w words ih =>
    obtain ⟨hw, hwords⟩ := List.forall_mem_cons.1 hwords
    rw [kindsOf_cons, outsideFrom_cons, pendingLambdas_append, Option.bind_eq_some_iff] at hlambdas
    obtain ⟨middle, hmiddle, hlambdas⟩ := hlambdas
    exact takes_restOfHeader_cons (headerCount_eq hw hmiddle) (ih hwords hlambdas hrest)

/-- A header ends at the first colon outside of brackets that belongs to no lambda. -/
theorem takes_skipHeader_outside (hwords : ∀ w ∈ words, w.kind.goesOn = true) {text : String}
    (hdepth : (kindsOf words).foldl depthBehind 0 = 0)
    (hlambdas : pendingLambdas 0 (outside (kindsOf words)) = some 0) :
    Takes (words ++ ⟨.operator .colon, text⟩ :: rest) rest skipHeader fun _ => True := by
  refine takes_restOfHeader_outside hwords hlambdas ?_
  rw [hdepth]
  refine Takes.loop_finished (Takes.peek_bind fun token htoken => ?_)
  have hkind : token.kind = .operator .colon := congrArg Word.kind htoken
  rw [hkind]
  exact Takes.advance_bind (.pure ⟨(), rfl, trivial⟩)

/-- The same where brackets match. -/
theorem takes_skipHeader_nested (h : Nested (kindsOf words)) {text : String}
    (hlambdas : pendingLambdas 0 (outside (kindsOf words)) = some 0) :
    Takes (words ++ ⟨.operator .colon, text⟩ :: rest) rest skipHeader fun _ => True :=
  takes_skipHeader_outside (fun w hw => h.goesOn w.kind (List.mem_map_of_mem hw))
    (h.foldl_depthBehind 0) hlambdas

end Header

/-! ### Parameters of lambdas -/

section Lambda

variable {Q : Bool → Prop}

/-- The parameters of a lambda, with some brackets open. -/
def parametersFrom (depth : Nat) : Parser Bool :=
  loop (fun _ => false) lambdaParameterStep depth

theorem takes_parametersFrom_inline (hw : w.kind.isInline = true)
    (hcolon : w.kind = .operator .colon → 0 < depth)
    (h : Takes rest after (parametersFrom depth) Q) :
    Takes (w :: rest) after (parametersFrom depth) Q := by
  refine Takes.loop_again (S := fun c => c = depth) (Takes.peek_bind fun token htoken => ?_)
    (Nat.lt_succ_self _) fun c hc => hc ▸ h
  have hkind : token.kind = w.kind := congrArg Word.kind htoken
  have hagain : Takes (w :: rest) rest
      (do
        advance
        pure (LoopStep.again depth) : Parser (LoopStep Nat Bool))
      fun r => ∃ c, r = .again c ∧ c = depth :=
    Takes.advance_bind (.pure ⟨_, rfl, rfl⟩)
  rw [hkind]
  generalize w.kind = k at hw hcolon
  cases k with
  | operator op =>
    rw [TokenKind.isInline, Bool.not_eq_true', Bool.or_eq_false_iff] at hw
    have hends : ¬ (op == .colon && depth == 0) = true := by
      intro h
      rw [Bool.and_eq_true, beq_iff_eq, beq_iff_eq] at h
      exact Nat.ne_of_gt (hcolon (congrArg _ h.1)) h.2
    dsimp only
    rw [if_neg hends, if_neg (by simp [hw.1]), if_neg (by simp [hw.2])]
    exact hagain
  | _ => first | exact hagain | cases hw

theorem takes_parametersFrom_opening {op : Operator} (hw : w.kind = .operator op)
    (ho : op.isOpening = true) (h : Takes rest after (parametersFrom (depth + 1)) Q) :
    Takes (w :: rest) after (parametersFrom depth) Q := by
  refine Takes.loop_again (S := fun c => c = depth + 1) (Takes.peek_bind fun token htoken => ?_)
    (Nat.lt_succ_self _) fun c hc => hc ▸ h
  have hkind : token.kind = .operator op := (congrArg Word.kind htoken).trans hw
  have hcolon : op ≠ .colon := by rintro rfl; cases ho
  rw [hkind]
  dsimp only
  rw [if_neg (by simp [hcolon]), if_pos ho]
  exact Takes.advance_bind (.pure ⟨_, rfl, rfl⟩)

theorem takes_parametersFrom_closing {op : Operator} (hw : w.kind = .operator op)
    (hc : op.isClosing = true) (h : Takes rest after (parametersFrom depth) Q) :
    Takes (w :: rest) after (parametersFrom (depth + 1)) Q := by
  refine Takes.loop_again (S := fun c => c = depth) (Takes.peek_bind fun token htoken => ?_)
    (Nat.lt_succ_self _) fun c hc => hc ▸ h
  have hkind : token.kind = .operator op := (congrArg Word.kind htoken).trans hw
  rw [hkind]
  dsimp only
  rw [if_neg (by simp), if_neg (by simp [Operator.not_isOpening hc]), if_pos hc]
  exact Takes.advance_bind (.pure ⟨_, rfl, rfl⟩)

theorem takes_parametersFrom_inside (h : Nested (kindsOf words))
    (hrest : Takes rest after (parametersFrom (depth + 1)) Q) :
    Takes (words ++ rest) after (parametersFrom (depth + 1)) Q := by
  refine h.takes_inside (p := parametersFrom) ?_ ?_ ?_ rfl hrest
  · exact fun w rest depth hw => takes_parametersFrom_inline hw fun _ => Nat.succ_pos _
  · exact fun op w rest depth hw ho => takes_parametersFrom_opening hw ho
  · exact fun op w rest depth hw hc => takes_parametersFrom_closing hw hc

theorem takes_parametersFrom_outside {ks : List TokenKind} (h : Nested ks)
    (hwords : kindsOf words = ks) (hcolon : .operator .colon ∉ outside ks)
    (hrest : Takes rest after (parametersFrom 0) Q) :
    Takes (words ++ rest) after (parametersFrom 0) Q := by
  induction h generalizing words rest with
  | nil =>
    obtain rfl := List.map_eq_nil_iff.1 hwords
    exact hrest
  | append hks _ ih ih' =>
    obtain ⟨left, right, rfl, hleft, hright⟩ := List.map_eq_append_iff.1 hwords
    rw [hks.outside_append, List.mem_append, not_or] at hcolon
    rw [List.append_assoc]
    exact ih hleft hcolon.1 (ih' hright hcolon.2 hrest)
  | one hk =>
    obtain ⟨w, rfl, rfl⟩ := List.map_eq_singleton_iff.1 hwords
    rw [outside_one hk, List.mem_singleton] at hcolon
    exact takes_parametersFrom_inline hk (fun heq => absurd heq.symm hcolon) hrest
  | bracket ho hc hks =>
    obtain ⟨left, right, rfl, hleft, hright⟩ := List.map_eq_append_iff.1 hwords
    obtain ⟨w, inner, rfl, hw, rfl⟩ := List.map_eq_cons_iff.1 hleft
    obtain ⟨w', rfl, hw'⟩ := List.map_eq_singleton_iff.1 hright
    rw [List.append_assoc, List.cons_append]
    refine takes_parametersFrom_opening hw ho (takes_parametersFrom_inside hks ?_)
    exact takes_parametersFrom_closing hw' hc hrest

/-- The parameters of a lambda end at the first colon outside of brackets. -/
theorem takes_lambdaParameters (h : Nested (kindsOf words))
    (hcolon : .operator .colon ∉ outside (kindsOf words)) {text : String} :
    Takes (words ++ ⟨.operator .colon, text⟩ :: rest) rest lambdaParameters fun b => b = true := by
  refine takes_parametersFrom_outside h rfl hcolon ?_
  refine Takes.loop_finished (Takes.peek_bind fun token htoken => ?_)
  have hkind : token.kind = .operator .colon := congrArg Word.kind htoken
  rw [hkind]
  exact Takes.advance_bind (.pure ⟨true, rfl, rfl⟩)

end Lambda

/-! ### Dictionaries and sets -/

section Display

variable {s : ParserState}

theorem atDictEntry_nested (h : Nested (kindsOf words)) {lambdas' : Nat}
    (hlambdas : pendingLambdas 0 (outside (kindsOf words)) = some lambdas')
    (hfirst : kindAt (words ++ rest) 0 ≠ .operator .doubleStar) (hs : s.ahead = words ++ rest) :
    ∃ us : List Token, us.map Token.word = rest ∧ s.cursor.atDictEntry
      = (!(outside (kindsOf words)).any TokenKind.endsKey && colonFollows 0 lambdas' us) := by
  obtain ⟨ts, us, hafter, hts, hus⟩ := List.map_eq_append_iff.1 hs
  have hkinds : ts.map Token.kind = kindsOf words := by
    rw [← hts, kindsOf, List.map_map]
    rfl
  have hstar : (s.cursor.kind == .operator .doubleStar) = false := by
    rw [beq_eq_false_iff_ne, Cursor.kind, s.kindAt_eq hs]
    exact hfirst
  refine ⟨us, hus, ?_⟩
  rw [Cursor.atDictEntry, hstar, Bool.false_or, hafter, h.colonFollows hlambdas hkinds]

/-- In front of a colon an expression is taken for a key unless something outside of brackets
    ends it as such. -/
theorem atDictEntry_of_colon (h : Nested (kindsOf words))
    (hlambdas : pendingLambdas 0 (outside (kindsOf words)) = some 0)
    (hfirst : kindAt (words ++ w :: rest) 0 ≠ .operator .doubleStar)
    (hw : w.kind = .operator .colon) (hs : s.ahead = words ++ w :: rest) :
    s.cursor.atDictEntry = !(outside (kindsOf words)).any TokenKind.endsKey := by
  obtain ⟨us, hus, heq⟩ := atDictEntry_nested h hlambdas hfirst hs
  obtain ⟨token, us, rfl, htoken, -⟩ := List.map_eq_cons_iff.1 hus
  have hkind : token.kind = .operator .colon := (congrArg Word.kind htoken).trans hw
  have hcolon : colonFollows 0 0 (token :: us) = true := by
    rw [colonFollows.eq_def]
    dsimp only
    rw [hkind]
    rfl
  rw [heq, hcolon, Bool.and_true]

/-- Where no colon follows, no expression is taken for a key. -/
theorem atDictEntry_of_separator (h : Nested (kindsOf words))
    (hlambdas : pendingLambdas 0 (outside (kindsOf words)) = some 0)
    (hfirst : kindAt (words ++ rest) 0 ≠ .operator .doubleStar)
    (hrest : ∀ us : List Token, us.map Token.word = rest → colonFollows 0 0 us = false)
    (hs : s.ahead = words ++ rest) : s.cursor.atDictEntry = false := by
  obtain ⟨us, hus, heq⟩ := atDictEntry_nested h hlambdas hfirst hs
  rw [heq, hrest us hus, Bool.and_false]

/-- No colon follows behind a comma, a closing bracket or the word `for`. -/
theorem colonFollows_of_separator
    (hrest : kindAt rest 0 = .operator .comma ∨ kindAt rest 0 = .operator .rCurly
      ∨ kindAt rest 0 = .keyword .for) {us : List Token} (hus : us.map Token.word = rest) :
    colonFollows 0 0 us = false := by
  subst hus
  cases us with
  | nil => rfl
  | cons token us =>
    have hkind : token.kind = .operator .comma ∨ token.kind = .operator .rCurly
        ∨ token.kind = .keyword .for := hrest
    rw [colonFollows.eq_def]
    dsimp only
    rcases hkind with hkind | hkind | hkind
    all_goals
      rw [hkind]
      rfl

end Display

/-! ### The rest of a comprehension -/

theorem ParserState.ahead_advanceBy {s : ParserState} {words rest : List Word}
    (h : s.ahead = words ++ rest) :
    (s.move (Cursor.advanceBy words.length)).ahead = rest := by
  induction words generalizing s with
  | nil => exact h
  | cons w words ih => exact ih (s.ahead_advance h)

/-- What is passed over ends before the bracket that closes it. -/
theorem takes_skipToClosing (h : Nested (kindsOf words)) {op : Operator} (hw : w.kind = .operator op)
    (hc : op.isClosing = true) :
    Takes (words ++ w :: rest) (w :: rest) skipToClosing fun _ => True := by
  intro s hs
  obtain ⟨ts, us, hafter, hts, hus⟩ := List.map_eq_append_iff.1 hs
  obtain ⟨t, us, rfl, ht, -⟩ := List.map_eq_cons_iff.1 hus
  have hkinds : ts.map Token.kind = kindsOf words := by
    rw [← hts, kindsOf, List.map_map]
    rfl
  have hkind : t.kind = .operator op := (congrArg Word.kind ht).trans hw
  have hzero : Cursor.closingDistance 0 (t :: us) = 0 := by
    rw [Cursor.closingDistance, hkind]
    exact (if_neg (by simp [Operator.not_isOpening hc])).trans (if_pos hc)
  have hdistance : Cursor.closingDistance 0 s.cursor.after = words.length := by
    rw [hafter, h.closingDistance hkinds, hzero, ← hts, List.length_map, Nat.add_zero]
  have hmove : s.cursor.skipToClosing = s.cursor.advanceBy words.length := by
    rw [Cursor.skipToClosing, hdistance]
  refine ⟨?_, rfl, trivial⟩
  show ({ s with cursor := s.cursor.skipToClosing } : ParserState).ahead = w :: rest
  rw [hmove]
  exact s.ahead_advanceBy hs

end PyAtlas
