import PyAtlas.Proofs.Syntax.Line
import PyAtlas.Proofs.Syntax.Simulation

/-!
# Parsers that report nothing

A parser that reports nothing has understood every token that it has read, or has passed over it
unseen. Unseen it passes over the parameters of a lambda, the rest of a comprehension, and a list
of parameters among the parameters of a definition. `Cursor.passedOver` tells from the tokens
alone whether one stands in such a place.

`Quiet I J p` is a triple about the runs of `p` that report nothing: they have met no lexical
error but those that are passed over. A report has `False` behind it, so what a production does
after one needs no thought. A comprehension is known by the brackets that are open around its
`for`. Runs that report nothing close the brackets that they open, and this is why the brackets
are followed through all productions.

## Key results
- `Quiet.bind`, `Quiet.loop`, `Quiet.nested`: how productions are put together.
- `Quiet.report`: behind a report nothing needs to be shown.
- `Quiet.skipToClosing`: what is passed over leaves the brackets as they were.
-/

namespace PyAtlas

/-! ### What is passed over -/

/-- The number of tokens before the colon behind the parameters of a lambda, of which some have
    been read and left `depth` brackets open. Where there is no such colon, it is the number of
    tokens before the closing bracket or the end of the line that stands in its place. -/
def Cursor.parametersDistance : (depth : Nat) → List Token → Nat
  | _, [] => 0
  | depth, t :: ts =>
    match t.kind with
    | .eof | .newline => 0
    | .operator op =>
      if op == .colon && depth == 0 then 0
      else if op.isOpening then parametersDistance (depth + 1) ts + 1
      else if op.isClosing then
        match depth with
        | 0 => 0
        | depth + 1 => parametersDistance depth ts + 1
      else parametersDistance depth ts + 1
    | _ => parametersDistance depth ts + 1

/-- Whether a parenthesis behind these tokens, the latest of which comes first, begins the
    parameters of a definition: whether it stands behind the word `def` and a name. -/
def beginsParameters : List Token → Bool
  | _ :: word :: _ => word.kind == .keyword .define
  | _ => false

/-- The brackets that are open on a line behind these tokens, the latest of which come first. The
    innermost bracket comes first. Of each it is told whether it begins the parameters of a
    definition. -/
def openBrackets : List Token → List Bool
  | [] => []
  | t :: before =>
    match t.kind with
    | .newline => []
    | .operator op =>
      if op.isOpening then (op == .lParen && beginsParameters before) :: openBrackets before
      else if op.isClosing then (openBrackets before).tail
      else openBrackets before
    | _ => openBrackets before

/-- Whether the annotation or the default of a parameter begins behind these tokens, the latest of
    which comes first. -/
def beginsValue : List Token → Bool
  | t :: _ => t.kind == .equal || t.kind == .operator .colon
  | [] => false

/-- The number of tokens after `t` that it lets a parser pass over, where `before` stands before
    it, the latest first. Behind `lambda` these are its parameters, and behind `for` in brackets
    the rest of the comprehension. Behind a parenthesis directly among the parameters of a
    definition, where no annotation or default begins, they are the list of parameters in it. -/
def passedBehind (before : List Token) (t : Token) (after : List Token) : Nat :=
  match t.kind with
  | .keyword .lambda => Cursor.parametersDistance 0 after
  | .keyword .for => if (openBrackets before).isEmpty then 0 else Cursor.closingDistance 0 after
  | .operator .lParen =>
    if (openBrackets before).head? = some true && !beginsValue before then
      Cursor.closingDistance 0 after
    else 0
  | _ => 0

/-- Whether one of the tokens `before`, the latest of which come first, lets a parser pass over
    the one that stands `n` places ahead. -/
def passesOver : (before after : List Token) → (n : Nat) → Bool
  | [], _, _ => false
  | t :: before, after, n =>
    decide (n < passedBehind before t after) || passesOver before (t :: after) (n + 1)

/-- Whether the next token is passed over. -/
def Cursor.passedOver (c : Cursor) : Bool :=
  passesOver c.before c.after 0

/-- The next token is a lexical error and is not passed over. -/
def Cursor.AtLexicalError (c : Cursor) : Prop :=
  (∃ cause, c.kind = .error cause) ∧ c.passedOver = false

section PassedOver

variable {c : Cursor}

theorem passesOver_step {before after : List Token} {t : Token} {n : Nat}
    (h : passesOver before (t :: after) (n + 1) = true) :
    passesOver (t :: before) after n = true := by
  rw [passesOver, h, Bool.or_true]

theorem passesOver_behind {before after : List Token} {t : Token} {n : Nat}
    (h : n < passedBehind before t after) : passesOver (t :: before) after n = true := by
  rw [passesOver, decide_eq_true h, Bool.true_or]

/-- Going on does not change what is passed over. -/
theorem Cursor.passedOver_advanceBy {n : Nat} (hn : n < c.remaining)
    (h : passesOver c.before c.after n = true) : (c.advanceBy n).passedOver = true := by
  induction n generalizing c with
  | zero => exact h
  | succ n ih =>
    cases hafter : c.after with
    | nil =>
      rw [Cursor.remaining, hafter] at hn
      cases hn
    | cons t ts =>
      rw [hafter] at h
      rw [Cursor.remaining, hafter, List.length_cons] at hn
      rw [Cursor.advanceBy, Cursor.advance_of_after hafter]
      exact ih (by simpa [Cursor.remaining] using hn) (passesOver_step h)

/-- A place where a token stands lies before the end of the stream. -/
theorem Cursor.lt_remaining {n : Nat} (h : (c.advanceBy n).kind ≠ .eof) : n < c.remaining := by
  have hpos := Cursor.remaining_pos_of_kind_ne h
  rw [Cursor.remaining_advanceBy] at hpos
  omega

/-- The token that comes next becomes the latest token read. -/
theorem Cursor.before_advance (h : c.kind ≠ .eof) : c.advance.before = c.peek :: c.before := by
  cases hafter : c.after with
  | nil =>
    rw [Cursor.kind_eq, Cursor.peek, Cursor.peekNth, hafter] at h
    exact absurd rfl h
  | cons t ts => rw [Cursor.peek_of_after hafter, Cursor.advance_of_after hafter]

theorem Cursor.not_atLexicalError (h : ∀ cause, c.kind ≠ .error cause) : ¬ c.AtLexicalError :=
  fun ⟨⟨cause, hkind⟩, _⟩ => h cause hkind

theorem Cursor.not_atLexicalError_of_kind {k : TokenKind} (hkind : c.kind = k)
    (h : ∀ cause, k ≠ .error cause) : ¬ c.AtLexicalError :=
  Cursor.not_atLexicalError fun cause => hkind ▸ h cause

theorem Cursor.not_atLexicalError_of_passes {n : Nat}
    (h : passesOver c.before c.after n = true) : ¬ (c.advanceBy n).AtLexicalError := by
  rintro ⟨⟨cause, hkind⟩, hseen⟩
  have hn : n < c.remaining := Cursor.lt_remaining (by rw [hkind]; exact TokenKind.noConfusion)
  rw [Cursor.passedOver_advanceBy hn h] at hseen
  cases hseen

end PassedOver

/-! ### Brackets -/

/-- Kinds that belong to a line and neither open nor close a bracket, lexical errors apart. -/
def TokenKind.keepsBrackets : TokenKind → Bool
  | .newline | .eof | .error _ => false
  | .operator op => !(op.isOpening || op.isClosing)
  | _ => true

namespace TokenKind

variable {k : TokenKind}

theorem ne_error_of_keepsBrackets (h : k.keepsBrackets = true) (cause : LexError) :
    k ≠ .error cause := by
  rintro rfl
  cases h

theorem ne_eof_of_keepsBrackets (h : k.keepsBrackets = true) : k ≠ .eof := by
  rintro rfl
  cases h

theorem no_bracket_of_keepsBrackets {op : Operator}
    (h : (TokenKind.operator op).keepsBrackets = true) :
    op.isOpening = false ∧ op.isClosing = false := by
  simpa [keepsBrackets] using h

end TokenKind

/-- The kinds of tokens that stand for names. -/
theorem Parser.kind_of_identifier? {token : Token}
    (h : (Parser.identifier? token).isSome = true) :
    token.kind = .identifier ∨ token.kind = .keyword .print ∨ token.kind = .keyword .exec := by
  rw [Parser.identifier?] at h
  split at h
  · exact .inl ‹_›
  · exact .inr (.inl ‹_›)
  · exact .inr (.inr ‹_›)
  · cases h

theorem Parser.endsOperand_of_identifier? {token : Token}
    (h : (Parser.identifier? token).isSome = true) : token.kind.endsOperand = false := by
  rcases Parser.kind_of_identifier? h with hk | hk | hk
  all_goals
    rw [hk]
    rfl

theorem Parser.keepsBrackets_of_identifier? {token : Token}
    (h : (Parser.identifier? token).isSome = true) : token.kind.keepsBrackets = true := by
  rcases Parser.kind_of_identifier? h with hk | hk | hk
  all_goals
    rw [hk]
    rfl

section OpenBrackets

variable {t : Token} {before : List Token} {op : Operator}

theorem openBrackets_keep (h : t.kind.keepsBrackets = true) :
    openBrackets (t :: before) = openBrackets before := by
  rw [openBrackets]
  split
  · rename_i hk
    rw [hk] at h
    cases h
  · rename_i op hk
    rw [hk] at h
    have hop := TokenKind.no_bracket_of_keepsBrackets h
    simp only [hop.1, hop.2, Bool.false_eq_true, if_false]
  · rfl

theorem openBrackets_opening (hk : t.kind = .operator op) (h : op.isOpening = true) :
    openBrackets (t :: before)
      = (op == .lParen && beginsParameters before) :: openBrackets before := by
  simp only [openBrackets, hk, h, if_true]

theorem openBrackets_closing (hk : t.kind = .operator op) (h : op.isClosing = true) :
    openBrackets (t :: before) = (openBrackets before).tail := by
  have hopening : op.isOpening = false := by
    cases op <;> first | rfl | cases h
  simp only [openBrackets, hk, h, hopening, Bool.false_eq_true, if_false, if_true]

theorem openBrackets_word (hnewline : t.kind ≠ .newline) (hoperator : ∀ op, t.kind ≠ .operator op) :
    openBrackets (t :: before) = openBrackets before := by
  rw [openBrackets]
  split
  · exact absurd ‹_› hnewline
  · exact absurd ‹_› (hoperator _)
  · rfl

end OpenBrackets

/-- The brackets `σ` are open on the line, and fewer than `m` tokens are left. -/
def Inside (σ : List Bool) (m : Nat) (s : ParserState) : Prop :=
  openBrackets s.cursor.before = σ ∧ s.remaining < m

/-- The last token read is `token`. Before it the brackets `σ` were open, and behind it fewer
    than `m` tokens are left. -/
def Behind (token : Token) (σ : List Bool) (m : Nat) (s : ParserState) : Prop :=
  ∃ before, s.cursor.before = token :: before ∧ openBrackets before = σ ∧ s.remaining < m

/-- Passing over has come to its end: to the end of the line, or to a closing bracket with the
    brackets `σ` open. -/
def Stopped (σ : List Bool) (m : Nat) (s : ParserState) : Prop :=
  s.cursor.kind.isLineEnd = true
    ∨ (∃ op, s.cursor.kind = .operator op ∧ op.isClosing = true) ∧ Inside σ m s

section Places

variable {σ : List Bool} {b : Bool} {l m : Nat} {s : ParserState} {token : Token}

theorem Inside.mono (h : Inside σ l s) (hlm : l ≤ m) : Inside σ m s :=
  ⟨h.1, Nat.lt_of_lt_of_le h.2 hlm⟩

/-- Reading a token leaves fewer of them. -/
theorem ParserState.remaining_advance (h : s.remaining < l + 1) (hne : s.cursor.kind ≠ .eof) :
    (s.move Cursor.advance).remaining < l := by
  have hread : (s.move Cursor.advance).remaining < s.remaining := Cursor.remaining_advance_lt hne
  exact Nat.lt_of_lt_of_le hread (Nat.le_of_lt_succ h)

/-- A token is read. -/
theorem Inside.behind_succ (h : Inside σ (m + 1) s) (hne : s.cursor.kind ≠ .eof) :
    Behind s.cursor.peek σ m (s.move Cursor.advance) :=
  ⟨s.cursor.before, Cursor.before_advance hne, h.1, s.remaining_advance h.2 hne⟩

theorem Inside.behind (h : Inside σ m s) (hne : s.cursor.kind ≠ .eof) :
    Behind s.cursor.peek σ m (s.move Cursor.advance) :=
  (h.mono (Nat.le_succ m)).behind_succ hne

theorem Behind.inside (h : Behind token σ m s) (hk : token.kind.keepsBrackets = true) :
    Inside σ m s := by
  obtain ⟨before, hbefore, hopen, hlt⟩ := h
  refine ⟨?_, hlt⟩
  rw [hbefore, openBrackets_keep hk, hopen]

theorem Behind.opened {op : Operator} (h : Behind token σ m s) (hk : token.kind = .operator op)
    (hop : op.isOpening = true) : ∃ b, Inside (b :: σ) m s := by
  obtain ⟨before, hbefore, hopen, hlt⟩ := h
  refine ⟨op == .lParen && beginsParameters before, ?_, hlt⟩
  rw [hbefore, openBrackets_opening hk hop, hopen]

theorem Behind.closed {op : Operator} (h : Behind token (b :: σ) m s)
    (hk : token.kind = .operator op) (hop : op.isClosing = true) : Inside σ m s := by
  obtain ⟨before, hbefore, hopen, hlt⟩ := h
  refine ⟨?_, hlt⟩
  rw [hbefore, openBrackets_closing hk hop, hopen, List.tail_cons]

/-- A token that is no bracket is read. -/
theorem Inside.advance (h : Inside σ m s) (hk : s.cursor.kind.keepsBrackets = true) :
    Inside σ m (s.move Cursor.advance) :=
  (h.behind (TokenKind.ne_eof_of_keepsBrackets hk)).inside hk

theorem Inside.advance_closing {op : Operator} (h : Inside (b :: σ) m s)
    (hk : s.cursor.kind = .operator op) (hop : op.isClosing = true) :
    Inside σ m (s.move Cursor.advance) :=
  (h.behind (by rw [hk]; exact TokenKind.noConfusion)).closed hk hop

theorem Inside.advance_opening {op : Operator} (h : Inside σ m s)
    (hk : s.cursor.kind = .operator op) (hop : op.isOpening = true) :
    ∃ b, Inside (b :: σ) m (s.move Cursor.advance) :=
  (h.behind (by rw [hk]; exact TokenKind.noConfusion)).opened hk hop

/-- Before the end of the line the brackets are as they were. -/
theorem Stopped.inside (h : Stopped σ m s) (hk : s.cursor.kind.isLineEnd = false) :
    Inside σ m s := by
  rcases h with hend | ⟨-, hinside⟩
  · rw [hk] at hend
    cases hend
  · exact hinside

end Places

/-- What is passed over up to a closing bracket closes the brackets that it opens itself. -/
theorem openBrackets_closingDistance (inner σ : List Bool) {c : Cursor}
    (hopen : openBrackets c.before = inner ++ σ) :
    let c' := c.advanceBy (Cursor.closingDistance inner.length c.after)
    c'.kind.isLineEnd = true
      ∨ (∃ op, c'.kind = .operator op ∧ op.isClosing = true) ∧ openBrackets c'.before = σ := by
  -- Induction on the tokens. `inner` are the brackets that have been opened since passing over
  -- began, so their number is the depth that `closingDistance` counts.
  obtain ⟨before, ts, size⟩ := c
  induction ts generalizing before inner with
  | nil => exact .inl rfl
  | cons t ts ih =>
    -- The token is read, and the brackets `inner'` are open behind it.
    have hread : ∀ inner' : List Bool, openBrackets (t :: before) = inner' ++ σ →
        let c' := Cursor.advanceBy (Cursor.closingDistance inner'.length ts + 1)
          ⟨before, t :: ts, size⟩
        c'.kind.isLineEnd = true
          ∨ (∃ op, c'.kind = .operator op ∧ op.isClosing = true) ∧ openBrackets c'.before = σ :=
      fun inner' h => ih inner' (t :: before) h
    dsimp only at hopen ⊢
    rw [Cursor.closingDistance.eq_def]
    dsimp only
    split
    · rename_i hk
      exact .inl (by rw [Cursor.advanceBy, Cursor.kind_eq, Cursor.peek_of_after rfl, hk]; rfl)
    · rename_i hk
      exact .inl (by rw [Cursor.advanceBy, Cursor.kind_eq, Cursor.peek_of_after rfl, hk]; rfl)
    · rename_i op hk
      by_cases hopening : op.isOpening = true
      · rw [if_pos hopening]
        refine hread ((op == .lParen && beginsParameters before) :: inner) ?_
        rw [openBrackets_opening hk hopening, hopen, List.cons_append]
      · rw [if_neg hopening]
        by_cases hclosing : op.isClosing = true
        · rw [if_pos hclosing]
          cases inner with
          -- With none of them open the bracket closes one of `σ`: here passing over stops.
          | nil => exact .inr ⟨⟨op, hk, hclosing⟩, hopen⟩
          | cons b inner =>
            refine hread inner ?_
            rw [openBrackets_closing hk hclosing, hopen, List.cons_append, List.tail_cons]
        · rw [if_neg hclosing]
          refine hread inner ?_
          rw [openBrackets_keep (by simp [TokenKind.keepsBrackets, hk, hopening, hclosing]), hopen]
    · rename_i heof hnewline hoperator
      exact hread inner (by rw [openBrackets_word hnewline hoperator, hopen])

/-! ### Runs that report nothing -/

/-- The parser has come from `s` to `t` and on the way has met no lexical error but those that
    are passed over. -/
def Unharmed (s t : ParserState) : Prop :=
  ∃ n, ReadOn n s t ∧ ∀ i < n, ¬ (s.cursor.advanceBy i).AtLexicalError

namespace Unharmed

variable {s t u : ParserState}

theorem refl (s : ParserState) : Unharmed s s :=
  ⟨0, .refl s, fun i hi => absurd hi (Nat.not_lt_zero i)⟩

theorem trans (h : Unharmed s t) (h' : Unharmed t u) : Unharmed s u := by
  obtain ⟨m, hread, hm⟩ := h
  obtain ⟨n, hread', hn⟩ := h'
  refine ⟨m + n, hread.trans hread', fun i hi => ?_⟩
  -- The place lies on the first part of the way or on the second.
  by_cases him : i < m
  · exact hm i him
  · obtain ⟨j, rfl⟩ := Nat.exists_eq_add_of_le (Nat.le_of_not_lt him)
    rw [Cursor.advanceBy_add, ← hread.cursor]
    exact hn j (by omega)

end Unharmed

/-- From a state where `I` holds the parser comes to one where `J` holds and is unharmed, if it
    reports nothing. It takes back no report in any case. -/
structure Quiet (I : ParserState → Prop) {α : Type} (J : α → ParserState → Prop)
    (p : Parser α) : Prop where
  onward : ∀ s, Onward s (p s).2
  silent : ∀ s, I s → (p s).2.errors = s.errors → Unharmed s (p s).2 ∧ J (p s).1 (p s).2

namespace Quiet

open PyAtlas.Parser

variable {I I' K : ParserState → Prop} {α β : Type} {J J' : α → ParserState → Prop}
  {L : β → ParserState → Prop} {p : Parser α} {f : α → Parser β}

/-! ### Putting productions together -/

theorem pure {a : α} (h : ∀ s, I s → J a s) : Quiet I J (Pure.pure a) where
  onward s := .refl s
  silent s hi _ := ⟨.refl s, h s hi⟩

theorem bind (h : Quiet I J p) (hf : ∀ a, Quiet (J a) L (f a)) : Quiet I L (p >>= f) where
  onward s := (h.onward s).trans ((hf (p s).1).onward (p s).2)
  silent s hi hsame := by
    have hfirst := (h.onward s).errors
    have hrest := ((hf (p s).1).onward (p s).2).errors
    -- What the whole does not report neither of its parts does.
    have herrors : s.errors = (p s).2.errors := by
      refine hfirst.eq_of_length_le ?_
      rw [← hsame]
      exact hrest.length_le
    obtain ⟨hunharmed, hj⟩ := h.silent s hi herrors.symm
    obtain ⟨hunharmed', hl⟩ := (hf (p s).1).silent (p s).2 hj (hsame.trans herrors)
    exact ⟨hunharmed.trans hunharmed', hl⟩

theorem map {f : α → β} (h : Quiet I (fun _ => K) p) : Quiet I (fun _ => K) (f <$> p) :=
  ⟨h.onward, h.silent⟩

theorem discard (h : Quiet I (fun _ => K) p) : Quiet I (fun _ => K) (Functor.discard p) :=
  ⟨h.onward, h.silent⟩

theorem weaken (h : Quiet I J p) (hI : ∀ s, I' s → I s) (hJ : ∀ a s, J a s → J' a s) :
    Quiet I' J' p where
  onward := h.onward
  silent s hi hsame := by
    obtain ⟨hunharmed, hj⟩ := h.silent s (hI s hi) hsame
    exact ⟨hunharmed, hJ _ _ hj⟩

theorem pre (h : Quiet I J p) (hI : ∀ s, I' s → I s) : Quiet I' J p :=
  h.weaken hI fun _ _ hj => hj

theorem post (h : Quiet I J p) (hJ : ∀ a s, J a s → J' a s) : Quiet I J' p :=
  h.weaken (fun _ hi => hi) hJ

/-- A production that no run reaches that has reported nothing. -/
theorem unreached (h : ∀ s, Onward s (p s).2) : Quiet (fun _ => False) J p where
  onward := h
  silent _ hi := hi.elim

/-- What is left of the tokens does not grow. -/
theorem frame {l : Nat} (h : Quiet I J p) :
    Quiet (fun s => I s ∧ s.remaining < l) (fun a s => J a s ∧ s.remaining < l) p where
  onward := h.onward
  silent s hi hsame := by
    obtain ⟨hunharmed, hj⟩ := h.silent s hi.1 hsame
    exact ⟨hunharmed, hj, Nat.lt_of_le_of_lt (h.onward s).remaining_le hi.2⟩

theorem exists_pre {ι : Type} [Nonempty ι] {I : ι → ParserState → Prop}
    (h : ∀ i, Quiet (I i) J p) : Quiet (fun s => ∃ i, I i s) J p where
  onward := (h (Classical.choice inferInstance)).onward
  silent s hi := by
    obtain ⟨i, hi⟩ := hi
    exact (h i).silent s hi

theorem ite {c : Prop} [Decidable c] {p q : Parser α} (h : c → Quiet I J p)
    (h' : ¬ c → Quiet I J q) : Quiet I J (if c then p else q) := by
  split
  · exact h ‹_›
  · exact h' ‹_›

/-- What has been seen is known of the state afterwards. -/
theorem look_bind {g : Cursor → α} (h : ∀ a, Quiet (fun s => I s ∧ g s.cursor = a) L (f a)) :
    Quiet I L (look g >>= f) where
  onward s := (h (g s.cursor)).onward s
  silent s hi := (h (g s.cursor)).silent s ⟨hi, rfl⟩

theorem peek_bind {f : Token → Parser β}
    (h : ∀ token, Quiet (fun s => I s ∧ s.cursor.peek = token) L (f token)) :
    Quiet I L (peek >>= f) :=
  look_bind h

/-- What is seen often does not matter. -/
theorem look_bind_any {g : Cursor → α} (h : ∀ a, Quiet I L (f a)) : Quiet I L (look g >>= f) :=
  look_bind fun a => (h a).pre fun _ hi => hi.1

theorem spanFrom_bind {start : Span} {f : Span → Parser β} (h : ∀ span, Quiet I L (f span)) :
    Quiet I L (spanFrom start >>= f) :=
  look_bind_any h

/-- Where something has been reported, the run is not one that reports nothing. -/
theorem report {fault : SyntaxFault} {span : Span} :
    Quiet I (fun _ _ => False) (Parser.report fault span) where
  onward s := ⟨List.suffix_rfl, List.suffix_rfl, rfl, List.prefix_append _ _⟩
  silent s _ hsame := by
    have hlength := congrArg List.length hsame
    simp [Parser.report] at hlength

theorem expected {expectation : Expectation} {token : Token} :
    Quiet I (fun _ _ => False) (Parser.expected expectation token) :=
  report

/-- A production behind which a report is made. -/
theorem bind_reports (h : ∀ s, Onward s (p s).2)
    (hf : ∀ a, Quiet (fun _ => True) (fun _ _ => False) (f a)) : Quiet I L (p >>= f) where
  onward s := (h s).trans ((hf (p s).1).onward (p s).2)
  silent s _ hsame := by
    have herrors : s.errors = (p s).2.errors := by
      refine (h s).errors.eq_of_length_le ?_
      rw [← hsame]
      exact ((hf (p s).1).onward (p s).2).errors.length_le
    exact ((hf (p s).1).silent (p s).2 trivial (hsame.trans herrors)).2.elim

/-! ### Reading -/

/-- Reading some tokens none of which is a lexical error. -/
theorem move {g : Cursor → Cursor} {n : Cursor → Nat} (hg : ∀ c, g c = c.advanceBy (n c))
    (h : ∀ s, I s → ∀ i < n s.cursor, ¬ (s.cursor.advanceBy i).AtLexicalError)
    (hK : ∀ s, I s → K (s.move g)) : Quiet I (fun _ => K) (Parser.move g) where
  onward s := by
    show Onward s (s.move g)
    rw [ParserState.move, hg]
    exact Onward.advanceBy s _
  silent s hi _ := ⟨⟨n s.cursor, ⟨hg s.cursor, List.prefix_rfl⟩, h s hi⟩, hK s hi⟩

theorem advance (h : ∀ s, I s → ¬ s.cursor.AtLexicalError)
    (hK : ∀ s, I s → K (s.move Cursor.advance)) : Quiet I (fun _ => K) Parser.advance := by
  refine move (n := fun _ => 1) (fun _ => rfl) (fun s hi i hlt => ?_) hK
  rw [Nat.lt_one_iff.1 hlt]
  exact h s hi

/-- A token of a known kind is read. -/
theorem advance_kind {k : TokenKind} (hk : ∀ cause, k ≠ .error cause)
    (hkind : ∀ s, I s → s.cursor.kind = k) (hK : ∀ s, I s → K (s.move Cursor.advance)) :
    Quiet I (fun _ => K) Parser.advance :=
  advance (fun s hi => Cursor.not_atLexicalError_of_kind (hkind s hi) hk) hK

theorem next {K : Token → ParserState → Prop} (h : ∀ s, I s → ¬ s.cursor.AtLexicalError)
    (hK : ∀ s, I s → K s.cursor.peek (s.move Cursor.advance)) : Quiet I K Parser.next where
  onward s := Onward.advance s
  silent s hi _ := by
    refine ⟨⟨1, ⟨rfl, List.prefix_rfl⟩, fun i hlt => ?_⟩, hK s hi⟩
    rw [Nat.lt_one_iff.1 hlt]
    exact h s hi

theorem eat {K : Bool → ParserState → Prop} {k : TokenKind} (hk : ∀ cause, k ≠ .error cause)
    (hit : ∀ s, I s → s.cursor.kind = k → K true (s.move Cursor.advance))
    (miss : ∀ s, I s → s.cursor.kind ≠ k → K false s) :
    Quiet I (fun token => K token.isSome) (Parser.eat k) where
  onward s := Onward.eat s k
  silent s hi _ := by
    by_cases hkind : s.cursor.kind = k
    · have heat : s.cursor.eat k = (some s.cursor.peek, s.cursor.advance) := if_pos hkind
      have hrun : Parser.eat k s = (some s.cursor.peek, s.move Cursor.advance) := by
        rw [Parser.eat, heat]
      rw [hrun]
      refine ⟨⟨1, ⟨rfl, List.prefix_rfl⟩, fun i hlt => ?_⟩, hit s hi hkind⟩
      rw [Nat.lt_one_iff.1 hlt]
      exact Cursor.not_atLexicalError_of_kind hkind hk
    · have heat : s.cursor.eat k = (none, s.cursor) := if_neg hkind
      have hrun : Parser.eat k s = (none, s) := by
        rw [Parser.eat, heat]
      rw [hrun]
      exact ⟨.refl s, miss s hi hkind⟩

/-- `H` holds where the token has been read, and `M` where something else comes next. -/
theorem eat_bind {H M : ParserState → Prop} {k : TokenKind} {f : Option Token → Parser β}
    (hk : ∀ cause, k ≠ .error cause)
    (hit : ∀ s, I s → s.cursor.kind = k → H (s.move Cursor.advance))
    (miss : ∀ s, I s → s.cursor.kind ≠ k → M s) (hsome : ∀ token, Quiet H L (f (some token)))
    (hnone : Quiet M L (f none)) : Quiet I L (Parser.eat k >>= f) := by
  refine (eat (K := fun found => bif found then H else M) hk hit miss).bind fun token => ?_
  cases token with
  | some token => exact hsome token
  | none => exact hnone

theorem eats_bind {H M : ParserState → Prop} {k : TokenKind} {f : Bool → Parser β}
    (hk : ∀ cause, k ≠ .error cause)
    (hit : ∀ s, I s → s.cursor.kind = k → H (s.move Cursor.advance))
    (miss : ∀ s, I s → s.cursor.kind ≠ k → M s) (htrue : Quiet H L (f true))
    (hfalse : Quiet M L (f false)) : Quiet I L (Parser.eats k >>= f) :=
  eat_bind (f := fun token => f token.isSome) hk hit miss (fun _ => htrue) hfalse

/-- A name is read. Where there is none this is reported. -/
theorem expectIdentifier_bind {f : Option Identifier → Parser β}
    (h : ∀ s, I s → (identifier? s.cursor.peek).isSome = true → K (s.move Cursor.advance))
    (hsome : ∀ name, Quiet K L (f (some name))) (hnone : ∀ s, Onward s (f none s).2) :
    Quiet I L (expectIdentifier >>= f) := by
  have hread : Quiet I (fun name s => name ≠ none ∧ K s) expectIdentifier := by
    unfold Parser.expectIdentifier
    refine peek_bind fun token => ?_
    split
    · rename_i ident hident
      have hname : (identifier? token).isSome = true := Option.isSome_of_eq_some hident
      refine (advance (K := K) (fun s hs => ?_) fun s hs => h s hs.1 (by rw [hs.2, hname])).bind
        fun _ => pure fun _ hk => ⟨Option.some_ne_none ident, hk⟩
      refine Cursor.not_atLexicalError fun cause => ?_
      rw [Cursor.kind_eq, hs.2]
      exact TokenKind.ne_error_of_keepsBrackets (keepsBrackets_of_identifier? hname) cause
    · exact expected.bind fun _ => pure fun _ hfalse => hfalse.elim
  refine hread.bind fun name => ?_
  -- Behind a missing name no run is left that has reported nothing.
  cases name with
  | some name => exact (hsome name).pre fun s hs => hs.2
  | none =>
    exact { onward := hnone
            silent := fun s hs => absurd rfl hs.1 }

/-! ### Going round -/

/-- What holds after one step of a loop: `I` where it goes round, `K` where it is finished. -/
def AfterStep (I : α → ParserState → Prop) (K : β → ParserState → Prop) :
    LoopStep α β → ParserState → Prop
  | .again a, s => I a s
  | .finished b, s => K b s

section Loops

variable {I : α → ParserState → Prop} {K : β → ParserState → Prop} {giveUp : α → β}
  {step : α → Parser (LoopStep α β)}

/-- A loop either goes round with fewer tokens left or gives up. -/
private theorem loop_or_giveUp
    (hstep : ∀ a l, Quiet (fun s => I a s ∧ s.remaining < l + 1)
      (AfterStep (fun a s => I a s ∧ (l ≤ s.remaining → K (giveUp a) s)) K) (step a)) (a : α) :
    Quiet (I a) K (Parser.loop giveUp step a) := by
  -- Induction on the number of tokens left. A step is taken with one more than that as its bound,
  -- so that behind it `l ≤ s.remaining` says that it has read nothing.
  suffices ∀ m, ∀ a s, s.remaining = m → Onward s (Parser.loop giveUp step a s).2 ∧
      (I a s → (Parser.loop giveUp step a s).2.errors = s.errors →
        Unharmed s (Parser.loop giveUp step a s).2
          ∧ K (Parser.loop giveUp step a s).1 (Parser.loop giveUp step a s).2) from
    ⟨fun s => (this _ a s rfl).1, fun s => (this _ a s rfl).2⟩
  intro m
  induction m using Nat.strongRecOn with
  | ind m ih =>
    intro a s hm
    have honward := (hstep a m).onward s
    have hsilent := fun hi => (hstep a m).silent s ⟨hi, by omega⟩
    rw [loop_eq]
    cases hr : step a s with
    | mk r t =>
      rw [hr] at honward hsilent
      cases r with
      | finished b => exact ⟨honward, hsilent⟩
      | again a' =>
        dsimp only at honward hsilent ⊢
        -- The loop goes round only where the step has read something.
        by_cases hlt : t.remaining < s.remaining
        · rw [if_pos hlt]
          obtain ⟨honward', hsilent'⟩ := ih _ (hm ▸ hlt) a' t rfl
          refine ⟨honward.trans honward', fun hi hsame => ?_⟩
          have herrors : s.errors = t.errors := by
            refine honward.errors.eq_of_length_le ?_
            rw [← hsame]
            exact honward'.errors.length_le
          obtain ⟨hunharmed, hagain, -⟩ := hsilent hi herrors.symm
          obtain ⟨hunharmed', hk⟩ := hsilent' hagain (hsame.trans herrors)
          exact ⟨hunharmed.trans hunharmed', hk⟩
        · rw [if_neg hlt]
          refine ⟨honward, fun hi hsame => ?_⟩
          obtain ⟨hunharmed, -, hgive⟩ := hsilent hi hsame
          exact ⟨hunharmed, hgive (by omega)⟩

/-- The rule for loops that may give up. -/
theorem loop (hstep : ∀ a, Quiet (I a) (AfterStep I K) (step a))
    (hgive : ∀ a s, I a s → K (giveUp a) s) (a : α) :
    Quiet (I a) K (Parser.loop giveUp step a) := by
  refine loop_or_giveUp (fun a l => (hstep a).weaken (fun s hi => hi.1) fun r s hr => ?_) a
  cases r with
  | again a => exact ⟨hr, fun _ => hgive a s hr⟩
  | finished b => exact hr

/-- The rule for loops that keep what holds at their beginning. -/
theorem loop_keeps {I : ParserState → Prop}
    (hstep : ∀ a, Quiet I (AfterStep (fun _ => I) fun _ => I) (step a)) (a : α) :
    Quiet I (fun _ => I) (Parser.loop giveUp step a) :=
  loop (I := fun _ => I) (K := fun _ => I) hstep (fun _ _ hi => hi) a

/-- The rule for loops whose every step reads something. They never give up. -/
theorem loop_reads
    (hstep : ∀ a l, Quiet (fun s => I a s ∧ s.remaining < l + 1)
      (AfterStep (fun a s => I a s ∧ s.remaining < l) K) (step a)) (a : α) :
    Quiet (I a) K (Parser.loop giveUp step a) := by
  refine loop_or_giveUp (fun a l => (hstep a l).post fun r s hr => ?_) a
  cases r with
  | again a => exact ⟨hr.1, fun hle => absurd hr.2 (Nat.not_lt_of_le hle)⟩
  | finished b => exact hr

end Loops

theorem nested {limit : Nat} {giveUp : α}
    {parser : (s : ParserState) → s.remaining < limit → α × ParserState}
    (honward : ∀ s h, Onward s (parser s h).2)
    (hsilent : ∀ s h, I s → (parser s h).2.errors = s.errors →
      Unharmed s (parser s h).2 ∧ J (parser s h).1 (parser s h).2)
    (hgive : ∀ s, I s → limit ≤ s.remaining → J giveUp s) :
    Quiet I J (Parser.nested limit giveUp parser) where
  onward s := by
    rw [Parser.nested]
    split
    · exact honward s _
    · exact .refl s
  silent s hi hsame := by
    rw [Parser.nested] at hsame ⊢
    split at hsame
    · rename_i h
      rw [dif_pos h]
      exact hsilent s h hi hsame
    · rename_i h
      rw [dif_neg h]
      exact ⟨.refl s, hgive s hi (Nat.le_of_not_lt h)⟩

/-! ### Passing over -/

/-- Passing over up to a closing bracket leaves the brackets as they were. -/
theorem skipToClosing {σ : List Bool} {m : Nat} (hI : ∀ s, I s → Inside σ m s)
    (h : ∀ s, I s → ∀ i < Cursor.closingDistance 0 s.cursor.after,
      ¬ (s.cursor.advanceBy i).AtLexicalError) :
    Quiet I (fun _ => Stopped σ m) Parser.skipToClosing := by
  refine move (n := fun c => Cursor.closingDistance 0 c.after) (fun _ => rfl) h fun s hi => ?_
  obtain ⟨hopen, hlt⟩ := hI s hi
  have hstop := openBrackets_closingDistance [] σ hopen
  refine hstop.imp id fun ⟨hclosing, hopen'⟩ => ⟨hclosing, hopen', ?_⟩
  exact Nat.lt_of_le_of_lt (Onward.skipToClosing s).remaining_le hlt

end Quiet

end PyAtlas
