import PyAtlas.Proofs.Syntax.Seam
import PyAtlas.Proofs.Token.Reservation

/-!
# Looking ahead at softer tokens

A cursor that meets identifiers where another one meets the reserved words `async` and `await`
answers the same to every question about the tokens ahead, though it finds the answer in another
way: where one of the two words is special it is known by its spelling in place of its kind.

## Key results
- `Cursor.skipToClosing_soften` and its companions: passing over tokens.
- `Cursor.atAsync_soften`, `Cursor.atSoftAwait_soften`: where the two words are special.
- `Cursor.atDictEntry_soften`, `Cursor.continuation?_soften`: what the tokens ahead tell.
-/

namespace PyAtlas

open PyAtlas.Parser

/-! ### Tokens -/

namespace Token

variable {t : Token}

/-- A token is the same for both grammars, or it is one of the two words. -/
theorem soften_cases (t : Token) :
    t.soften = t ∨ t.kind = .keyword .async ∨ t.kind = .keyword .await := by
  rcases t.kind.soften_cases with hsame | hword
  · refine .inl ?_
    rw [soften, hsame]
  · exact .inr hword

/-- One of the two words is told from its spelling where it is not reserved. -/
theorem isWord_soften (h : t.Reserving) {k : Keyword}
    (hk : (TokenKind.keyword k).isSteady = false) (hreserved : k.reservedIn .v37 = true) :
    t.soften.isWord k.spelling = (t.kind == .keyword k) := by
  rw [isWord, soften_kind, soften_text]
  by_cases hkind : t.kind = .keyword k
  · have hsoft : t.kind.soften = .identifier := by
      rw [hkind]
      revert hk
      cases k <;> simp [TokenKind.isSteady, TokenKind.soften]
    rw [hsoft, h.text_of_keyword hkind (by rw [hkind, hk]), hkind, beq_self_eq_true,
      beq_self_eq_true, beq_self_eq_true, Bool.and_true]
  · rw [beq_eq_false_iff_ne.2 hkind, Bool.and_eq_false_iff]
    -- Any other token that becomes an identifier is spelled in another way.
    by_cases hsoft : t.kind.soften = .identifier
    · refine .inr (beq_eq_false_iff_ne.2 fun htext => ?_)
      have hfound : Keyword.ofText? .v37 t.text = some k :=
        Keyword.ofText?_eq_some_iff.2 ⟨htext.symm, hreserved⟩
      have hword := h (by
        rcases t.kind.soften_cases with hsame | hother | hother
        · rw [← hsame, hsoft]
          rfl
        · rw [hother]
          rfl
        · rw [hother]
          rfl)
      rw [Lexer.wordKind, hfound] at hword
      exact hkind hword
    · exact .inl (beq_eq_false_iff_ne.2 hsoft)

theorem isWord_async_soften (h : t.Reserving) :
    t.soften.isWord "async" = (t.kind == .keyword .async) :=
  isWord_soften (k := .async) h rfl rfl

theorem isWord_await_soften (h : t.Reserving) :
    t.soften.isWord "await" = (t.kind == .keyword .await) :=
  isWord_soften (k := .await) h rfl rfl

end Token

/-- The two words are no names where they are reserved. -/
theorem Parser.identifier?_of_word {t : Token}
    (h : t.kind = .keyword .async ∨ t.kind = .keyword .await) : identifier? t = none := by
  rcases h with hk | hk <;> rw [identifier?, hk]

/-- Where they are not reserved they are. -/
theorem Parser.identifier?_soften_of_word {t : Token}
    (h : t.kind = .keyword .async ∨ t.kind = .keyword .await) :
    identifier? t.soften = some ⟨t.text, t.span⟩ := by
  rcases h with hk | hk <;> rw [identifier?, Token.soften_kind, hk] <;> rfl

/-! ### Lists of tokens -/

section Lists

variable (ts : List Token)

theorem closingDistance_soften (depth : Nat) :
    Cursor.closingDistance depth (ts.map Token.soften) = Cursor.closingDistance depth ts := by
  induction ts generalizing depth with
  | nil => rfl
  | cons t ts ih =>
    rcases t.soften_cases with hsame | hword | hword
    · simp only [List.map_cons, Cursor.closingDistance, hsame, ih]
    all_goals
      simp only [List.map_cons, Cursor.closingDistance, Token.soften_kind, hword,
        TokenKind.soften, ih]

theorem colonFollows_soften (depth lambdas : Nat) :
    colonFollows depth lambdas (ts.map Token.soften) = colonFollows depth lambdas ts := by
  induction ts generalizing depth lambdas with
  | nil => rfl
  | cons t ts ih =>
    rcases t.soften_cases with hsame | hword | hword
    · simp only [List.map_cons, colonFollows, hsame, ih]
    all_goals
      simp only [List.map_cons, colonFollows, Token.soften_kind, hword, TokenKind.soften, ih]

theorem lineLength_soften : Cursor.lineLength (ts.map Token.soften) = Cursor.lineLength ts := by
  induction ts with
  | nil => rfl
  | cons t ts ih =>
    rcases t.soften_cases with hsame | hword | hword
    · simp only [List.map_cons, Cursor.lineLength, hsame, ih]
    all_goals
      simp only [List.map_cons, Cursor.lineLength, Token.soften_kind, hword, TokenKind.soften, ih]

theorem takeWhile_newline_soften :
    ((ts.map Token.soften).takeWhile (·.kind == .newline)).length
      = (ts.takeWhile (·.kind == .newline)).length := by
  have hkind : ((·.kind == .newline) ∘ Token.soften : Token → Bool) = (·.kind == .newline) := by
    funext t
    rw [Function.comp_apply, Token.soften_kind, Bool.eq_iff_iff, beq_iff_eq, beq_iff_eq,
      TokenKind.soften_eq_iff rfl]
  rw [List.takeWhile_map, List.length_map, hkind]

end Lists

/-! ### Cursors -/

namespace Cursor

/-- The cursor where `async` and `await` are identifiers. -/
def soften (c : Cursor) : Cursor :=
  ⟨c.before.map Token.soften, c.after.map Token.soften, c.size⟩

variable {c : Cursor}

@[simp] theorem peekNth_soften (c : Cursor) (n : Nat) :
    c.soften.peekNth n = (c.peekNth n).soften := by
  rw [peekNth, peekNth, soften, List.getElem?_map]
  cases c.after[n]? <;> rfl

@[simp] theorem peek_soften (c : Cursor) : c.soften.peek = c.peek.soften :=
  peekNth_soften c 0

@[simp] theorem kindAt_soften (c : Cursor) (n : Nat) : c.soften.kindAt n = (c.kindAt n).soften := by
  rw [kindAt, peekNth_soften, Token.soften_kind, kindAt]

@[simp] theorem kind_soften (c : Cursor) : c.soften.kind = c.kind.soften :=
  kindAt_soften c 0

@[simp] theorem advance_soften (c : Cursor) : c.soften.advance = c.advance.soften := by
  rcases c with ⟨before, after, size⟩
  cases after <;> rfl

@[simp] theorem advanceBy_soften (n : Nat) (c : Cursor) :
    c.soften.advanceBy n = (c.advanceBy n).soften := by
  induction n generalizing c with
  | zero => rfl
  | succ n ih => rw [advanceBy, advance_soften, ih, advanceBy]

@[simp] theorem skipToClosing_soften (c : Cursor) :
    c.soften.skipToClosing = c.skipToClosing.soften := by
  rw [skipToClosing, soften, closingDistance_soften]
  exact advanceBy_soften _ c

@[simp] theorem skipLine_soften (c : Cursor) : c.soften.skipLine = c.skipLine.soften := by
  rw [skipLine, soften, lineLength_soften]
  exact advanceBy_soften _ c

@[simp] theorem skipNewlines_soften (c : Cursor) :
    c.soften.skipNewlines = c.skipNewlines.soften := by
  rw [skipNewlines, soften, takeWhile_newline_soften]
  exact advanceBy_soften _ c

@[simp] theorem lastSpan_soften (c : Cursor) : c.soften.lastSpan = c.lastSpan := by
  have hlayout : ((fun t => !t.kind.isLayout) ∘ Token.soften : Token → Bool)
      = fun t => !t.kind.isLayout := by
    funext t
    rw [Function.comp_apply, Token.soften_kind, TokenKind.isLayout_soften]
  rw [lastSpan, soften, List.find?_map, hlayout, lastSpan]
  cases c.before.find? fun t => !t.kind.isLayout <;> rfl

@[simp] theorem remaining_soften (c : Cursor) : c.soften.remaining = c.remaining :=
  List.length_map _

@[simp] theorem atDictEntry_soften (c : Cursor) : c.soften.atDictEntry = c.atDictEntry := by
  have hstar : (c.kind.soften == .operator .doubleStar) = (c.kind == .operator .doubleStar) := by
    rw [Bool.eq_iff_iff, beq_iff_eq, beq_iff_eq, TokenKind.soften_eq_iff rfl]
  rw [atDictEntry, kind_soften, hstar, soften, colonFollows_soften, atDictEntry]

@[simp] theorem continuation?_soften (c : Cursor) : c.soften.continuation? = c.continuation? := by
  rw [continuation?, kind_soften, kindAt_soften, continuation?]
  -- The second token matters only where the first is `not` or `is`.
  have hsecond : ∀ {k second : TokenKind}, k.isSteady = true → (second.soften = k ↔ second = k) :=
    TokenKind.soften_eq_iff
  rcases c.kind.soften_cases with hsame | hword | hword
  · rw [hsame]
    unfold Continuation.ofKinds?
    simp only [hsecond (k := .keyword .in) rfl, hsecond (k := .keyword .not) rfl]
  all_goals
    rw [hword]
    rfl

/-- The kinds of the tokens that are left agree with their spellings. -/
def Reserving (c : Cursor) : Prop :=
  ∀ t ∈ c.after, t.Reserving

theorem Reserving.peekNth (h : c.Reserving) (n : Nat) : (c.peekNth n).Reserving := by
  rw [Cursor.peekNth]
  cases ht : c.after[n]? with
  | none => exact fun hsteady => by cases hsteady
  | some t => exact h t (List.mem_of_getElem? ht)

variable {v : Version}

theorem atAsync_soften (hv : v.hasSoftAsync = true) (h : c.Reserving) (n : Nat) :
    c.soften.atAsync v n = c.atAsync .v37 n := by
  -- Neither grammar makes a keyword of the word and also knows it by its spelling.
  have hkeyword : ((c.kindAt n).soften == .keyword .async) = false := by
    refine beq_eq_false_iff_ne.2 fun heq => ?_
    rcases (c.kindAt n).soften_cases with hsame | hword | hword
    · rw [← hsame, heq] at hsame
      cases hsame
    all_goals
      rw [hword] at heq
      cases heq
  have hfirst : (c.soften.kindAt n == .keyword .async
      || v.hasSoftAsync && (c.soften.peekNth n).isWord "async")
      = (c.kindAt n == .keyword .async || Version.v37.hasSoftAsync && (c.peekNth n).isWord "async")
      := by
    have hsoft : Version.v37.hasSoftAsync = false := rfl
    rw [kindAt_soften, hkeyword, peekNth_soften, Token.isWord_async_soften (h.peekNth n), hv,
      hsoft, Bool.false_or, Bool.true_and, Bool.false_and, Bool.or_false]
    rfl
  rw [atAsync, hfirst, atAsync, kindAt_soften]
  rcases (c.kindAt (n + 1)).soften_cases with hsame | hword | hword
  · rw [hsame]
  all_goals
    rw [hword]
    rfl

theorem atComprehension_soften (hv : v.hasSoftAsync = true) (h : c.Reserving) :
    c.soften.atComprehension v = c.atComprehension .v37 := by
  have hfor : ∀ kind : TokenKind, (kind.soften == .keyword .for) = (kind == .keyword .for) := by
    intro kind
    rw [Bool.eq_iff_iff, beq_iff_eq, beq_iff_eq, TokenKind.soften_eq_iff rfl]
  rw [atComprehension, kind_soften, kindAt_soften, atAsync_soften hv h, hfor, hfor,
    atComprehension]

/-- Where `await` is not reserved it has to stand before an expression. -/
theorem atSoftAwait_soften (hv : v.hasSoftAsync = true) (h : c.Reserving) :
    c.soften.atSoftAwait v
      = (c.kind == .keyword .await && (c.kindAt 1).soften.startsExpression) := by
  have hword : c.peek.soften.isWord "await" = (c.kind == .keyword .await) :=
    Token.isWord_await_soften (h.peekNth 0)
  rw [atSoftAwait, peek_soften, kindAt_soften, hword, hv, Bool.true_and]

/-- None of the versions that know the two words knows `match` before 3.10. -/
theorem atMatch_eq_false (hv : v.atLeast 3 10 = false) (c : Cursor) : c.atMatch v = false := by
  rw [atMatch, hv, Bool.false_and, Bool.false_and, Bool.false_and]

end Cursor

end PyAtlas
