import PyAtlas.Proofs.Syntax.Seam
import PyAtlas.Proofs.Token.Words

/-!
# Parsers on words

What a parser does depends on the words that come next and not on where they stand. `Takes`
says of a parser that it reads some words and no more, reports nothing, and yields a value of
which something holds; it is a triple about the words before and after. One rule for each
primitive and each way of putting parsers together makes proofs about productions follow the
productions.

## Key results
- `Takes.bind`, `Takes.loop_again`, `Takes.loop_finished`: how parsers are put together.
- `Takes.peek_bind`, `Takes.next_bind`, `Takes.eats_true` and their companions: the primitives.
-/

namespace PyAtlas

/-- The words that come next. -/
def ParserState.ahead (s : ParserState) : List Word := s.cursor.after.map Token.word

/-- The kind of the word `n` places ahead. -/
def kindAt (words : List Word) (n : Nat) : TokenKind := (words[n]?.map Word.kind).getD .eof

@[simp] theorem kindAt_zero (w : Word) (words : List Word) : kindAt (w :: words) 0 = w.kind := rfl

@[simp] theorem kindAt_succ (w : Word) (words : List Word) (n : Nat) :
    kindAt (w :: words) (n + 1) = kindAt words n := rfl

/-- Where the words `before` come next, the parser reads up to the words `after`, reports
    nothing, and yields a value of which `Q` holds. -/
def Takes (before after : List Word) {α : Type} (p : Parser α) (Q : α → Prop) : Prop :=
  ∀ s : ParserState, s.ahead = before →
    (p s).2.ahead = after ∧ (p s).2.errors = s.errors ∧ Q (p s).1

namespace ParserState

variable {s : ParserState} {w : Word} {words : List Word}

theorem exists_cons_of_ahead (h : s.ahead = w :: words) :
    ∃ t ts, s.cursor.after = t :: ts ∧ t.word = w ∧ ts.map Token.word = words := by
  rw [ahead] at h
  obtain ⟨t, ts, hafter, ht, hts⟩ := List.map_eq_cons_iff.1 h
  exact ⟨t, ts, hafter, ht, hts⟩

theorem word_peek (h : s.ahead = w :: words) : s.cursor.peek.word = w := by
  obtain ⟨t, ts, hafter, ht, -⟩ := exists_cons_of_ahead h
  rw [Cursor.peek_of_after hafter, ht]

theorem kind_of_ahead (h : s.ahead = w :: words) : s.cursor.kind = w.kind := by
  rw [Cursor.kind_eq, ← word_peek h]
  rfl

theorem ahead_advance (h : s.ahead = w :: words) : (s.move Cursor.advance).ahead = words := by
  obtain ⟨t, ts, hafter, -, hts⟩ := exists_cons_of_ahead h
  rw [ahead, ParserState.move, Cursor.advance_of_after hafter]
  exact hts

theorem remaining_eq (s : ParserState) : s.remaining = s.ahead.length := by
  rw [ahead, List.length_map]
  rfl

theorem kindAt_eq (h : s.ahead = words) (n : Nat) : s.cursor.kindAt n = kindAt words n := by
  subst h
  rw [Cursor.kindAt, Cursor.peekNth, kindAt, ahead, List.getElem?_map]
  cases s.cursor.after[n]? <;> rfl

end ParserState

namespace Takes

open PyAtlas.Parser

variable {x y z : List Word} {w : Word} {α β : Type} {p : Parser α} {f : α → Parser β}
  {Q : α → Prop} {R : β → Prop}

/-! ### Putting parsers together -/

theorem pure {a : α} (h : Q a) : Takes x x (Pure.pure a) Q :=
  fun _ hs => ⟨hs, rfl, h⟩

theorem bind (h : Takes x y p Q) (hf : ∀ a, Q a → Takes y z (f a) R) : Takes x z (p >>= f) R := by
  intro s hs
  obtain ⟨hahead, herrors, hQ⟩ := h s hs
  obtain ⟨hahead', herrors', hR⟩ := hf _ hQ _ hahead
  exact ⟨hahead', herrors'.trans herrors, hR⟩

theorem map {f : α → β} (h : Takes x y p fun a => R (f a)) : Takes x y (f <$> p) R := h

theorem discard (h : Takes x y p Q) : Takes x y (Functor.discard p) fun _ => True :=
  fun s hs => ⟨(h s hs).1, (h s hs).2.1, trivial⟩

theorem weaken {Q' : α → Prop} (h : Takes x y p Q) (hQ : ∀ a, Q a → Q' a) : Takes x y p Q' :=
  fun s hs => ⟨(h s hs).1, (h s hs).2.1, hQ _ (h s hs).2.2⟩

/-! ### Looking ahead -/

theorem look_bind {g : Cursor → α} {a : α}
    (hg : ∀ s : ParserState, s.ahead = x → g s.cursor = a) (h : Takes x y (f a) R) :
    Takes x y (look g >>= f) R := by
  intro s hs
  show (f (g s.cursor) s).2.ahead = y ∧ (f (g s.cursor) s).2.errors = s.errors
    ∧ R (f (g s.cursor) s).1
  rw [hg s hs]
  exact h s hs

theorem peek_bind {f : Token → Parser β}
    (h : ∀ token, token.word = w → Takes (w :: x) y (f token) R) :
    Takes (w :: x) y (peek >>= f) R :=
  fun s hs => h _ (s.word_peek hs) s hs

theorem peekKind_bind {f : Token → Parser β}
    (h : ∀ token, token.kind = kindAt x 0 → Takes x y (f token) R) : Takes x y (peek >>= f) R :=
  fun s hs => h _ (s.kindAt_eq hs 0) s hs

theorem kind_bind {f : TokenKind → Parser β} (h : Takes x y (f (kindAt x 0)) R) :
    Takes x y (kind >>= f) R :=
  look_bind (fun s hs => s.kindAt_eq hs 0) h

theorem at?_bind {k : TokenKind} {f : Bool → Parser β}
    (h : Takes x y (f (kindAt x 0 == k)) R) : Takes x y (at? k >>= f) R :=
  look_bind (fun s hs => by rw [← s.kindAt_eq hs]; rfl) h

theorem at?_true {k : TokenKind} {f : Bool → Parser β} (hk : kindAt x 0 = k)
    (h : Takes x y (f true) R) : Takes x y (at? k >>= f) R :=
  at?_bind (by rwa [beq_iff_eq.2 hk])

theorem at?_false {k : TokenKind} {f : Bool → Parser β} (hk : kindAt x 0 ≠ k)
    (h : Takes x y (f false) R) : Takes x y (at? k >>= f) R :=
  at?_bind (by rwa [beq_eq_false_iff_ne.2 hk])

theorem peekNext_bind {w' : Word} {f : Token → Parser β}
    (h : ∀ token, token.word = w' → Takes (w :: w' :: x) y (f token) R) :
    Takes (w :: w' :: x) y (look (Cursor.peekNth · 1) >>= f) R := by
  intro s hs
  refine h _ ?_ s hs
  obtain ⟨t, ts, hafter, -, hts⟩ := s.exists_cons_of_ahead hs
  obtain ⟨t', ts', rfl, ht', -⟩ := List.map_eq_cons_iff.1 hts
  exact (congrArg Token.word (Cursor.peekNth_one_of_after hafter)).trans ht'

theorem spanFrom_bind {start : Span} {f : Span → Parser β} (h : ∀ span, Takes x y (f span) R) :
    Takes x y (spanFrom start >>= f) R :=
  fun s hs => h _ s hs

/-! ### Reading -/

theorem advance : Takes (w :: x) x Parser.advance fun _ => True :=
  fun s hs => ⟨s.ahead_advance hs, rfl, trivial⟩

theorem advance_bind {f : Unit → Parser β} (h : Takes x y (f ()) R) :
    Takes (w :: x) y (Parser.advance >>= f) R :=
  advance.bind fun _ _ => h

theorem next_bind {f : Token → Parser β} (h : ∀ token, token.word = w → Takes x y (f token) R) :
    Takes (w :: x) y (next >>= f) R :=
  fun s hs => h _ (s.word_peek hs) _ (s.ahead_advance hs)

theorem eat_some {f : Option Token → Parser β} {k : TokenKind} (hk : w.kind = k)
    (h : ∀ token, token.word = w → Takes x y (f (some token)) R) :
    Takes (w :: x) y (eat k >>= f) R := by
  intro s hs
  have heat : s.cursor.eat k = (some s.cursor.peek, s.cursor.advance) :=
    if_pos ((s.kind_of_ahead hs).trans hk)
  have hrun : (eat k >>= f) s = f (some s.cursor.peek) (s.move Cursor.advance) := by
    show f (s.cursor.eat k).1 _ = _
    rw [heat]
  rw [hrun]
  exact h _ (s.word_peek hs) _ (s.ahead_advance hs)

theorem eat_none {f : Option Token → Parser β} {k : TokenKind} (hk : kindAt x 0 ≠ k)
    (h : Takes x y (f none) R) : Takes x y (eat k >>= f) R := by
  intro s hs
  have heat : s.cursor.eat k = (none, s.cursor) :=
    if_neg fun heq => hk ((s.kindAt_eq hs 0).symm.trans heq)
  have hrun : (eat k >>= f) s = f none s := by
    show f (s.cursor.eat k).1 { s with cursor := (s.cursor.eat k).2 } = f none s
    rw [heat]
  rw [hrun]
  exact h s hs

theorem eats_true {f : Bool → Parser β} {k : TokenKind} (hk : w.kind = k)
    (h : Takes x y (f true) R) : Takes (w :: x) y (eats k >>= f) R :=
  eat_some (f := fun token => f token.isSome) hk fun _ _ => h

theorem eats_false {f : Bool → Parser β} {k : TokenKind} (hk : kindAt x 0 ≠ k)
    (h : Takes x y (f false) R) : Takes x y (eats k >>= f) R :=
  eat_none (f := fun token => f token.isSome) hk h

/-- A name that is no reserved word. -/
theorem expectIdentifier_bind {f : Option Identifier → Parser β} (hk : w.kind = .identifier)
    (h : ∀ ident, ident.name = w.text → Takes x y (f (some ident)) R) :
    Takes (w :: x) y (expectIdentifier >>= f) R := by
  have hfound : Takes (w :: x) x expectIdentifier fun found =>
      ∃ ident, found = some ident ∧ ident.name = w.text := by
    refine peek_bind fun token htoken => ?_
    have hkind : token.kind = .identifier := (congrArg Word.kind htoken).trans hk
    have hident : identifier? token = some ⟨token.text, token.span⟩ := by
      rw [identifier?, hkind]
    rw [hident]
    exact advance_bind (pure ⟨_, rfl, Token.text_of_word htoken (by rw [hk]; rfl)⟩)
  refine hfound.bind ?_
  rintro _ ⟨ident, rfl, hname⟩
  exact h ident hname

/-- Where no newline comes next none is read. -/
theorem skipNewlines_bind {f : Unit → Parser β} (hk : kindAt x 0 ≠ .newline)
    (h : Takes x y (f ()) R) : Takes x y (skipNewlines >>= f) R := by
  intro s hs
  have hmove : s.cursor.skipNewlines = s.cursor :=
    Cursor.skipNewlines_of_ne (by rw [Cursor.kind, s.kindAt_eq hs]; exact hk)
  have hrun : (skipNewlines >>= f) s = f () s := by
    show f () ⟨s.cursor.skipNewlines, s.errors⟩ = _
    rw [hmove]
  rw [hrun]
  exact h s hs

theorem skipNewline_bind {f : Unit → Parser β} (hw : w.kind = .newline)
    (hk : kindAt x 0 ≠ .newline) (h : Takes x y (f ()) R) :
    Takes (w :: x) y (skipNewlines >>= f) R := by
  intro s hs
  have hmove : s.cursor.skipNewlines = s.cursor.advance.skipNewlines :=
    Cursor.skipNewlines_of_newline (by rw [s.kind_of_ahead hs, hw])
  have hrun : (skipNewlines >>= f) s = (skipNewlines >>= f) (s.move Cursor.advance) := by
    show f () ⟨s.cursor.skipNewlines, s.errors⟩ = f () ⟨s.cursor.advance.skipNewlines, s.errors⟩
    rw [hmove]
  rw [hrun]
  exact skipNewlines_bind hk h _ (s.ahead_advance hs)

/-! ### Going round -/

theorem loop_again {γ : Type} {giveUp : γ → β} {step : γ → Parser (LoopStep γ β)} {c : γ}
    {S : γ → Prop} (h : Takes x y (step c) fun r => ∃ c', r = .again c' ∧ S c')
    (hlt : y.length < x.length) (hnext : ∀ c', S c' → Takes y z (loop giveUp step c') R) :
    Takes x z (loop giveUp step c) R := by
  intro s hs
  obtain ⟨hahead, herrors, c', hr, hS⟩ := h s hs
  have hrun : step c s = (.again c', (step c s).2) := Prod.ext hr rfl
  have hless : (step c s).2.remaining < s.remaining := by
    rw [ParserState.remaining_eq, ParserState.remaining_eq, hahead, hs]
    exact hlt
  rw [loop_eq, hrun]
  simp only [if_pos hless]
  obtain ⟨hahead', herrors', hR⟩ := hnext c' hS _ hahead
  exact ⟨hahead', herrors'.trans herrors, hR⟩

theorem loop_finished {γ : Type} {giveUp : γ → β} {step : γ → Parser (LoopStep γ β)} {c : γ}
    (h : Takes x y (step c) fun r => ∃ b, r = .finished b ∧ R b) :
    Takes x y (loop giveUp step c) R := by
  intro s hs
  obtain ⟨hahead, herrors, b, hr, hR⟩ := h s hs
  have hrun : step c s = (.finished b, (step c s).2) := Prod.ext hr rfl
  rw [loop_eq, hrun]
  exact ⟨hahead, herrors, hR⟩

end Takes

end PyAtlas
