import PyAtlas.Proofs.Syntax.Window
import PyAtlas.Syntax.Parser

/-!
# Two runs of a parser side by side

A text in two parts is read as each part alone is read. This module says how the state of a
parser on the whole text and its state on one part belong together: in the part in front the
same tokens come next until the part is used up; in the part at the back the same tokens come
next at a later place, with the other part behind the cursor.

`Meets` holds these conditions together with the stage that the reading of the part has
reached. Each primitive of parsers takes related states to related states.

## Key results
- `Meets.peek`, `Meets.peekNth_one`: the next two tokens are the same, up to their place.
- `Meets.advance_plain` and its companions: reading a token keeps the states related.
- `Meets.lastSpan`: so is the span of what was read last.
-/

namespace PyAtlas

/-- Whether the last token read belongs to a line. -/
def ParserState.inLine (s : ParserState) : Bool :=
  s.cursor.before.head?.any fun t => !t.kind.isLayout

/-- Whether a token that belongs to a line has been read. -/
def ParserState.begun (s : ParserState) : Bool :=
  s.cursor.before.any fun t => !t.kind.isLayout

/-- The state with the cursor at another place. -/
abbrev ParserState.move (f : Cursor → Cursor) (s : ParserState) : ParserState :=
  { s with cursor := f s.cursor }

/-- Words that go on with a control-flow statement and begin none. -/
def TokenKind.continuesStatement : TokenKind → Bool
  | .keyword .elif | .keyword .else | .keyword .except | .keyword .finally => true
  | _ => false

/-- The tokens begin with a statement of their own. -/
def NewStatement (ts : List Token) : Prop :=
  ∃ t us, ts = t :: us ∧ t.kind.isLayout = false ∧ t.kind.continuesStatement = false

/-- The part of a text that is read alone, and what the whole text has besides it. -/
inductive Seam
  /-- The part in front; `rest` comes next in the whole text. -/
  | front (rest : List Token) (h : NewStatement rest)
  /-- The part at the back; in the whole text `past` has been read, and everything stands `n`
      bytes later. -/
  | back (past : List Token) (n : Nat)

/-- How much later the tokens of the part stand in the whole text. -/
def Seam.offset : Seam → Nat
  | .front _ _ => 0
  | .back _ n => n

/-- What the reading of the part in front has reached. -/
inductive Stage
  /-- A fault has been reported. -/
  | lost
  /-- Nothing is known. -/
  | anywhere
  /-- Some token is left. -/
  | ahead
  /-- A line has been begun and is not ended. -/
  | lined
deriving DecidableEq

/-- The whole text is at `s` where the part in front is at `t`, inside of `k` blocks. -/
structure InFront (rest : List Token) (k : Nat) (s t : ParserState) : Prop where
  before : s.cursor.before = t.cursor.before
  after : ∃ ts size, t.cursor.after = ts ++ [Token.endOfInput size] ∧
    s.cursor.after = ts ++ rest ∧ Laid t.inLine k ts
  errors : s.errors = [] ∧ t.errors = []

/-- The whole text is at `s` where the part at the back is at `t`. -/
structure AtBack (past : List Token) (n : Nat) (s t : ParserState) : Prop where
  before : s.cursor.before = shiftTokens n t.cursor.before ++ past
  after : s.cursor.after = shiftTokens n t.cursor.after
  size : s.cursor.size = t.cursor.size + n
  errors : s.errors = t.errors.map (SyntaxError.shift n)

/-- The whole text is at `s` where the part is at `t`. The stage is about the part in front. -/
def Meets (σ : Seam) (stage : Stage) (k : Nat) (s t : ParserState) : Prop :=
  match σ with
  | .front rest _ => stage ≠ .lost ∧ InFront rest k s t
      ∧ (stage = .ahead → t.cursor.kind ≠ .eof) ∧ (stage = .lined → t.inLine = true)
  | .back past n => AtBack past n s t

/-- States of the two runs that belong together. -/
abbrev Rel := ParserState → ParserState → Prop

/-- The relation, where some line of the part has been begun. -/
def Begun (R : Rel) : Rel := fun s t => R s t ∧ t.begun = true

/-- Inside a line of the part, some of which has been read. -/
abbrev Live (σ : Seam) (k : Nat) : Rel := Begun (Meets σ .lined k)

/-! ### Small facts -/

/-- Layout is no word. -/
theorem Token.isWord_of_layout {t : Token} (word : String) (h : ¬ t.kind.isLayout = false) :
    t.isWord word = false := by
  rw [Token.isWord, Bool.and_eq_false_iff]
  refine .inl ?_
  revert h
  cases t.kind <;> simp [TokenKind.isLayout]

/-- A token that is read as a word belongs to a line. -/
theorem Token.isLayout_of_isWord {t : Token} {word : String} (h : t.isWord word = true) :
    t.kind.isLayout = false := by
  by_cases hk : t.kind.isLayout = false
  · exact hk
  · rw [Token.isWord_of_layout word hk] at h
    cases h

/-- So does every kind that is none of the layout. -/
theorem TokenKind.isLayout_of_ne {kind : TokenKind} (heof : kind ≠ .eof) (hdedent : kind ≠ .dedent)
    (hindent : kind ≠ .indent) (hnewline : kind ≠ .newline) : kind.isLayout = false := by
  revert heof hdedent hindent hnewline
  cases kind <;> simp [TokenKind.isLayout]

theorem TokenKind.ne_eof_of_plain {kind : TokenKind} (hplain : kind.isLayout = false) :
    kind ≠ .eof := by
  rintro rfl
  cases hplain

namespace Cursor

theorem atAsync_of_layout {c : Cursor} (v : Version) (h : ¬ c.kind.isLayout = false) :
    c.atAsync v 0 = false := by
  have hasync : (c.kindAt 0 == .keyword .async) = false := by
    show (c.kind == _) = false
    revert h
    cases c.kind <;> simp [TokenKind.isLayout]
  have hword : (c.peekNth 0).isWord "async" = false := Token.isWord_of_layout _ h
  rw [atAsync, hasync, hword, Bool.and_false, Bool.or_false, Bool.false_and]

/-- A word that makes the next definition asynchronous belongs to a line. -/
theorem isLayout_of_atAsync {c : Cursor} {v : Version} (h : c.atAsync v 0 = true) :
    c.kind.isLayout = false := by
  by_cases hk : c.kind.isLayout = false
  · exact hk
  · rw [Cursor.atAsync_of_layout v hk] at h
    cases h

theorem isWord_peek_of_layout {c : Cursor} (word : String) (h : ¬ c.kind.isLayout = false) :
    c.peek.isWord word = false :=
  Token.isWord_of_layout word h

theorem kind_eq (c : Cursor) : c.kind = c.peek.kind := rfl

theorem peek_of_after {c : Cursor} {t : Token} {ts : List Token} (h : c.after = t :: ts) :
    c.peek = t := by
  rw [peek, peekNth, h]
  rfl

theorem peekNth_one_of_after {c : Cursor} {t : Token} {ts : List Token} (h : c.after = t :: ts) :
    c.peekNth 1 = ts.head?.getD (Token.endOfInput c.size) := by
  rw [peekNth, h]
  cases ts <;> rfl

theorem advance_of_after {c : Cursor} {t : Token} {ts : List Token} (h : c.after = t :: ts) :
    c.advance = ⟨t :: c.before, ts, c.size⟩ := by
  rw [advance, h]

theorem advance_of_nil {c : Cursor} (h : c.after = []) : c.advance = c := by
  rw [advance, h]

/-- What comes next after a token has been read. -/
theorem peek_advance (c : Cursor) : c.advance.peek = c.peekNth 1 := by
  cases hc : c.after with
  | nil =>
    rw [advance_of_nil hc, peek, peekNth, peekNth, hc]
    rfl
  | cons t ts =>
    rw [advance_of_after hc, peek, peekNth, peekNth, hc]
    rfl

theorem kind_advance (c : Cursor) : c.advance.kind = c.kindAt 1 := by
  rw [kind_eq, peek_advance, kindAt]

theorem skipNewlines_of_newline {c : Cursor} (h : c.kind = .newline) :
    c.skipNewlines = c.advance.skipNewlines := by
  cases hc : c.after with
  | nil =>
    rw [kind_eq, peek, peekNth, hc] at h
    cases h
  | cons t ts =>
    rw [kind_eq, peek_of_after hc] at h
    have hlength : (c.after.takeWhile (·.kind == .newline)).length
        = (ts.takeWhile (·.kind == .newline)).length + 1 := by
      rw [hc, List.takeWhile_cons, h, if_pos (beq_self_eq_true _), List.length_cons]
    rw [skipNewlines, hlength, advanceBy, skipNewlines, advance_of_after hc]

theorem skipNewlines_of_ne {c : Cursor} (h : c.kind ≠ .newline) : c.skipNewlines = c := by
  cases hc : c.after with
  | nil => rw [skipNewlines, hc]; rfl
  | cons t ts =>
    rw [kind_eq, peek_of_after hc] at h
    rw [skipNewlines, hc, List.takeWhile_cons, if_neg (by simpa using h)]
    rfl

/-- The next token depends on what is left only. -/
theorem kind_of_after_eq {c c' : Cursor} (h : c.after = c'.after) : c.kind = c'.kind := by
  rw [kind_eq, kind_eq, peek, peek, peekNth, peekNth, h]
  cases c'.after <;> rfl

/-- The rest of a line is at least one token. -/
theorem remaining_skipLine_lt {c : Cursor} (h : c.kind ≠ .eof) :
    c.skipLine.remaining < c.remaining := by
  cases hc : c.after with
  | nil =>
    rw [kind_eq, peek, peekNth, hc] at h
    exact absurd rfl h
  | cons t ts =>
    rw [kind_eq, peek_of_after hc] at h
    have hlength : 0 < lineLength c.after := by
      rw [hc, lineLength]
      split
      · rename_i hk
        exact absurd hk h
      · exact Nat.one_pos
      · exact Nat.succ_pos _
    have hpos : 0 < c.remaining := by
      rw [remaining, hc]
      exact Nat.succ_pos _
    rw [skipLine, remaining_advanceBy]
    omega

/-- After the newlines comes something else. -/
theorem kind_skipNewlines (c : Cursor) : c.skipNewlines.kind ≠ .newline := by
  suffices ∀ m, ∀ c : Cursor, c.remaining = m → c.skipNewlines.kind ≠ .newline by
    exact this _ c rfl
  intro m
  induction m using Nat.strongRecOn with
  | ind m ih =>
    intro c hm
    by_cases hk : c.kind = .newline
    · have hlt := remaining_advance_lt (c := c) (by rw [hk]; exact TokenKind.noConfusion)
      rw [skipNewlines_of_newline hk]
      exact ih _ (hm ▸ hlt) _ rfl
    · rw [skipNewlines_of_ne hk]
      exact hk

end Cursor

/-- A moved token stands for the moved name. -/
theorem Parser.identifier?_shift (n : Nat) (t : Token) :
    identifier? (t.shift n) = (identifier? t).map (Identifier.shift n) := by
  rw [identifier?, identifier?, Token.shift_kind]
  split <;> rfl

/-- A token that stands for a name is none of the layout. -/
theorem Parser.isLayout_of_identifier? {t : Token} {ident : Identifier}
    (h : identifier? t = some ident) : t.kind.isLayout = false := by
  rw [identifier?] at h
  split at h
  · rename_i hk
    rw [hk]
    rfl
  · rename_i hk
    rw [hk]
    rfl
  · rename_i hk
    rw [hk]
    rfl
  · cases h

namespace InFront

variable {rest : List Token} {k : Nat} {s t : ParserState}

/-- Where the part is not used up, the next token is in it. -/
theorem exists_cons (h : InFront rest k s t) (hk : t.cursor.kind ≠ .eof) :
    ∃ u ts size, t.cursor.after = u :: ts ++ [Token.endOfInput size] ∧
      s.cursor.after = u :: ts ++ rest ∧ Laid t.inLine k (u :: ts) := by
  obtain ⟨ts, size, ht, hs, hlaid⟩ := h.after
  cases ts with
  | nil => exact absurd (congrArg Token.kind (Cursor.peek_of_after ht)) hk
  | cons u ts => exact ⟨u, ts, size, ht, hs, hlaid⟩

/-- Inside a line the part is not used up. -/
theorem kind_ne_eof (h : InFront rest k s t) (hline : t.inLine = true) :
    t.cursor.kind ≠ .eof := by
  obtain ⟨ts, size, ht, -, hlaid⟩ := h.after
  rw [hline] at hlaid
  obtain ⟨u, us, rfl⟩ := List.exists_cons_of_ne_nil hlaid.ne_nil
  rw [Cursor.kind_eq, Cursor.peek_of_after ht]
  exact hlaid.kind_ne_eof

/-- Inside a block the part is not used up. -/
theorem kind_ne_eof_of_pos (h : InFront rest (k + 1) s t) : t.cursor.kind ≠ .eof := by
  obtain ⟨ts, size, ht, -, hlaid⟩ := h.after
  obtain ⟨u, us, rfl⟩ := List.exists_cons_of_ne_nil hlaid.ne_nil_of_pos
  rw [Cursor.kind_eq, Cursor.peek_of_after ht]
  exact hlaid.kind_ne_eof

end InFront

namespace AtBack

variable {past : List Token} {n : Nat} {s t : ParserState}

theorem peekNth (h : AtBack past n s t) (i : Nat) :
    s.cursor.peekNth i = (t.cursor.peekNth i).shift n := by
  rw [Cursor.peekNth, h.after, getElem?_shiftTokens, h.size, ← Token.shift_endOfInput,
    Cursor.peekNth]
  cases t.cursor.after[i]? <;> rfl

theorem advance (h : AtBack past n s t) :
    AtBack past n (s.move Cursor.advance) (t.move Cursor.advance) := by
  cases ht : t.cursor.after with
  | nil =>
    have hs : s.cursor.after = [] := by rw [h.after, ht, shiftTokens_nil]
    rw [ParserState.move, ParserState.move, Cursor.advance_of_nil ht, Cursor.advance_of_nil hs]
    exact h
  | cons u ts =>
    have hs : s.cursor.after = u.shift n :: shiftTokens n ts := by
      rw [h.after, ht, shiftTokens_cons]
    rw [ParserState.move, ParserState.move, Cursor.advance_of_after ht,
      Cursor.advance_of_after hs]
    exact ⟨by simp [h.before], rfl, h.size, h.errors⟩

theorem advanceBy (h : AtBack past n s t) (m : Nat) :
    AtBack past n (s.move (Cursor.advanceBy m)) (t.move (Cursor.advanceBy m)) := by
  induction m generalizing s t with
  | zero => exact h
  | succ m ih => exact ih h.advance

end AtBack

/-- Reading a token that belongs to a line begins one. -/
theorem ParserState.begun_advance_plain {t : ParserState}
    (hk : t.cursor.kind.isLayout = false) :
    (t.move Cursor.advance).begun = true ∧ (t.move Cursor.advance).inLine = true := by
  cases ht : t.cursor.after with
  | nil =>
    rw [Cursor.kind_eq, Cursor.peek, Cursor.peekNth, ht] at hk
    cases hk
  | cons u ts =>
    rw [Cursor.kind_eq, Cursor.peek_of_after ht] at hk
    rw [ParserState.move, Cursor.advance_of_after ht]
    constructor
    · show (u :: t.cursor.before).any _ = true
      simp [hk]
    · show (u :: t.cursor.before).head?.any _ = true
      simp [hk]

/-! ### From one stage to another -/

namespace Meets

variable {σ : Seam} {stage : Stage} {k : Nat} {s t : ParserState}

/-- After a fault in the part in front nothing matters. -/
theorem of_lost (h : Meets σ .lost k s t) (stage : Stage) (k' : Nat) : Meets σ stage k' s t := by
  cases σ with
  | back past n => exact h
  | front rest hrest => exact absurd rfl h.1

theorem anywhere (h : Meets σ stage k s t) : Meets σ .anywhere k s t := by
  cases σ with
  | back past n => exact h
  | front rest hrest =>
    exact ⟨Stage.noConfusion, h.2.1, Stage.noConfusion, Stage.noConfusion⟩

/-- A line that has been begun goes on. -/
theorem ahead (h : Meets σ .lined k s t) : Meets σ .ahead k s t := by
  cases σ with
  | back past n => exact h
  | front rest hrest =>
    obtain ⟨-, hfront, -, hline⟩ := h
    exact ⟨Stage.noConfusion, hfront, fun _ => hfront.kind_ne_eof (hline rfl),
      Stage.noConfusion⟩

theorem ahead_of_ne (h : Meets σ .anywhere k s t) (hk : t.cursor.kind ≠ .eof) :
    Meets σ .ahead k s t := by
  cases σ with
  | back past n => exact h
  | front rest hrest => exact ⟨Stage.noConfusion, h.2.1, fun _ => hk, Stage.noConfusion⟩

/-- A block that is open is closed later. -/
theorem ahead_of_pos (h : Meets σ stage (k + 1) s t) : Meets σ .ahead (k + 1) s t := by
  cases σ with
  | back past n => exact h
  | front rest hrest =>
    exact ⟨Stage.noConfusion, h.2.1, fun _ => h.2.1.kind_ne_eof_of_pos, Stage.noConfusion⟩

/-- Inside a block of the part in front there is no end of input. -/
theorem of_eof (h : Meets σ stage (k + 1) s t) (hk : t.cursor.kind = .eof) (k' : Nat) :
    Meets σ .lost k' s t := by
  cases σ with
  | back past n => exact h
  | front rest hrest => exact absurd hk h.2.1.kind_ne_eof_of_pos

/-- Outside of all blocks the part in front closes none. -/
theorem of_dedent (h : Meets σ stage 0 s t) (hk : t.cursor.kind = .dedent) (k' : Nat) :
    Meets σ .lost k' s t := by
  cases σ with
  | back past n => exact h
  | front rest hrest =>
    obtain ⟨u, ts, size, ht, -, hlaid⟩ :=
      h.2.1.exists_cons (by rw [hk]; exact TokenKind.noConfusion)
    rw [Cursor.kind_eq, Cursor.peek_of_after ht] at hk
    obtain ⟨j, hj, -⟩ := hlaid.of_dedent hk
    cases hj

/-! ### Looking -/

/-- The next token is the same, up to its place. -/
theorem peek (h : Meets σ .ahead k s t) :
    s.cursor.peek = t.cursor.peek.shift σ.offset := by
  cases σ with
  | back past n => exact AtBack.peekNth h 0
  | front rest hrest =>
    obtain ⟨-, hfront, hahead, -⟩ := h
    obtain ⟨u, ts, size, ht, hs, -⟩ := hfront.exists_cons (hahead rfl)
    rw [Cursor.peek_of_after ht, Cursor.peek_of_after hs]
    rfl

theorem kind (h : Meets σ .ahead k s t) : s.cursor.kind = t.cursor.kind := by
  rw [Cursor.kind_eq, h.peek, Token.shift_kind, Cursor.kind_eq]

/-- In front of a token of a line the one after it is the same, too. -/
theorem peekNth_one (h : Meets σ stage k s t) (hk : t.cursor.kind.isLayout = false) :
    s.cursor.peekNth 1 = (t.cursor.peekNth 1).shift σ.offset := by
  cases σ with
  | back past n => exact AtBack.peekNth h 1
  | front rest hrest =>
    have hne : t.cursor.kind ≠ .eof := by
      intro heq
      rw [heq] at hk
      cases hk
    obtain ⟨u, ts, size, ht, hs, hlaid⟩ := h.2.1.exists_cons hne
    rw [Cursor.kind_eq, Cursor.peek_of_after ht] at hk
    obtain ⟨w, ws, rfl⟩ := List.exists_cons_of_ne_nil (hlaid.of_plain hk).ne_nil
    rw [Cursor.peekNth_one_of_after ht, Cursor.peekNth_one_of_after hs]
    rfl

/-- A token of a line is followed by the end of its line. -/
theorem exists_line {rest : List Token} {hrest : NewStatement rest}
    (h : Meets (.front rest hrest) stage k s t)
    (hk : t.inLine = true ∨ t.cursor.kind.isLayout = false) :
    ∃ ts size, t.cursor.after = ts ++ [Token.endOfInput size] ∧ s.cursor.after = ts ++ rest ∧
      HasNewline ts := by
  rcases hk with hk | hk
  · obtain ⟨ts, size, ht, hs, hlaid⟩ := h.2.1.after
    rw [hk] at hlaid
    exact ⟨ts, size, ht, hs, hlaid.exists_newline⟩
  · have hne : t.cursor.kind ≠ .eof := by
      intro heq
      rw [heq] at hk
      cases hk
    obtain ⟨u, ts, size, ht, hs, hlaid⟩ := h.2.1.exists_cons hne
    rw [Cursor.kind_eq, Cursor.peek_of_after ht] at hk
    obtain ⟨w, hw, hline⟩ := (hlaid.of_plain hk).exists_newline
    exact ⟨u :: ts, size, ht, hs, w, List.mem_cons_of_mem _ hw, hline⟩

/-- The span of what was read last is the same, up to its place. -/
theorem lastSpan (h : Meets σ stage k s t) (hbegun : t.begun = true) :
    s.cursor.lastSpan = t.cursor.lastSpan.shift σ.offset := by
  cases σ with
  | front rest hrest =>
    rw [Cursor.lastSpan, h.2.1.before, Cursor.lastSpan]
    rfl
  | back past n =>
    obtain ⟨u, hu, hk⟩ := List.any_eq_true.1 hbegun
    rw [Cursor.lastSpan, h.before, List.find?_append, shiftTokens, List.find?_map,
      Cursor.lastSpan]
    cases hfind : t.cursor.before.find? fun t => !t.kind.isLayout with
    | none => exact absurd hk (List.find?_eq_none.1 hfind u hu)
    | some w =>
      have hmap : t.cursor.before.find? ((fun t => !t.kind.isLayout) ∘ Token.shift n) = some w :=
        hfind
      rw [hmap]
      rfl

/-- Both runs use up their tokens at the same pace. -/
theorem remaining_lt_iff {s' t' : ParserState} {stage' : Stage} {k' : Nat}
    (h : Meets σ stage k s t) (h' : Meets σ stage' k' s' t') :
    s'.remaining < s.remaining ↔ t'.remaining < t.remaining := by
  cases σ with
  | back past n =>
    simp only [ParserState.remaining, Cursor.remaining, h.after, h'.after,
      length_shiftTokens]
  | front rest hrest =>
    obtain ⟨ts, size, ht, hs, -⟩ := h.2.1.after
    obtain ⟨ts', size', ht', hs', -⟩ := h'.2.1.after
    simp only [ParserState.remaining, Cursor.remaining, ht, hs, ht', hs', List.length_append,
      List.length_singleton]
    omega

/-! ### Looking further -/

theorem continuation? (h : Meets σ .ahead k s t) :
    s.cursor.continuation? = t.cursor.continuation? := by
  rw [Cursor.continuation?, Cursor.continuation?, h.kind]
  by_cases hk : t.cursor.kind.isLayout = false
  · rw [Cursor.kindAt, h.peekNth_one hk, Token.shift_kind, Cursor.kindAt]
  · -- No layout goes on with an expression, whatever stands behind it.
    revert hk
    cases t.cursor.kind <;> simp [TokenKind.isLayout, Continuation.ofKinds?]

theorem atAsync (h : Meets σ .ahead k s t) (v : Version) :
    s.cursor.atAsync v 0 = t.cursor.atAsync v 0 := by
  by_cases hk : t.cursor.kind.isLayout = false
  · have hpeek : s.cursor.peekNth 0 = (t.cursor.peekNth 0).shift σ.offset := h.peek
    simp only [Cursor.atAsync, Cursor.kindAt, hpeek, h.peekNth_one hk, Token.shift_kind,
      Token.isWord_shift]
  · rw [Cursor.atAsync_of_layout v hk, Cursor.atAsync_of_layout v (by rw [h.kind]; exact hk)]

theorem atComprehension (h : Meets σ .ahead k s t) (v : Version) :
    s.cursor.atComprehension v = t.cursor.atComprehension v := by
  rw [Cursor.atComprehension, Cursor.atComprehension, h.kind, h.atAsync]
  by_cases hk : t.cursor.kind.isLayout = false
  · rw [Cursor.kindAt, h.peekNth_one hk, Token.shift_kind, Cursor.kindAt]
  · rw [Cursor.atAsync_of_layout v hk, Bool.false_and, Bool.false_and]

theorem atSoftAwait (h : Meets σ .ahead k s t) (v : Version) :
    s.cursor.atSoftAwait v = t.cursor.atSoftAwait v := by
  rw [Cursor.atSoftAwait, Cursor.atSoftAwait, h.peek, Token.isWord_shift]
  by_cases hk : t.cursor.kind.isLayout = false
  · rw [Cursor.kindAt, h.peekNth_one hk, Token.shift_kind, Cursor.kindAt]
  · rw [Cursor.isWord_peek_of_layout _ hk, Bool.and_false, Bool.false_and, Bool.false_and]

theorem lineEndsWithColon (h : Meets σ stage k s t)
    (hk : t.inLine = true ∨ t.cursor.kind.isLayout = false) :
    lineEndsWithColon s.cursor.after = lineEndsWithColon t.cursor.after := by
  cases σ with
  | back past n => rw [h.after, lineEndsWithColon_shift]
  | front rest hrest =>
    obtain ⟨ts, size, ht, hs, hline⟩ := h.exists_line hk
    rw [ht, hs, lineEndsWithColon_append _ hline, lineEndsWithColon_append _ hline]

theorem atMatch (h : Meets σ .ahead k s t) (v : Version) :
    s.cursor.atMatch v = t.cursor.atMatch v := by
  rw [Cursor.atMatch, Cursor.atMatch, h.peek, Token.isWord_shift]
  by_cases hk : t.cursor.kind.isLayout = false
  · rw [Cursor.kindAt, h.peekNth_one hk, Token.shift_kind, Cursor.kindAt,
      h.lineEndsWithColon (.inr hk)]
  · rw [Cursor.isWord_peek_of_layout _ hk, Bool.and_false, Bool.false_and, Bool.false_and,
      Bool.false_and, Bool.false_and]

theorem atDictEntry (h : Meets σ .lined k s t) : s.cursor.atDictEntry = t.cursor.atDictEntry := by
  rw [Cursor.atDictEntry, Cursor.atDictEntry, h.ahead.kind]
  cases σ with
  | back past n => rw [h.after, colonFollows_shift]
  | front rest hrest =>
    obtain ⟨ts, size, ht, hs, hline⟩ := h.exists_line (.inl (h.2.2.2 rfl))
    rw [ht, hs, colonFollows_append _ hline, colonFollows_append _ hline]

/-! ### Moving -/

private theorem inFront_advance {rest : List Token} {k' : Nat} (h : InFront rest k s t)
    (hk : t.cursor.kind ≠ .eof)
    (hlaid : ∀ mid u ts, Laid mid k (u :: ts) → u.kind = t.cursor.kind →
      Laid (!u.kind.isLayout) k' ts) :
    InFront rest k' (s.move Cursor.advance) (t.move Cursor.advance) := by
  obtain ⟨u, ts, size, ht, hs, hts⟩ := h.exists_cons hk
  have hkind : u.kind = t.cursor.kind := by rw [Cursor.kind_eq, Cursor.peek_of_after ht]
  rw [ParserState.move, ParserState.move, Cursor.advance_of_after ht, Cursor.advance_of_after hs]
  exact ⟨by rw [h.before], ⟨ts, size, rfl, rfl, hlaid _ u ts hts hkind⟩, h.errors⟩

/-- Reading a token of a line. -/
theorem advance_plain (h : Meets σ stage k s t) (hk : t.cursor.kind.isLayout = false) :
    Live σ k (s.move Cursor.advance) (t.move Cursor.advance) := by
  obtain ⟨hbegun, hline⟩ := ParserState.begun_advance_plain hk
  refine ⟨?_, hbegun⟩
  cases σ with
  | back past n => exact AtBack.advance h
  | front rest hrest =>
    refine ⟨Stage.noConfusion, inFront_advance h.2.1 ?_ ?_, Stage.noConfusion, fun _ => hline⟩
    · intro heq
      rw [heq] at hk
      cases hk
    · intro mid u ts hts hu
      rw [← hu] at hk
      rw [hk]
      exact hts.of_plain hk

/-- Within a line every token but its end leaves it open. -/
theorem advance_lined (h : Meets σ .lined k s t) (hk : t.cursor.kind.isLineEnd = false) :
    Meets σ .lined k (s.move Cursor.advance) (t.move Cursor.advance) := by
  cases σ with
  | back past n => exact AtBack.advance h
  | front rest hrest =>
    refine (h.advance_plain ?_).1
    have hline := h.2.2.2 rfl
    obtain ⟨u, ts, size, ht, -, hlaid⟩ := h.2.1.exists_cons (h.2.1.kind_ne_eof hline)
    rw [Cursor.kind_eq, Cursor.peek_of_after ht] at hk ⊢
    rw [hline] at hlaid
    cases hlaid with
    | newline hu _ =>
      rw [hu] at hk
      cases hk
    | plain hu _ => exact hu

private theorem advance_layout {k' : Nat} (h : Meets σ stage k s t)
    (hk : t.cursor.kind ≠ .eof)
    (hlaid : ∀ mid u ts, Laid mid k (u :: ts) → u.kind = t.cursor.kind →
      Laid (!u.kind.isLayout) k' ts) :
    Meets σ .anywhere k' (s.move Cursor.advance) (t.move Cursor.advance) := by
  cases σ with
  | back past n => exact AtBack.advance h
  | front rest hrest =>
    exact ⟨Stage.noConfusion, inFront_advance h.2.1 hk hlaid, Stage.noConfusion,
      Stage.noConfusion⟩

/-- Reading the end of a line. -/
theorem advance_newline (h : Meets σ stage k s t) (hk : t.cursor.kind = .newline) :
    Meets σ .anywhere k (s.move Cursor.advance) (t.move Cursor.advance) := by
  refine h.advance_layout (by rw [hk]; exact TokenKind.noConfusion) ?_
  intro mid u ts hts hu
  rw [hk] at hu
  rw [hu]
  exact hts.of_newline hu

/-- Reading the beginning of a block. -/
theorem advance_indent (h : Meets σ stage k s t) (hk : t.cursor.kind = .indent) :
    Meets σ .anywhere (k + 1) (s.move Cursor.advance) (t.move Cursor.advance) := by
  refine h.advance_layout (by rw [hk]; exact TokenKind.noConfusion) ?_
  intro mid u ts hts hu
  rw [hk] at hu
  rw [hu]
  exact hts.of_indent hu

/-- Reading the end of a block. -/
theorem advance_dedent (h : Meets σ stage (k + 1) s t) (hk : t.cursor.kind = .dedent) :
    Meets σ .anywhere k (s.move Cursor.advance) (t.move Cursor.advance) := by
  refine h.advance_layout (by rw [hk]; exact TokenKind.noConfusion) ?_
  intro mid u ts hts hu
  rw [hk] at hu
  rw [hu]
  obtain ⟨j, hj, hlaid⟩ := hts.of_dedent hu
  rw [Nat.succ.inj hj]
  exact hlaid

/-- After a fault any token may be read. -/
theorem advance_lost (h : Meets σ .lost k s t) :
    Meets σ .lost k (s.move Cursor.advance) (t.move Cursor.advance) := by
  cases σ with
  | back past n => exact AtBack.advance h
  | front rest hrest => exact absurd rfl h.1

/-- After a fault any number of tokens may be read. -/
theorem advanceBy_lost (h : Meets σ .lost k s t) (m : Nat) :
    Meets σ .lost k (s.move (Cursor.advanceBy m)) (t.move (Cursor.advanceBy m)) := by
  cases σ with
  | back past n => exact AtBack.advanceBy h m
  | front rest hrest => exact absurd rfl h.1

theorem skipLine_lost (h : Meets σ .lost k s t) :
    Meets σ .lost k (s.move Cursor.skipLine) (t.move Cursor.skipLine) := by
  have hlength : Cursor.lineLength s.cursor.after = Cursor.lineLength t.cursor.after := by
    cases σ with
    | back past n => rw [h.after, lineLength_shift]
    -- The part in front is free of faults.
    | front rest hrest => exact absurd rfl h.1
  have := h.advanceBy_lost (Cursor.lineLength t.cursor.after)
  rw [ParserState.move, Cursor.skipLine, hlength]
  exact this

/-- Passing over several tokens of a line. -/
private theorem advanceBy_plain {m : Nat} (h : Meets σ .lined k s t)
    (hlength : m ≤ t.cursor.after.length)
    (hm : ∀ u ∈ t.cursor.after.take m, u.kind.isLayout = false) :
    Meets σ .lined k (s.move (Cursor.advanceBy m)) (t.move (Cursor.advanceBy m)) := by
  induction m generalizing s t with
  | zero => exact h
  | succ m ih =>
    cases ht : t.cursor.after with
    | nil =>
      rw [ht] at hlength
      exact absurd hlength (Nat.not_succ_le_zero m)
    | cons u ts =>
      rw [ht, List.take_succ_cons] at hm
      rw [ht, List.length_cons] at hlength
      have hu : t.cursor.kind.isLayout = false := by
        rw [Cursor.kind_eq, Cursor.peek_of_after ht]
        exact hm u List.mem_cons_self
      have hafter : (t.move Cursor.advance).cursor.after = ts := by
        rw [ParserState.move, Cursor.advance_of_after ht]
      refine ih (h.advance_plain hu).1 ?_ ?_
      · rw [hafter]
        omega
      · rw [hafter]
        exact fun w hw => hm w (List.mem_cons_of_mem u hw)

/-- Up to a closing bracket a line is not left. -/
theorem skipToClosing (h : Meets σ .lined k s t) :
    Meets σ .lined k (s.move Cursor.skipToClosing) (t.move Cursor.skipToClosing) := by
  cases σ with
  | back past n =>
    have hlength : Cursor.closingDistance 0 s.cursor.after
        = Cursor.closingDistance 0 t.cursor.after := by
      rw [h.after, closingDistance_shift]
    rw [ParserState.move, Cursor.skipToClosing, hlength]
    exact AtBack.advanceBy h _
  | front rest hrest =>
    -- The line ends in the part in front, so what stands behind it does not change the distance.
    obtain ⟨ts, size, ht, hs, hlaid⟩ := h.2.1.after
    rw [h.2.2.2 rfl] at hlaid
    have hlength : ∀ us, Cursor.closingDistance 0 (ts ++ us) = Cursor.closingDistance 0 ts :=
      fun us => closingDistance_append us hlaid.exists_newline 0
    have hle := closingDistance_le_length 0 ts
    have hmove := h.advanceBy_plain (m := Cursor.closingDistance 0 ts)
      (by rw [ht, List.length_append]; omega)
      (by rw [ht, List.take_append_of_le_length hle]; exact closingDistance_plain hlaid 0)
    rw [ParserState.move, ParserState.move, Cursor.skipToClosing, Cursor.skipToClosing, hs, ht,
      hlength, hlength]
    exact hmove

theorem skipToClosing_lost (h : Meets σ .lost k s t) :
    Meets σ .lost k (s.move Cursor.skipToClosing) (t.move Cursor.skipToClosing) := by
  have hlength : Cursor.closingDistance 0 s.cursor.after
      = Cursor.closingDistance 0 t.cursor.after := by
    cases σ with
    | back past n => rw [h.after, closingDistance_shift]
    | front rest hrest => exact absurd rfl h.1
  have := h.advanceBy_lost (Cursor.closingDistance 0 t.cursor.after)
  rw [ParserState.move, Cursor.skipToClosing, hlength]
  exact this

/-- The next token is of the same kind, unless the part in front is used up: then a statement
    of its own follows. -/
theorem kind_or_new (h : Meets σ stage k s t) :
    s.cursor.kind = t.cursor.kind
      ∨ t.cursor.kind = .eof ∧ s.cursor.kind.isLayout = false
        ∧ s.cursor.kind.continuesStatement = false := by
  cases σ with
  | back past n =>
    rw [Cursor.kind_eq, show s.cursor.peek = _ from AtBack.peekNth h 0, Token.shift_kind]
    exact .inl rfl
  | front rest hrest =>
    obtain ⟨ts, size, ht, hs, -⟩ := h.2.1.after
    cases ts with
    | nil =>
      -- The part in front is used up, and the other run is at the first token behind it.
      obtain ⟨u, us, rfl, hu, hnew⟩ := hrest
      rw [Cursor.kind_eq, Cursor.kind_eq, Cursor.peek_of_after ht, Cursor.peek_of_after hs]
      exact .inr ⟨rfl, hu, hnew⟩
    | cons u us =>
      rw [Cursor.kind_eq, Cursor.kind_eq, Cursor.peek_of_after ht, Cursor.peek_of_after hs]
      exact .inl rfl

/-- A newline comes next in both runs or in none. -/
theorem kind_newline_iff (h : Meets σ stage k s t) :
    s.cursor.kind = .newline ↔ t.cursor.kind = .newline := by
  rcases h.kind_or_new with hk | ⟨heof, hplain, -⟩
  · rw [hk]
  · rw [heof]
    constructor
    · intro hs
      rw [hs] at hplain
      cases hplain
    · intro ht
      cases ht

/-- Between two lines there may be more newlines. -/
theorem skipNewlines (h : Meets σ .anywhere k s t) :
    Meets σ .anywhere k (s.move Cursor.skipNewlines) (t.move Cursor.skipNewlines) := by
  suffices ∀ m, ∀ s t, t.remaining = m → Meets σ .anywhere k s t →
      Meets σ .anywhere k (s.move Cursor.skipNewlines) (t.move Cursor.skipNewlines) by
    exact this _ s t rfl h
  -- The newlines are read one by one: where the part in front ends, both runs stop there.
  intro m
  induction m using Nat.strongRecOn with
  | ind m ih =>
    intro s t hm h
    by_cases hk : t.cursor.kind = .newline
    · have hlt : (t.move Cursor.advance).remaining < m := by
        rw [← hm]
        exact Cursor.remaining_advance_lt (by rw [hk]; exact TokenKind.noConfusion)
      have := ih _ hlt _ _ rfl (h.advance_newline hk)
      rw [ParserState.move, ParserState.move, Cursor.skipNewlines_of_newline hk,
        Cursor.skipNewlines_of_newline (h.kind_newline_iff.2 hk)]
      exact this
    · rw [ParserState.move, ParserState.move, Cursor.skipNewlines_of_ne hk,
        Cursor.skipNewlines_of_ne (fun heq => hk (h.kind_newline_iff.1 heq))]
      exact h

/-- A fault in the part at the back is reported in both runs. -/
theorem report (h : Meets σ stage k s t) (fault : SyntaxFault) (span : Span) :
    (∃ rest hrest, σ = .front rest hrest)
      ∨ Meets σ .lost k { s with errors := s.errors ++ [⟨fault, span.shift σ.offset⟩] }
        { t with errors := t.errors ++ [⟨fault, span⟩] } := by
  cases σ with
  | front rest hrest => exact .inl ⟨rest, hrest, rfl⟩
  | back past n =>
    obtain ⟨hbefore, hafter, hsize, herrors⟩ := h
    refine .inr ⟨hbefore, hafter, hsize, ?_⟩
    rw [herrors, List.map_append]
    rfl

end Meets

end PyAtlas
