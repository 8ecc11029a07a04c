import PyAtlas.Proofs.Syntax.Line
import PyAtlas.Proofs.Token.Steps
import Mathlib.Order.Bounds.Defs

/-!
# Cursors told by a number

A cursor on a stream may also be told by a number, that of the tokens before it. A number does not
keep within the stream by itself: the loops that pass over newlines, lines and brackets add one to
it round by round, and never ask whether a token is left. What ends them is that the stream goes on
with ends of input beyond its last token, and no loop passes over one of these.

So each operation on the number ends, for every list of tokens, and where it ends is the number of
the cursor that the operation leads to. Where passing over brackets ends can be said without a count
of open brackets: at the first place behind which the line is over, or a bracket closes and all that
were opened on the way have been closed.

## Key definitions
- `Place`, `RunsTo`: a place told by a number, and loops that end.
- `CursorOp.run`, `CursorOp.Takes`: the operations of a cursor, and what they do with a number.
- `AllClosed`, `EndsBrackets`: where passing over brackets ends.

## Key results
- `CursorOp.takes_iff`: operations on cursors and on numbers come to the same place.
- `allClosed_iff`: brackets are closed where the count of open ones is back at zero.
- `isLeast_closingDistance`: how far brackets are passed over.
- `Cursor.stays_in_range`: a cursor never turns back and never leaves the stream.
-/

namespace PyAtlas

/-! ### Loops that end -/

/-- Going round from a state, each round leading to the next state or to a result, comes to the
    result `b`. -/
inductive RunsTo {σ β : Type} (round : σ → σ ⊕ β) : σ → β → Prop
  | now {s : σ} {b : β} : round s = .inr b → RunsTo round s b
  | later {s t : σ} {b : β} : round s = .inl t → RunsTo round t b → RunsTo round s b

/-- A loop comes to one result only. -/
theorem RunsTo.unique {σ β : Type} {round : σ → σ ⊕ β} {s : σ} {b b' : β} (h : RunsTo round s b)
    (h' : RunsTo round s b') : b = b' := by
  induction h with
  | now hb =>
    cases h' with
    | now hb' => exact Sum.inr.inj (hb.symm.trans hb')
    | later ht' _ => rw [hb] at ht'; cases ht'
  | later ht _ ih =>
    cases h' with
    | now hb' => rw [ht] at hb'; cases hb'
    | later ht' hends =>
      obtain rfl := Sum.inl.inj (ht.symm.trans ht')
      exact ih hends

/-- A loop that is known to end comes to no other result. -/
theorem RunsTo.iff_eq {σ β : Type} {round : σ → σ ⊕ β} {s : σ} {b b' : β} (h : RunsTo round s b) :
    RunsTo round s b' ↔ b' = b :=
  ⟨fun h' => h'.unique h, fun heq => heq ▸ h⟩

/-! ### Places told by a number -/

/-- A place in a stream over a text of `size` bytes, told by the number of tokens before it. -/
structure Place where
  tokens : List Token
  index : Nat
  size : Nat
deriving DecidableEq

namespace Place

/-- The next token, or an end of input beyond the stream. -/
def peek (p : Place) : Token := p.tokens[p.index]?.getD (Token.endOfInput p.size)

/-- The kind of the next token. -/
def kind (p : Place) : TokenKind := p.peek.kind

/-- One more token is passed over. Whether there is one is not asked. -/
def pass (p : Place) : Place := { p with index := p.index + 1 }

/-- The next token and the place behind it. -/
def next (p : Place) : Token × Place :=
  match p.tokens[p.index]? with
  | some t => (t, p.pass)
  | none => (Token.endOfInput p.size, p)

/-- The place behind the next token, if there is one. -/
def consume (p : Place) : Place :=
  if p.index < p.tokens.length then p.pass else p

/-- The next token, read, if it is of the given kind. -/
def eat (p : Place) (kind : TokenKind) : Option Token × Place :=
  if p.kind = kind then (some p.next.1, p.next.2) else (none, p)

/-- One round of passing over newlines. -/
def newlineRound (p : Place) : Place ⊕ Place :=
  if p.kind = .newline then .inl p.pass else .inr p

/-- One round of passing over a line and its newline. -/
def lineRound (p : Place) : Place ⊕ Place :=
  match p.kind with
  | .eof => .inr p
  | .newline => .inr p.pass
  | _ => .inl p.pass

/-- One round of passing over brackets, with some of them open. -/
def closingRound : Nat × Place → (Nat × Place) ⊕ Place
  | (depth, p) =>
    match p.kind with
    | .eof | .newline => .inr p
    | .operator op =>
      if op.isOpening then .inl (depth + 1, p.pass)
      else if op.isClosing then
        if depth = 0 then .inr p else .inl (depth - 1, p.pass)
      else .inl (depth, p.pass)
    | _ => .inl (depth, p.pass)

end Place

/-! ### Operations -/

/-- What can be done with a cursor. -/
inductive CursorOp
  | next
  | consume
  | eatOperator (op : Operator)
  | eatKeyword (word : Keyword)
  | skipNewlines
  | skipLine
  | skipToClosing
deriving Repr, DecidableEq

namespace CursorOp

/-- The token that an operation yields, if it yields one, and the cursor behind it. -/
def run : CursorOp → Cursor → Option Token × Cursor
  | next, c => (some c.next.1, c.next.2)
  | consume, c => (none, c.advance)
  | eatOperator op, c => c.eat (.operator op)
  | eatKeyword word, c => c.eat (.keyword word)
  | skipNewlines, c => (none, c.skipNewlines)
  | skipLine, c => (none, c.skipLine)
  | skipToClosing, c => (none, c.skipToClosing)

/-- The cursor after some operations. -/
def runAll (ops : List CursorOp) (c : Cursor) : Cursor :=
  ops.foldl (fun c op => (op.run c).2) c

/-- From a place told by a number the operation comes to the given token and place. -/
def Takes : CursorOp → Place → Option Token × Place → Prop
  | next, p, r => r = (some p.next.1, p.next.2)
  | consume, p, r => r = (none, p.consume)
  | eatOperator op, p, r => r = p.eat (.operator op)
  | eatKeyword word, p, r => r = p.eat (.keyword word)
  | skipNewlines, p, r => r.1 = none ∧ RunsTo Place.newlineRound p r.2
  | skipLine, p, r => r.1 = none ∧ RunsTo Place.lineRound p r.2
  | skipToClosing, p, r => r.1 = none ∧ RunsTo Place.closingRound (0, p) r.2

/-- From a place told by a number some operations come to another one. -/
inductive Walks : List CursorOp → Place → Place → Prop
  | nil {p : Place} : Walks [] p p
  | cons {op : CursorOp} {ops : List CursorOp} {p q : Place} {r : Option Token × Place} :
    op.Takes p r → Walks ops r.2 q → Walks (op :: ops) p q

end CursorOp

/-! ### What a token does to the count of brackets -/

/-- The token opens a bracket. -/
def Token.opens (t : Token) : Bool :=
  match t.kind with
  | .operator op => op.isOpening
  | _ => false

/-- The token closes a bracket. -/
def Token.closes (t : Token) : Bool :=
  match t.kind with
  | .operator op => op.isClosing
  | _ => false

/-- Passing over brackets stops before the token: it ends the line, or it closes a bracket and none
    of those counted is open. -/
def Token.stopsBrackets (t : Token) (depth : Nat) : Bool :=
  t.kind.isLineEnd || (t.closes && depth == 0)

theorem Token.not_closes_of_opens {t : Token} (h : t.opens = true) : t.closes = false := by
  rw [opens] at h
  rw [closes]
  split at h
  · exact Operator.not_isClosing_of_isOpening h
  · cases h

theorem bracketsAfter_eq (depth : Nat) (t : Token) : bracketsAfter depth t
    = if t.opens then depth + 1 else if t.closes then depth - 1 else depth := by
  rw [bracketsAfter, Token.opens, Token.closes]
  cases t.kind <;> rfl

theorem Cursor.closingDistance_cons (depth : Nat) (t : Token) (ts : List Token) :
    closingDistance depth (t :: ts) = if t.stopsBrackets depth then 0
      else closingDistance (bracketsAfter depth t) ts + 1 := by
  rw [closingDistance.eq_def, bracketsAfter, Token.stopsBrackets, Token.closes]
  dsimp only
  cases t.kind with
  | operator op =>
    cases hopen : op.isOpening with
    | true => simp [hopen, Operator.not_isClosing_of_isOpening hopen, TokenKind.isLineEnd]
    | false =>
      cases hclose : op.isClosing <;> cases depth <;> simp [TokenKind.isLineEnd, hopen, hclose]
  | _ => rfl

theorem Place.closingRound_eq (depth : Nat) (p : Place) :
    closingRound (depth, p) = if p.peek.stopsBrackets depth then .inr p
      else .inl (bracketsAfter depth p.peek, p.pass) := by
  rw [closingRound, kind, bracketsAfter, Token.stopsBrackets, Token.closes]
  cases p.peek.kind with
  | operator op =>
    cases hopen : op.isOpening with
    | true => simp [hopen, Operator.not_isClosing_of_isOpening hopen, TokenKind.isLineEnd]
    | false =>
      cases hclose : op.isClosing <;> cases depth <;> simp [TokenKind.isLineEnd, hopen, hclose]
  | _ => rfl

/-! ### Cursors and their numbers -/

namespace Cursor

/-- The place of a cursor, told by its number. -/
def place (c : Cursor) : Place := ⟨c.tokens, c.index, c.size⟩

variable {c : Cursor} {t : Token} {ts : List Token}

theorem token?_place (c : Cursor) : c.place.tokens[c.place.index]? = c.after[0]? := by
  show (c.before.reverse ++ c.after)[c.before.length]? = c.after[0]?
  rw [List.getElem?_append_right (by simp), List.length_reverse, Nat.sub_self]

@[simp] theorem peek_place (c : Cursor) : c.place.peek = c.peek := by
  rw [Place.peek, token?_place]
  rfl

@[simp] theorem kind_place (c : Cursor) : c.place.kind = c.kind := by
  rw [Place.kind, peek_place, kind_eq]

/-- Where there is a token, it may be passed over without asking. -/
theorem place_advance (h : c.after = t :: ts) : c.advance.place = c.place.pass := by
  have hindex : c.advance.index = c.index + 1 := by rw [advance_of_after h]; rfl
  rw [place, tokens_advance, size_advance, hindex]
  rfl

theorem next_place (c : Cursor) : c.place.next = (c.peek, c.advance.place) := by
  rw [Place.next, token?_place]
  cases hafter : c.after with
  | nil =>
    rw [advance_of_nil hafter, peek, peekNth, hafter]
    rfl
  | cons t ts =>
    rw [place_advance hafter, peek_of_after hafter]
    rfl

theorem consume_place (c : Cursor) : c.place.consume = c.advance.place := by
  have hroom : c.place.index < c.place.tokens.length ↔ c.after ≠ [] := by
    show c.before.length < (c.before.reverse ++ c.after).length ↔ _
    rw [List.length_append, List.length_reverse, ← List.length_pos_iff]
    omega
  rw [Place.consume]
  cases hafter : c.after with
  | nil => rw [if_neg (by simp [hroom, hafter]), advance_of_nil hafter]
  | cons t ts => rw [if_pos (by simp [hroom, hafter]), place_advance hafter]

theorem eat_place (c : Cursor) (kind : TokenKind) :
    c.place.eat kind = ((c.eat kind).1, (c.eat kind).2.place) := by
  rw [Place.eat, eat, kind_place, next_place]
  split <;> rfl

/-- Beyond the stream there are ends of input. -/
theorem kind_of_nil (h : c.after = []) : c.kind = .eof := by
  rw [kind_eq, peek, peekNth, h]
  rfl

/-! ### The loops end -/

theorem runsTo_skipNewlines (c : Cursor) :
    RunsTo Place.newlineRound c.place c.skipNewlines.place := by
  have hround : Place.newlineRound c.place
      = if c.kind = .newline then .inl c.place.pass else .inr c.place := by
    rw [Place.newlineRound, kind_place]
  induction hafter : c.after generalizing c with
  | nil =>
    have hkind : c.kind ≠ .newline := by simp [kind_of_nil hafter]
    rw [skipNewlines_of_ne hkind]
    exact .now (by rw [hround, if_neg hkind])
  | cons t ts ih =>
    by_cases hkind : c.kind = .newline
    · have hrest := ih c.advance (by rw [Place.newlineRound, kind_place])
        (by rw [advance_of_after hafter])
      rw [← skipNewlines_of_newline hkind, place_advance hafter] at hrest
      exact .later (by rw [hround, if_pos hkind]) hrest
    · rw [skipNewlines_of_ne hkind]
      exact .now (by rw [hround, if_neg hkind])

theorem runsTo_skipLine (c : Cursor) : RunsTo Place.lineRound c.place c.skipLine.place := by
  induction hafter : c.after generalizing c with
  | nil =>
    have hkind : c.place.kind = .eof := by rw [kind_place, kind_of_nil hafter]
    rw [skipLine, hafter]
    exact .now (by rw [Place.lineRound, hkind]; rfl)
  | cons t ts ih =>
    have hkind : c.place.kind = t.kind := by rw [kind_place, kind_eq, peek_of_after hafter]
    have hrest := ih c.advance (by rw [advance_of_after hafter])
    rw [skipLine, advance_of_after hafter] at hrest
    rw [skipLine, hafter, lineLength]
    split
    · rename_i heof
      exact .now (by rw [Place.lineRound, hkind, heof]; rfl)
    · rename_i hnewline
      rw [show c.advanceBy 1 = c.advance from rfl, place_advance hafter]
      exact .now (by rw [Place.lineRound, hkind, hnewline])
    · rename_i heof hnewline
      rw [advanceBy, advance_of_after hafter]
      refine .later ?_ hrest
      rw [← advance_of_after hafter, place_advance hafter, Place.lineRound, hkind]
      split
      · exact absurd ‹_› heof
      · exact absurd ‹_› hnewline
      · rfl

/-- Passing over brackets, with some of them open. -/
theorem runsTo_closingDistance (depth : Nat) (c : Cursor) :
    RunsTo Place.closingRound (depth, c.place)
      (c.advanceBy (closingDistance depth c.after)).place := by
  induction hafter : c.after generalizing depth c with
  | nil =>
    have hkind : c.place.kind = .eof := by rw [kind_place, kind_of_nil hafter]
    exact .now (by simp only [Place.closingRound, hkind]; rfl)
  | cons t ts ih =>
    have hround := Place.closingRound_eq depth c.place
    rw [peek_place, peek_of_after hafter] at hround
    rw [closingDistance_cons]
    cases hstops : t.stopsBrackets depth with
    | true =>
      rw [hstops, if_pos rfl] at hround
      exact .now hround
    | false =>
      have hrest := ih (bracketsAfter depth t) c.advance (by rw [advance_of_after hafter])
      rw [place_advance hafter] at hrest
      rw [hstops, if_neg Bool.false_ne_true] at hround
      exact .later hround hrest

theorem runsTo_skipToClosing (c : Cursor) :
    RunsTo Place.closingRound (0, c.place) c.skipToClosing.place :=
  runsTo_closingDistance 0 c

end Cursor

namespace CursorOp

/-- With a cursor and with its number an operation comes to one token and one place, and these are
    the same. -/
theorem takes_iff (op : CursorOp) (c : Cursor) (r : Option Token × Place) :
    op.Takes c.place r ↔ r = ((op.run c).1, (op.run c).2.place) := by
  obtain ⟨token, p⟩ := r
  cases op with
  | next => rw [Takes, Cursor.next_place, run, Cursor.next]
  | consume => rw [Takes, Cursor.consume_place, run]
  | eatOperator op => rw [Takes, Cursor.eat_place, run]
  | eatKeyword word => rw [Takes, Cursor.eat_place, run]
  | skipNewlines => rw [Takes, c.runsTo_skipNewlines.iff_eq, run, Prod.mk.injEq]
  | skipLine => rw [Takes, c.runsTo_skipLine.iff_eq, run, Prod.mk.injEq]
  | skipToClosing => rw [Takes, c.runsTo_skipToClosing.iff_eq, run, Prod.mk.injEq]

/-- So do some operations one after the other. -/
theorem walks_iff (ops : List CursorOp) (c : Cursor) (p : Place) :
    Walks ops c.place p ↔ p = (runAll ops c).place := by
  induction ops generalizing c with
  | nil =>
    constructor
    · rintro ⟨⟩
      rfl
    · rintro rfl
      exact .nil
  | cons op ops ih =>
    have hrun : runAll (op :: ops) c = runAll ops (op.run c).2 := rfl
    rw [hrun]
    constructor
    · intro h
      cases h with
      | cons htakes hwalks =>
        obtain rfl := (takes_iff op c _).1 htakes
        exact (ih (op.run c).2).1 hwalks
    · rintro rfl
      exact .cons ((takes_iff op c _).2 rfl) ((ih (op.run c).2).2 rfl)

/-- Whatever is done with a cursor, it moves on. -/
theorem exists_advanceBy (op : CursorOp) (c : Cursor) : ∃ n, (op.run c).2 = c.advanceBy n := by
  have heat : ∀ kind, ∃ n, (c.eat kind).2 = c.advanceBy n := by
    intro kind
    rw [Cursor.eat]
    split
    · exact ⟨1, rfl⟩
    · exact ⟨0, rfl⟩
  cases op with
  | next => exact ⟨1, rfl⟩
  | consume => exact ⟨1, rfl⟩
  | eatOperator op => exact heat _
  | eatKeyword word => exact heat _
  | skipNewlines => exact ⟨_, rfl⟩
  | skipLine => exact ⟨_, rfl⟩
  | skipToClosing => exact ⟨_, rfl⟩

theorem tokens_run (op : CursorOp) (c : Cursor) : (op.run c).2.tokens = c.tokens := by
  obtain ⟨n, hn⟩ := op.exists_advanceBy c
  rw [hn, Cursor.tokens_advanceBy]

theorem size_run (op : CursorOp) (c : Cursor) : (op.run c).2.size = c.size := by
  obtain ⟨n, hn⟩ := op.exists_advanceBy c
  rw [hn, Cursor.size_advanceBy]

/-- No operation turns back. -/
theorem index_le_run (op : CursorOp) (c : Cursor) : c.index ≤ (op.run c).2.index := by
  obtain ⟨n, hn⟩ := op.exists_advanceBy c
  have hbefore := c.index_add_remaining
  have hbehind := (c.advanceBy n).index_add_remaining
  rw [Cursor.tokens_advanceBy, Cursor.remaining_advanceBy] at hbehind
  rw [hn]
  omega

/-- Neither the stream nor the text is another one after some operations. -/
theorem runAll_stream (ops : List CursorOp) (c : Cursor) :
    (runAll ops c).tokens = c.tokens ∧ (runAll ops c).size = c.size := by
  induction ops generalizing c with
  | nil => exact ⟨rfl, rfl⟩
  | cons op ops ih =>
    obtain ⟨htokens, hsize⟩ := ih (op.run c).2
    exact ⟨htokens.trans (op.tokens_run c), hsize.trans (op.size_run c)⟩

end CursorOp

/-! ### Where brackets are closed -/

/-- Every bracket that the tokens open they also close. Those that close nothing do not matter. -/
inductive AllClosed : List Token → Prop
  | nil : AllClosed []
  | other {t : Token} {ts : List Token} : t.opens = false → AllClosed ts → AllClosed (t :: ts)
  | bracket {t u : Token} {inner ts : List Token} : t.opens = true → u.closes = true →
    AllClosed inner → AllClosed ts → AllClosed (t :: inner ++ u :: ts)

theorem bracketsAfter_of_opens {t : Token} (h : t.opens = true) (depth : Nat) :
    bracketsAfter depth t = depth + 1 := by
  rw [bracketsAfter_eq, if_pos h]

theorem bracketsAfter_of_closes {t : Token} (h : t.closes = true) (depth : Nat) :
    bracketsAfter depth t = depth - 1 := by
  have hopens : ¬ t.opens = true := fun hopens => by
    rw [Token.not_closes_of_opens hopens] at h
    cases h
  rw [bracketsAfter_eq, if_neg hopens, if_pos h]

theorem bracketsAfter_le {t : Token} (h : t.opens = false) (depth : Nat) :
    bracketsAfter depth t ≤ depth := by
  rw [bracketsAfter_eq, h]
  split
  · contradiction
  · split <;> omega

/-- Tokens that close their brackets leave no more of them open than there were. -/
theorem AllClosed.depth_le {ts : List Token} (h : AllClosed ts) (depth : Nat) :
    ts.foldl bracketsAfter depth ≤ depth := by
  induction h generalizing depth with
  | nil => exact Nat.le_refl _
  | other hopens _ ih => exact Nat.le_trans (ih _) (bracketsAfter_le hopens depth)
  | @bracket t u inner ts hopens hcloses _ _ ihinner ih =>
    have hinner := ihinner (depth + 1)
    rw [List.foldl_append, List.foldl_cons, List.foldl_cons, bracketsAfter_of_opens hopens,
      bracketsAfter_of_closes hcloses]
    refine Nat.le_trans (ih _) ?_
    omega

/-- Where a count of open brackets comes down to zero, the innermost of them is closed on the way,
    and what stands before that closes its brackets. -/
theorem exists_closing {ts : List Token} {depth : Nat}
    (h : ts.foldl bracketsAfter (depth + 1) = 0) : ∃ inner u rest, ts = inner ++ u :: rest
      ∧ u.closes = true ∧ AllClosed inner ∧ rest.foldl bracketsAfter depth = 0 := by
  induction hn : ts.length using Nat.strongRecOn generalizing ts depth with
  | ind n ih =>
    cases ts with
    | nil => cases h
    | cons t ts =>
      rw [List.length_cons] at hn
      rw [List.foldl_cons] at h
      by_cases hopens : t.opens = true
      -- A bracket that is opened on the way is closed first, and so is then the one before it.
      · rw [bracketsAfter_of_opens hopens] at h
        obtain ⟨inner, u, rest, rfl, hu, hinner, hrest⟩ := ih ts.length (by omega) h rfl
        rw [List.length_append, List.length_cons] at hn
        obtain ⟨inner', u', rest', rfl, hu', hinner', hrest'⟩ :=
          ih rest.length (by omega) hrest rfl
        exact ⟨t :: inner ++ u :: inner', u', rest', by simp, hu',
          .bracket hopens hu hinner hinner', hrest'⟩
      · by_cases hcloses : t.closes = true
        · rw [bracketsAfter_of_closes hcloses] at h
          exact ⟨[], t, ts, rfl, hcloses, .nil, h⟩
        · rw [bracketsAfter_eq, if_neg hopens, if_neg hcloses] at h
          obtain ⟨inner, u, rest, rfl, hu, hinner, hrest⟩ := ih ts.length (by omega) h rfl
          exact ⟨t :: inner, u, rest, rfl, hu, .other (by simpa using hopens) hinner, hrest⟩

/-- All brackets are closed where the count of open ones comes back to zero. -/
theorem allClosed_iff {ts : List Token} : AllClosed ts ↔ bracketsLeftOpen ts = 0 := by
  constructor
  · intro h
    exact Nat.le_zero.1 (h.depth_le 0)
  · intro h
    induction hn : ts.length using Nat.strongRecOn generalizing ts with
    | ind n ih =>
      cases ts with
      | nil => exact .nil
      | cons t ts =>
        rw [List.length_cons] at hn
        rw [bracketsLeftOpen, List.foldl_cons] at h
        by_cases hopens : t.opens = true
        · rw [bracketsAfter_of_opens hopens] at h
          obtain ⟨inner, u, rest, rfl, hu, hinner, hrest⟩ := exists_closing h
          rw [List.length_append, List.length_cons] at hn
          exact .bracket hopens hu hinner (ih rest.length (by omega) hrest rfl)
        · have hplain : t.opens = false := by simpa using hopens
          rw [Nat.le_zero.1 (bracketsAfter_le hplain 0)] at h
          exact .other hplain (ih ts.length (by omega) h rfl)

/-! ### Where passing over brackets ends -/

/-- A number of tokens that may be passed over, with some brackets open. -/
private def MayStop (depth : Nat) (ts : List Token) (n : Nat) : Prop :=
  n = ts.length ∨ ∃ t, ts[n]? = some t
    ∧ t.stopsBrackets ((ts.take n).foldl bracketsAfter depth) = true

/-- As few tokens are passed over as may be. -/
private theorem isLeast_closingDistance (depth : Nat) (ts : List Token) :
    IsLeast {n | MayStop depth ts n} (Cursor.closingDistance depth ts) := by
  induction ts generalizing depth with
  | nil => exact ⟨.inl rfl, fun _ _ => Nat.zero_le _⟩
  | cons t ts ih =>
    rw [Cursor.closingDistance_cons]
    by_cases hstops : t.stopsBrackets depth = true
    · rw [if_pos hstops]
      exact ⟨.inr ⟨t, rfl, hstops⟩, fun _ _ => Nat.zero_le _⟩
    · rw [if_neg hstops]
      -- Behind the token the same numbers count as before it, each one less.
      have hsucc : ∀ n, MayStop depth (t :: ts) (n + 1) ↔ MayStop (bracketsAfter depth t) ts n := by
        intro n
        simp [MayStop]
      obtain ⟨hmay, hleast⟩ := ih (bracketsAfter depth t)
      refine ⟨(hsucc _).2 hmay, fun n hn => ?_⟩
      cases n with
      | zero =>
        rcases hn with hlength | ⟨u, hu, hstop⟩
        · cases hlength
        · obtain rfl := Option.some.inj hu
          exact absurd hstop hstops
      | succ n => exact Nat.succ_le_succ (hleast ((hsucc n).1 hn))

/-- Passing over brackets from the place `start` on may end at the place `i`: at the end of the
    stream or of the line, or where a bracket closes and all opened since `start` are closed. -/
def EndsBrackets (tokens : List Token) (start i : Nat) : Prop :=
  i = tokens.length ∨ ∃ t, tokens[i]? = some t ∧ (t.kind = .newline ∨ t.kind = .eof
    ∨ t.closes = true ∧ AllClosed ((tokens.take i).drop start))

theorem TokenKind.isLineEnd_iff {kind : TokenKind} :
    kind.isLineEnd = true ↔ kind = .newline ∨ kind = .eof := by
  cases kind <;> simp [isLineEnd]

theorem Token.stopsBrackets_iff {t : Token} {ts : List Token} :
    t.stopsBrackets (ts.foldl bracketsAfter 0) = true
      ↔ t.kind = .newline ∨ t.kind = .eof ∨ t.closes = true ∧ AllClosed ts := by
  rw [stopsBrackets, Bool.or_eq_true, TokenKind.isLineEnd_iff, Bool.and_eq_true, beq_iff_eq,
    allClosed_iff, bracketsLeftOpen, or_assoc]

namespace Cursor

theorem drop_index (c : Cursor) : c.tokens.drop c.index = c.after := by
  show (c.before.reverse ++ c.after).drop c.before.length = c.after
  rw [← List.length_reverse, List.drop_left]

theorem index_advanceBy {c : Cursor} {n : Nat} (h : n ≤ c.remaining) :
    (c.advanceBy n).index = c.index + n := by
  have hbefore := c.index_add_remaining
  have hbehind := (c.advanceBy n).index_add_remaining
  rw [tokens_advanceBy, remaining_advanceBy] at hbehind
  omega

/-- Places in the stream and numbers of tokens behind the cursor. -/
theorem endsBrackets_iff (c : Cursor) (n : Nat) :
    EndsBrackets c.tokens c.index (c.index + n) ↔ MayStop 0 c.after n := by
  have hlength : c.index + n = c.tokens.length ↔ n = c.after.length := by
    have hall := c.index_add_remaining
    rw [remaining] at hall
    omega
  have htoken : c.tokens[c.index + n]? = c.after[n]? := by rw [← drop_index, List.getElem?_drop]
  have hpassed : (c.tokens.take (c.index + n)).drop c.index = c.after.take n := by
    rw [List.drop_take, drop_index, Nat.add_sub_cancel_left]
  simp only [EndsBrackets, MayStop, hlength, htoken, hpassed, Token.stopsBrackets_iff]

/-- Passing over brackets ends at the first place where it may. -/
theorem isLeast_skipToClosing (c : Cursor) :
    IsLeast {i | c.index ≤ i ∧ EndsBrackets c.tokens c.index i} c.skipToClosing.index := by
  obtain ⟨hmay, hleast⟩ := isLeast_closingDistance 0 c.after
  have hindex : c.skipToClosing.index = c.index + closingDistance 0 c.after :=
    index_advanceBy (closingDistance_le_length 0 c.after)
  rw [hindex]
  refine ⟨⟨Nat.le_add_right _ _, (c.endsBrackets_iff _).2 hmay⟩, ?_⟩
  rintro i ⟨hle, hends⟩
  obtain ⟨n, rfl⟩ := Nat.exists_eq_add_of_le hle
  exact Nat.add_le_add_left (hleast ((c.endsBrackets_iff n).1 hends)) _

end Cursor

/-! ### Cursors in range -/

/-- Some operations and one more, on any list of tokens. Told by a number they end, at the place
    that they come to with a cursor, and nowhere else. That place is not before the one from which
    the last operation began, nor beyond the last token. Passing over brackets from there ends at
    the first place where the line or the stream ends, or where a bracket closes and all that were
    opened since are closed. -/
theorem Cursor.stays_in_range (tokens : List Token) (size : Nat) (ops : List CursorOp)
    (op : CursorOp) :
    let c := CursorOp.runAll ops (.ofTokens tokens size)
    let d := (op.run c).2
    (∀ p, CursorOp.Walks ops ⟨tokens, 0, size⟩ p ↔ p = ⟨tokens, c.index, size⟩)
    ∧ (∀ r, op.Takes ⟨tokens, c.index, size⟩ r ↔ r = ((op.run c).1, ⟨tokens, d.index, size⟩))
    ∧ c.index ≤ d.index ∧ d.index ≤ tokens.length
    ∧ IsLeast {i | c.index ≤ i ∧ EndsBrackets tokens c.index i} c.skipToClosing.index := by
  intro c d
  obtain ⟨htokens, hsize⟩ := CursorOp.runAll_stream ops (.ofTokens tokens size)
  have hc : c.place = ⟨tokens, c.index, size⟩ := by rw [place, htokens, hsize]; rfl
  have hd : d.place = ⟨tokens, d.index, size⟩ := by
    rw [place, op.tokens_run c, op.size_run c, htokens, hsize]
    rfl
  refine ⟨fun p => ?_, fun r => ?_, op.index_le_run c, ?_, ?_⟩
  · rw [← hc]
    exact CursorOp.walks_iff ops (.ofTokens tokens size) p
  · rw [← hc, ← hd]
    exact op.takes_iff c r
  · have hrange := d.index_le_size
    rwa [op.tokens_run c, htokens] at hrange
  · have hleast := c.isLeast_skipToClosing
    rwa [htokens] at hleast

/-- Any bracket closes the one that is open, so passing over them ends in front of the last one. -/
example : (Cursor.ofTokens [⟨.operator .lParen, ⟨0, 1⟩, "("⟩, ⟨.operator .rBracket, ⟨1, 2⟩, "]"⟩,
    ⟨.operator .rParen, ⟨2, 3⟩, ")"⟩] 3).skipToClosing.index = 2 := by rfl

end PyAtlas
