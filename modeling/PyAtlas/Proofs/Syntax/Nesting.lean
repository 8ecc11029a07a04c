import PyAtlas.Proofs.Syntax.StmtLine

/-!
# Blocks end where their indentation ends

`behindBlock` follows a stream of tokens from inside a block to the dedent that closes it, by
counting indents and dedents and nothing else. The parser of bodies comes to the same place by
reading statements, whatever is wrong with them, because every production for statements leaves
as many dedents as it has read indents.

There is one production that does not. Where a case of a match statement is expected and a block
is found, the indent is passed over with its line, and the dedent of that block then ends the
match statement. The parser reports the indent as what it found instead of a case, so the
statements here are about runs in which it has not reported that.

## Key results
- `Nests.statement`: a statement ends at the level where it begins.
- `Closes.indentedBody`: a body is left by the dedent that closes it.
- `Parser.indentedBody_closes`: the same for the tokens of a text.
-/

namespace PyAtlas

/-! ### Blocks of tokens -/

/-- What comes behind the dedent that closes the innermost of `depth + 1` open blocks. Where no
    dedent does, it is the end of input. -/
def behindBlock : (depth : Nat) → List Token → List Token
  | _, [] => []
  | depth, t :: ts =>
    match t.kind with
    | .eof => t :: ts
    | .indent => behindBlock (depth + 1) ts
    | .dedent =>
      match depth with
      | 0 => ts
      | depth + 1 => behindBlock depth ts
    | _ => behindBlock depth ts

/-- Kinds that neither open nor close a block. -/
def TokenKind.keepsLevel : TokenKind → Bool
  | .indent | .dedent | .eof => false
  | _ => true

theorem TokenKind.keepsLevel_of_plain {k : TokenKind} (h : k.isLayout = false) :
    k.keepsLevel = true := by
  revert h
  cases k <;> simp [isLayout, keepsLevel]

theorem behindBlock_cons {t : Token} (h : t.kind.keepsLevel = true) (depth : Nat)
    (ts : List Token) : behindBlock depth (t :: ts) = behindBlock depth ts := by
  rw [behindBlock.eq_def]
  simp only
  split
  · rename_i hk
    rw [hk] at h
    cases h
  · rename_i hk
    rw [hk] at h
    cases h
  · rename_i hk
    rw [hk] at h
    cases h
  · rfl

theorem behindBlock_drop {ts : List Token} {n : Nat}
    (h : ∀ u ∈ ts.take n, u.kind.keepsLevel = true) (depth : Nat) :
    behindBlock depth (ts.drop n) = behindBlock depth ts := by
  induction n generalizing ts with
  | zero => rfl
  | succ n ih =>
    cases ts with
    | nil => rfl
    | cons t ts =>
      rw [behindBlock_cons (h t List.mem_cons_self), List.drop_succ_cons]
      exact ih fun u hu => h u (List.mem_cons_of_mem _ hu)

/-- To leave some blocks is to leave the inner ones first. -/
theorem behindBlock_add (ts : List Token) (inner outer : Nat) :
    behindBlock (inner + 1 + outer) ts = behindBlock outer (behindBlock inner ts) := by
  induction ts generalizing inner with
  | nil => rfl
  | cons t ts ih =>
    simp only [behindBlock]
    split
    · rename_i hk
      simp only [behindBlock, hk]
    · rw [← ih (inner + 1), Nat.add_right_comm (inner + 1) outer 1]
    · cases inner with
      | zero => rw [Nat.zero_add, Nat.add_comm 1 outer]
      | succ inner =>
        rw [show inner + 1 + 1 + outer = inner + 1 + outer + 1 by omega]
        exact ih inner
    · exact ih inner

/-- What is behind the end of a block lies before the end of the stream. -/
theorem behindBlock_eof {c : Cursor} (h : c.kind = .eof) (depth : Nat) :
    behindBlock depth c.after = c.after := by
  cases hafter : c.after with
  | nil => rfl
  | cons t ts =>
    rw [Cursor.kind_eq, Cursor.peek_of_after hafter] at h
    simp only [behindBlock, h]

/-! ### Places in a stream -/

/-- The tokens are what is left of the stream of some text. -/
def Orderly (ts : List Token) : Prop :=
  ts = [] ∨ ∃ us mid k size, ts = us ++ [Token.endOfInput size] ∧ Laid mid k us

namespace Orderly

variable {t : Token} {ts : List Token}

theorem tail (h : Orderly (t :: ts)) : Orderly ts := by
  rcases h with h | ⟨us, mid, k, size, hts, hlaid⟩
  · cases h
  · cases us with
    | nil =>
      rw [List.nil_append] at hts
      exact .inl (List.cons.inj hts).2
    | cons u us =>
      obtain ⟨rfl, rfl⟩ := List.cons.inj hts
      refine .inr ?_
      cases hlaid with
      | newline _ h => exact ⟨us, _, _, size, rfl, h⟩
      | indent _ h => exact ⟨us, _, _, size, rfl, h⟩
      | dedent _ h => exact ⟨us, _, _, size, rfl, h⟩
      | plain _ h => exact ⟨us, _, _, size, rfl, h⟩

theorem drop (h : Orderly ts) (n : Nat) : Orderly (ts.drop n) := by
  induction n generalizing ts with
  | zero => exact h
  | succ n ih =>
    cases ts with
    | nil => exact h
    | cons t ts => exact ih h.tail

/-- Where a token that belongs to a line comes next, a line is under way. -/
theorem onLine {c : Cursor} (h : Orderly c.after) (hplain : c.kind.isLayout = false) :
    OnLine c.after := by
  cases hafter : c.after with
  | nil =>
    rw [Cursor.kind_eq, Cursor.peek, Cursor.peekNth, hafter] at hplain
    cases hplain
  | cons t ts =>
    rw [Cursor.kind_eq, Cursor.peek_of_after hafter] at hplain
    rw [hafter] at h
    rcases h with h | ⟨us, mid, k, size, hts, hlaid⟩
    · cases h
    · cases us with
      | nil =>
        rw [List.nil_append] at hts
        obtain ⟨rfl, -⟩ := List.cons.inj hts
        cases hplain
      | cons u us =>
        obtain ⟨rfl, rfl⟩ := List.cons.inj hts
        exact ⟨t :: us, k, size, rfl, .plain hplain (hlaid.of_plain hplain)⟩

/-- The tokens of a text are in order, wherever a cursor stands among them. -/
theorem of_tokenize {v : Version} {source : String} {c : Cursor}
    (h : c.tokens = tokenize v source) : Orderly c.after := by
  obtain ⟨ts, hts, hlaid⟩ := tokenize_laid v source
  have hdrop : c.after = (tokenize v source).drop c.before.reverse.length := by
    rw [← h, Cursor.tokens, List.drop_left]
  rw [hdrop]
  exact Orderly.drop (.inr ⟨ts, false, 0, _, hts, hlaid⟩) _

end Orderly

theorem OnLine.kind {c : Cursor} (h : OnLine c.after) :
    c.kind.isLayout = false ∨ c.kind = .newline := by
  obtain ⟨t, us, hafter, hk⟩ := h.exists_cons
  rw [Cursor.kind_eq, Cursor.peek_of_after hafter]
  exact hk

/-- Inside a line what does not end it belongs to it. -/
theorem OnLine.plain {c : Cursor} (h : OnLine c.after) (hk : c.kind ≠ .newline) :
    c.kind.isLayout = false :=
  h.kind.resolve_right hk

/-- The rest of a line and its newline open and close no block. -/
theorem OnLine.lineLength_keepsLevel {ts : List Token} (h : OnLine ts) :
    ∀ u ∈ ts.take (Cursor.lineLength ts), u.kind.keepsLevel = true := by
  obtain ⟨us, k, size, rfl, hlaid⟩ := h
  induction us with
  | nil => cases hlaid
  | cons t ts ih =>
    cases hlaid with
    | newline hk _ =>
      intro u hu
      simp only [List.cons_append, Cursor.lineLength, hk] at hu
      rw [List.mem_singleton.1 hu, hk]
      rfl
    | plain hk hlaid =>
      intro u hu
      rw [List.cons_append, Cursor.lineLength] at hu
      split at hu
      · cases hu
      · rename_i hnewline
        rw [hnewline] at hk
        cases hk
      · rw [List.take_succ_cons] at hu
        rcases List.mem_cons.1 hu with rfl | hu
        · exact TokenKind.keepsLevel_of_plain hk
        · exact ih hlaid u hu

/-- The newlines that come next open and close no block. -/
theorem keepsLevel_newlines {ts : List Token} {u : Token}
    (hu : u ∈ ts.take (ts.takeWhile (·.kind == .newline)).length) : u.kind.keepsLevel = true := by
  rw [← List.prefix_iff_eq_take.1 (List.takeWhile_prefix _)] at hu
  have hnewline : u.kind = .newline := by
    simpa using List.all_eq_true.1 List.all_takeWhile u hu
  rw [hnewline]
  rfl

/-! ### Levels -/

/-- The blocks open at `s` end where those open at `t` do: all that have been opened in between
    have been closed. -/
def Level (s t : ParserState) : Prop :=
  ∀ depth, behindBlock depth s.cursor.after = behindBlock depth t.cursor.after

namespace Level

variable {s t u : ParserState}

theorem refl (s : ParserState) : Level s s := fun _ => rfl

theorem trans (h : Level s t) (h' : Level t u) : Level s u :=
  fun depth => (h depth).trans (h' depth)

theorem of_read {n : Nat} (h : ReadOn n s t)
    (hkeeps : ∀ u ∈ s.cursor.after.take n, u.kind.keepsLevel = true) : Level s t := by
  intro depth
  rw [h.after]
  exact (behindBlock_drop hkeeps depth).symm

end Level

theorem Along.level {s t : ParserState} (h : Along s t) : Level s t := by
  obtain ⟨n, hread, hplain⟩ := h
  exact .of_read hread fun u hu => TokenKind.keepsLevel_of_plain (hplain u hu)

/-- A block where a case is expected has not been reported. -/
def CasesAlone (errors : List SyntaxError) : Prop :=
  ∀ e ∈ errors, e.fault ≠ .expected .caseWord "indent"

/-- The parser has come from `s` to `t` reading on. -/
def Reaches (s t : ParserState) : Prop := ∃ n, ReadOn n s t

namespace Reaches

variable {s t u : ParserState}

theorem refl (s : ParserState) : Reaches s s := ⟨0, .refl s⟩

theorem trans (h : Reaches s t) (h' : Reaches t u) : Reaches s u := by
  obtain ⟨m, hm⟩ := h
  obtain ⟨n, hn⟩ := h'
  exact ⟨_, hm.trans hn⟩

theorem orderly (h : Reaches s t) (hs : Orderly s.cursor.after) : Orderly t.cursor.after := by
  obtain ⟨n, hn⟩ := h
  rw [hn.after]
  exact hs.drop n

theorem remaining_le (h : Reaches s t) : t.remaining ≤ s.remaining := by
  obtain ⟨n, hn⟩ := h
  rw [hn.remaining]
  omega

theorem casesAlone (h : Reaches s t) (ht : CasesAlone t.errors) : CasesAlone s.errors := by
  obtain ⟨n, hn⟩ := h
  exact fun e he => ht e (hn.errors.subset he)

theorem move (s : ParserState) (n : Nat) : Reaches s (s.move (Cursor.advanceBy n)) :=
  ⟨n, rfl, List.prefix_rfl⟩

theorem report (s : ParserState) (fault : SyntaxFault) (span : Span) :
    Reaches s (Parser.report fault span s).2 :=
  ⟨0, rfl, List.prefix_append _ _⟩

end Reaches

/-! ### Productions that end at the level where they begin -/

/-- From a state where `I` holds the parser reads on to one where `J` holds. The two are at one
    level, unless a block was found where a case is expected. -/
def Nests (I : ParserState → Prop) {α : Type} (J : α → ParserState → Prop) (p : Parser α) : Prop :=
  ∀ s, Orderly s.cursor.after → I s →
    Reaches s (p s).2 ∧ J (p s).1 (p s).2 ∧ (CasesAlone (p s).2.errors → Level s (p s).2)

/-- From a state where `I` holds the parser reads on to the end of the block that it is in. -/
def Closes (I : ParserState → Prop) {α : Type} (p : Parser α) : Prop :=
  ∀ s, Orderly s.cursor.after → I s → Reaches s (p s).2 ∧
    (CasesAlone (p s).2.errors → (p s).2.cursor.after = behindBlock 0 s.cursor.after)

/-- A statement of which something has been read is under way, with fewer than `m` tokens left. -/
def Running (m : Nat) (s : ParserState) : Prop := OnLine s.cursor.after ∧ s.remaining < m

/-- Fewer than `m` tokens are left. -/
def Past (m : Nat) (s : ParserState) : Prop := s.remaining < m

/-- A token that belongs to a line comes next, with no more than `m` tokens left. -/
def Opening (m : Nat) (s : ParserState) : Prop :=
  s.cursor.kind.isLayout = false ∧ s.remaining ≤ m

theorem Opening.kind_ne_eof {m : Nat} {s : ParserState} (h : Opening m s) :
    s.cursor.kind ≠ .eof :=
  TokenKind.ne_eof_of_plain h.1

theorem Closes.mono {m m' : Nat} {α : Type} {p : Parser α} (h : Closes (Past m) p)
    (hm : m' ≤ m) : Closes (Past m') p :=
  fun s hs hi => h s hs (Nat.lt_of_lt_of_le hi hm)

/-- What one step does in a loop that reads on to the end of the block that it is in: where it goes
    round it has read something and stays in the block, and where it ends the block ends. -/
def ClosingStep {α β : Type} (s : ParserState) (r : Parser.LoopStep α β × ParserState) : Prop :=
  Reaches s r.2 ∧ match r.1 with
    | .again _ => r.2.remaining < s.remaining ∧ (CasesAlone r.2.errors → Level s r.2)
    | .finished _ => CasesAlone r.2.errors → r.2.cursor.after = behindBlock 0 s.cursor.after

/-- The rule for such loops. -/
theorem Closes.loop {m : Nat} {α β : Type} {giveUp : α → β}
    {step : α → Parser (Parser.LoopStep α β)}
    (hstep : ∀ a s, Orderly s.cursor.after → s.remaining ≤ m → ClosingStep s (step a s))
    (a : α) : Closes (fun s => s.remaining ≤ m) (Parser.loop giveUp step a) := by
  suffices ∀ l, ∀ a s, s.remaining = l → Orderly s.cursor.after → s.remaining ≤ m →
      let t := (Parser.loop giveUp step a s).2
      Reaches s t ∧ (CasesAlone t.errors → t.cursor.after = behindBlock 0 s.cursor.after) by
    exact fun s hs hi => this _ a s rfl hs hi
  -- The induction is on the tokens that remain, which each round makes fewer.
  intro l
  induction l using Nat.strongRecOn with
  | ind l ih =>
    intro a s hl hs hm
    have hfirst := hstep a s hs hm
    rw [Parser.loop_eq]
    cases hr : step a s with
    | mk r t =>
      rw [hr] at hfirst
      obtain ⟨hreach, hj⟩ := hfirst
      cases r with
      | finished b => exact ⟨hreach, hj⟩
      | again a' =>
        obtain ⟨hlt, hlevel⟩ := hj
        simp only [if_pos hlt]
        obtain ⟨hreach', hclose⟩ := ih _ (hl ▸ hlt) a' t rfl (hreach.orderly hs)
          (Nat.le_trans (Nat.le_of_lt hlt) hm)
        refine ⟨hreach.trans hreach', fun halone => ?_⟩
        rw [hclose halone, hlevel (hreach'.casesAlone halone) 0]

namespace Nests

open PyAtlas.Parser

variable {I I' K : ParserState → Prop} {α β : Type} {J J' : α → ParserState → Prop}
  {L : β → ParserState → Prop} {p : Parser α} {f : α → Parser β} {m : Nat}

theorem pure {a : α} (h : ∀ s, I s → J a s) : Nests I J (Pure.pure a) :=
  fun s _ hi => ⟨.refl s, h s hi, fun _ => .refl s⟩

theorem bind (h : Nests I J p) (hf : ∀ a, Nests (J a) L (f a)) : Nests I L (p >>= f) := by
  intro s hs hi
  obtain ⟨hreach, hj, hlevel⟩ := h s hs hi
  obtain ⟨hreach', hl, hlevel'⟩ := hf (p s).1 (p s).2 (hreach.orderly hs) hj
  refine ⟨hreach.trans hreach', hl, fun halone => ?_⟩
  exact (hlevel (hreach'.casesAlone halone)).trans (hlevel' halone)

theorem map {f : α → β} (h : Nests I (fun _ => K) p) : Nests I (fun _ => K) (f <$> p) := h

theorem weaken (h : Nests I J p) (hI : ∀ s, I' s → I s) (hJ : ∀ a s, J a s → J' a s) :
    Nests I' J' p := by
  intro s hs hi
  obtain ⟨hreach, hj, hlevel⟩ := h s hs (hI s hi)
  exact ⟨hreach, hJ _ _ hj, hlevel⟩

theorem pre (h : Nests I J p) (hI : ∀ s, I' s → I s) : Nests I' J p :=
  h.weaken hI fun _ _ hj => hj

theorem ite {c : Prop} [Decidable c] {p q : Parser α} (h : c → Nests I J p)
    (h' : ¬ c → Nests I J q) : Nests I J (if c then p else q) := by
  split
  · exact h ‹_›
  · exact h' ‹_›

/-- What has been seen is known of the state afterwards. -/
theorem look_bind {g : Cursor → α} (h : ∀ a, Nests (fun s => I s ∧ g s.cursor = a) L (f a)) :
    Nests I L (look g >>= f) :=
  fun s hs hi => h (g s.cursor) s hs ⟨hi, rfl⟩

theorem peek_bind {f : Token → Parser β}
    (h : ∀ token, Nests (fun s => I s ∧ s.cursor.peek = token) L (f token)) :
    Nests I L (peek >>= f) :=
  look_bind h

theorem spanFrom_bind {start : Span} {f : Span → Parser β} (h : ∀ span, Nests I L (f span)) :
    Nests I L (spanFrom start >>= f) :=
  look_bind fun a => (h a).pre fun _ hi => hi.1

theorem report {fault : SyntaxFault} {span : Span} (h : ∀ s errors, I s → K ⟨s.cursor, errors⟩) :
    Nests I (fun _ => K) (Parser.report fault span) :=
  fun s _ hi => ⟨.report s fault span, h s _ hi, fun _ _ => rfl⟩

/-- The rule for loops. A step that reads nothing ends a loop as well. -/
theorem loop {α β : Type} {giveUp : α → β} {step : α → Parser (LoopStep α β)}
    (hstep : ∀ a, Nests I (fun r s => match r with
      | .again _ => I s ∧ K s
      | .finished _ => K s) (step a)) (a : α) :
    Nests I (fun _ => K) (Parser.loop giveUp step a) := by
  suffices ∀ m, ∀ a s, s.remaining = m → Orderly s.cursor.after → I s →
      let t := (Parser.loop giveUp step a s).2
      Reaches s t ∧ K t ∧ (CasesAlone t.errors → Level s t) by
    exact fun s hs hi => this _ a s rfl hs hi
  intro m
  induction m using Nat.strongRecOn with
  | ind m ih =>
    intro a s hm hs hi
    have hfirst := hstep a s hs hi
    rw [loop_eq]
    cases hr : step a s with
    | mk r t =>
      rw [hr] at hfirst
      obtain ⟨hreach, hj, hlevel⟩ := hfirst
      cases r with
      | finished b => exact ⟨hreach, hj, hlevel⟩
      | again a' =>
        simp only
        split
        · rename_i hlt
          obtain ⟨hreach', hk, hlevel'⟩ := ih _ (hm ▸ hlt) a' t rfl (hreach.orderly hs) hj.1
          refine ⟨hreach.trans hreach', hk, fun halone => ?_⟩
          exact (hlevel (hreach'.casesAlone halone)).trans (hlevel' halone)
        · exact ⟨hreach, hj.2, hlevel⟩

/-- A production that stays on its line. -/
theorem line (h : StaysAnywhere p) : Nests (Running m) (fun _ => Running m) p := by
  intro s _ hi
  have halong := h s hi.1 trivial
  obtain ⟨n, hread, -⟩ := id halong
  refine ⟨⟨n, hread⟩, ⟨halong.onLine hi.1, ?_⟩, fun _ => halong.level⟩
  exact Nat.lt_of_le_of_lt (Reaches.remaining_le ⟨n, hread⟩) hi.2

/-- Reading what neither opens nor closes a block. -/
theorem move {g : Cursor → Cursor} {n : Cursor → Nat} (hg : ∀ c, g c = c.advanceBy (n c))
    (hI : ∀ s, I s → ∀ u ∈ s.cursor.after.take (n s.cursor), u.kind.keepsLevel = true)
    (hK : ∀ s, I s → K (s.move g)) : Nests I (fun _ => K) (Parser.move g) := by
  intro s _ hi
  have hread : ReadOn (n s.cursor) s (s.move g) := ⟨hg s.cursor, List.prefix_rfl⟩
  exact ⟨⟨_, hread⟩, hK s hi, fun _ => .of_read hread (hI s hi)⟩

theorem advance (h : ∀ s, I s → s.cursor.kind.keepsLevel = true)
    (hK : ∀ s, I s → K (s.move Cursor.advance)) : Nests I (fun _ => K) Parser.advance := by
  refine move (n := fun _ => 1) (fun _ => rfl) (fun s hi u hu => ?_) hK
  cases hafter : s.cursor.after with
  | nil => simp [hafter] at hu
  | cons t ts =>
    have hkeeps := h s hi
    rw [Cursor.kind_eq, Cursor.peek_of_after hafter] at hkeeps
    rw [hafter] at hu
    rw [List.mem_singleton.1 hu]
    exact hkeeps

/-- The newlines that come next are read, and then something else comes. -/
theorem skipNewlines (hI : ∀ s, I s → s.remaining < m) :
    Nests I (fun _ s => Past m s ∧ s.cursor.kind ≠ .newline) Parser.skipNewlines := by
  refine move (n := fun c => (c.after.takeWhile (·.kind == .newline)).length) (fun _ => rfl)
    (fun s _ u hu => keepsLevel_newlines hu) fun s hi => ?_
  exact ⟨Nat.lt_of_le_of_lt (Reaches.move s _).remaining_le (hI s hi),
    Cursor.kind_skipNewlines s.cursor⟩

/-- The rest of a line is read, and its newline. -/
theorem skipLine (hI : ∀ s, I s → Running m s) :
    Nests I (fun _ => Past m) Parser.skipLine := by
  refine move (n := fun c => Cursor.lineLength c.after) (fun _ => rfl)
    (fun s hi => (hI s hi).1.lineLength_keepsLevel) fun s hi => ?_
  exact Nat.lt_of_le_of_lt (Reaches.move s _).remaining_le (hI s hi).2

/-! ### Lines that hold statements -/

/-- The word that begins a statement. -/
theorem firstWord : Nests (Opening m) (fun _ => Running m) Parser.next := by
  intro s hs hi
  have halong := Along.advance hi.1
  obtain ⟨n, hread, -⟩ := id halong
  refine ⟨⟨n, hread⟩, ⟨halong.onLine (hs.onLine hi.1), ?_⟩, fun _ => halong.level⟩
  exact Nat.lt_of_lt_of_le (Cursor.remaining_advance_lt hi.kind_ne_eof) hi.2

theorem opening_of_running {s : ParserState} (h : Running m s) (hk : s.cursor.kind ≠ .newline) :
    Opening m s :=
  ⟨h.1.plain hk, Nat.le_of_lt h.2⟩

theorem past_advance {s : ParserState} (h : s.remaining < m) : Past m (s.move Cursor.advance) :=
  Nat.lt_of_le_of_lt (Cursor.remaining_advance_le s.cursor) h

/-- The rest of a line on which something comes next, and its newline. -/
theorem skipLine_opening : Nests (Opening m) (fun _ => Past m) Parser.skipLine := by
  intro s hs hi
  have hread : ReadOn (Cursor.lineLength s.cursor.after) s (s.move Cursor.skipLine) :=
    ⟨rfl, List.prefix_rfl⟩
  refine ⟨⟨_, hread⟩, ?_, fun _ => .of_read hread (hs.onLine hi.1).lineLength_keepsLevel⟩
  exact Nat.lt_of_lt_of_le (Cursor.remaining_skipLine_lt hi.kind_ne_eof) hi.2

/-- A small statement. It may read nothing, but then what comes next belongs to its line. -/
theorem smallStatement (v : Version) :
    Nests (Opening m) (fun _ s => OnLine s.cursor.after ∧ s.remaining ≤ m ∧
      (s.cursor.kind.isLayout = true → s.remaining < m)) (Parser.smallStatement v) := by
  intro s hs hi
  have halong := Stays.smallStatement (I := fun _ => True) v s (hs.onLine hi.1) trivial
  have hline := halong.onLine (hs.onLine hi.1)
  have hlevel := halong.level
  obtain ⟨n, hread, hplain⟩ := halong
  refine ⟨⟨n, hread⟩, ⟨hline, ?_, fun hlayout => ?_⟩, fun _ => hlevel⟩
  · exact Nat.le_trans (Reaches.remaining_le ⟨n, hread⟩) hi.2
  · have hmoved : n ≠ 0 := by
      rintro rfl
      have hsame : (Parser.smallStatement v s).2.cursor = s.cursor := hread.cursor
      rw [hsame, hi.1] at hlayout
      cases hlayout
    have hpos := Cursor.remaining_pos_of_kind_ne hi.kind_ne_eof
    have hremaining := hread.remaining
    have hle := hi.2
    simp only [ParserState.remaining] at hremaining hle ⊢
    omega

/-- Small statements are read up to the end of their line. -/
theorem smallStatements (v : Version) :
    Nests (Opening m) (fun _ => Past m) (Parser.smallStatements v) := by
  unfold Parser.smallStatements
  refine loop (fun stmts => ?_) []
  refine (smallStatement v).bind fun stmt => peek_bind fun token => ?_
  have hkind : ∀ s : ParserState, s.cursor.peek = token → s.cursor.kind = token.kind :=
    fun s hs => by rw [Cursor.kind_eq, hs]
  -- Behind the token that ends the line less is left than before the statement.
  have hpast : ∀ s : ParserState, s.remaining ≤ m → s.cursor.kind ≠ .eof →
      Past m (s.move Cursor.advance) := fun s hle hne =>
    Nat.lt_of_lt_of_le (Cursor.remaining_advance_lt hne) hle
  split
  · rename_i hsemicolon
    have hplain : token.kind.isLayout = false := by rw [hsemicolon]; rfl
    have hread : Nests (fun s => (OnLine s.cursor.after ∧ s.remaining ≤ m ∧
        (s.cursor.kind.isLayout = true → s.remaining < m)) ∧ s.cursor.peek = token)
        (fun _ => Running m) Parser.advance := by
      intro s hs hi
      have hk : s.cursor.kind.isLayout = false := by rw [hkind s hi.2, hplain]
      exact firstWord s hs ⟨hk, hi.1.2.1⟩
    -- Behind a semicolon the line goes on, unless its end is next.
    refine hread.bind fun _ => look_bind fun next => .ite (fun _ => ?_) fun hnext => ?_
    · refine (skipNewlines (m := m) fun s hs => hs.1.2).bind fun _ => pure fun s hs => hs.1
    · refine pure fun s hs => ⟨opening_of_running hs.1 fun hnewline => hnext ?_, hs.1.2⟩
      rw [← hs.2, hnewline]
      rfl
  · rename_i hnewline
    refine (advance (K := Past m) (fun s hs => ?_) fun s hs => ?_).bind fun _ => pure fun s hs => hs
    · rw [hkind s hs.2, hnewline]
      rfl
    · refine hpast s hs.1.2.1 ?_
      rw [hkind s hs.2, hnewline]
      exact TokenKind.noConfusion
  · rename_i heof
    refine pure fun s hs => hs.1.2.2 ?_
    rw [hkind s hs.2, heof]
    rfl
  · rename_i hdedent
    refine pure fun s hs => hs.1.2.2 ?_
    rw [hkind s hs.2, hdedent]
    rfl
  · rename_i _ hnewline _ _
    refine (report (K := fun s => Opening m s) fun s errors hs => ⟨?_, hs.1.2.1⟩).bind fun _ => ?_
    · exact OnLine.plain hs.1.1 (by rw [hkind s hs.2]; exact hnewline)
    · exact skipLine_opening.bind fun _ => pure fun s hs => hs

theorem abandonLine (start : Span) :
    Nests (Running m) (fun _ => Past m) (Parser.abandonLine start) := by
  unfold Parser.abandonLine
  exact (skipLine fun s hs => hs).bind fun _ => spanFrom_bind fun _ => pure fun s hs => hs

/-! ### Statements with bodies -/

variable {body : Parser (List Stmt)}

/-- The indent that opens a block, and the block. -/
theorem indented {α : Type} {p : Parser α} (hbody : Closes (Past m) p) {s : ParserState}
    (hs : Orderly s.cursor.after) (hindent : s.cursor.kind = .indent) (hm : s.remaining ≤ m) :
    let t := (p (s.move Cursor.advance)).2
    Reaches s t ∧ t.remaining < s.remaining ∧ (CasesAlone t.errors → Level s t) := by
  have hlt : s.cursor.advance.remaining < s.remaining :=
    Cursor.remaining_advance_lt (by rw [hindent]; exact TokenKind.noConfusion)
  have hreach : Reaches s (s.move Cursor.advance) := .move s 1
  obtain ⟨hreach', hclose⟩ :=
    hbody (s.move Cursor.advance) (hreach.orderly hs) (Nat.lt_of_lt_of_le hlt hm)
  refine ⟨hreach.trans hreach', Nat.lt_of_le_of_lt hreach'.remaining_le hlt, fun halone depth => ?_⟩
  -- The block is left one level below the one that its indent opens.
  rw [hclose halone, ← behindBlock_add, Nat.zero_add, Nat.add_comm 1 depth]
  cases hafter : s.cursor.after with
  | nil =>
    rw [Cursor.kind_eq, Cursor.peek, Cursor.peekNth, hafter] at hindent
    cases hindent
  | cons t ts =>
    rw [Cursor.kind_eq, Cursor.peek_of_after hafter] at hindent
    rw [ParserState.move, Cursor.advance_of_after hafter]
    simp only [behindBlock, hindent]

theorem block (v : Version) (hbody : Closes (Past m) body) :
    Nests (Running m) (fun _ => Past m) (Parser.block v body) := by
  unfold Parser.block
  refine look_bind fun next => .ite (fun _ => ?_) fun hnext => ?_
  · refine (skipNewlines (m := m) fun s hs => hs.1.2).bind fun _ => peek_bind fun token => ?_
    refine .ite (fun hindent => ?_) fun _ => ?_
    · intro s hs hi
      have hk : s.cursor.kind = .indent := by
        rw [Cursor.kind_eq, hi.2]
        exact eq_of_beq hindent
      obtain ⟨hreach, hlt, hlevel⟩ := indented hbody hs hk (Nat.le_of_lt hi.1.1)
      exact ⟨hreach, Nat.lt_trans hlt hi.1.1, hlevel⟩
    · exact (report (K := Past m) fun s _ hs => hs.1.1).bind fun _ => pure fun s hs => hs
  · refine (smallStatements v).pre fun s hs => opening_of_running hs.1 fun hnewline => hnext ?_
    rw [← hs.2, hnewline]
    rfl

theorem classStatement (v : Version) (hbody : Closes (Past m) body) (decorators : List Expr)
    (start : Option Span) :
    Nests (Opening m) (fun _ => Past m) (Parser.classStatement v body decorators start) := by
  unfold Parser.classStatement
  refine firstWord.bind fun word => (line Stays.expectIdentifier).bind fun name => ?_
  cases name with
  | none => exact abandonLine _
  | some name =>
    refine (line (Stays.classArguments v)).bind fun _ => (line Stays.expectColon).bind fun _ => ?_
    exact (block v hbody).bind fun _ => spanFrom_bind fun _ => pure fun s hs => hs

theorem functionStatement (v : Version) (hbody : Closes (Past m) body) (decorators : List Expr)
    (start : Option Span) (isAsync : Bool) :
    Nests (Opening m) (fun _ => Past m)
      (Parser.functionStatement v body decorators start isAsync) := by
  unfold Parser.functionStatement
  refine firstWord.bind fun word => (line Stays.expectIdentifier).bind fun name => ?_
  cases name with
  | none => exact abandonLine _
  | some name =>
    refine (line (Stays.parameterList v)).bind fun _ => ?_
    refine (line (Stays.expressionAfter v rfl)).bind fun _ => ?_
    refine (line Stays.expectColon).bind fun _ => ?_
    exact (block v hbody).bind fun _ => spanFrom_bind fun _ => pure fun s hs => hs

theorem clause (v : Version) (hbody : Closes (Past m) body) (kind : ClauseKind) :
    Nests (Opening m) (fun _ => Past m) (Parser.clause v body kind) := by
  unfold Parser.clause
  refine firstWord.bind fun word => (line Stays.skipHeader).bind fun _ => ?_
  exact (block v hbody).bind fun _ => spanFrom_bind fun _ => pure fun s hs => hs

/-- The words that go on with a statement belong to a line. -/
theorem isLayout_of_furtherClause? {compound : CompoundKind} {k : TokenKind} {further : ClauseKind}
    (h : CompoundKind.furtherClause? compound k = some further) : k.isLayout = false := by
  unfold CompoundKind.furtherClause? at h
  split at h
  all_goals first
    | rfl
    | cases h

theorem furtherClauses (v : Version) (hbody : Closes (Past m) body) (compound : CompoundKind)
    (first : Clause) :
    Nests (Past m) (fun _ => Past m) (Parser.furtherClauses v body compound first) := by
  unfold Parser.furtherClauses Parser.moreClauses
  refine loop (fun clauses => look_bind fun further => ?_) _
  cases further with
  | none => exact pure fun s hs => hs.1
  | some further =>
    refine ((clause v hbody further).pre fun s hs => ?_).bind fun _ => pure fun s hs => ⟨hs, hs⟩
    exact ⟨isLayout_of_furtherClause? hs.2, Nat.le_of_lt hs.1⟩

theorem compoundStatement (v : Version) (hbody : Closes (Past m) body) (compound : CompoundKind)
    (isAsync : Bool) (start : Span) :
    Nests (Opening m) (fun _ => Past m)
      (Parser.compoundStatement v body compound isAsync start) := by
  unfold Parser.compoundStatement
  refine (clause v hbody _).bind fun first => ?_
  refine (furtherClauses v hbody compound first).bind fun _ => ?_
  exact spanFrom_bind fun _ => pure fun s hs => hs

end Nests

namespace Nests

/-- The newlines before a statement are read at its level. -/
theorem reaches_skipNewlines (s : ParserState) :
    Reaches s (s.move Cursor.skipNewlines) ∧ Level s (s.move Cursor.skipNewlines) :=
  ⟨.move s _, .of_read (n := (s.cursor.after.takeWhile (·.kind == .newline)).length)
    ⟨rfl, List.prefix_rfl⟩ fun _ hu => keepsLevel_newlines hu⟩

end Nests

/-- Where a dedent comes next, the block ends. -/
theorem behindBlock_dedent {c : Cursor} (h : c.kind = .dedent) :
    behindBlock 0 c.after = c.advance.after := by
  cases hafter : c.after with
  | nil =>
    rw [Cursor.kind_eq, Cursor.peek, Cursor.peekNth, hafter] at h
    cases h
  | cons t ts =>
    rw [Cursor.kind_eq, Cursor.peek_of_after hafter] at h
    rw [Cursor.advance_of_after hafter]
    simp only [behindBlock, h]

namespace ClosingStep

open PyAtlas.Parser

variable {α β γ : Type} {s : ParserState}

/-- Newlines first: the end of the block behind them is the end of the block before them. -/
theorem skipNewlines_peek_bind {f : Token → Parser (LoopStep α β)}
    (hs : Orderly s.cursor.after)
    (h : ∀ u : ParserState, Orderly u.cursor.after → u.remaining ≤ s.remaining →
      u.cursor.kind ≠ .newline → ClosingStep u (f u.cursor.peek u)) :
    ClosingStep s ((skipNewlines >>= fun _ => peek >>= f) s) := by
  obtain ⟨hreach, hlevel⟩ := Nests.reaches_skipNewlines s
  have hstep := h (s.move Cursor.skipNewlines) (hreach.orderly hs) hreach.remaining_le
    (Cursor.kind_skipNewlines s.cursor)
  show ClosingStep s (f (s.move Cursor.skipNewlines).cursor.peek (s.move Cursor.skipNewlines))
  revert hstep
  rcases f _ (s.move Cursor.skipNewlines) with ⟨r, t⟩
  rintro ⟨hreach', hstep⟩
  refine ⟨hreach.trans hreach', ?_⟩
  cases r with
  | again a =>
    exact ⟨Nat.lt_of_lt_of_le hstep.1 hreach.remaining_le,
      fun halone => hlevel.trans (hstep.2 halone)⟩
  | finished b => exact fun halone => (hstep halone).trans (hlevel 0).symm

/-- The end of input ends every block. -/
theorem endOfInput {b : β} (heof : s.cursor.kind = .eof) :
    ClosingStep s ((pure (.finished b) : Parser (LoopStep α β)) s) :=
  ⟨.refl s, fun _ => (behindBlock_eof heof 0).symm⟩

/-- A dedent ends the block. -/
theorem dedent {b : β} (hdedent : s.cursor.kind = .dedent) :
    ClosingStep s ((advance >>= fun _ => (pure (.finished b) : Parser (LoopStep α β))) s) :=
  ⟨.move s 1, fun _ => (behindBlock_dedent hdedent).symm⟩

/-- A statement is read, and the loop goes round. -/
theorem again {p : Parser γ} {f : γ → α}
    (h : Nests (Opening s.remaining) (fun _ => Past s.remaining) p)
    (hs : Orderly s.cursor.after) (hopen : s.cursor.kind.isLayout = false) :
    ClosingStep s ((p >>= fun c => (pure (.again (f c)) : Parser (LoopStep α β))) s) := by
  obtain ⟨hreach, hpast, hlevel⟩ := h s hs ⟨hopen, Nat.le_refl _⟩
  exact ⟨hreach, hpast, hlevel⟩

/-- A line on which no case begins is reported and passed over. -/
theorem caseless {clauses : α} (hs : Orderly s.cursor.after) (hnewline : s.cursor.kind ≠ .newline)
    (heof : s.cursor.kind ≠ .eof) (hdedent : s.cursor.kind ≠ .dedent) :
    ClosingStep s ((expected .caseWord s.cursor.peek >>= fun _ => skipLine >>= fun _ =>
      (pure (.again clauses) : Parser (LoopStep α β))) s) := by
  have hreach : Reaches s ((expected .caseWord s.cursor.peek >>= fun _ => skipLine) s).2 :=
    (Reaches.report s _ _).trans (.move _ _)
  refine ⟨hreach, Cursor.remaining_skipLine_lt heof, fun halone => ?_⟩
  by_cases hindent : s.cursor.kind = .indent
  · -- The indent has been reported, so this is not a run in which it has not.
    refine absurd ?_ (halone _ (List.mem_append_right _ List.mem_cons_self))
    rw [Token.describe, ← Cursor.kind_eq, hindent]
  · have hplain := TokenKind.isLayout_of_ne heof hdedent hindent hnewline
    exact .of_read (n := Cursor.lineLength s.cursor.after) ⟨rfl, List.prefix_append _ _⟩
      (hs.onLine hplain).lineLength_keepsLevel

end ClosingStep

namespace Closes

open PyAtlas.Parser

variable {m : Nat} {body : Parser (List Stmt)}

/-- One line of a match statement: a case, or a line on which none begins. -/
theorem caseLine (v : Version) (hbody : Closes (Past m) body) (clauses : List Clause)
    {s : ParserState} (hs : Orderly s.cursor.after) (hm : s.remaining ≤ m)
    (hnewline : s.cursor.kind ≠ .newline) (heof : s.cursor.kind ≠ .eof)
    (hdedent : s.cursor.kind ≠ .dedent) :
    ClosingStep s ((if s.cursor.peek.isWord "case" then do
        let next ← clause v body .case
        pure (.again (clauses ++ [next]))
      else do
        expected .caseWord s.cursor.peek
        skipLine
        pure (.again clauses) : Parser (LoopStep (List Clause) (List Clause))) s) := by
  split
  · rename_i hcase
    exact .again (Nests.clause v (hbody.mono hm) .case) hs (Token.isLayout_of_isWord hcase)
  · exact .caseless hs hnewline heof hdedent

/-- The cases of a match statement end with the dedent of their block. -/
theorem matchCases (v : Version) (hbody : Closes (Past m) body) :
    Closes (fun s => s.remaining ≤ m) (Parser.matchCases v body) := by
  unfold Parser.matchCases
  refine Closes.loop (fun clauses s hs hm => ?_) []
  refine ClosingStep.skipNewlines_peek_bind hs fun u hu hle hnewline => ?_
  cases hk : u.cursor.peek.kind with
  | eof => exact .endOfInput hk
  | dedent => exact .dedent hk
  | _ =>
    refine caseLine v hbody clauses hu (Nat.le_trans hle hm) hnewline ?_ ?_
    all_goals
      rw [Cursor.kind_eq, hk]
      exact TokenKind.noConfusion

end Closes

namespace Nests

open PyAtlas.Parser

variable {m : Nat} {body : Parser (List Stmt)}

/-- The block of a match statement. -/
theorem matchBlock (v : Version) (hbody : Closes (Past m) body) :
    Nests (Running m) (fun _ => Past m) (Parser.matchBlock v body) := by
  unfold Parser.matchBlock
  refine (skipNewlines (m := m) fun s hs => hs.2).bind fun _ => peek_bind fun token => ?_
  refine .ite (fun hindent => ?_) fun _ => ?_
  · intro s hs hi
    have hk : s.cursor.kind = .indent := by
      rw [Cursor.kind_eq, hi.2]
      exact eq_of_beq hindent
    have hcases : Closes (Past m) (Parser.matchCases v body) := fun t ht hlt =>
      Closes.matchCases v hbody t ht (Nat.le_of_lt hlt)
    obtain ⟨hreach, hlt, hlevel⟩ := indented hcases hs hk (Nat.le_of_lt hi.1.1)
    exact ⟨hreach, Nat.lt_trans hlt hi.1.1, hlevel⟩
  · exact (report (K := Past m) fun s _ hs => hs.1.1).bind fun _ => pure fun s hs => hs

theorem matchStatement (v : Version) (hbody : Closes (Past m) body) :
    Nests (Opening m) (fun _ => Past m) (Parser.matchStatement v body) := by
  unfold Parser.matchStatement
  refine firstWord.bind fun word => (line Stays.skipHeader).bind fun _ => ?_
  exact (matchBlock v hbody).bind fun _ => spanFrom_bind fun _ => pure fun s hs => hs

/-! ### Decorated and asynchronous definitions -/

theorem asyncStatement (v : Version) (hbody : Closes (Past m) body) (decorators : List Expr)
    (start : Option Span) :
    Nests (Opening m) (fun _ => Past m) (Parser.asyncStatement v body decorators start) := by
  unfold Parser.asyncStatement
  refine firstWord.bind fun word => peek_bind fun token => ?_
  have hopening : ∀ k : TokenKind, k.isLayout = false → token.kind = k →
      ∀ s, Running m s ∧ s.cursor.peek = token → Opening m s := fun k hplain hk s hs =>
    ⟨by rw [Cursor.kind_eq, hs.2, hk, hplain], Nat.le_of_lt hs.1.2⟩
  split
  · rename_i hk
    exact (functionStatement v hbody decorators _ true).pre (hopening _ rfl hk)
  · rename_i hk
    exact (compoundStatement v hbody .for true _).pre (hopening _ rfl hk)
  · rename_i hk
    exact (compoundStatement v hbody .with true _).pre (hopening _ rfl hk)
  · refine (report (K := Running m) fun s _ hs => hs.1).bind fun _ => ?_
    exact abandonLine _

theorem endDecorator : Nests (Running m) (fun _ => Past m) Parser.endDecorator := by
  unfold Parser.endDecorator
  refine peek_bind fun token => ?_
  split
  · rename_i hk
    refine advance (fun s hs => ?_) fun s hs => past_advance hs.1.2
    rw [Cursor.kind_eq, hs.2, hk]
    rfl
  · exact pure fun s hs => hs.1.2
  · refine (report (K := Running m) fun s _ hs => hs.1).bind fun _ => ?_
    exact skipLine fun s hs => hs

theorem decorator (v : Version) :
    Nests (Running m) (fun _ => Past m) (Parser.decorator v) := by
  unfold Parser.decorator
  refine (line (Stays.expression v)).bind fun _ => endDecorator.bind fun _ => ?_
  exact (skipNewlines (m := m) fun s hs => hs).bind fun _ => pure fun s hs => hs.1

/-- A token of a line that is read if it comes next. -/
theorem eats_bind {β : Type} {I : ParserState → Prop} {L : β → ParserState → Prop}
    {f : Bool → Parser β} {k : TokenKind} (hplain : k.isLayout = false)
    (hI : ∀ s, I s → s.remaining ≤ m) (h : Nests (Running m) L (f true))
    (h' : Nests (fun s => I s ∧ s.cursor.kind ≠ k) L (f false)) :
    Nests I L (eats k >>= f) := by
  intro s hs hi
  by_cases hk : s.cursor.kind = k
  · have heat : s.cursor.eat k = (some s.cursor.peek, s.cursor.advance) := if_pos hk
    have hrun : (eats k >>= f) s = (Parser.next >>= fun _ => f true) s := by
      show f (s.cursor.eat k).1.isSome _ = _
      rw [heat]
      rfl
    rw [hrun]
    exact (firstWord.bind fun _ => h) s hs ⟨by rw [hk, hplain], hI s hi⟩
  · have heat : s.cursor.eat k = (none, s.cursor) := if_neg hk
    have hrun : (eats k >>= f) s = f false s := by
      show f (s.cursor.eat k).1.isSome _ = _
      rw [heat]
      rfl
    rw [hrun]
    exact h' s hs ⟨hi, hk⟩

/-- The decorators before a definition. There is one at least. -/
theorem decoratorList (v : Version) :
    Nests (fun s => s.cursor.kind = .operator .at ∧ s.remaining ≤ m) (fun _ => Past m)
      (Parser.decoratorList v) := by
  unfold Parser.decoratorList
  -- Before the first decorator its sign comes next, and after it something has been read.
  refine (loop (I := fun s => s.remaining ≤ m ∧ (s.cursor.kind = .operator .at ∨ Past m s))
    (fun decorators => ?_) []).pre fun s hs => ⟨hs.2, .inl hs.1⟩
  refine eats_bind rfl (fun s hs => hs.1) ?_ ?_
  · refine (decorator v).bind fun _ => pure fun s hs => ⟨⟨Nat.le_of_lt hs, .inr hs⟩, hs⟩
  · exact pure fun s hs => hs.1.2.resolve_left hs.2

theorem decoratedStatement (v : Version) (hbody : Closes (Past m) body) :
    Nests (fun s => s.cursor.kind = .operator .at ∧ s.remaining ≤ m) (fun _ => Past m)
      (Parser.decoratedStatement v body) := by
  unfold Parser.decoratedStatement
  refine peek_bind fun start => ?_
  refine ((decoratorList v).pre fun s hs => hs.1).bind fun decorators => peek_bind fun token => ?_
  have hopening : ∀ k : TokenKind, k.isLayout = false → token.kind = k →
      ∀ s, Past m s ∧ s.cursor.peek = token → Opening m s := fun k hplain hk s hs =>
    ⟨by rw [Cursor.kind_eq, hs.2, hk, hplain], Nat.le_of_lt hs.1⟩
  split
  · rename_i hk
    exact (functionStatement v hbody decorators _ false).pre (hopening _ rfl hk)
  · rename_i hk
    exact (classStatement v hbody decorators _).pre (hopening _ rfl hk)
  · refine look_bind fun isAsync => .ite (fun h => ?_) fun _ => ?_
    · refine (asyncStatement v hbody decorators _).pre fun s hs => ⟨?_, Nat.le_of_lt hs.1.1⟩
      exact Cursor.isLayout_of_atAsync (hs.2.trans h)
    · refine (report (K := Past m) fun s _ hs => hs.1.1).bind fun _ => ?_
      exact spanFrom_bind fun _ => pure fun s hs => hs

/-! ### Statements -/

/-- A statement ends at the level where it begins. -/
theorem statement (v : Version) (hbody : Closes (Past m) body) :
    Nests (Opening m) (fun _ => Past m) (Parser.statement v body) := by
  unfold Parser.statement
  refine peek_bind fun token => ?_
  split
  · refine (report (K := Opening m) fun s _ hs => hs.1).bind fun _ => ?_
    exact firstWord.bind fun _ => pure fun s hs => hs.2
  · rename_i hat
    refine (map (decoratedStatement v hbody)).pre fun s hs => ⟨?_, hs.1.2⟩
    rw [Cursor.kind_eq, hs.2, hat]
  · exact (map (functionStatement v hbody [] none false)).pre fun s hs => hs.1
  · exact (map (classStatement v hbody [] none)).pre fun s hs => hs.1
  · exact (map (compoundStatement v hbody .if false _)).pre fun s hs => hs.1
  · exact (map (compoundStatement v hbody .while false _)).pre fun s hs => hs.1
  · exact (map (compoundStatement v hbody .for false _)).pre fun s hs => hs.1
  · exact (map (compoundStatement v hbody .try false _)).pre fun s hs => hs.1
  · exact (map (compoundStatement v hbody .with false _)).pre fun s hs => hs.1
  · refine look_bind fun isAsync => .ite (fun _ => ?_) fun _ => ?_
    · exact (map (asyncStatement v hbody [] none)).pre fun s hs => hs.1.1
    · refine look_bind fun isMatch => .ite (fun _ => ?_) fun _ => ?_
      · exact (map (matchStatement v hbody)).pre fun s hs => hs.1.1.1
      · exact (smallStatements v).pre fun s hs => hs.1.1.1

end Nests

/-! ### Bodies -/

namespace Closes

open PyAtlas.Parser

variable {m : Nat} {body : Parser (List Stmt)}

/-- A body ends with the dedent of its block, if the bodies in it do. -/
theorem bodyWith (v : Version) (hbody : Closes (Past m) body) :
    Closes (fun s => s.remaining ≤ m) (Parser.bodyWith v body) := by
  unfold Parser.bodyWith Parser.moreStatements
  refine Closes.loop (fun stmts s hs hm => ?_) []
  refine ClosingStep.skipNewlines_peek_bind hs fun u hu hle hnewline => ?_
  have hinner := hbody.mono (Nat.le_trans hle hm)
  cases hk : u.cursor.peek.kind with
  | eof => exact .endOfInput hk
  | dedent => exact .dedent hk
  | indent =>
    obtain ⟨hreach, hlt, hlevel⟩ := Nests.indented hinner
      (s := (report .unexpectedIndent u.cursor.peek.span u).2) hu hk (Nat.le_refl _)
    exact ⟨(Reaches.report u _ _).trans hreach, hlt, hlevel⟩
  -- Any other word begins a statement. Newlines have been read already.
  | _ =>
    refine .again (Nests.statement v hinner) hu ?_
    rw [Cursor.kind_eq, hk]
    first
      | rfl
      | exact absurd hk hnewline

/-- A body ends with the dedent of its block. -/
theorem indentedBody (v : Version) (m : Nat) :
    Closes (fun s => s.remaining ≤ m) (Parser.indentedBody v) := by
  intro s hs hm
  induction hl : s.remaining using Nat.strongRecOn generalizing s m with
  | ind l ih =>
    -- A block inside is parsed with fewer tokens left, so the induction hypothesis is about it.
    have hinner : Closes (Past s.remaining)
        (nested s.remaining [] fun t _ => Parser.indentedBody v t) := by
      intro t ht hlt
      rw [nested_of_lt hlt]
      exact ih _ (hl ▸ hlt) _ t ht (Nat.le_refl _) rfl
    rw [Parser.indentedBody]
    exact bodyWith v hinner s hs (Nat.le_refl _)

end Closes

/-- A body is left by the dedent that balances the indent before it in the stream of tokens, or
    at the end of input where there is none, unless the indent of a block in a match statement
    was taken for a case that is missing. -/
theorem Parser.indentedBody_closes (v : Version) (source : String) (s : ParserState)
    (hs : s.cursor.tokens = tokenize v source)
    (halone : CasesAlone (Parser.indentedBody v s).2.errors) :
    (Parser.indentedBody v s).2.cursor.tokens = tokenize v source
      ∧ (Parser.indentedBody v s).2.cursor.after = behindBlock 0 s.cursor.after := by
  obtain ⟨⟨n, hread⟩, hclose⟩ :=
    Closes.indentedBody v s.remaining s (.of_tokenize hs) (Nat.le_refl _)
  exact ⟨by rw [hread.tokens, hs], hclose halone⟩

instance (errors : List SyntaxError) : Decidable (CasesAlone errors) :=
  inferInstanceAs (Decidable (∀ e ∈ errors, e.fault ≠ .expected .caseWord "indent"))

/-- The state after the first `n` tokens of a text. -/
def Parser.startBehind (v : Version) (source : String) (n : Nat) : ParserState :=
  (Parser.start v source).move (Cursor.advanceBy n)

/-- A class that holds much that is wrong, and ends where it should. -/
theorem indentedBody_closes_malformed_class :
    let source := "class A:\n def (:\n  match x:\n   y\n   case z pass\n   w\n  )\n   +\nu\n"
    let s := Parser.startBehind .v310 source 5
    let t := (Parser.indentedBody .v310 s).2
    s.cursor.tokens = tokenize .v310 source ∧ CasesAlone t.errors
      ∧ t.cursor.tokens = tokenize .v310 source
      ∧ t.cursor.after = behindBlock 0 s.cursor.after := by
  intro source s t
  have hs : s.cursor.tokens = tokenize .v310 source := by decide +kernel
  have halone : CasesAlone t.errors := by decide +kernel
  exact ⟨hs, halone, Parser.indentedBody_closes .v310 source s hs halone⟩

/-- Where a block is indented in a match statement, its dedent ends the match statement, and what
    follows in the class is left to the module. -/
theorem indentedBody_left_early :
    let source := "class A:\n match x:\n  y\n   z\n u\n"
    let s := Parser.startBehind .v310 source 5
    s.cursor.before.head?.map Token.kind = some .indent
      ∧ (Parser.indentedBody .v310 s).2.cursor.after ≠ behindBlock 0 s.cursor.after
      ∧ (SyntaxTree.parse .v310 source).body.length = 2 := by
  decide +kernel

end PyAtlas
