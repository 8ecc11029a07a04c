import PyAtlas.Proofs.Syntax.Seam

/-!
# Staying on a line

What a production reads, where a line is under way, belongs to that line: however malformed the
line is, its newline is left for the statement that it ends. `Along s t` says that a parser has
come from `s` to `t` over tokens of a line, and `Stays I p` that `p` moves like this wherever a
line is under way and `I` holds.

The productions that look before they read are why there is an `I`: what has been looked at is
known not to be layout.

## Key results
- `OnLine.drop`: a line stays under way while tokens that belong to it are read.
- `Stays.bind`, `Stays.loop`, `Stays.nested`: how productions are put together.
-/

namespace PyAtlas

/-! ### Lines -/

/-- A line is under way: the tokens begin with the rest of it and the newline that ends it. -/
def OnLine (ts : List Token) : Prop :=
  ∃ us k size, ts = us ++ [Token.endOfInput size] ∧ Laid true k us

namespace OnLine

variable {t : Token} {ts : List Token}

/-- What comes next belongs to the line or ends it. -/
theorem exists_cons (h : OnLine ts) :
    ∃ t us, ts = t :: us ∧ (t.kind.isLayout = false ∨ t.kind = .newline) := by
  obtain ⟨us, k, size, rfl, hlaid⟩ := h
  cases hlaid with
  | newline hk _ => exact ⟨_, _, rfl, .inr hk⟩
  | plain hk _ => exact ⟨_, _, rfl, .inl hk⟩

/-- After a token that belongs to the line it is still under way. -/
theorem tail (h : OnLine (t :: ts)) (hplain : t.kind.isLayout = false) : OnLine ts := by
  obtain ⟨us, k, size, hts, hlaid⟩ := h
  cases us with
  | nil => cases hlaid
  | cons u us =>
    obtain ⟨rfl, rfl⟩ := List.cons.inj hts
    exact ⟨us, k, size, rfl, hlaid.of_plain hplain⟩

theorem drop (h : OnLine ts) {n : Nat} (hplain : ∀ u ∈ ts.take n, u.kind.isLayout = false) :
    OnLine (ts.drop n) := by
  induction n generalizing ts with
  | zero => exact h
  | succ n ih =>
    obtain ⟨t, us, rfl, -⟩ := h.exists_cons
    refine ih (h.tail (hplain t ?_)) fun u hu => hplain u ?_
    · exact List.mem_cons_self
    · exact List.mem_cons_of_mem _ hu

/-- What is passed over up to a closing bracket belongs to the line. -/
theorem closingDistance_plain (h : OnLine ts) (depth : Nat) :
    ∀ u ∈ ts.take (Cursor.closingDistance depth ts), u.kind.isLayout = false := by
  obtain ⟨us, k, size, rfl, hlaid⟩ := h
  have hdistance := closingDistance_append [Token.endOfInput size] hlaid.exists_newline depth
  rw [hdistance, List.take_append_of_le_length (closingDistance_le_length depth us)]
  exact PyAtlas.closingDistance_plain hlaid depth

end OnLine

/-! ### Moving along a line -/

theorem Cursor.after_advanceBy (n : Nat) (c : Cursor) : (c.advanceBy n).after = c.after.drop n := by
  induction n generalizing c with
  | zero => rfl
  | succ n ih =>
    rw [advanceBy, ih]
    cases hc : c.after with
    | nil => rw [advance_of_nil hc, hc, List.drop_nil, List.drop_nil]
    | cons t ts => rw [advance_of_after hc, List.drop_succ_cons]

theorem Cursor.advanceBy_add (m n : Nat) (c : Cursor) :
    c.advanceBy (m + n) = (c.advanceBy m).advanceBy n := by
  induction m generalizing c with
  | zero => rw [Nat.zero_add, advanceBy]
  | succ m ih => rw [Nat.succ_add, advanceBy, advanceBy, ih]

/-- The parser has come from `s` to `t` over `n` tokens. No error has been taken back. -/
structure ReadOn (n : Nat) (s t : ParserState) : Prop where
  cursor : t.cursor = s.cursor.advanceBy n
  errors : s.errors <+: t.errors

namespace ReadOn

variable {m n : Nat} {s t u : ParserState}

theorem refl (s : ParserState) : ReadOn 0 s s := ⟨rfl, List.prefix_rfl⟩

theorem trans (h : ReadOn m s t) (h' : ReadOn n t u) : ReadOn (m + n) s u :=
  ⟨by rw [h'.cursor, h.cursor, Cursor.advanceBy_add], h.errors.trans h'.errors⟩

theorem after (h : ReadOn n s t) : t.cursor.after = s.cursor.after.drop n := by
  rw [h.cursor, Cursor.after_advanceBy]

theorem tokens (h : ReadOn n s t) : t.cursor.tokens = s.cursor.tokens := by
  rw [h.cursor, Cursor.tokens_advanceBy]

theorem remaining (h : ReadOn n s t) : t.remaining = s.remaining - n := by
  rw [ParserState.remaining, h.cursor, Cursor.remaining_advanceBy]
  rfl

end ReadOn

/-- The parser has come from `s` to `t` over tokens of a line. -/
def Along (s t : ParserState) : Prop :=
  ∃ n, ReadOn n s t ∧ ∀ u ∈ s.cursor.after.take n, u.kind.isLayout = false

namespace Along

variable {s t u : ParserState}

theorem refl (s : ParserState) : Along s s := ⟨0, .refl s, by simp⟩

theorem trans (h : Along s t) (h' : Along t u) : Along s u := by
  obtain ⟨m, hread, hplain⟩ := h
  obtain ⟨n, hread', hplain'⟩ := h'
  refine ⟨m + n, hread.trans hread', fun x hx => ?_⟩
  rw [List.take_add, List.mem_append] at hx
  rcases hx with hx | hx
  · exact hplain x hx
  · rw [hread.after] at hplain'
    exact hplain' x hx

theorem onLine (h : Along s t) (hs : OnLine s.cursor.after) : OnLine t.cursor.after := by
  obtain ⟨n, hread, hplain⟩ := h
  rw [hread.after]
  exact hs.drop hplain

theorem report {fault : SyntaxFault} {span : Span} (s : ParserState) :
    Along s (Parser.report fault span s).2 :=
  ⟨0, ⟨rfl, List.prefix_append _ _⟩, by simp⟩

theorem advance (hplain : s.cursor.kind.isLayout = false) : Along s (s.move Cursor.advance) := by
  refine ⟨1, ⟨rfl, List.prefix_rfl⟩, fun u hu => ?_⟩
  cases hafter : s.cursor.after with
  | nil => simp [hafter] at hu
  | cons t ts =>
    rw [Cursor.kind_eq, Cursor.peek_of_after hafter] at hplain
    rw [hafter] at hu
    rw [List.mem_singleton.1 hu]
    exact hplain

theorem skipToClosing (hs : OnLine s.cursor.after) : Along s (s.move Cursor.skipToClosing) :=
  ⟨_, ⟨rfl, List.prefix_rfl⟩, hs.closingDistance_plain 0⟩

end Along

/-! ### Productions -/

/-- Where a line is under way and `I` holds, the parser moves along the line. -/
def Stays (I : ParserState → Prop) {α : Type} (p : Parser α) : Prop :=
  ∀ s, OnLine s.cursor.after → I s → Along s (p s).2

/-- Wherever a line is under way the parser moves along it. -/
abbrev StaysAnywhere {α : Type} (p : Parser α) : Prop := Stays (fun _ => True) p

namespace Stays

open PyAtlas.Parser

variable {I J : ParserState → Prop} {α β : Type} {p : Parser α} {f : α → Parser β}

theorem of (h : Stays J p) (hI : ∀ s, I s → J s) : Stays I p :=
  fun s hs hi => h s hs (hI s hi)

theorem anywhere (h : StaysAnywhere p) : Stays I p :=
  h.of fun _ _ => trivial

theorem pure {a : α} : Stays I (Pure.pure a : Parser α) :=
  fun s _ _ => .refl s

theorem bind (h : Stays I p) (hf : ∀ a, StaysAnywhere (f a)) : Stays I (p >>= f) := by
  intro s hs hi
  have hp := h s hs hi
  exact hp.trans (hf (p s).1 (p s).2 (hp.onLine hs) trivial)

theorem map {f : α → β} (h : Stays I p) : Stays I (f <$> p) := h

theorem discard (h : Stays I p) : Stays I (Functor.discard p) := h

theorem ite {c : Prop} [Decidable c] {p q : Parser α} (h : c → Stays I p) (h' : ¬ c → Stays I q) :
    Stays I (if c then p else q) := by
  split
  · exact h ‹_›
  · exact h' ‹_›

/-- What has been seen is known of the state afterwards. -/
theorem look_bind {g : Cursor → α} (h : ∀ a, Stays (fun s => I s ∧ g s.cursor = a) (f a)) :
    Stays I (look g >>= f) :=
  fun s hs hi => h (g s.cursor) s hs ⟨hi, rfl⟩

theorem peek_bind {f : Token → Parser β}
    (h : ∀ token, Stays (fun s => s.cursor.peek = token) (f token)) : Stays I (peek >>= f) :=
  look_bind fun token => (h token).of fun _ hi => hi.2

/-- What is seen often does not matter. -/
theorem look_bind_any {g : Cursor → α} (h : ∀ a, Stays I (f a)) : Stays I (look g >>= f) :=
  look_bind fun a => (h a).of fun _ hi => hi.1

theorem kind_bind {f : TokenKind → Parser β} (h : ∀ k, Stays I (f k)) : Stays I (kind >>= f) :=
  look_bind_any h

theorem at?_bind {k : TokenKind} {f : Bool → Parser β} (h : ∀ b, Stays I (f b)) :
    Stays I (at? k >>= f) :=
  look_bind_any h

theorem spanFrom_bind {start : Span} {f : Span → Parser β} (h : ∀ span, Stays I (f span)) :
    Stays I (spanFrom start >>= f) :=
  look_bind_any h

theorem advance (h : ∀ s, I s → s.cursor.kind.isLayout = false) : Stays I Parser.advance :=
  fun s _ hi => .advance (h s hi)

theorem next (h : ∀ s, I s → s.cursor.kind.isLayout = false) : Stays I Parser.next :=
  fun s _ hi => .advance (h s hi)

/-- A token that has been looked at and is none of the layout may be read. -/
theorem advance_peeked {token : Token} (h : token.kind.isLayout = false) :
    Stays (fun s => s.cursor.peek = token) Parser.advance :=
  advance fun s hs => by rw [Cursor.kind_eq, hs, h]

/-- So may any other token than the newline that ends the line. -/
theorem advance_inner {token : Token} (h : token.kind ≠ .newline) :
    Stays (fun s => s.cursor.peek = token) Parser.advance := by
  intro s hs hpeek
  refine .advance ?_
  obtain ⟨t, ts, hafter, hk⟩ := hs.exists_cons
  rw [Cursor.kind_eq, Cursor.peek_of_after hafter]
  rw [Cursor.peek_of_after hafter] at hpeek
  exact hk.resolve_right (hpeek ▸ h)

theorem eat {k : TokenKind} (hk : k.isLayout = false) : Stays I (Parser.eat k) := by
  intro s _ _
  show Along s { s with cursor := (s.cursor.eat k).2 }
  rw [Cursor.eat]
  split
  · rename_i heq
    exact .advance (by rw [heq, hk])
  · exact .refl s

theorem eats {k : TokenKind} (hk : k.isLayout = false) : Stays I (Parser.eats k) :=
  (eat hk).bind fun _ => .pure

theorem report {fault : SyntaxFault} {span : Span} : Stays I (Parser.report fault span) :=
  fun s _ _ => .report s

theorem expected {expectation : Expectation} {token : Token} :
    Stays I (Parser.expected expectation token) :=
  report

/-- A report does not change what has been looked at. -/
theorem report_bind {token : Token} {fault : SyntaxFault} {span : Span} {f : Unit → Parser β}
    (h : Stays (fun s => s.cursor.peek = token) (f ())) :
    Stays (fun s => s.cursor.peek = token) (Parser.report fault span >>= f) := by
  intro s hs hpeek
  have hreport : Along s (Parser.report fault span s).2 := .report s
  exact hreport.trans (h _ (hreport.onLine hs) hpeek)

theorem skipToClosing : Stays I Parser.skipToClosing :=
  fun _ hs _ => .skipToClosing hs

theorem loop {α β : Type} {giveUp : α → β} {step : α → Parser (LoopStep α β)}
    (hstep : ∀ a, StaysAnywhere (step a)) (a : α) : Stays I (Parser.loop giveUp step a) := by
  suffices ∀ m, ∀ a s, s.remaining = m → OnLine s.cursor.after →
      Along s (Parser.loop giveUp step a s).2 by
    exact fun s hs _ => this _ a s rfl hs
  intro m
  induction m using Nat.strongRecOn with
  | ind m ih =>
    intro a s hm hs
    have hfirst := hstep a s hs trivial
    rw [loop_eq]
    cases hr : step a s with
    | mk r t =>
      rw [hr] at hfirst
      cases r with
      | finished b => exact hfirst
      | again a' =>
        simp only
        split
        · rename_i hlt
          exact hfirst.trans (ih _ (hm ▸ hlt) a' t rfl (hfirst.onLine hs))
        · exact hfirst

theorem nested {limit : Nat} {giveUp : α}
    {parser : (s : ParserState) → s.remaining < limit → α × ParserState}
    (h : ∀ s hlt, OnLine s.cursor.after → Along s (parser s hlt).2) :
    Stays I (Parser.nested limit giveUp parser) := by
  intro s hs _
  rw [Parser.nested]
  split
  · exact h s _ hs
  · exact .refl s

theorem expectIdentifier : Stays I Parser.expectIdentifier := by
  unfold Parser.expectIdentifier
  refine peek_bind fun token => ?_
  split
  · rename_i ident hident
    exact (advance_peeked (isLayout_of_identifier? hident)).bind fun _ => .pure
  · exact expected.bind fun _ => .pure

end Stays

end PyAtlas
