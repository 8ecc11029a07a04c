import PyAtlas.Proofs.Syntax.ExprSilence
import PyAtlas.Proofs.Syntax.Placing
import PyAtlas.Proofs.Syntax.SoftLookahead

/-!
# A text read with two words reserved and without

A production under 3.7 and the same production under a version that does not reserve `async` and
`await` are run side by side. What matters are the runs under 3.7 that report nothing. As long as
such a run is followed, both read the same tokens. There are three ways to part:

- Under 3.7 a production stops before one of the words, which is no expression there, and the other
  one reads on. Then 3.7 makes a report later, unless a comprehension follows.
- Behind `async` there is the `for` of a comprehension. The other production has read the word as a
  name, which is passed over anyway.
- The text has a part of the grammar that the other version lacks.

`Mirrors X I J q p` is a triple about the runs of `q` that report nothing. From states related by
`I` it comes to states where `X` holds, which is the way out, or both come to states related by `J`.

## Key definitions
- `Softer`: the same place in the text, with the words reserved and without.
- `Mirrors`, `InStep`, `Ends`: what the two productions do.
- `Leads`: what a production does behind a way out.

## Key results
- `Mirrors.bind`, `Mirrors.loop_ends`: how productions are put together.
- `InStep.loop`: the rule for loops that part only for good.
-/

namespace PyAtlas

open PyAtlas.Parser

/-! ### Places in the text -/

/-- The state where `async` and `await` are identifiers. -/
def ParserState.soften (s : ParserState) : ParserState := ⟨s.cursor.soften, s.errors⟩

/-- The run under 3.7 is at `s`, the one under a version that does not reserve the two words is at
    the same place `u`, and fewer than `m` tokens are left. -/
structure Softer (source : String) (m : Nat) (s u : ParserState) : Prop where
  soften : u = s.soften
  tokens : s.cursor.tokens = tokenize .v37 source
  size : s.cursor.size = source.utf8ByteSize
  below : s.remaining < m

/-- The next word is `async`, and it is reserved. -/
def AtAsync (s : ParserState) : Prop := s.cursor.kind = .keyword .async

/-- The next word is `async`, and it belongs to no comprehension. -/
def Lost (s : ParserState) : Prop := AtAsync s ∧ s.cursor.kindAt 1 ≠ .keyword .for

/-- No state. -/
def Nowhere (_ : ParserState) : Prop := False

/-- The next words are those of an asynchronous comprehension. The run under a version that does not
    reserve the first of them has read it as a name. -/
structure Waiting (source : String) (m : Nat) (s u : ParserState) : Prop where
  atAsync : AtAsync s
  next : s.cursor.kindAt 1 = .keyword .for
  softer : Softer source m (s.move Cursor.advance) u

/-- Both runs yield the same at the same place. -/
def Agree (source : String) (m : Nat) {α : Type} (a b : α) : Rel := fun s u =>
  a = b ∧ Softer source m s u

/-- Both runs yield the same at the same place, or an asynchronous comprehension follows and what
    they yield is related by `R`. -/
def End (source : String) (m : Nat) {α : Type} (R : α → α → Prop) (a b : α) : Rel := fun s u =>
  Agree source m a b s u ∨ R a b ∧ Waiting source m s u

variable {source : String} {m : Nat} {s u : ParserState}

namespace Softer

theorem mono {m' : Nat} (h : Softer source m s u) (hm : m ≤ m') : Softer source m' s u :=
  ⟨h.soften, h.tokens, h.size, Nat.lt_of_lt_of_le h.below hm⟩

theorem cursor_eq (h : Softer source m s u) : u.cursor = s.cursor.soften := by
  rw [h.soften]
  rfl

theorem remaining_eq (h : Softer source m s u) : u.remaining = s.remaining := by
  rw [ParserState.remaining, h.cursor_eq, Cursor.remaining_soften]
  rfl

theorem reserving (h : Softer source m s u) : s.cursor.Reserving := by
  intro t ht
  have hmem : t ∈ tokenize .v37 source := by
    rw [← h.tokens]
    exact List.mem_append_right _ ht
  exact reserving_of_mem_tokenize hmem

/-- Both runs read some tokens. -/
theorem move (h : Softer source m s u) {g : Cursor → Cursor}
    (hsoften : ∀ c, g c.soften = (g c).soften) (hread : ∀ c, ∃ n, g c = c.advanceBy n) :
    Softer source m (s.move g) (u.move g) := by
  obtain ⟨n, hn⟩ := hread s.cursor
  refine ⟨?_, ?_, ?_, ?_⟩
  · rw [h.soften]
    exact congrArg (ParserState.mk · s.errors) (hsoften s.cursor)
  · rw [ParserState.move, hn, Cursor.tokens_advanceBy, h.tokens]
  · rw [ParserState.move, hn, Cursor.size_advanceBy, h.size]
  · have hle : (s.move g).remaining ≤ s.remaining := by
      show (g s.cursor).remaining ≤ s.cursor.remaining
      rw [hn, Cursor.remaining_advanceBy]
      exact Nat.sub_le _ _
    exact Nat.lt_of_le_of_lt hle h.below

theorem advance (h : Softer source m s u) :
    Softer source m (s.move Cursor.advance) (u.move Cursor.advance) :=
  h.move Cursor.advance_soften fun _ => ⟨1, rfl⟩

/-- A token that is read is left no longer. -/
theorem advance_below (h : Softer source (m + 1) s u) (hk : s.cursor.kind ≠ .eof) :
    Softer source m (s.move Cursor.advance) (u.move Cursor.advance) :=
  { h.advance with below := s.remaining_advance h.below hk }

/-- The cursor under 3.7 is on the tokens of the text. -/
theorem inText (h : Softer source m s u) : s.cursor.InText source where
  size := h.size
  arranged := by
    rw [h.tokens]
    exact arranged_tokenize .v37 source
  sound t ht := by
    rw [h.tokens] at ht
    exact sound_of_mem_tokenize ht

/-- So is the cursor under the other version. -/
theorem inText_soften {v : Version} (hv : v.hasSoftAsync = true) (h : Softer source m s u) :
    u.cursor.InText source := by
  have htokens : u.cursor.tokens = tokenize v source := by
    rw [h.cursor_eq, Cursor.tokens, Cursor.soften, ← List.map_reverse, ← List.map_append]
    exact (congrArg _ h.tokens).trans (tokenize_soften hv source).symm
  refine ⟨?_, ?_, fun t ht => ?_⟩
  · rw [h.cursor_eq]
    exact h.size
  · rw [htokens]
    exact arranged_tokenize v source
  · rw [htokens] at ht
    exact sound_of_mem_tokenize ht

end Softer

theorem AtAsync.ne (h : AtAsync s) {k : TokenKind} (hk : k.isSteady = true) :
    s.cursor.kind ≠ k := by
  rintro rfl
  rw [h] at hk
  cases hk

namespace Waiting

theorem kind_eq_for (h : Waiting source m s u) : u.cursor.kind = .keyword .for := by
  rw [h.softer.cursor_eq, Cursor.kind_soften, ParserState.move, Cursor.kind_advance, h.next]
  rfl

/-- Nothing else than the comprehension comes next in either run. -/
theorem ne (h : Waiting source m s u) {k : TokenKind} (hk : k.isSteady = true)
    (hfor : k ≠ .keyword .for) : s.cursor.kind ≠ k ∧ u.cursor.kind ≠ k := by
  refine ⟨h.atAsync.ne hk, ?_⟩
  rw [h.kind_eq_for]
  exact hfor.symm

theorem mono {m' : Nat} (h : Waiting source m s u) (hm : m ≤ m') : Waiting source m' s u :=
  ⟨h.atAsync, h.next, h.softer.mono hm⟩

end Waiting

theorem End.mono {m' : Nat} {α : Type} {R : α → α → Prop} {a b : α} (h : End source m R a b s u)
    (hm : m ≤ m') : End source m' R a b s u :=
  h.imp (And.imp_right (Softer.mono · hm)) (And.imp_right (Waiting.mono · hm))

/-! ### Runs that are known -/

section Known

variable {α β : Type} {k : TokenKind}

/-- What comes after a production whose run is known. -/
theorem Parser.bind_of_run {p : Parser α} {f : α → Parser β} {a : α} {t : ParserState}
    (h : p s = (a, t)) : (p >>= f) s = f a t := by
  show f (p s).1 (p s).2 = _
  rw [h]

theorem Parser.discard_of_run {p : Parser α} {a : α} {t : ParserState} (h : p s = (a, t)) :
    Functor.discard p s = (PUnit.unit, t) := by
  show (PUnit.unit, (p s).2) = _
  rw [h]

theorem Parser.eat_bind_of_ne {f : Option Token → Parser β} (hk : s.cursor.kind ≠ k) :
    (eat k >>= f) s = f none s := by
  show f (s.cursor.eat k).1 { s with cursor := (s.cursor.eat k).2 } = _
  rw [Cursor.eat, if_neg hk]

theorem Parser.eats_bind_of_ne {f : Bool → Parser β} (hk : s.cursor.kind ≠ k) :
    (eats k >>= f) s = f false s :=
  eat_bind_of_ne (f := fun token => f token.isSome) hk

theorem Parser.at?_bind_of_ne {f : Bool → Parser β} (hk : s.cursor.kind ≠ k) :
    (at? k >>= f) s = f false s := by
  show f (s.cursor.kind == k) s = _
  rw [beq_eq_false_iff_ne.2 hk]

end Known

/-! ### Behind a way out -/

/-- What holds behind the runs of `q` from a state where `D` holds, if they report nothing. -/
def Leads (D : ParserState → Prop) {α : Type} (X : α → ParserState → Prop) (q : Parser α) : Prop :=
  ∀ s, D s → (q s).2.errors = [] → X (q s).1 (q s).2

namespace Leads

variable {D D' : ParserState → Prop} {α β : Type} {X : α → ParserState → Prop}
  {Y : β → ParserState → Prop} {q : Parser α} {f : α → Parser β}

theorem nowhere : Leads Nowhere X q := fun _ hs => hs.elim

theorem pure {a : α} (h : ∀ s, D s → X a s) : Leads D X (Pure.pure a) :=
  fun s hs _ => h s hs

theorem bind (h : Leads D X q) (honward : ∀ a s, Onward s (f a s).2)
    (hf : ∀ a, Leads (X a) Y (f a)) : Leads D Y (q >>= f) :=
  fun s hs hclean => hf _ _ (h s hs ((honward _ _).errors_eq_nil hclean)) hclean

/-- What holds in each case. -/
theorem either (h : Leads D X q) (h' : Leads D' X q) : Leads (fun s => D s ∨ D' s) X q :=
  fun s hs hclean => hs.elim (fun hs => h s hs hclean) fun hs => h' s hs hclean

theorem weaken {X' : α → ParserState → Prop} (h : Leads D X q) (hD : ∀ s, D' s → D s)
    (hX : ∀ a s, X a s → X' a s) : Leads D' X' q :=
  fun s hs hclean => hX _ _ (h s (hD s hs) hclean)

theorem anyway (h : Leads D (fun _ => Nowhere) q) : Leads D X q :=
  fun s hs hclean => (h s hs hclean).elim

theorem ite {c : Prop} [Decidable c] {q' : Parser α} (h : c → Leads D X q)
    (h' : ¬ c → Leads D X q') : Leads D X (if c then q else q') := by
  split
  · exact h ‹_›
  · exact h' ‹_›

theorem look_bind {g : Cursor → α} (h : ∀ a, Leads (fun s => D s ∧ g s.cursor = a) Y (f a)) :
    Leads D Y (look g >>= f) :=
  fun s hs hclean => h _ s ⟨hs, rfl⟩ hclean

theorem look_any {g : Cursor → α} (h : ∀ a, Leads D Y (f a)) : Leads D Y (look g >>= f) :=
  look_bind fun a => (h a).weaken (fun _ hs => hs.1) fun _ _ hx => hx

/-- What is known of the kind of the next token is known of the token. -/
theorem peek_bind {P : TokenKind → Prop} {f : Token → Parser β}
    (hD : ∀ s, D s → P s.cursor.kind) (h : ∀ token, P token.kind → Leads D Y (f token)) :
    Leads D Y (peek >>= f) :=
  fun s hs hclean => h _ (hD s hs) s hs hclean

theorem spanFrom_bind {start : Span} {f : Span → Parser β} (h : ∀ span, Leads D Y (f span)) :
    Leads D Y (spanFrom start >>= f) :=
  look_any h

theorem eat_bind {k : TokenKind} {f : Option Token → Parser β}
    (hk : ∀ s, D s → s.cursor.kind ≠ k) (h : Leads D Y (f none)) : Leads D Y (eat k >>= f) := by
  intro s hs
  rw [eat_bind_of_ne (hk s hs)]
  exact h s hs

theorem eats_bind {k : TokenKind} {f : Bool → Parser β} (hk : ∀ s, D s → s.cursor.kind ≠ k)
    (h : Leads D Y (f false)) : Leads D Y (eats k >>= f) :=
  eat_bind (f := fun token => f token.isSome) hk h

theorem at?_bind {k : TokenKind} {f : Bool → Parser β} (hk : ∀ s, D s → s.cursor.kind ≠ k)
    (h : Leads D Y (f false)) : Leads D Y (at? k >>= f) := by
  intro s hs
  rw [at?_bind_of_ne (hk s hs)]
  exact h s hs

/-- A run that makes a report is none that reports nothing. -/
theorem report_bind {fault : SyntaxFault} {span : Span} {f : Unit → Parser β}
    (h : ∀ s, Onward s (f () s).2) : Leads D Y (report fault span >>= f) := by
  intro s _ hclean
  have herrors := (h (report fault span s).2).errors_eq_nil hclean
  simp [report] at herrors

theorem expected_bind {expectation : Expectation} {token : Token} {f : Unit → Parser β}
    (h : ∀ s, Onward s (f () s).2) : Leads D Y (expected expectation token >>= f) :=
  report_bind h

/-- What does not lead out does not either behind a way out. -/
theorem bind_nowhere (h : Leads D (fun _ => Nowhere) q) (honward : ∀ a s, Onward s (f a s).2) :
    Leads D Y (q >>= f) :=
  h.bind honward fun _ => nowhere

end Leads

/-! ### Results -/

/-- Whatever the run, the result of the production is as `P` says. -/
def Gives {α : Type} (P : α → Prop) (q : Parser α) : Prop := ∀ s, P (q s).1

namespace Gives

variable {α β : Type} {P : α → Prop} {Q : β → Prop} {q : Parser α} {f : α → Parser β}

theorem pure {a : α} (h : P a) : Gives P (Pure.pure a) := fun _ => h

theorem bind (h : ∀ a, Gives Q (f a)) : Gives Q (q >>= f) := fun s => h (q s).1 (q s).2

theorem ite {c : Prop} [Decidable c] {q' : Parser α} (h : Gives P q) (h' : Gives P q') :
    Gives P (if c then q else q') := by
  split
  · exact h
  · exact h'

theorem leads {D : ParserState → Prop} {X : α → ParserState → Prop}
    (h : Gives (fun a => ∀ s, X a s) q) : Leads D X q :=
  fun s _ _ => h s (q s).2

end Gives

/-! ### Runs side by side -/

/-- Where the run of `q` reports nothing and does not come to a state where `X` holds, the run of
    `p` goes with it. -/
structure Mirrors {α : Type} (X : α → ParserState → Prop) (I : Rel) (J : α → α → Rel)
    (q p : Parser α) : Prop where
  onward : ∀ s, Onward s (q s).2
  run : ∀ s u, I s u → (q s).2.errors = [] →
    X (q s).1 (q s).2 ∨ J (q s).1 (p u).1 (q s).2 (p u).2

/-- The productions go on together, unless the first one comes to a state where `D` holds. -/
abbrev InStep (source : String) (m : Nat) (D : ParserState → Prop) {α : Type}
    (q p : Parser α) : Prop :=
  Mirrors (fun _ => D) (Softer source m) (Agree source m) q p

/-- The productions go on together, or there follows an asynchronous comprehension. -/
abbrev Ends (source : String) (m : Nat) {α : Type} (R : α → α → Prop) (q p : Parser α) : Prop :=
  Mirrors (fun _ => Lost) (Softer source m) (End source m R) q p

namespace Mirrors

variable {α β γ : Type} {I I' : Rel} {J J' : α → α → Rel} {K : β → β → Rel}
  {X X' : α → ParserState → Prop} {Y : β → ParserState → Prop} {q p : Parser α}
  {f g : α → Parser β}

/-! ### Putting productions together -/

theorem pure {a b : α} (h : ∀ s u, I s u → J a b s u) :
    Mirrors X I J (Pure.pure a) (Pure.pure b) where
  onward s := .refl s
  run s u hi _ := .inr (h s u hi)

/-- Both productions end with the same result. -/
theorem done {a : α} : Mirrors X (Softer source m) (Agree source m) (Pure.pure a) (Pure.pure a) :=
  pure fun _ _ hs => ⟨rfl, hs⟩

theorem bind (h : Mirrors X I J q p) (hf : ∀ a b, Mirrors Y (J a b) K (f a) (g b))
    (hX : ∀ a, Leads (X a) Y (f a)) : Mirrors Y I K (q >>= f) (p >>= g) where
  onward s := (h.onward s).trans ((hf (q s).1 (q s).1).onward (q s).2)
  run s u hi hclean := by
    have hfirst := ((hf (q s).1 (q s).1).onward (q s).2).errors_eq_nil hclean
    rcases h.run s u hi hfirst with hx | hj
    · exact .inl (hX _ _ hx hclean)
    · exact (hf (q s).1 (p u).1).run _ _ hj hclean

theorem map {φ : α → β} (h : Mirrors (fun a => Y (φ a)) I (Agree source m) q p) :
    Mirrors Y I (Agree source m) (φ <$> q) (φ <$> p) where
  onward := h.onward
  run s u hi hclean := (h.run s u hi hclean).imp_right fun ⟨hab, hs⟩ => ⟨congrArg φ hab, hs⟩

theorem weaken (h : Mirrors X I J q p) (hI : ∀ s u, I' s u → I s u)
    (hX : ∀ a s, X a s → X' a s) (hJ : ∀ a b s u, J a b s u → X' a s ∨ J' a b s u) :
    Mirrors X' I' J' q p where
  onward := h.onward
  run s u hi hclean := by
    rcases h.run s u (hI s u hi) hclean with hx | hj
    · exact .inl (hX _ _ hx)
    · exact hJ _ _ _ _ hj

theorem pre (h : Mirrors X I J q p) (hI : ∀ s u, I' s u → I s u) : Mirrors X I' J q p :=
  h.weaken hI (fun _ _ hx => hx) fun _ _ _ _ hj => .inr hj

theorem post (h : Mirrors X I J q p) (hJ : ∀ a b s u, J a b s u → J' a b s u) :
    Mirrors X I J' q p :=
  h.weaken (fun _ _ hi => hi) (fun _ _ hx => hx) fun _ _ _ _ hj => .inr (hJ _ _ _ _ hj)

/-- What is known of the two runs. -/
theorem post_run (h : Mirrors X I J q p)
    (hJ : ∀ s u, I s u → (q s).2.errors = [] → J (q s).1 (p u).1 (q s).2 (p u).2 →
      J' (q s).1 (p u).1 (q s).2 (p u).2) : Mirrors X I J' q p where
  onward := h.onward
  run s u hi hclean := (h.run s u hi hclean).imp_right (hJ s u hi hclean)

/-- A way out that is not taken. -/
theorem anyway (h : Mirrors (fun _ => Nowhere) I J q p) : Mirrors X I J q p :=
  h.weaken (fun _ _ hi => hi) (fun _ _ hx => hx.elim) fun _ _ _ _ hj => .inr hj

theorem ite {c : Prop} [Decidable c] {q' p' : Parser α} (h : c → Mirrors X I J q p)
    (h' : ¬ c → Mirrors X I J q' p') :
    Mirrors X I J (if c then q else q') (if c then p else p') := by
  split
  · exact h ‹_›
  · exact h' ‹_›

/-- Where the first production leads to a way out the other one does not matter. -/
theorem of_leads {D : ParserState → Prop} (honward : ∀ s, Onward s (q s).2) (h : Leads D X q)
    (hI : ∀ s u, I s u → D s) : Mirrors X I J q p where
  onward := honward
  run s u hi hclean := .inl (h s (hI s u hi) hclean)

/-! ### Looking -/

/-- A question with the same answer under both grammars, which is known afterwards. -/
theorem look_bind {look₁ look₂ : Cursor → α}
    (hlook : ∀ s u, I s u → look₁ s.cursor = look₂ u.cursor)
    (h : ∀ a, Mirrors Y (fun s u => I s u ∧ look₁ s.cursor = a) K (f a) (g a)) :
    Mirrors Y I K (look look₁ >>= f) (look look₂ >>= g) where
  onward s := (h (look₁ s.cursor)).onward s
  run s u hi hclean := by
    have hrun := (h (look₁ s.cursor)).run s u ⟨hi, rfl⟩ hclean
    rw [hlook s u hi] at hrun
    have hq : (look look₁ >>= f) s = f (look₁ s.cursor) s := rfl
    rw [hq, hlook s u hi]
    exact hrun

theorem look_any {look₁ look₂ : Cursor → α}
    (hlook : ∀ s u, I s u → look₁ s.cursor = look₂ u.cursor)
    (h : ∀ a, Mirrors Y I K (f a) (g a)) : Mirrors Y I K (look look₁ >>= f) (look look₂ >>= g) :=
  look_bind hlook fun a => (h a).pre fun _ _ hi => hi.1

theorem spanFrom_bind (start : Span) {f g : Span → Parser β}
    (h : ∀ span, Mirrors Y (Softer source m) K (f span) (g span)) :
    Mirrors Y (Softer source m) K (spanFrom start >>= f) (spanFrom start >>= g) := by
  refine look_any (fun s u hs => ?_) h
  rw [hs.cursor_eq, Cursor.lastSpan_soften]

/-- A token ahead is the same under both grammars, or it is one of the two words. -/
theorem peekNth_bind (n : Nat) {f g : Token → Parser β} (hI : ∀ s u, I s u → Softer source m s u)
    (hsame : ∀ token, token.soften = token →
      Mirrors Y (fun s u => I s u ∧ s.cursor.peekNth n = token) K (f token) (g token))
    (hword : ∀ token, token.kind = .keyword .async ∨ token.kind = .keyword .await →
      Mirrors Y (fun s u => I s u ∧ s.cursor.peekNth n = token) K (f token) (g token.soften)) :
    Mirrors Y I K (look (Cursor.peekNth · n) >>= f) (look (Cursor.peekNth · n) >>= g) := by
  have hboth : ∀ token, Mirrors Y (fun s u => I s u ∧ s.cursor.peekNth n = token) K
      (f token) (g token.soften) := fun token => by
    rcases token.soften_cases with h | h
    · rw [h]
      exact hsame token h
    · exact hword token h
  exact {
    onward := fun s => (hboth (s.cursor.peekNth n)).onward s
    run := fun s u hs hclean => by
      have hrun := (hboth (s.cursor.peekNth n)).run s u ⟨hs, rfl⟩ hclean
      rw [← Cursor.peekNth_soften, ← (hI s u hs).cursor_eq] at hrun
      exact hrun }

theorem peek_bind {f g : Token → Parser β}
    (hsame : ∀ token, token.soften = token →
      Mirrors Y (fun s u => Softer source m s u ∧ s.cursor.peek = token) K (f token) (g token))
    (hword : ∀ token, token.kind = .keyword .async ∨ token.kind = .keyword .await →
      Mirrors Y (fun s u => Softer source m s u ∧ s.cursor.peek = token) K (f token)
        (g token.soften)) :
    Mirrors Y (Softer source m) K (peek >>= f) (peek >>= g) :=
  peekNth_bind 0 (fun _ _ hs => hs) hsame hword

/-- Often it does not matter where the token has been seen. -/
theorem peek_cases {f g : Token → Parser β}
    (hsame : ∀ token, token.soften = token → Mirrors Y (Softer source m) K (f token) (g token))
    (hword : ∀ token, token.kind = .keyword .async ∨ token.kind = .keyword .await →
      Mirrors Y (Softer source m) K (f token) (g token.soften)) :
    Mirrors Y (Softer source m) K (peek >>= f) (peek >>= g) :=
  peek_bind (fun token h => (hsame token h).pre fun _ _ hs => hs.1) fun token h =>
    (hword token h).pre fun _ _ hs => hs.1

/-- Often the token itself does not matter. -/
theorem peek_any {f g : Token → Parser β}
    (h : ∀ token, Mirrors Y (Softer source m) K (f token) (g token.soften)) :
    Mirrors Y (Softer source m) K (peek >>= f) (peek >>= g) := by
  refine peek_cases (fun token hsame => ?_) fun token _ => h token
  have hboth := h token
  rwa [hsame] at hboth

theorem kind_bind {f g : TokenKind → Parser β}
    (hsame : ∀ kind, kind.soften = kind →
      Mirrors Y (fun s u => Softer source m s u ∧ s.cursor.kind = kind) K (f kind) (g kind))
    (hword : ∀ kind, kind = .keyword .async ∨ kind = .keyword .await →
      Mirrors Y (fun s u => Softer source m s u ∧ s.cursor.kind = kind) K (f kind)
        (g .identifier)) :
    Mirrors Y (Softer source m) K (kind >>= f) (kind >>= g) := by
  have hboth : ∀ kind, Mirrors Y (fun s u => Softer source m s u ∧ s.cursor.kind = kind) K
      (f kind) (g kind.soften) := fun kind => by
    rcases kind.soften_cases with h | h
    · rw [h]
      exact hsame kind h
    · have hsoft : kind.soften = .identifier := by
        rcases h with rfl | rfl <;> rfl
      rw [hsoft]
      exact hword kind h
  exact {
    onward := fun s => (hboth s.cursor.kind).onward s
    run := fun s u hs hclean => by
      have hrun := (hboth s.cursor.kind).run s u ⟨hs, rfl⟩ hclean
      rw [← Cursor.kind_soften, ← hs.cursor_eq] at hrun
      exact hrun }

theorem kind_cases {f g : TokenKind → Parser β}
    (hsame : ∀ kind, kind.soften = kind → Mirrors Y (Softer source m) K (f kind) (g kind))
    (hword : ∀ kind, kind = .keyword .async ∨ kind = .keyword .await →
      Mirrors Y (Softer source m) K (f kind) (g .identifier)) :
    Mirrors Y (Softer source m) K (kind >>= f) (kind >>= g) :=
  kind_bind (fun kind h => (hsame kind h).pre fun _ _ hs => hs.1) fun kind h =>
    (hword kind h).pre fun _ _ hs => hs.1

/-! ### Reading -/

theorem move_bind {g₁ : Cursor → Cursor} {f g : Unit → Parser β}
    (honward : ∀ s : ParserState, Onward s (s.move g₁))
    (hI : ∀ s u, I s u → I' (s.move g₁) (u.move g₁)) (h : Mirrors Y I' K (f ()) (g ())) :
    Mirrors Y I K (move g₁ >>= f) (move g₁ >>= g) where
  onward s := (honward s).trans (h.onward _)
  run s u hi hclean := h.run _ _ (hI s u hi) hclean

theorem advance_bind {f g : Unit → Parser β}
    (h : Mirrors Y (Softer source m) K (f ()) (g ())) :
    Mirrors Y (Softer source m) K (advance >>= f) (advance >>= g) :=
  move_bind Onward.advance (fun _ _ => Softer.advance) h

theorem skipToClosing_bind {f g : Unit → Parser β}
    (h : Mirrors Y (Softer source m) K (f ()) (g ())) :
    Mirrors Y (Softer source m) K (skipToClosing >>= f) (skipToClosing >>= g) :=
  move_bind Onward.skipToClosing
    (fun _ _ hs => hs.move Cursor.skipToClosing_soften fun _ => ⟨_, rfl⟩) h

theorem skipNewlines_bind {f g : Unit → Parser β}
    (h : Mirrors Y (Softer source m) K (f ()) (g ())) :
    Mirrors Y (Softer source m) K (skipNewlines >>= f) (skipNewlines >>= g) :=
  move_bind Onward.skipNewlines
    (fun _ _ hs => hs.move Cursor.skipNewlines_soften fun _ => ⟨_, rfl⟩) h

theorem next_bind {f g : Token → Parser β}
    (h : ∀ token, Mirrors Y (Softer source m) K (f token) (g token.soften)) :
    Mirrors Y (Softer source m) K (next >>= f) (next >>= g) where
  onward s := (Onward.advance s).trans ((h s.cursor.peek).onward _)
  run s u hs hclean := by
    have hrun := (h s.cursor.peek).run _ _ hs.advance hclean
    rw [← Cursor.peek_soften, ← hs.cursor_eq] at hrun
    exact hrun

/-- A token of the same kind under both grammars is read in both runs or in none. -/
theorem eat_bind {k : TokenKind} {f g : Option Token → Parser β} (hk : k.isSteady = true)
    (hsome : ∀ token, Mirrors Y (Softer source m) K (f (some token)) (g (some token)))
    (hnone : Mirrors Y (Softer source m) K (f none) (g none)) :
    Mirrors Y (Softer source m) K (eat k >>= f) (eat k >>= g) where
  onward s := by
    refine (Onward.eat s k).trans ?_
    show Onward _ (f (s.cursor.eat k).1 _).2
    cases (s.cursor.eat k).1 with
    | none => exact hnone.onward _
    | some token => exact (hsome token).onward _
  run s u hs hclean := by
    by_cases hkind : s.cursor.kind = k
    · have hkind' : u.cursor.kind = k := by
        rw [hs.cursor_eq, Cursor.kind_soften, TokenKind.soften_eq_iff hk, hkind]
      -- The token is none of the two words, so both runs read the same.
      have hpeek : u.cursor.peek = s.cursor.peek := by
        rw [hs.cursor_eq, Cursor.peek_soften]
        rcases s.cursor.peek.soften_cases with hsame | hword | hword
        · exact hsame
        all_goals
          rw [← hkind, Cursor.kind_eq, hword] at hk
          cases hk
      have heat : s.cursor.eat k = (some s.cursor.peek, s.cursor.advance) := if_pos hkind
      have heat' : u.cursor.eat k = (some s.cursor.peek, u.cursor.advance) :=
        (if_pos hkind').trans (by rw [hpeek])
      have hq : (eat k >>= f) s = f (some s.cursor.peek) (s.move Cursor.advance) := by
        show f (s.cursor.eat k).1 _ = _
        rw [heat]
      have hp : (eat k >>= g) u = g (some s.cursor.peek) (u.move Cursor.advance) := by
        show g (u.cursor.eat k).1 _ = _
        rw [heat']
      rw [hq] at hclean ⊢
      rw [hp]
      exact (hsome _).run _ _ hs.advance hclean
    · have hkind' : u.cursor.kind ≠ k := by
        rw [hs.cursor_eq, Cursor.kind_soften, Ne, TokenKind.soften_eq_iff hk]
        exact hkind
      rw [eat_bind_of_ne hkind] at hclean ⊢
      rw [eat_bind_of_ne hkind']
      exact hnone.run _ _ hs hclean

theorem eats_bind {k : TokenKind} {f g : Bool → Parser β} (hk : k.isSteady = true)
    (htrue : Mirrors Y (Softer source m) K (f true) (g true))
    (hfalse : Mirrors Y (Softer source m) K (f false) (g false)) :
    Mirrors Y (Softer source m) K (eats k >>= f) (eats k >>= g) :=
  eat_bind (f := fun token => f token.isSome) (g := fun token => g token.isSome) hk
    (fun _ => htrue) hfalse

theorem at?_bind {k : TokenKind} {f g : Bool → Parser β} (hk : k.isSteady = true)
    (htrue : Mirrors Y (Softer source m) K (f true) (g true))
    (hfalse : Mirrors Y (Softer source m) K (f false) (g false)) :
    Mirrors Y (Softer source m) K (at? k >>= f) (at? k >>= g) := by
  refine look_any (fun s u hs => ?_) fun found => ?_
  · rw [hs.cursor_eq, Cursor.kind_soften, Bool.eq_iff_iff, beq_iff_eq, beq_iff_eq,
      TokenKind.soften_eq_iff hk]
  · cases found with
    | true => exact htrue
    | false => exact hfalse

/-- Where the first production makes a report the other one does not matter. -/
theorem report_bind {fault : SyntaxFault} {span : Span} {f : Unit → Parser β} {p : Parser β}
    (h : ∀ s, Onward s (f () s).2) : Mirrors Y I K (report fault span >>= f) p where
  onward s := by
    have hreport : Onward s (report fault span s).2 :=
      ⟨List.suffix_rfl, List.suffix_rfl, rfl, List.prefix_append _ _⟩
    exact hreport.trans (h _)
  run s _ _ hclean := .inl (Leads.report_bind (D := fun _ => True) h s trivial hclean)

theorem expected_bind {expectation : Expectation} {token : Token} {f : Unit → Parser β}
    {p : Parser β} (h : ∀ s, Onward s (f () s).2) :
    Mirrors Y I K (expected expectation token >>= f) p :=
  report_bind h

/-- A name under 3.7 is a name under the other version. -/
theorem expectIdentifier_bind {f g : Option Identifier → Parser β}
    (hsome : ∀ ident, Mirrors Y (Softer source m) K (f (some ident)) (g (some ident)))
    (hnone : ∀ s, Onward s (f none s).2) :
    Mirrors Y (Softer source m) K (expectIdentifier >>= f) (expectIdentifier >>= g) := by
  rw [expectIdentifier_bind_eq, expectIdentifier_bind_eq]
  refine peek_bind (fun token _ => ?_) fun token hword => ?_
  · cases identifier? token with
    | some ident => exact (advance_bind (hsome ident)).pre fun _ _ hs => hs.1
    | none => exact expected_bind hnone
  · have hident : identifier? token = none := by
      rcases hword with hk | hk
      all_goals rw [identifier?, hk]
    rw [hident]
    exact expected_bind hnone

/-- Behind a production that keeps in step. -/
theorem bind_agree (h : Mirrors X I (Agree source m) q p)
    (hf : ∀ a, Mirrors Y (Softer source m) K (f a) (g a)) (hX : ∀ a, Leads (X a) Y (f a)) :
    Mirrors Y I K (q >>= f) (p >>= g) :=
  h.bind (fun a b => {
    onward := (hf a).onward
    run := fun s u ⟨hab, hs⟩ hclean => by
      subst hab
      exact (hf a).run s u hs hclean }) hX

end Mirrors

/-! ### Going round -/

section Loops

variable {α β : Type} {giveUp : α → β} {step step' : α → Parser (LoopStep α β)} {a : α} {b : β}
  {r : LoopStep α β}

/-- After a step with the outcome `r` the loop yields `b` and reads no further. -/
def ComesTo (giveUp : α → β) (step : α → Parser (LoopStep α β)) (s : ParserState) (b : β) :
    LoopStep α β → Prop
  | .finished b' => b' = b
  | .again a => giveUp a = b ∧ step a s = (.finished b, s)

theorem ComesTo.loop_eq {t : ParserState} (h : ComesTo giveUp step t b r)
    (hr : step a s = (r, t)) : loop giveUp step a s = (b, t) := by
  rw [Parser.loop_eq, hr]
  cases r with
  | finished b' => exact Prod.ext h rfl
  | again a' =>
    obtain ⟨hgive, hagain⟩ := h
    dsimp only
    split
    · rw [Parser.loop_eq, hagain]
    · rw [hgive]

/-- The step is the last one and comes to a state where `D` holds. -/
def Ended (D : ParserState → Prop) : LoopStep α β → ParserState → Prop
  | .again _ => Nowhere
  | .finished _ => D

/-- A loop that reports nothing begins with a step that reports nothing. -/
theorem Parser.step_errors_eq_nil (honward : ∀ a s, Onward s (step a s).2)
    (hclean : (Parser.loop giveUp step a s).2.errors = []) : (step a s).2.errors = [] := by
  rw [loop_eq] at hclean
  cases hr : step a s with
  | mk r t =>
    rw [hr] at hclean
    cases r with
    | finished b => exact hclean
    | again a' =>
      dsimp only at hclean
      split at hclean
      · exact (Onward.loop honward a' t).errors_eq_nil hclean
      · exact hclean

/-- What holds behind a way out holds when the loop ends. -/
theorem Leads.loop {X : LoopStep α β → ParserState → Prop}
    (honward : ∀ a s, Onward s (step a s).2) (hX : ∀ a, Leads (X (.again a)) X (step a))
    (hgive : ∀ a s, X (.again a) s → X (.finished (giveUp a)) s) (a : α) :
    Leads (X (.again a)) (fun b => X (.finished b)) (Parser.loop giveUp step a) := by
  -- Induction on the number of tokens left.
  suffices ∀ n, ∀ a s, s.remaining = n → X (.again a) s →
      (Parser.loop giveUp step a s).2.errors = [] →
      X (.finished (Parser.loop giveUp step a s).1) (Parser.loop giveUp step a s).2 from
    fun s hs hclean => this _ a s rfl hs hclean
  intro n
  induction n using Nat.strongRecOn with
  | ind n ih =>
    intro a s hn hs hclean
    have hstep := hX a s hs (step_errors_eq_nil honward hclean)
    rw [loop_eq] at hclean ⊢
    cases hr : step a s with
    | mk r t =>
      rw [hr] at hstep hclean
      cases r with
      | finished b => exact hstep
      | again a' =>
        dsimp only at hstep hclean ⊢
        split
        · rename_i hlt
          rw [if_pos hlt] at hclean
          exact ih _ (hn ▸ hlt) a' t rfl hstep hclean
        · exact hgive a' t hstep

/-- What holds after one step of each loop: both go on together, or both come to their end before an
    asynchronous comprehension. -/
def StepEnd (source : String) (m : Nat) (R : β → β → Prop) (giveUp : α → β)
    (step step' : α → Parser (LoopStep α β)) (r r' : LoopStep α β) : Rel := fun s u =>
  Agree source m r r' s u ∨ Waiting source m s u
    ∧ ∃ b b', R b b' ∧ ComesTo giveUp step s b r ∧ ComesTo giveUp step' u b' r'

namespace Mirrors

/-- The rule for loops before which an asynchronous comprehension may come. -/
theorem loop_ends {X : LoopStep α β → ParserState → Prop} {R : β → β → Prop}
    (hstep : ∀ a, Mirrors X (Softer source m) (StepEnd source m R giveUp step step')
      (step a) (step' a))
    (hX : ∀ a, Leads (X (.again a)) X (step a))
    (hgive : ∀ a s, X (.again a) s → X (.finished (giveUp a)) s) (a : α) :
    Mirrors (fun b => X (.finished b)) (Softer source m) (End source m R)
      (Parser.loop giveUp step a) (Parser.loop giveUp step' a) where
  onward := Onward.loop (fun a => (hstep a).onward) a
  run s u hs hclean := by
    -- Induction on the number of tokens left, which is the same for both runs.
    suffices ∀ n, ∀ a s u, s.remaining = n → Softer source m s u →
        (Parser.loop giveUp step a s).2.errors = [] →
        X (.finished (Parser.loop giveUp step a s).1) (Parser.loop giveUp step a s).2
          ∨ End source m R (Parser.loop giveUp step a s).1 (Parser.loop giveUp step' a u).1
            (Parser.loop giveUp step a s).2 (Parser.loop giveUp step' a u).2 from
      this _ a s u rfl hs hclean
    intro n
    induction n using Nat.strongRecOn with
    | ind n ih =>
      intro a s u hn hs hclean
      have honward : ∀ a s, Onward s (step a s).2 := fun a => (hstep a).onward
      have hrun := (hstep a).run s u hs (step_errors_eq_nil honward hclean)
      cases hr : step a s with
      | mk r t =>
        cases hr' : step' a u with
        | mk r' w =>
          rw [hr, hr'] at hrun
          rcases hrun with hx | ⟨hrr, hs'⟩ | ⟨hwaiting, b, b', hR, hb, hb'⟩
          · -- On a way out the loop of 3.7 is followed alone.
            refine .inl ?_
            rw [loop_eq, hr] at hclean ⊢
            cases r with
            | finished b => exact hx
            | again a' =>
              dsimp only at hclean ⊢
              split
              · rename_i hlt
                rw [if_pos hlt] at hclean
                exact Leads.loop honward hX hgive a' t hx hclean
              · exact hgive a' t hx
          · dsimp only at hrr hs'
            subst hrr
            rw [loop_eq, hr] at hclean ⊢
            rw [loop_eq giveUp step', hr']
            cases r with
            | finished b => exact .inr (.inl ⟨rfl, hs'⟩)
            | again a' =>
              dsimp only at hclean ⊢
              rw [hs.remaining_eq, hs'.remaining_eq]
              split
              · rename_i hlt
                rw [if_pos hlt] at hclean
                exact ih _ (hn ▸ hlt) a' t w rfl hs' hclean
              · exact .inr (.inl ⟨rfl, hs'⟩)
          · rw [hb.loop_eq hr, hb'.loop_eq hr']
            exact .inr (.inr ⟨hR, hwaiting⟩)

/-- The rule for loops that go on together. -/
theorem loop {X : LoopStep α β → ParserState → Prop}
    (hstep : ∀ a, Mirrors X (Softer source m) (Agree source m) (step a) (step' a))
    (hX : ∀ a, Leads (X (.again a)) X (step a))
    (hgive : ∀ a s, X (.again a) s → X (.finished (giveUp a)) s) (a : α) :
    Mirrors (fun b => X (.finished b)) (Softer source m) (Agree source m)
      (Parser.loop giveUp step a) (Parser.loop giveUp step' a) := by
  refine (loop_ends (R := fun _ _ => False) (fun a => ?_) hX hgive a).post fun b b' s u h => ?_
  · exact (hstep a).post fun r r' s u h => .inl h
  · exact h.elim id fun h => h.1.elim

end Mirrors

end Loops

/-! ### Productions that keep in step -/

namespace InStep

variable {D : ParserState → Prop} {α β : Type} {K : β → β → Rel} {Y : β → ParserState → Prop}
  {q p : Parser α} {f g : α → Parser β}

theorem bind (h : InStep source m D q p)
    (hf : ∀ a, Mirrors Y (Softer source m) K (f a) (g a)) (hD : ∀ a, Leads D Y (f a)) :
    Mirrors Y (Softer source m) K (q >>= f) (p >>= g) :=
  h.bind_agree hf hD

/-- Behind a production that always keeps in step there is no way out to be followed. -/
theorem bind_all (h : InStep source m Nowhere q p)
    (hf : ∀ a, Mirrors Y (Softer source m) K (f a) (g a)) :
    Mirrors Y (Softer source m) K (q >>= f) (p >>= g) :=
  h.bind hf fun _ => .nowhere

theorem map (h : InStep source m D q p) (φ : α → β) : InStep source m D (φ <$> q) (φ <$> p) :=
  Mirrors.map (Y := fun _ => D) h

theorem discard (h : InStep source m D q p) :
    InStep source m D (Functor.discard q) (Functor.discard p) :=
  h.map _

theorem eat {k : TokenKind} (hk : k.isSteady = true) :
    InStep source m D (Parser.eat k) (Parser.eat k) := by
  rw [← bind_pure (Parser.eat k)]
  exact .eat_bind hk (fun _ => .done) .done

theorem loop {giveUp : α → β} {step step' : α → Parser (LoopStep α β)}
    (hstep : ∀ a, InStep source m D (step a) (step' a))
    (hD : ∀ a, Leads D (fun _ => D) (step a)) (a : α) :
    InStep source m D (Parser.loop giveUp step a) (Parser.loop giveUp step' a) :=
  Mirrors.loop (X := fun _ => D) hstep hD (fun _ _ hs => hs) a

/-- The rule for loops that part only with their last step. -/
theorem loop_ended {giveUp : α → β} {step step' : α → Parser (LoopStep α β)}
    (hstep : ∀ a, Mirrors (Ended D) (Softer source m) (Agree source m) (step a) (step' a)) (a : α) :
    InStep source m D (Parser.loop giveUp step a) (Parser.loop giveUp step' a) :=
  Mirrors.loop (X := Ended D) hstep (fun _ => .nowhere) (fun _ _ hs => hs.elim) a

/-- The rule for loops whose steps always keep in step. -/
theorem loop_all {giveUp : α → β} {step step' : α → Parser (LoopStep α β)}
    (hstep : ∀ a, InStep source m Nowhere (step a) (step' a)) (a : α) :
    InStep source m Nowhere (Parser.loop giveUp step a) (Parser.loop giveUp step' a) :=
  loop hstep (fun _ => .nowhere) a

end InStep

namespace Ends

variable {α β : Type} {R : α → α → Prop} {K : β → β → Rel} {Y : β → ParserState → Prop}
  {q p : Parser α} {f g : α → Parser β}

/-- Behind a production that may end before an asynchronous comprehension. -/
theorem bind {I : Rel} {X : α → ParserState → Prop} (h : Mirrors X I (End source m R) q p)
    (hsame : ∀ a, Mirrors Y (Softer source m) K (f a) (g a))
    (hwaiting : ∀ a b s u, R a b → Waiting source m s u → (f a s).2.errors = [] →
      Y (f a s).1 (f a s).2 ∨ K (f a s).1 (g b u).1 (f a s).2 (g b u).2)
    (hlost : ∀ a, Leads (X a) Y (f a)) :
    Mirrors Y I K (q >>= f) (p >>= g) := by
  refine Mirrors.bind h (fun a b => ⟨(hsame a).onward, fun s u hs hclean => ?_⟩) hlost
  rcases hs with ⟨rfl, hs⟩ | ⟨hR, hs⟩
  · exact (hsame a).run s u hs hclean
  · exact hwaiting a b s u hR hs hclean

/-- Where no comprehension is looked for the reserved word is a way out. -/
theorem settle (h : Ends source m R q p) : InStep source m AtAsync q p :=
  h.weaken (fun _ _ hs => hs) (fun _ _ hs => hs.1) fun _ _ _ _ hj =>
    hj.elim .inr fun hj => .inl hj.2.atAsync

end Ends

end PyAtlas
