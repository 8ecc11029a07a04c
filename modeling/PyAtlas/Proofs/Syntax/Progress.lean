import PyAtlas.Proofs.Syntax.Line

/-!
# Parsers that make progress

A parser makes progress if it reads a token, and it reads on if it at least comes to no place
before the one where it began. Reading on never goes past the end of input: the token that stands
for it is looked at, but not read.

Loops end because every step that goes round reads a token, and parsers that call themselves end
because they have read one before. Neither is visible in the recursion, which is guarded: where
nothing has been read, `loop` and `nested` give up. `Alike m I Q p q` is about both at once. From
where `I` holds and fewer than `m` tokens remain, `p` does what `q` does, it reads on, and it reads
a token if `Q` holds of the place where it began and of what it yields. Since `q` may call something
else than `p` where `m` tokens or more remain, `Alike` tells on how many tokens a parser depends.

## Key results
- `Alike.bind`, `Alike.bind_read`, `Alike.bind_stay`: what is read first, or else later.
- `Alike.loop`, `Alike.loop_read`: loops whose steps read a token before they go round.
- `Forward.unmoved_or_lt`: a parser that reads on stays where it is, or makes progress.
-/

namespace PyAtlas

/-! ### Reading on -/

/-- The parser has come from `s` to `t` over tokens none of which is the end of input. -/
def Forward (s t : ParserState) : Prop :=
  ∃ n, ReadOn n s t ∧ ∀ u ∈ s.cursor.after.take n, u.kind ≠ .eof

namespace Forward

variable {s t u : ParserState}

theorem refl (s : ParserState) : Forward s s := ⟨0, .refl s, by simp⟩

theorem trans (h : Forward s t) (h' : Forward t u) : Forward s u := by
  obtain ⟨m, hread, hm⟩ := h
  obtain ⟨n, hread', hn⟩ := h'
  have htake : ∀ x ∈ s.cursor.after.take (m + n), x.kind ≠ .eof := by
    intro x hx
    rw [List.take_add, List.mem_append] at hx
    rcases hx with hx | hx
    · exact hm x hx
    · rw [hread.after] at hn
      exact hn x hx
  exact ⟨m + n, hread.trans hread', htake⟩

theorem remaining_le (h : Forward s t) : t.remaining ≤ s.remaining := by
  obtain ⟨n, hread, -⟩ := h
  rw [hread.remaining]
  omega

theorem tokens (h : Forward s t) : t.cursor.tokens = s.cursor.tokens := by
  obtain ⟨n, hread, -⟩ := h
  exact hread.tokens

/-- A parser that reads on stays where it is, or makes progress. -/
theorem unmoved_or_lt (h : Forward s t) :
    t.cursor = s.cursor ∨ t.remaining < s.remaining := by
  obtain ⟨n, hread, -⟩ := h
  by_cases hnil : s.cursor.after = []
  · have hstay : ∀ k, s.cursor.advanceBy k = s.cursor := by
      intro k
      induction k with
      | zero => rfl
      | succ k ih => rw [Cursor.advanceBy, Cursor.advance_of_nil hnil, ih]
    left
    rw [hread.cursor, hstay n]
  · have hpos : 0 < s.remaining := List.length_pos_iff.2 hnil
    cases n with
    | zero => exact .inl hread.cursor
    | succ n =>
      right
      rw [hread.remaining]
      omega

/-- A parser that has come to the end of input leaves it to be read. -/
theorem after_eq_endOfInput {ts : List Token} {size : Nat} (h : Forward s t)
    (hs : s.cursor.after = ts ++ [Token.endOfInput size]) (hts : ∀ u ∈ ts, u.kind ≠ .eof)
    (heof : t.cursor.kind = .eof) : t.cursor.after = [Token.endOfInput size] := by
  obtain ⟨n, hread, hne⟩ := h
  have hn : n ≤ ts.length := by
    apply Nat.le_of_not_lt
    intro hlt
    apply hne (Token.endOfInput size) _ rfl
    rw [hs, List.take_of_length_le (by simp; omega)]
    simp
  have hafter : t.cursor.after = ts.drop n ++ [Token.endOfInput size] := by
    rw [hread.after, hs, List.drop_append_of_le_length hn]
  cases hrest : ts.drop n with
  | nil => rw [hafter, hrest, List.nil_append]
  | cons u us =>
    rw [hrest, List.cons_append] at hafter
    rw [Cursor.kind_eq, Cursor.peek_of_after hafter] at heof
    have hmem : u ∈ ts := List.mem_of_mem_drop (i := n) (by simp [hrest])
    exact absurd heof (hts u hmem)

/-- Fewer tokens after the cursor are more tokens before it. -/
theorem index_lt (h : Forward s t) (hlt : t.remaining < s.remaining) :
    s.cursor.index < t.cursor.index := by
  have hs := s.cursor.index_add_remaining
  have ht := t.cursor.index_add_remaining
  rw [h.tokens] at ht
  simp only [ParserState.remaining] at hlt
  omega

theorem report (s : ParserState) (fault : SyntaxFault) (span : Span) :
    Forward s (Parser.report fault span s).2 :=
  ⟨0, ⟨rfl, List.prefix_append _ _⟩, by simp⟩

theorem move {n : Nat} (h : ∀ u ∈ s.cursor.after.take n, u.kind ≠ .eof) :
    Forward s (s.move (Cursor.advanceBy n)) :=
  ⟨n, ⟨rfl, List.prefix_rfl⟩, h⟩

theorem advance (h : s.cursor.kind ≠ .eof) : Forward s (s.move Cursor.advance) := by
  apply move (n := 1)
  intro u hu
  cases hafter : s.cursor.after with
  | nil => simp [hafter] at hu
  | cons t ts =>
    rw [Cursor.kind_eq, Cursor.peek_of_after hafter] at h
    simp only [hafter, List.take_succ_cons, List.take_zero, List.mem_singleton] at hu
    rwa [hu]

theorem skipNewlines (s : ParserState) : Forward s (s.move Cursor.skipNewlines) := by
  apply move
  intro u hu
  rw [← List.prefix_iff_eq_take.1 (List.takeWhile_prefix _)] at hu
  have hnewline : u.kind = .newline := by
    simpa using List.all_eq_true.1 List.all_takeWhile u hu
  simp [hnewline]

/-- The rest of a line lies before the end of input. -/
theorem lineLength_ne_eof (ts : List Token) :
    ∀ u ∈ ts.take (Cursor.lineLength ts), u.kind ≠ .eof := by
  induction ts with
  | nil => simp
  | cons t ts ih =>
    intro u hu
    rw [Cursor.lineLength] at hu
    split at hu
    · simp at hu
    · rename_i hnewline
      simp only [List.take_succ_cons, List.take_zero, List.mem_singleton] at hu
      simp [hu, hnewline]
    · rename_i heof _
      simp only [List.take_succ_cons, List.mem_cons] at hu
      rcases hu with rfl | hu
      · exact heof
      · exact ih u hu

theorem skipLine (s : ParserState) : Forward s (s.move Cursor.skipLine) :=
  move (lineLength_ne_eof s.cursor.after)

/-- What is passed over up to a closing bracket lies before the end of input. -/
theorem closingDistance_ne_eof (depth : Nat) (ts : List Token) :
    ∀ u ∈ ts.take (Cursor.closingDistance depth ts), u.kind ≠ .eof := by
  induction ts generalizing depth with
  | nil => simp
  | cons t ts ih =>
    -- Wherever a token is passed over, it is none that ends the line.
    have hstep : ∀ depth, t.kind ≠ .eof →
        ∀ u ∈ (t :: ts).take (Cursor.closingDistance depth ts + 1), u.kind ≠ .eof := by
      intro depth ht u hu
      simp only [List.take_succ_cons, List.mem_cons] at hu
      rcases hu with rfl | hu
      · exact ht
      · exact ih depth u hu
    rw [Cursor.closingDistance.eq_def]
    dsimp only
    split
    · simp
    · simp
    · rename_i op hop
      have ht : t.kind ≠ .eof := by simp [hop]
      split
      · exact hstep _ ht
      · split
        · cases depth with
          | zero => simp
          | succ depth => exact hstep _ ht
        · exact hstep _ ht
    · rename_i heof _ _
      exact hstep _ heof

theorem skipToClosing (s : ParserState) : Forward s (s.move Cursor.skipToClosing) :=
  move (closingDistance_ne_eof 0 s.cursor.after)

end Forward

/-! ### Parsers that depend on few tokens -/

/-- From where `I` holds and fewer than `m` tokens remain, `p` does what `q` does and reads on, and
    it reads a token if `Q` holds of the place where it began and of what it yields. -/
def Alike (m : Nat) (I : Cursor → Prop) {α : Type} (Q : Cursor → α → Prop) (p q : Parser α) :
    Prop :=
  ∀ s, s.remaining < m → I s.cursor →
    p s = q s ∧ Forward s (q s).2 ∧ (Q s.cursor (q s).1 → (q s).2.remaining < s.remaining)

/-- Wherever fewer than `m` tokens remain, `p` does what `q` does and reads on. -/
abbrev AlikeAnywhere (m : Nat) {α : Type} (p q : Parser α) : Prop :=
  Alike m (fun _ => True) (fun _ _ => False) p q

/-- From where `I` holds and fewer than `m` tokens remain, `p` does what `q` does and reads a
    token. -/
abbrev AlikeReading (m : Nat) (I : Cursor → Prop) {α : Type} (p q : Parser α) : Prop :=
  Alike m I (fun _ _ => True) p q

/-- A step has not ended its loop. -/
def Parser.LoopStep.GoesRound {α β : Type} : LoopStep α β → Prop
  | .again _ => True
  | .finished _ => False

/-- The steps of a loop do the same and read a token before they go round. -/
abbrev AlikeSteps (m : Nat) {α β : Type} (step step' : α → Parser (Parser.LoopStep α β)) : Prop :=
  ∀ a, Alike m (fun _ => True) (fun _ => Parser.LoopStep.GoesRound) (step a) (step' a)

namespace Alike

open PyAtlas.Parser

variable {m : Nat} {I J : Cursor → Prop} {α β γ : Type}
  {P : Cursor → α → Prop} {Q : Cursor → β → Prop}
  {p q : Parser α} {p' q' : Parser α} {f g : α → Parser β}

/-! ### Putting parsers together -/

theorem mono {n : Nat} (h : Alike n I P p q) (hle : m ≤ n) : Alike m I P p q :=
  fun s hs => h s (Nat.lt_of_lt_of_le hs hle)

/-- More is known before, or less is asked for afterwards. -/
theorem weaken {P' : Cursor → α → Prop} (h : Alike m J P' p q) (hI : ∀ c, I c → J c)
    (hP : ∀ c a, I c → P c a → P' c a) : Alike m I P p q := by
  intro s hs hi
  obtain ⟨heq, hforward, hlt⟩ := h s hs (hI _ hi)
  exact ⟨heq, hforward, fun ha => hlt (hP _ _ hi ha)⟩

theorem of (h : Alike m J P p q) (hI : ∀ c, I c → J c) : Alike m I P p q :=
  h.weaken hI fun _ _ _ ha => ha

/-- What does the same everywhere does the same where `I` holds, whether it reads a token or not. -/
theorem anywhere (h : Alike m (fun _ => True) P p q) : Alike m I (fun _ _ => False) p q :=
  h.weaken (fun _ _ => trivial) fun _ _ _ => False.elim

/-- Whether a token is read may not matter. -/
theorem quiet (h : Alike m I P p q) : Alike m I (fun _ _ => False) p q :=
  h.weaken (fun _ hi => hi) fun _ _ _ => False.elim

/-- What reads a token from some places does so from each of them. -/
theorem reading_of {Q : Cursor → Prop} (h : Alike m (fun _ => True) (fun c _ => Q c) p q)
    (hI : ∀ c, I c → Q c) : AlikeReading m I p q :=
  h.weaken (fun _ _ => trivial) fun _ _ hi _ => hI _ hi

/-- What reads a token does so whatever it yields. -/
theorem reading (h : AlikeReading m I p q) : Alike m I P p q :=
  h.weaken (fun _ hi => hi) fun _ _ _ _ => trivial

theorem pure {a : α} (h : ∀ c, I c → ¬ P c a) : Alike m I P (Pure.pure a) (Pure.pure a) :=
  fun s _ hi => ⟨rfl, .refl s, fun ha => absurd ha (h s.cursor hi)⟩

theorem done {a : α} : Alike m I (fun _ _ => False) (Pure.pure a) (Pure.pure a) :=
  pure fun _ _ => id

/-- The end of a loop. -/
theorem finished {b : β} :
    Alike m I (fun _ => LoopStep.GoesRound) (Pure.pure (LoopStep.finished b : LoopStep α β))
      (Pure.pure (.finished b)) :=
  pure fun _ _ => id

theorem bind_apply {s : ParserState} (hp : p s = q s)
    (hf : f (q s).1 (q s).2 = g (q s).1 (q s).2) : (p >>= f) s = (q >>= g) s := by
  show f (p s).1 (p s).2 = g (q s).1 (q s).2
  rw [hp, hf]

/-- The rest reads a token where one has to be read. -/
theorem bind {Q : β → Prop} (h : AlikeAnywhere m p q)
    (hf : ∀ a, Alike m (fun _ => True) (fun _ => Q) (f a) (g a)) :
    Alike m I (fun _ => Q) (p >>= f) (q >>= g) := by
  intro s hs _
  obtain ⟨heq, hforward, -⟩ := h s hs trivial
  have hmid : (q s).2.remaining < m := Nat.lt_of_le_of_lt hforward.remaining_le hs
  obtain ⟨heq', hforward', hlt⟩ := hf (q s).1 (q s).2 hmid trivial
  refine ⟨bind_apply heq heq', hforward.trans hforward', fun hQ => ?_⟩
  exact Nat.lt_of_lt_of_le (hlt hQ) hforward.remaining_le

/-- What is read first is enough wherever a token has to be read. -/
theorem bind_first {Q : Cursor → Prop} (h : Alike m I (fun c _ => Q c) p q)
    (hf : ∀ a, AlikeAnywhere m (f a) (g a)) : Alike m I (fun c _ => Q c) (p >>= f) (q >>= g) := by
  intro s hs hi
  obtain ⟨heq, hforward, hlt⟩ := h s hs hi
  have hmid : (q s).2.remaining < m := Nat.lt_of_le_of_lt hforward.remaining_le hs
  obtain ⟨heq', hforward', -⟩ := hf (q s).1 (q s).2 hmid trivial
  refine ⟨bind_apply heq heq', hforward.trans hforward', fun hQ => ?_⟩
  exact Nat.lt_of_le_of_lt hforward'.remaining_le (hlt hQ)

/-- A token is read first. -/
theorem bind_read (h : AlikeReading m I p q) (hf : ∀ a, AlikeAnywhere m (f a) (g a)) :
    Alike m I Q (p >>= f) (q >>= g) :=
  (bind_first h hf).reading

/-- A token is read first, and the rest has fewer tokens left. -/
theorem bind_read_succ (h : AlikeReading (m + 1) I p q) (hf : ∀ a, AlikeAnywhere m (f a) (g a)) :
    Alike (m + 1) I Q (p >>= f) (q >>= g) := by
  intro s hs hi
  obtain ⟨heq, hforward, hlt⟩ := h s hs hi
  have hread : (q s).2.remaining < s.remaining := hlt trivial
  have hmid : (q s).2.remaining < m := by omega
  obtain ⟨heq', hforward', -⟩ := hf (q s).1 (q s).2 hmid trivial
  refine ⟨bind_apply heq heq', hforward.trans hforward', fun _ => ?_⟩
  exact Nat.lt_of_le_of_lt hforward'.remaining_le hread

/-- Where nothing is read first, `I` holds of the rest, which reads a token then. -/
theorem bind_stay (h : AlikeAnywhere m p q) (hf : ∀ a, AlikeAnywhere m (f a) (g a))
    (hstay : ∀ a, Alike m I Q (f a) (g a)) : Alike m I Q (p >>= f) (q >>= g) := by
  intro s hs hi
  obtain ⟨heq, hforward, -⟩ := h s hs trivial
  have hmid : (q s).2.remaining < m := Nat.lt_of_le_of_lt hforward.remaining_le hs
  obtain ⟨heq', hforward', -⟩ := hf (q s).1 (q s).2 hmid trivial
  refine ⟨bind_apply heq heq', hforward.trans hforward', fun hQ => ?_⟩
  rcases hforward.unmoved_or_lt with hunmoved | hlt
  · obtain ⟨-, -, hlt⟩ := hstay (q s).1 (q s).2 hmid (hunmoved ▸ hi)
    rw [hunmoved] at hlt
    exact Nat.lt_of_lt_of_le (hlt hQ) hforward.remaining_le
  · exact Nat.lt_of_le_of_lt hforward'.remaining_le hlt

theorem map {h : α → β} (hp : Alike m I P p q) (hQ : ∀ c a, Q c (h a) → P c a) :
    Alike m I Q (h <$> p) (h <$> q) := by
  intro s hs hi
  obtain ⟨heq, hforward, hlt⟩ := hp s hs hi
  have hrun : (h <$> p) s = (h <$> q) s := by
    show (h (p s).1, (p s).2) = (h (q s).1, (q s).2)
    rw [heq]
  exact ⟨hrun, hforward, fun ha => hlt (hQ _ _ ha)⟩

theorem mapped {h : α → β} (hp : Alike m I (fun _ _ => False) p q) :
    Alike m I (fun _ _ => False) (h <$> p) (h <$> q) :=
  hp.map fun _ _ => id

theorem discard (h : AlikeAnywhere m p q) :
    AlikeAnywhere m (Functor.discard p) (Functor.discard q) :=
  h.mapped

theorem ite {c : Prop} [Decidable c] (h : c → Alike m I P p q) (h' : ¬ c → Alike m I P p' q') :
    Alike m I P (if c then p else p') (if c then q else q') := by
  by_cases hc : c
  · simp only [if_pos hc]
    exact h hc
  · simp only [if_neg hc]
    exact h' hc

/-! ### Looking ahead -/

/-- What has been seen is known afterwards. -/
theorem look_bind {look : Cursor → α}
    (h : ∀ a, Alike m (fun c => I c ∧ look c = a) Q (f a) (g a)) :
    Alike m I Q (Parser.look look >>= f) (Parser.look look >>= g) :=
  fun s hs hi => h (look s.cursor) s hs ⟨hi, rfl⟩

/-- What has been seen often does not matter. -/
theorem look_bind_any {look : Cursor → α} (h : ∀ a, Alike m I Q (f a) (g a)) :
    Alike m I Q (Parser.look look >>= f) (Parser.look look >>= g) :=
  fun s hs hi => h (look s.cursor) s hs hi

theorem peek_bind {f g : Token → Parser β}
    (h : ∀ token, Alike m (fun c => I c ∧ c.peek = token) Q (f token) (g token)) :
    Alike m I Q (peek >>= f) (peek >>= g) :=
  look_bind h

theorem spanFrom_done {start : Span} {h : Span → β} :
    AlikeAnywhere m (spanFrom start >>= fun span => Pure.pure (h span))
      (spanFrom start >>= fun span => Pure.pure (h span)) :=
  look_bind_any fun _ => done

/-! ### Reading and reporting -/

theorem advance (hI : ∀ c, I c → c.kind ≠ .eof) :
    AlikeReading m I Parser.advance Parser.advance :=
  fun _ _ hi => ⟨rfl, .advance (hI _ hi), fun _ => Cursor.remaining_advance_lt (hI _ hi)⟩

theorem next (hI : ∀ c, I c → c.kind ≠ .eof) : AlikeReading m I Parser.next Parser.next :=
  fun _ _ hi => ⟨rfl, .advance (hI _ hi), fun _ => Cursor.remaining_advance_lt (hI _ hi)⟩

/-- A token that has been looked at and is not the end of input may be read. -/
theorem advance_peeked {token : Token} (h : token.kind ≠ .eof) :
    AlikeReading m (fun c => I c ∧ c.peek = token) Parser.advance Parser.advance := by
  apply advance
  intro c hc
  rwa [Cursor.kind_eq, hc.2]

/-- Where the token behind the next one has been seen as well, that is known once the next one has
    been read. -/
theorem bind_to (hp : ∀ s, (p s).2 = s.move Cursor.advance) (hI : ∀ c, I c → c.kind ≠ .eof)
    (hJ : ∀ c, I c → J c.advance) (hf : ∀ a, Alike m J (fun _ _ => False) (f a) (g a)) :
    Alike (m + 1) I Q (p >>= f) (p >>= g) := by
  intro s hs hi
  have hread : (s.move Cursor.advance).remaining < s.remaining :=
    Cursor.remaining_advance_lt (hI _ hi)
  have hmid : (s.move Cursor.advance).remaining < m := by omega
  obtain ⟨heq, hforward, -⟩ := hf (p s).1 (s.move Cursor.advance) hmid (hJ _ hi)
  rw [← hp s] at heq hforward hread
  have hfirst : Forward s (p s).2 := by
    rw [hp s]
    exact .advance (hI _ hi)
  refine ⟨bind_apply rfl heq, hfirst.trans hforward, fun _ => ?_⟩
  exact Nat.lt_of_le_of_lt hforward.remaining_le hread

/-- A token is read if it is of the given kind. -/
theorem eat {k : TokenKind} (hk : k ≠ .eof) :
    Alike m I (fun _ token => token.isSome = true) (Parser.eat k) (Parser.eat k) := by
  intro s _ _
  by_cases hkind : s.cursor.kind = k
  · have heat : Parser.eat k s = (some s.cursor.peek, s.move Cursor.advance) := by
      simp only [Parser.eat, Cursor.eat, if_pos hkind, ParserState.move]
    have heof : s.cursor.kind ≠ .eof := by rwa [hkind]
    rw [heat]
    exact ⟨rfl, .advance heof, fun _ => Cursor.remaining_advance_lt heof⟩
  · have heat : Parser.eat k s = (none, s) := by
      simp only [Parser.eat, Cursor.eat, if_neg hkind]
    rw [heat]
    exact ⟨rfl, .refl s, fun hsome => by cases hsome⟩

theorem eat_anywhere {k : TokenKind} (hk : k ≠ .eof) :
    AlikeAnywhere m (Parser.eat k) (Parser.eat k) :=
  (eat hk).anywhere

theorem eats_anywhere {k : TokenKind} (hk : k ≠ .eof) :
    AlikeAnywhere m (Parser.eats k) (Parser.eats k) :=
  bind (eat_anywhere hk) fun _ => done

/-- What follows a token that is read if it comes next, and what follows where it does not. -/
theorem eats_bind_ne {k : TokenKind} (hk : k ≠ .eof) {f g : Bool → Parser β}
    (h : AlikeAnywhere m (f true) (g true))
    (h' : Alike m (fun c => I c ∧ c.kind ≠ k) Q (f false) (g false)) :
    Alike m I Q (Parser.eats k >>= f) (Parser.eats k >>= g) := by
  intro s hs hi
  by_cases hkind : s.cursor.kind = k
  · have heats : ∀ f : Bool → Parser β,
        (Parser.eats k >>= f) s = f true (s.move Cursor.advance) := by
      intro f
      show f (s.cursor.eat k).1.isSome { s with cursor := (s.cursor.eat k).2 } = _
      simp only [Cursor.eat, if_pos hkind, Option.isSome_some, ParserState.move]
    have heof : s.cursor.kind ≠ .eof := by rwa [hkind]
    have hread : (s.move Cursor.advance).remaining < s.remaining :=
      Cursor.remaining_advance_lt heof
    obtain ⟨heq, hforward, -⟩ := h _ (Nat.lt_trans hread hs) trivial
    rw [heats f, heats g]
    refine ⟨heq, (Forward.advance heof).trans hforward, fun _ => ?_⟩
    exact Nat.lt_of_le_of_lt hforward.remaining_le hread
  · have heats : ∀ f : Bool → Parser β, (Parser.eats k >>= f) s = f false s := by
      intro f
      show f (s.cursor.eat k).1.isSome { s with cursor := (s.cursor.eat k).2 } = _
      simp only [Cursor.eat, if_neg hkind, Option.isSome_none]
    rw [heats f, heats g]
    exact h' s hs ⟨hi, hkind⟩

theorem eats_bind {k : TokenKind} (hk : k ≠ .eof) {f g : Bool → Parser β}
    (h : AlikeAnywhere m (f true) (g true)) (h' : Alike m I Q (f false) (g false)) :
    Alike m I Q (Parser.eats k >>= f) (Parser.eats k >>= g) :=
  eats_bind_ne hk h (h'.of fun _ => And.left)

theorem report {fault : SyntaxFault} {span : Span} :
    AlikeAnywhere m (Parser.report fault span) (Parser.report fault span) :=
  fun s _ _ => ⟨rfl, .report s fault span, False.elim⟩

/-- A report reads nothing, so what has been seen is still known behind it. -/
theorem report_bind {fault : SyntaxFault} {span : Span} {f g : Unit → Parser β}
    (h : Alike m I Q (f ()) (g ())) :
    Alike m I Q (Parser.report fault span >>= f) (Parser.report fault span >>= g) := by
  intro s hs hi
  obtain ⟨heq, hforward, hlt⟩ := h (Parser.report fault span s).2 hs hi
  exact ⟨heq, (Forward.report s fault span).trans hforward, hlt⟩

theorem expected_bind {expectation : Expectation} {token : Token} {f g : Unit → Parser β}
    (h : Alike m I Q (f ()) (g ())) :
    Alike m I Q (Parser.expected expectation token >>= f)
      (Parser.expected expectation token >>= g) :=
  report_bind h

theorem skipToClosing : AlikeAnywhere m Parser.skipToClosing Parser.skipToClosing :=
  fun s _ _ => ⟨rfl, .skipToClosing s, False.elim⟩

theorem skipNewlines : AlikeAnywhere m Parser.skipNewlines Parser.skipNewlines :=
  fun s _ _ => ⟨rfl, .skipNewlines s, False.elim⟩

/-- Behind the newlines that come next there is something else. -/
theorem skipNewlines_bind {Q : β → Prop} {f g : Unit → Parser β}
    (h : Alike m (fun c => c.kind ≠ .newline) (fun _ => Q) (f ()) (g ())) :
    Alike m I (fun _ => Q) (Parser.skipNewlines >>= f) (Parser.skipNewlines >>= g) := by
  intro s hs _
  have hforward : Forward s (s.move Cursor.skipNewlines) := .skipNewlines s
  have hmid : (s.move Cursor.skipNewlines).remaining < m :=
    Nat.lt_of_le_of_lt hforward.remaining_le hs
  obtain ⟨heq, hforward', hlt⟩ := h _ hmid (Cursor.kind_skipNewlines s.cursor)
  refine ⟨heq, hforward.trans hforward', fun hQ => ?_⟩
  exact Nat.lt_of_lt_of_le (hlt hQ) hforward.remaining_le

theorem skipLine_anywhere : AlikeAnywhere m Parser.skipLine Parser.skipLine :=
  fun s _ _ => ⟨rfl, .skipLine s, False.elim⟩

/-- Before the end of input the rest of a line has a token at least. -/
theorem skipLine (hI : ∀ c, I c → c.kind ≠ .eof) :
    AlikeReading m I Parser.skipLine Parser.skipLine :=
  fun s _ hi => ⟨rfl, .skipLine s, fun _ => Cursor.remaining_skipLine_lt (hI _ hi)⟩

/-- The token that comes next is not the end, if it is of another kind. -/
theorem ne_eof_of_peek {I : Cursor → Prop} {token : Token} {kind : TokenKind}
    (hkind : token.kind = kind) (hne : kind ≠ .eof) :
    ∀ c : Cursor, I c ∧ c.peek = token → c.kind ≠ .eof := by
  rintro c ⟨-, rfl⟩
  rwa [Cursor.kind_eq, hkind]

theorem ne_eof_of_identifier? {token : Token} {ident : Identifier}
    (h : identifier? token = some ident) : token.kind ≠ .eof := by
  intro heof
  have hplain := isLayout_of_identifier? h
  simp [heof, TokenKind.isLayout] at hplain

/-- A name is read if it comes next. -/
theorem expectIdentifier :
    Alike m (fun _ => True) (fun c _ => (identifier? c.peek).isSome = true)
      Parser.expectIdentifier Parser.expectIdentifier := by
  unfold Parser.expectIdentifier
  apply peek_bind
  intro token
  split
  · rename_i ident hident
    exact bind_read (advance_peeked (ne_eof_of_identifier? hident)) fun _ => done
  · rename_i hnone
    apply expected_bind
    apply pure
    rintro c ⟨-, rfl⟩
    simp [hnone]

/-! ### Going round -/

section Loops

variable {giveUp giveUp' : α → γ} {step step' : α → Parser (LoopStep α γ)}

/-- A loop goes round with fewer tokens left each time, so it never gives up. -/
theorem loop (hstep : AlikeSteps m step step') (a : α) :
    AlikeAnywhere m (Parser.loop giveUp step a) (Parser.loop giveUp' step' a) := by
  intro s hs _
  induction hl : s.remaining using Nat.strongRecOn generalizing a s with
  | ind l ih =>
    obtain ⟨heq, hforward, hlt⟩ := hstep a s hs trivial
    rw [loop_eq, loop_eq, heq]
    cases hr : step' a s with
    | mk r t =>
      rw [hr] at hforward hlt
      cases r with
      | finished b => exact ⟨rfl, hforward, False.elim⟩
      | again a' =>
        have hless : t.remaining < s.remaining := hlt trivial
        simp only [if_pos hless]
        obtain ⟨heq', hforward', -⟩ := ih _ (hl ▸ hless) a' t (Nat.lt_trans hless hs) rfl
        exact ⟨heq', hforward.trans hforward', False.elim⟩

/-- A loop leaves the tokens where its last step does. -/
theorem loop_finishes {K : ParserState → Prop} (hstep : AlikeSteps m step step)
    (hK : ∀ a s b t, step a s = (.finished b, t) → K t) (a : α) {s : ParserState}
    (hs : s.remaining < m) : K (Parser.loop giveUp step a s).2 := by
  induction hl : s.remaining using Nat.strongRecOn generalizing a s with
  | ind l ih =>
    obtain ⟨-, -, hlt⟩ := hstep a s hs trivial
    rw [loop_eq]
    cases hr : step a s with
    | mk r t =>
      rw [hr] at hlt
      cases r with
      | finished b => exact hK a s b t hr
      | again a' =>
        have hless : t.remaining < s.remaining := hlt trivial
        simp only [if_pos hless]
        exact ih _ (hl ▸ hless) a' (Nat.lt_trans hless hs) rfl

/-- If the first step reads a token, so does the loop. -/
theorem loop_read (hstep : AlikeSteps m step step') {a : α}
    (hfirst : AlikeReading m I (step a) (step' a)) :
    AlikeReading m I (Parser.loop giveUp step a) (Parser.loop giveUp step' a) := by
  intro s hs hi
  have hloop : ∀ a, AlikeAnywhere m (Parser.loop giveUp step a) (Parser.loop giveUp step' a) :=
    loop hstep
  obtain ⟨heq, hforward, -⟩ := hloop a s hs trivial
  refine ⟨heq, hforward, fun _ => ?_⟩
  have hread := (hfirst s hs hi).2.2 trivial
  rw [loop_eq]
  cases hr : step' a s with
  | mk r t =>
    rw [hr] at hread
    cases r with
    | finished b => exact hread
    | again a' =>
      simp only [if_pos hread]
      obtain ⟨-, hrest, -⟩ := hloop a' t (Nat.lt_trans hread hs) trivial
      exact Nat.lt_of_le_of_lt hrest.remaining_le hread

end Loops

end Alike

end PyAtlas
