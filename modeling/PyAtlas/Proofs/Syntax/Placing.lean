import PyAtlas.Proofs.Syntax.Line
import PyAtlas.Proofs.Syntax.SpanTree
import PyAtlas.Syntax.ParseExpr

/-!
# Parsers on the tokens of a text

The tokens of a text are ranges of it, one behind the other, and where one is a name, that is what
stands there. A parser that reads them in turn has read up to the end of the last of them, layout
apart, and what it has not read begins behind that.

`Places w I p J` is a triple about the runs of a parser on the tokens of a text. Under a survey of
trees without errors it speaks of the runs that report nothing. What is reported is a range of the
text in any case.

## Key definitions
- `Token.Sound`, `Cursor.InText`: tokens of a text, and a cursor on them.
- `Cursor.reached`, `Cursor.IsPast`: how far a text has been read.
- `Places`: what runs of a parser do with cursors and reports.

## Key results
- `sound_of_mem_tokenize`: all tokens of a text are sound.
- `Cursor.InText.isPast_reached`: what has been read stands before what has not been read.
- `Places.bind`, `Places.loop`: how parsers are put together.
-/

namespace PyAtlas

/-! ### Tokens of a text -/

/-- The token is a range of the text. If it is a name or a star, that is what stands there. -/
structure Token.Sound (t : Token) (source : String) : Prop where
  inText : t.span.InText source
  name : ∀ ident, Parser.identifier? t = some ident → (Mention.name ident).Genuine source
  star : t.kind = .operator .star → (Mention.name ⟨"*", t.span⟩).Genuine source

theorem Token.Sound.of_layout {t : Token} {source : String} (hin : t.span.InText source)
    (hlayout : t.kind.isLayout = true) : t.Sound source where
  inText := hin
  name ident hident := by
    rw [Parser.isLayout_of_identifier? hident] at hlayout
    cases hlayout
  star hstar := by
    rw [hstar] at hlayout
    cases hlayout

/-- All tokens of a text are sound. -/
theorem sound_of_mem_tokenize {v : Version} {source : String} {t : Token}
    (h : t ∈ tokenize v source) : t.Sound source := by
  have harranged := arranged_tokenize v source
  refine ⟨harranged.inText t h, fun ident hident => ?_, fun hstar => ?_⟩
  · have hword : t.kind.isWord = true := by
      rw [Parser.identifier?] at hident
      split at hident
      all_goals first
        | cases hident; done
        | rename_i hkind; rw [hkind]; rfl
    obtain ⟨hnonempty, htext⟩ := harranged.written t h hword
    rw [Parser.identifier?] at hident
    split at hident
    all_goals cases hident
    all_goals exact ⟨harranged.inText t h, hnonempty, htext⟩
  · obtain ⟨hnonempty, htext⟩ := harranged.written t h (by rw [hstar]; rfl)
    exact ⟨harranged.inText t h, hnonempty, htext.trans (text_of_star h hstar)⟩

/-! ### Places in a text -/

namespace Cursor

/-- The cursor is on tokens of the text. -/
structure InText (c : Cursor) (source : String) : Prop where
  size : c.size = source.utf8ByteSize
  arranged : Arranged source 0 c.tokens
  sound : ∀ t ∈ c.tokens, t.Sound source

/-- How much of the text has been read. -/
def reached (c : Cursor) : Nat := c.lastSpan.stop

/-- What has not been read stands behind the offset, dedents apart. -/
def IsPast (c : Cursor) (offset : Nat) : Prop :=
  offset ≤ c.size ∧ ∀ t ∈ c.after, t.kind ≠ .dedent → offset ≤ t.span.start

variable {c : Cursor} {source : String} {offset : Nat}

namespace InText

theorem endOfInput (h : c.InText source) : (Token.endOfInput c.size).Sound source := by
  refine .of_layout (.empty ⟨source.toList, [], (List.append_nil _).symm, ?_⟩) rfl
  rw [Text.byteSize_toList, h.size]

/-- The next token is sound, also at the end of the stream. -/
theorem peek (h : c.InText source) : c.peek.Sound source := by
  cases hafter : c.after with
  | nil =>
    rw [Cursor.peek, Cursor.peekNth, hafter]
    exact h.endOfInput
  | cons t ts =>
    rw [peek_of_after hafter]
    refine h.sound t ?_
    rw [tokens, hafter]
    exact List.mem_append_right _ List.mem_cons_self

theorem advanceBy (h : c.InText source) (n : Nat) : (c.advanceBy n).InText source where
  size := by rw [size_advanceBy, h.size]
  arranged := by
    rw [tokens_advanceBy]
    exact h.arranged
  sound := by
    rw [tokens_advanceBy]
    exact h.sound

theorem peekNth_one (h : c.InText source) : (c.peekNth 1).Sound source := by
  rw [← peek_advance]
  exact (h.advanceBy 1).peek

theorem lastSpan (h : c.InText source) : c.lastSpan.InText source := by
  rw [Cursor.lastSpan]
  split
  · rename_i t hfound
    refine (h.sound t ?_).inText
    exact List.mem_append_left _ (List.mem_reverse.2 (List.mem_of_find?_eq_some hfound))
  · exact .empty ⟨[], source.toList, rfl, rfl⟩

/-- What has been read stands before what has not been read. -/
theorem isPast_reached (h : c.InText source) : c.IsPast c.reached := by
  refine ⟨?_, fun u hu hk => ?_⟩
  · rw [h.size]
    exact h.lastSpan.stop_le
  · rw [reached, Cursor.lastSpan]
    split
    -- The last token read that is none of the layout stands before all that have not been read.
    · rename_i t hfound
      have hplain := List.find?_some hfound
      refine (List.pairwise_append.1 h.arranged.apart).2.2 t ?_ u hu ?_ hk
      · exact List.mem_reverse.2 (List.mem_of_find?_eq_some hfound)
      · intro hdedent
        rw [hdedent] at hplain
        cases hplain
    · exact Nat.zero_le _

/-- The next token begins behind the offset, and the others behind it. -/
theorem isPast_peek (h : c.InText source) (hplain : c.peek.kind.isLayout = false) :
    c.IsPast c.peek.span.start := by
  refine ⟨?_, fun u hu hk => ?_⟩
  · rw [h.size]
    exact Nat.le_trans h.peek.inText.ordered h.peek.inText.stop_le
  · cases hafter : c.after with
    | nil =>
      rw [hafter] at hu
      cases hu
    | cons t ts =>
      rw [hafter] at hu
      rw [peek_of_after hafter] at hplain ⊢
      rcases List.mem_cons.1 hu with rfl | hu
      · exact Nat.le_refl _
      · have hapart := (List.pairwise_append.1 h.arranged.apart).2.1
        rw [hafter] at hapart
        have hstop := (List.pairwise_cons.1 hapart).1 u hu
          (fun hdedent => by rw [hdedent] at hplain; cases hplain) hk
        have hordered : t.span.start ≤ t.span.stop := by
          have hsound := h.peek
          rw [peek_of_after hafter] at hsound
          exact hsound.inText.ordered
        exact Nat.le_trans hordered hstop

end InText

theorem IsPast.le_peek (h : c.IsPast offset) (hplain : c.peek.kind.isLayout = false) :
    offset ≤ c.peek.span.start := by
  cases hafter : c.after with
  | nil =>
    rw [Cursor.peek, Cursor.peekNth, hafter] at hplain
    cases hplain
  | cons t ts =>
    rw [peek_of_after hafter] at hplain ⊢
    refine h.2 t ?_ fun hdedent => ?_
    · rw [hafter]
      exact List.mem_cons_self
    · rw [hdedent] at hplain
      cases hplain

theorem IsPast.max {offset' : Nat} (h : c.IsPast offset) (h' : c.IsPast offset') :
    c.IsPast (max offset offset') :=
  ⟨Nat.max_le.2 ⟨h.1, h'.1⟩, fun t ht hk => Nat.max_le.2 ⟨h.2 t ht hk, h'.2 t ht hk⟩⟩

theorem IsPast.mono {offset' : Nat} (h : c.IsPast offset) (hle : offset' ≤ offset) :
    c.IsPast offset' :=
  ⟨Nat.le_trans hle h.1, fun t ht hk => Nat.le_trans hle (h.2 t ht hk)⟩

theorem IsPast.advanceBy (h : c.IsPast offset) (n : Nat) : (c.advanceBy n).IsPast offset := by
  refine ⟨?_, fun t ht => h.2 t ?_⟩
  · rw [size_advanceBy]
    exact h.1
  · rw [after_advanceBy] at ht
    exact List.mem_of_mem_drop ht

/-- A token that is read and is none of the layout is the last one read. -/
theorem lastSpan_advance (hplain : c.peek.kind.isLayout = false) :
    c.advance.lastSpan = c.peek.span := by
  cases hafter : c.after with
  | nil =>
    rw [peek, peekNth, hafter] at hplain
    cases hplain
  | cons t ts =>
    rw [peek_of_after hafter] at hplain ⊢
    rw [advance_of_after hafter, lastSpan, List.find?_cons_of_pos (by rw [hplain]; rfl)]

theorem reached_advance (hplain : c.peek.kind.isLayout = false) :
    c.advance.reached = c.peek.span.stop := by
  rw [reached, lastSpan_advance hplain]

theorem InText.reached_le_advance (h : c.InText source) : c.reached ≤ c.advance.reached := by
  by_cases hplain : c.peek.kind.isLayout = false
  · rw [reached_advance hplain]
    exact Nat.le_trans (h.isPast_reached.le_peek hplain) h.peek.inText.ordered
  -- Layout does not count as read, so nothing is gained by it.
  · cases hafter : c.after with
    | nil => exact Nat.le_of_eq (by rw [advance_of_nil hafter])
    | cons t ts =>
      rw [peek_of_after hafter] at hplain
      have hsame : c.advance.reached = c.reached := by
        rw [advance_of_after hafter, reached, reached, Cursor.lastSpan, Cursor.lastSpan,
          List.find?_cons_of_neg (by simpa using hplain)]
      exact Nat.le_of_eq hsame.symm

theorem InText.reached_le (h : c.InText source) (n : Nat) :
    c.reached ≤ (c.advanceBy n).reached := by
  induction n generalizing c with
  | zero => exact Nat.le_refl _
  | succ n ih => exact Nat.le_trans h.reached_le_advance (ih (h.advanceBy 1))

end Cursor

/-- The parser is on tokens of the text, and what it has reported is about the text. -/
structure ParserState.InText (s : ParserState) (source : String) : Prop where
  cursor : s.cursor.InText source
  errors : ∀ e ∈ s.errors, e.span.InText source

/-! ### Runs over the tokens of a text -/

/-- Reading a token of some kind is looking at the next one first. -/
theorem Parser.eat_bind_eq {β : Type} {k : TokenKind} {f : Option Token → Parser β} :
    (eat k >>= f) = (peek >>= fun token =>
      if token.kind = k then advance >>= fun _ => f (some token) else f none) := by
  funext s
  show f (s.cursor.eat k).1 { s with cursor := (s.cursor.eat k).2 }
    = (if s.cursor.peek.kind = k then advance >>= fun _ => f (some s.cursor.peek) else f none) s
  rw [Cursor.eat, Cursor.kind_eq]
  split <;> rfl

theorem Parser.expectIdentifier_bind_eq {β : Type} {f : Option Identifier → Parser β} :
    (expectIdentifier >>= f) = (peek >>= fun token =>
      match identifier? token with
      | some ident => advance >>= fun _ => f (some ident)
      | none => expected .identifier token >>= fun _ => f none) := by
  rw [expectIdentifier, bind_assoc]
  refine congrArg _ (funext fun token => ?_)
  cases identifier? token <;> rfl

/-- On the tokens of a text the parser goes on from where it is, and takes back no report. -/
def GoesOn (w : Survey) {α : Type} (p : Parser α) : Prop :=
  ∀ s, s.cursor.InText w.source → ∃ n, ReadOn n s (p s).2

/-- From a cursor where `I` holds the parser comes to one where `J` holds, and what it reports is
    about the text. Where only trees without errors are looked at this is said of the runs that
    report nothing. -/
structure Places (w : Survey) (I : Cursor → Prop) {α : Type} (p : Parser α)
    (J : α → Cursor → Prop) : Prop where
  onward : GoesOn w p
  places : ∀ s, s.InText w.source → I s.cursor → (w.quiet → (p s).2.errors = s.errors) →
    (∀ e ∈ (p s).2.errors, e.span.InText w.source) ∧ J (p s).1 (p s).2.cursor

section Runs

variable {w : Survey} {n : Nat} {s t u : ParserState}

theorem ReadOn.inText (h : ReadOn n s t) (hs : s.InText w.source)
    (herrors : ∀ e ∈ t.errors, e.span.InText w.source) : t.InText w.source :=
  ⟨h.cursor ▸ hs.cursor.advanceBy n, herrors⟩

theorem ReadOn.cursor_inText (h : ReadOn n s t) (hs : s.cursor.InText w.source) :
    t.cursor.InText w.source :=
  h.cursor ▸ hs.advanceBy n

theorem ReadOn.reached_le (h : ReadOn n s t) (hs : s.cursor.InText w.source) :
    s.cursor.reached ≤ t.cursor.reached :=
  h.cursor ▸ hs.reached_le n

/-- What two runs in a row do not report neither of them does. -/
theorem ReadOn.quiet_both {m : Nat} (h : ReadOn m s t) (h' : ReadOn n t u)
    (hquiet : w.quiet → u.errors = s.errors) :
    (w.quiet → t.errors = s.errors) ∧ (w.quiet → u.errors = t.errors) := by
  have hfirst : w.quiet → t.errors = s.errors := fun hq => by
    refine (h.errors.eq_of_length_le ?_).symm
    rw [← hquiet hq]
    exact h'.errors.length_le
  exact ⟨hfirst, fun hq => (hquiet hq).trans (hfirst hq).symm⟩

/-- A report is not taken back. -/
theorem ReadOn.ne_of_report {fault : SyntaxFault} {span : Span}
    (h : ReadOn n (Parser.report fault span s).2 t) : t.errors ≠ s.errors := by
  intro hsame
  have hlength := h.errors.length_le
  rw [hsame] at hlength
  simp only [Parser.report, List.length_append, List.length_singleton] at hlength
  omega

end Runs

namespace GoesOn

open PyAtlas.Parser

variable {w : Survey} {α β : Type} {p : Parser α} {f : α → Parser β}

theorem pure {a : α} : GoesOn w (Pure.pure a : Parser α) := fun s _ => ⟨0, .refl s⟩

theorem bind (h : GoesOn w p) (hf : ∀ a, GoesOn w (f a)) : GoesOn w (p >>= f) := by
  intro s hs
  obtain ⟨m, hfirst⟩ := h s hs
  obtain ⟨n, hrest⟩ := hf (p s).1 (p s).2 (hfirst.cursor_inText hs)
  exact ⟨m + n, hfirst.trans hrest⟩

theorem look_bind {g : Cursor → α} (h : ∀ a, GoesOn w (f a)) : GoesOn w (look g >>= f) :=
  fun s hs => h (g s.cursor) s hs

theorem ite {c : Prop} [Decidable c] {p q : Parser α} (h : GoesOn w p) (h' : GoesOn w q) :
    GoesOn w (if c then p else q) := by
  split
  · exact h
  · exact h'

theorem discard (h : GoesOn w p) : GoesOn w (Functor.discard p) := h

theorem skipToClosing : GoesOn w Parser.skipToClosing :=
  fun _ _ => ⟨_, rfl, List.prefix_rfl⟩

theorem advance : GoesOn w Parser.advance :=
  fun _ _ => ⟨1, rfl, List.prefix_rfl⟩

theorem eat_bind {k : TokenKind} {f : Option Token → Parser β}
    (hsome : ∀ token, GoesOn w (f (some token))) (hnone : GoesOn w (f none)) :
    GoesOn w (eat k >>= f) := by
  rw [eat_bind_eq]
  exact look_bind fun token => ite (advance.bind fun _ => hsome token) hnone

theorem eats_bind {k : TokenKind} {f : Bool → Parser β} (htrue : GoesOn w (f true))
    (hfalse : GoesOn w (f false)) : GoesOn w (eats k >>= f) :=
  eat_bind (f := fun token => f token.isSome) (fun _ => htrue) hfalse

theorem eat {k : TokenKind} : GoesOn w (Parser.eat k) :=
  eat_bind (f := Pure.pure) (fun _ => pure) pure

end GoesOn

namespace Places

open PyAtlas.Parser

variable {w : Survey} {I I' K : Cursor → Prop} {α β : Type} {J J' : α → Cursor → Prop}
  {L : β → Cursor → Prop} {p : Parser α} {f : α → Parser β}

theorem pure {a : α} (h : ∀ c, c.InText w.source → I c → J a c) : Places w I (Pure.pure a) J where
  onward := .pure
  places s hs hi _ := ⟨hs.errors, h s.cursor hs.cursor hi⟩

theorem bind (h : Places w I p J) (hf : ∀ a, Places w (J a) (f a) L) :
    Places w I (p >>= f) L where
  onward := h.onward.bind fun a => (hf a).onward
  places s hs hi hquiet := by
    obtain ⟨m, hfirst⟩ := h.onward s hs.cursor
    obtain ⟨n, hrest⟩ := (hf (p s).1).onward (p s).2 (hfirst.cursor_inText hs.cursor)
    obtain ⟨hquiet, hquiet'⟩ := hfirst.quiet_both hrest hquiet
    obtain ⟨herrors, hj⟩ := h.places s hs hi hquiet
    exact (hf (p s).1).places (p s).2 (hfirst.inText hs herrors) hj hquiet'

theorem weaken (h : Places w I p J) (hI : ∀ c, c.InText w.source → I' c → I c)
    (hJ : ∀ a c, c.InText w.source → J a c → J' a c) : Places w I' p J' where
  onward := h.onward
  places s hs hi hquiet := by
    obtain ⟨n, hread⟩ := h.onward s hs.cursor
    obtain ⟨herrors, hj⟩ := h.places s hs (hI s.cursor hs.cursor hi) hquiet
    exact ⟨herrors, hJ _ _ (hread.inText hs herrors).cursor hj⟩

theorem pre (h : Places w I p J) (hI : ∀ c, c.InText w.source → I' c → I c) : Places w I' p J :=
  h.weaken hI fun _ _ _ hj => hj

theorem post (h : Places w I p J) (hJ : ∀ a c, c.InText w.source → J a c → J' a c) :
    Places w I p J' :=
  h.weaken (fun _ _ hi => hi) hJ

theorem map {g : α → β} (h : Places w I p fun a => L (g a)) : Places w I (g <$> p) L :=
  ⟨h.onward, h.places⟩

theorem exists_pre {I : Nat → Cursor → Prop} (h : ∀ n, Places w (I n) p J) :
    Places w (fun c => ∃ n, I n c) p J where
  onward := (h 0).onward
  places s hs hi := by
    obtain ⟨n, hi⟩ := hi
    exact (h n).places s hs hi

/-- What has been seen is known of the cursor afterwards. -/
theorem look_bind {g : Cursor → α} (h : ∀ a, Places w (fun c => I c ∧ g c = a) (f a) L) :
    Places w I (look g >>= f) L where
  onward s hs := (h (g s.cursor)).onward s hs
  places s hs hi := (h (g s.cursor)).places s hs ⟨hi, rfl⟩

theorem move {g : Cursor → Cursor} (hg : ∀ c, ∃ n, g c = c.advanceBy n)
    (h : ∀ c, c.InText w.source → I c → K (g c)) : Places w I (Parser.move g) fun _ => K where
  onward s _ := by
    obtain ⟨n, hn⟩ := hg s.cursor
    exact ⟨n, hn, List.prefix_rfl⟩
  places s hs hi _ := ⟨hs.errors, h s.cursor hs.cursor hi⟩

/-- Where something has been reported there are errors. -/
theorem report_bind {fault : SyntaxFault} {span : Span} {f : Unit → Parser β}
    (hin : span.InText w.source) (h : Places w (fun c => I c ∧ ¬ w.quiet) (f ()) L) :
    Places w I (report fault span >>= f) L where
  onward s hs := by
    obtain ⟨n, hread⟩ := h.onward (report fault span s).2 hs
    exact ⟨n, hread.cursor, (List.prefix_append _ _).trans hread.errors⟩
  places s hs hi hquiet := by
    have hreported : ¬ w.quiet := fun hq =>
      have ⟨_, hread⟩ := h.onward (report fault span s).2 hs.cursor
      hread.ne_of_report (hquiet hq)
    refine h.places (report fault span s).2 ⟨hs.cursor, ?_⟩ ⟨hi, hreported⟩
      fun hq => absurd hq hreported
    exact List.forall_mem_append.2 ⟨hs.errors, List.forall_mem_singleton.2 hin⟩

theorem loop {R : LoopStep α β → Cursor → Prop} {giveUp : α → β}
    {step : α → Parser (LoopStep α β)} (hstep : ∀ a, Places w (R (.again a)) (step a) R)
    (hgive : ∀ a c, R (.again a) c → R (.finished (giveUp a)) c) (a : α) :
    Places w (R (.again a)) (Parser.loop giveUp step a) fun b => R (.finished b) := by
  suffices ∀ m, ∀ a s, s.remaining = m → s.cursor.InText w.source →
      (∃ n, ReadOn n s (Parser.loop giveUp step a s).2) ∧
      (s.InText w.source → R (.again a) s.cursor →
        (w.quiet → (Parser.loop giveUp step a s).2.errors = s.errors) →
        (∀ e ∈ (Parser.loop giveUp step a s).2.errors, e.span.InText w.source) ∧
          R (.finished (Parser.loop giveUp step a s).1)
            (Parser.loop giveUp step a s).2.cursor) from
    ⟨fun s hs => (this _ a s rfl hs).1, fun s hs => (this _ a s rfl hs.cursor).2 hs⟩
  -- The induction is on the tokens that remain. That the loop goes on needs no knowledge of what
  -- it has read, so both parts are shown of the same run.
  intro m
  induction m using Nat.strongRecOn with
  | ind m ih =>
    intro a s hm hin
    obtain ⟨n, hfirst⟩ := (hstep a).onward s hin
    have hplaces := (hstep a).places s
    rw [loop_eq]
    cases hr : step a s with
    | mk r t =>
      rw [hr] at hfirst hplaces
      cases r with
      | finished b => exact ⟨⟨n, hfirst⟩, hplaces⟩
      | again a' =>
        dsimp only at hfirst hplaces ⊢
        split
        · rename_i hlt
          obtain ⟨⟨n', hrest⟩, hplaces'⟩ := ih _ (hm ▸ hlt) a' t rfl (hfirst.cursor_inText hin)
          refine ⟨⟨n + n', hfirst.trans hrest⟩, fun hs hi hquiet => ?_⟩
          obtain ⟨hquiet, hquiet'⟩ := hfirst.quiet_both hrest hquiet
          obtain ⟨herrors, hagain⟩ := hplaces hs hi hquiet
          exact hplaces' (hfirst.inText hs herrors) hagain hquiet'
        · refine ⟨⟨n, hfirst⟩, fun hs hi hquiet => ?_⟩
          obtain ⟨herrors, hagain⟩ := hplaces hs hi hquiet
          exact ⟨herrors, hgive a' _ hagain⟩

end Places

end PyAtlas
