import PyAtlas.Proofs.Token.Concatenation

/-!
# Every character is read once

A text falls into pieces: the words that are tokens, and what stands between them. Margins,
comments and continued lines may stand anywhere between two words; a line feed may do so only
inside brackets, or at the end of a line that holds no word. The lexer cuts a text into such
pieces and leaves none out, so the tokens tell all of the text but what those pieces are.

Tokens that only show the indentation of a line, and tokens without a text, say nothing about
the pieces. They are left aside.

## Key definitions
- `Lexer.Piece`, `Lexer.Piece.AllFit`: the pieces of a text, and where they may stand.
- `Token.isShown`: a token with a text of its own.

## Key results
- `Lexer.run_covered`: the lexer cuts the unread text into pieces.
- `tokenize_covers`: the shown tokens are apart from each other, and pieces that may stand there
  are all that is between them.
-/

namespace PyAtlas

/-- Whether a token has a text of its own: it is not empty, and not about indentation. -/
def Token.isShown (t : Token) : Bool :=
  t.kind != .indent && t.kind != .dedent && t.kind != .error .inconsistentDedent
    && t.span.start != t.span.stop

namespace Lexer

/-! ### Pieces -/

/-- A piece of a text. -/
inductive Piece
  | word (kind : TokenKind) (text : List Char)
  | margin (c : Char)
  | comment (text : List Char)
  | continuation (ending : List Char)
  | lineFeed
deriving Repr, DecidableEq

namespace Piece

/-- The characters of a piece. -/
def chars : Piece → List Char
  | word _ text => text
  | margin c => [c]
  | comment text => '#' :: text
  | continuation ending => '\\' :: ending
  | lineFeed => ['\n']

/-- Whether the piece is the text of a token. -/
def isWord : Piece → Bool
  | word _ _ => true
  | _ => false

/-- Whether a piece may stand at a place with `depth` open brackets, on a line on which there is
    no word yet if `bare` says so. -/
def Fits (depth : Nat) (bare : Bool) : Piece → Prop
  | word _ text => text ≠ []
  | margin c => c = ' ' ∨ c = '\t' ∨ c = '\x0c' ∨ c = '\r'
  | comment text => '\n' ∉ text
  | continuation ending => ending = ['\n'] ∨ ending = ['\r', '\n'] ∨ ending = ['\r']
  | lineFeed => 0 < depth ∨ bare = true

/-- The number of open brackets behind a piece. A bracket that closes nothing is not counted. -/
def depthAfter (depth : Nat) : Piece → Nat
  | word (.operator op) _ =>
    if op.isOpening then depth + 1 else if op.isClosing then depth - 1 else depth
  | _ => depth

/-- Whether the line behind a piece has no word yet. -/
def bareAfter (bare : Bool) : Piece → Bool
  | word kind _ => kind == .newline
  | margin _ => bare
  | comment _ => bare
  | continuation _ => false
  | lineFeed => true

/-- All pieces may stand where they stand. -/
def AllFit (depth : Nat) (bare : Bool) : List Piece → Prop
  | [] => True
  | p :: ps => p.Fits depth bare ∧ AllFit (p.depthAfter depth) (p.bareAfter bare) ps

/-- The tokens that the words among some pieces make, from an offset on. -/
def tokens (offset : Nat) : List Piece → List Token
  | [] => []
  | .word kind text :: ps =>
    ⟨kind, ⟨offset, offset + Text.byteSize text⟩, String.ofList text⟩
      :: tokens (offset + Text.byteSize text) ps
  | p :: ps => tokens (offset + Text.byteSize p.chars) ps

theorem tokens_cons_of_not_word {p : Piece} (h : p.isWord = false) (offset : Nat)
    (ps : List Piece) : tokens offset (p :: ps) = tokens (offset + Text.byteSize p.chars) ps := by
  cases p with
  | word kind text => simp [isWord] at h
  | _ => rfl

/-! ### What the words say -/

/-- The tokens begin where the text begins, or later. -/
theorem le_start_of_mem_tokens {offset : Nat} {ps : List Piece} {t : Token}
    (h : t ∈ tokens offset ps) : offset ≤ t.span.start := by
  induction ps generalizing offset with
  | nil => simp [tokens] at h
  | cons p ps ih =>
    cases p with
    | word kind text =>
      simp only [tokens, List.mem_cons] at h
      rcases h with rfl | h
      · exact Nat.le_refl _
      · have hle := ih h
        omega
    | _ =>
      have hle := ih h
      omega

/-- Each token ends before the next one begins. -/
theorem pairwise_tokens (offset : Nat) (ps : List Piece) :
    (tokens offset ps).Pairwise fun t u => t.span.stop ≤ u.span.start := by
  induction ps generalizing offset with
  | nil => exact .nil
  | cons p ps ih =>
    cases p with
    | word kind text => exact .cons (fun u hu => le_start_of_mem_tokens hu) (ih _)
    | _ => exact ih _

/-- A token is the text of a word that stands between other pieces. -/
theorem exists_word_of_mem_tokens {offset : Nat} {ps : List Piece} {t : Token}
    (h : t ∈ tokens offset ps) : ∃ ahead kind text behind,
      ps = ahead ++ .word kind text :: behind ∧ t.text = String.ofList text
        ∧ t.span.start = offset + Text.byteSize (ahead.flatMap chars)
        ∧ t.span.stop = t.span.start + Text.byteSize text := by
  induction ps generalizing offset with
  | nil => simp [tokens] at h
  | cons p ps ih =>
    -- Either the token is that of the first piece, or the pieces ahead of it grow by that piece.
    have hlater : t ∈ tokens (offset + Text.byteSize p.chars) ps →
        ∃ ahead kind text behind, p :: ps = ahead ++ .word kind text :: behind
          ∧ t.text = String.ofList text
          ∧ t.span.start = offset + Text.byteSize (ahead.flatMap chars)
          ∧ t.span.stop = t.span.start + Text.byteSize text := by
      intro hmem
      obtain ⟨ahead, kind, text, behind, rfl, htext, hstart, hstop⟩ := ih hmem
      refine ⟨p :: ahead, kind, text, behind, rfl, htext, ?_, hstop⟩
      rw [hstart, List.flatMap_cons, Text.byteSize_append, Nat.add_assoc]
    cases p with
    | word kind text =>
      simp only [tokens, List.mem_cons] at h
      rcases h with rfl | h
      · exact ⟨[], kind, text, ps, rfl, rfl, rfl, rfl⟩
      · exact hlater h
    | _ => exact hlater h

/-- Words are not empty. -/
theorem AllFit.ne_nil {depth : Nat} {bare : Bool} {ahead behind : List Piece} {kind : TokenKind}
    {text : List Char} (h : AllFit depth bare (ahead ++ .word kind text :: behind)) :
    text ≠ [] := by
  induction ahead generalizing depth bare with
  | nil => exact h.1
  | cons p ahead ih => exact ih h.2

/-- A place in a text of two parts is in the second part or in the first. -/
private theorem append_eq_append_cons {as bs before after : List Char} {c : Char}
    (h : as ++ bs = before ++ c :: after) :
    (∃ a, before = as ++ a ∧ bs = a ++ c :: after) ∨ ∃ b, as = before ++ c :: b := by
  rcases List.append_eq_append_iff.1 h with hsecond | ⟨b, has, hrest⟩
  · exact .inl hsecond
  · cases b with
    | nil => exact .inl ⟨[], by simpa using has.symm, hrest.symm⟩
    | cons d b =>
      rw [List.cons_append, List.cons.injEq] at hrest
      rw [← hrest.1] at has
      exact .inr ⟨b, has⟩

/-- Every place of a text is in one of its pieces; if that is a word, a token covers the place. -/
theorem exists_piece_at (offset : Nat) {ps : List Piece} {before after : List Char} {c : Char}
    (h : ps.flatMap chars = before ++ c :: after) : ∃ ahead p behind a b,
      ps = ahead ++ p :: behind ∧ p.chars = a ++ c :: b ∧ before = ahead.flatMap chars ++ a
        ∧ (p.isWord = true → ∃ t ∈ tokens offset ps,
          t.span.start ≤ offset + Text.byteSize before
            ∧ offset + Text.byteSize before < t.span.stop) := by
  induction ps generalizing offset before with
  | nil => simp at h
  | cons p ps ih =>
    rw [List.flatMap_cons] at h
    rcases append_eq_append_cons h with ⟨a, hbefore, hrest⟩ | ⟨b, hchars⟩
    · -- The place is behind the first piece.
      obtain ⟨ahead, p', behind, a', b', rfl, hchars, ha, hcover⟩ :=
        ih (offset + Text.byteSize p.chars) hrest
      refine ⟨p :: ahead, p', behind, a', b', rfl, hchars, ?_, fun hword => ?_⟩
      · rw [hbefore, ha, List.flatMap_cons, List.append_assoc]
      · obtain ⟨t, ht, hstart, hstop⟩ := hcover hword
        rw [hbefore, Text.byteSize_append]
        refine ⟨t, ?_, by omega, by omega⟩
        cases p with
        | word kind text => exact List.mem_cons_of_mem _ ht
        | _ => exact ht
    · -- The place is in the first piece.
      refine ⟨[], p, ps, before, b, rfl, hchars, rfl, fun hword => ?_⟩
      cases p with
      | word kind text =>
        have htext : text = before ++ c :: b := hchars
        have hpos := c.utf8Size_pos
        refine ⟨_, List.mem_cons_self, Nat.le_add_right offset _, ?_⟩
        simp only [htext, Text.byteSize_append, Text.byteSize_cons]
        omega
      | _ => simp [isWord] at hword

end Piece

/-! ### Cutting a text into pieces -/

/-- The unread text falls into pieces that may stand where the lexer is, and their words are the
    given tokens. -/
def Covered (depth : Nat) (bare : Bool) (i : Input) (shown : List Token) : Prop :=
  ∃ ps : List Piece, ps.flatMap Piece.chars = i.rest ∧ Piece.AllFit depth bare ps
    ∧ Piece.tokens i.offset ps = shown

theorem Input.advance_of_nil {i : Input} (h : i.rest = []) (n : Nat) : i.advance n = i := by
  obtain ⟨offset, rest⟩ := i
  subst h
  simp [advance]

theorem Input.advance_add (i : Input) (m n : Nat) :
    i.advance (m + n) = (i.advance m).advance n := by
  simp [advance, List.take_add, Nat.add_assoc]

namespace Covered

variable {depth : Nat} {bare : Bool} {i : Input} {n : Nat} {shown : List Token}

/-- One more piece that is no word. -/
theorem skip (p : Piece) (hchars : i.rest.take n = p.chars) (hword : p.isWord = false)
    (hfit : p.Fits depth bare)
    (h : Covered (p.depthAfter depth) (p.bareAfter bare) (i.advance n) shown) :
    Covered depth bare i shown := by
  obtain ⟨ps, hps, hfits, htokens⟩ := h
  refine ⟨p :: ps, ?_, ⟨hfit, hfits⟩, ?_⟩
  · rw [List.flatMap_cons, hps, ← hchars]
    exact List.take_append_drop n i.rest
  · rw [Piece.tokens_cons_of_not_word hword, ← hchars]
    exact htokens

/-- One more word. -/
theorem word {kind : TokenKind} (hne : i.rest.take n ≠ [])
    (h : Covered (Piece.depthAfter depth (.word kind (i.rest.take n))) (kind == .newline)
      (i.advance n) shown) :
    Covered depth bare i (i.token kind n :: shown) := by
  obtain ⟨ps, hps, hfits, htokens⟩ := h
  refine ⟨.word kind (i.rest.take n) :: ps, ?_, ⟨hne, hfits⟩, ?_⟩
  · rw [List.flatMap_cons, hps]
    exact List.take_append_drop n i.rest
  · rw [← htokens]
    rfl

/-- Characters of a margin, one after the other. -/
theorem margins (n : Nat) (hall : ∀ c ∈ i.rest.take n, isMargin c = true)
    (h : Covered depth bare (i.advance n) shown) : Covered depth bare i shown := by
  induction n generalizing i with
  | zero => simpa [Input.advance] using h
  | succ n ih =>
    cases hrest : i.rest with
    | nil => rwa [Input.advance_of_nil hrest] at h
    | cons c cs =>
      have hc : isMargin c = true := hall c (by simp [hrest])
      have hfit : (Piece.margin c).Fits depth bare := by
        simpa [Piece.Fits, isMargin, or_assoc] using hc
      refine skip (n := 1) (.margin c) (by simp [hrest, Piece.chars]) rfl hfit (ih ?_ ?_)
      · intro d hd
        refine hall d ?_
        simp only [Input.advance, hrest, List.drop_succ_cons, List.drop_zero] at hd
        simp only [hrest, List.take_succ_cons]
        exact List.mem_cons_of_mem c hd
      · rwa [← Input.advance_add, Nat.add_comm]

end Covered

theorem take_countWhile (p : Char → Bool) (cs : List Char) :
    cs.take (countWhile p cs) = cs.takeWhile p :=
  (List.prefix_iff_eq_take.1 (List.takeWhile_prefix p)).symm

theorem of_mem_take_countWhile {p : Char → Bool} {c : Char} {cs : List Char}
    (h : c ∈ cs.take (countWhile p cs)) : p c = true := by
  rw [take_countWhile] at h
  exact List.all_eq_true.1 List.all_takeWhile c h

/-- Counting stops at a character that does not satisfy the condition. -/
theorem not_of_drop_countWhile {p : Char → Bool} {d : Char} {cs ds : List Char}
    (h : cs.drop (countWhile p cs) = d :: ds) : p d = false := by
  induction cs with
  | nil => simp at h
  | cons c cs ih =>
    cases hc : p c with
    | true =>
      refine ih ?_
      simpa [countWhile, List.takeWhile_cons, hc] using h
    | false =>
      simp only [countWhile, List.takeWhile_cons, hc, Bool.false_eq_true, if_false,
        List.length_nil, List.drop_zero, List.cons.injEq] at h
      rw [← h.1, hc]

/-- A comment holds no line feed. -/
theorem fits_comment (depth : Nat) (bare : Bool) (cs : List Char) :
    (Piece.comment (cs.take (countWhile (· != '\n') cs))).Fits depth bare := by
  intro hmem
  have hne := of_mem_take_countWhile hmem
  simp at hne

/-- Before a line that begins only line feeds behind margins and comments are left out. -/
theorem covered_skipBlankLines {depth : Nat} {i : Input} {shown : List Token}
    (h : Covered depth true (skipBlankLines i) shown) : Covered depth true i shown := by
  fun_induction skipBlankLines i with
  | case1 i n cs hrest ih =>
    -- The margin and the line feed of a blank line.
    have hline := ih h
    rw [Input.advance_add] at hline
    refine .margins n (fun c => of_mem_take_countWhile) (.skip .lineFeed ?_ rfl (.inr rfl) hline)
    simp [Input.advance, n, hrest, Piece.chars]
  | case2 i n cs hrest ih =>
    -- The margin and the comment, and the line feed behind them if there is one.
    have hline := ih h
    have hsum : n + 1 + countWhile (· != '\n') cs + 1
        = n + ((countWhile (· != '\n') cs + 1) + 1) := by omega
    rw [hsum, Input.advance_add, Input.advance_add] at hline
    have hchars : (i.advance n).rest.take (countWhile (· != '\n') cs + 1)
        = '#' :: cs.take (countWhile (· != '\n') cs) := by
      simp [Input.advance, n, hrest]
    refine .margins n (fun c => of_mem_take_countWhile) (.skip (.comment _) hchars rfl
      (fits_comment depth true cs) ?_)
    cases hend : ((i.advance n).advance (countWhile (· != '\n') cs + 1)).rest with
    | nil => rwa [Input.advance_of_nil hend] at hline
    | cons d ds =>
      have hfeed : d = '\n' := by
        have hdrop : cs.drop (countWhile (· != '\n') cs) = d :: ds := by
          simpa [Input.advance, n, hrest, ← List.drop_drop] using hend
        simpa using not_of_drop_countWhile hdrop
      refine .skip .lineFeed ?_ rfl (.inr rfl) hline
      simp [hend, hfeed, Piece.chars]
  | case3 i n hother => exact h

/-! ### Inside a line -/

/-- A token stands at the front of a text, and it is not about indentation. -/
def Front.IsWord : Front → Prop
  | .skipped _ => False
  | .token kind _ => kind ≠ .indent ∧ kind ≠ .dedent ∧ kind ≠ .error .inconsistentDedent

theorem front_isWord_or_skipped (v : Version) (depth : Nat) (first : Char) (cs : List Char) :
    (front v depth first cs).IsWord ∨ ∃ more, front v depth first cs = .skipped more := by
  have hoperators : ∀ entry ∈ operators, Front.IsWord (.token entry.2 0) := by
    simp only [Front.IsWord]
    decide
  cases hfront : front v depth first cs with
  | skipped more => exact .inr ⟨more, rfl⟩
  | token kind more =>
    refine .inl ?_
    cases frontToken_of_front hfront with
    | operator hentry _ => exact hoperators _ hentry
    | _ => simp [Front.IsWord]

/-- What is passed over inside a line is a piece that may stand there. -/
theorem front_skipped {v : Version} {depth more : Nat} {first : Char} {cs : List Char}
    (h : front v depth first cs = .skipped more) : ∃ p : Piece,
      (first :: cs).take (more + 1) = p.chars ∧ p.isWord = false
        ∧ (∀ bare, p.Fits depth bare) ∧ p.depthAfter depth = depth := by
  rcases front_eq_skipped h with ⟨hmargin, rfl⟩ | ⟨rfl, hdepth, rfl⟩ | ⟨rfl, rfl⟩
    | ⟨rfl, ending, rest, rfl, hends, rfl⟩
  · refine ⟨.margin first, rfl, rfl, fun _ => ?_, rfl⟩
    simpa [Piece.Fits, isMargin, or_assoc] using hmargin
  -- Outside of brackets a line feed is a newline, which is shown.
  · exact ⟨.lineFeed, rfl, rfl, fun _ => .inl hdepth, rfl⟩
  · exact ⟨.comment _, rfl, rfl, fun bare => fits_comment depth bare cs, rfl⟩
  -- A backslash is passed over together with the end of the line, of which there are three.
  · refine ⟨.continuation ending, ?_, rfl, fun _ => hends.imp_right (Or.imp_right And.left), rfl⟩
    rw [List.take_succ_cons, List.take_left]
    rfl

/-- A token inside a line is shown. -/
theorem isShown_front {v : Version} {depth more : Nat} {i : Input} {first : Char} {cs : List Char}
    {kind : TokenKind} (hrest : i.rest = first :: cs)
    (h : front v depth first cs = .token kind more) :
    (i.token kind (more + 1)).isShown = true := by
  have hword := front_isWord_or_skipped v depth first cs
  simp only [h, Front.IsWord, reduceCtorEq, exists_false, or_false] at hword
  have hpos := first.utf8Size_pos
  simp only [Token.isShown, Input.token, Input.advance, hrest, List.take_succ_cons,
    Text.byteSize_cons, Bool.and_eq_true, bne_iff_ne, ne_eq]
  exact ⟨⟨⟨hword.1, hword.2.1⟩, hword.2.2⟩, by omega⟩

/-! ### Between the lines -/

/-- The tokens before a line are not shown. -/
theorem filter_openLine (l : Layout) (i : Input) :
    (openLine l i).1.filter Token.isShown = [] := by
  have hdedents : ∀ columns : List Nat, (columns.map fun _ =>
      (i.skipWhile isMargin).token .dedent 0).filter Token.isShown = [] := by
    intro columns
    simp [Token.isShown, Input.token]
  simp only [openLine]
  split
  · rfl
  · split
    · rfl
    · split
      · rfl
      · split
        · exact hdedents _
        · rw [List.filter_append, hdedents]
          simp [Token.isShown]

/-- The tokens at the end of a text are not shown. -/
theorem filter_finish (l : Layout) (size : Nat) : (finish l size).filter Token.isShown = [] := by
  have hempty : ∀ t ∈ finish l size, t.span = ⟨size, size⟩ := by
    intro t ht
    simp only [finish, List.mem_append, List.mem_map, List.mem_singleton] at ht
    rcases ht with (ht | ⟨_, -, rfl⟩) | rfl
    · split at ht
      · rw [List.mem_singleton.1 ht]
      · cases ht
    · rfl
    · rfl
  refine List.filter_eq_nil_iff.2 fun t ht => ?_
  simp [Token.isShown, hempty t ht]

theorem depth_after_word (l : Layout) (kind : TokenKind) (text : List Char) :
    (l.after kind).depth = Piece.depthAfter l.depth (.word kind text) := by
  cases kind <;> rfl

theorem depth_openLine (l : Layout) (i : Input) : (openLine l i).2.1.depth = l.depth := by
  simp only [openLine]
  split
  · rfl
  · split
    · rfl
    · split
      · rfl
      · split <;> rfl

/-! ### A whole text -/

/-- The lexer cuts the unread text into pieces. At the front of a line no word is on the line
    yet; inside a line there may be one or not. -/
theorem run_covered (v : Version) (l : Layout) (fresh : Bool) (i : Input) :
    ∀ bare, (fresh = true → bare = true) →
      Covered l.depth bare i ((run v l fresh i).filter Token.isShown) := by
  fun_induction run v l fresh i with
  | case1 l i opened ih =>
    -- The blank lines and the margin before a line: no token about its indentation is shown.
    intro bare hbare
    rw [hbare rfl, List.filter_append, filter_openLine, List.nil_append]
    have hline := ih true (fun _ => rfl)
    rw [depth_openLine] at hline
    refine covered_skipBlankLines (.margins _ (fun c => of_mem_take_countWhile) ?_)
    exact openLine_input l (skipBlankLines i) ▸ hline
  | case2 l fresh i hfresh hrest =>
    intro bare _
    rw [filter_finish]
    exact ⟨[], hrest.symm, trivial, rfl⟩
  | case3 l fresh i hfresh first cs hrest more hfront ih =>
    intro bare _
    obtain ⟨p, hchars, hword, hfits, hdepth⟩ := front_skipped hfront
    refine .skip p (by rw [hrest, hchars]) hword (hfits bare) ?_
    rw [hdepth]
    exact ih _ (fun h => absurd h Bool.false_ne_true)
  | case4 l fresh i hfresh first cs hrest kind more hfront ih =>
    -- Behind a word the line is not bare, unless the word was the newline.
    intro bare _
    rw [List.filter_cons_of_pos (isShown_front hrest hfront)]
    refine .word (by simp [hrest]) ?_
    rw [← depth_after_word]
    exact ih _ id

end Lexer

open Lexer in
/-- No text is lost or read twice. The shown tokens are parts of the text that are not empty, each
    of them ends before the next begins, and a character outside of them belongs to a piece that
    is no word and may stand where it stands: a margin, a comment, a continued line, or a line
    feed inside brackets or at the end of a line without words. -/
theorem tokenize_covers (v : Version) (source : String) :
    let shown := (tokenize v source).filter Token.isShown
    (∀ t ∈ shown, t.span.start < t.span.stop
      ∧ ∃ before after, source.toList = before ++ t.text.toList ++ after
        ∧ t.span.start = Text.byteSize before
        ∧ t.span.stop = Text.byteSize (before ++ t.text.toList))
    ∧ shown.Pairwise (fun t u => t.span.stop ≤ u.span.start)
    ∧ ∃ pieces : List Piece, pieces.flatMap Piece.chars = source.toList
      ∧ Piece.AllFit 0 true pieces ∧ Piece.tokens 0 pieces = shown
      ∧ ∀ before c after, source.toList = before ++ c :: after →
        (∀ t ∈ shown, ¬ (t.span.start ≤ Text.byteSize before
          ∧ Text.byteSize before < t.span.stop)) →
        ∃ ahead p behind a b, pieces = ahead ++ p :: behind ∧ p.isWord = false
          ∧ p.chars = a ++ c :: b ∧ before = ahead.flatMap Piece.chars ++ a := by
  intro shown
  obtain ⟨pieces, hchars, hfits, htokens⟩ :=
    run_covered v .initial true (.ofChars source.toList) true (fun _ => rfl)
  have htokens : Piece.tokens 0 pieces = shown := htokens
  have hchars : pieces.flatMap Piece.chars = source.toList := hchars
  refine ⟨?_, htokens ▸ Piece.pairwise_tokens 0 pieces, pieces, hchars, hfits, htokens, ?_⟩
  · intro t ht
    rw [← htokens] at ht
    obtain ⟨ahead, kind, text, behind, rfl, htext, hstart, hstop⟩ :=
      Piece.exists_word_of_mem_tokens ht
    have hne := hfits.ne_nil
    have hlength : text.length ≤ Text.byteSize text := Text.length_le_byteSize text
    have hpos : 0 < text.length := List.length_pos_iff.2 hne
    refine ⟨by omega, ahead.flatMap Piece.chars, behind.flatMap Piece.chars, ?_, by omega, ?_⟩
    · rw [← hchars, htext]
      simp [Piece.chars]
    · rw [htext, String.toList_ofList, Text.byteSize_append]
      omega
  · intro before c after hsource houtside
    rw [← hchars] at hsource
    obtain ⟨ahead, p, behind, a, b, hpieces, hp, hbefore, hcover⟩ :=
      Piece.exists_piece_at 0 hsource
    refine ⟨ahead, p, behind, a, b, hpieces, ?_, hp, hbefore⟩
    cases hword : p.isWord with
    | false => rfl
    | true =>
      -- A place in a word is inside the token of that word.
      obtain ⟨t, ht, hstart, hstop⟩ := hcover hword
      rw [htokens] at ht
      rw [Nat.zero_add] at hstart hstop
      exact absurd ⟨hstart, hstop⟩ (houtside t ht)

end PyAtlas
