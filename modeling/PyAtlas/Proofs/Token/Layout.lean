import PyAtlas.Proofs.Token.FrontCases

/-!
# The layout of a stream of tokens

The tokens of a text come in lines and blocks: a line ends with a newline, indents and dedents
stand between lines only, and every block that is opened is closed. `Laid` says so for the
part of a stream that is left, given whether a line has been begun and how many blocks are
open. The end of input is not part of it.

## Key results
- `Laid.exists_newline`: a line that has been begun is ended.
- `Lexer.run_laid`: whatever the lexer yields is laid out, and one end of input follows.
- `tokenize_laid`: the same for the tokens of a whole text.
-/

namespace PyAtlas

/-- The tokens close `k` blocks, after the rest of a line if `mid` says that one is begun. -/
inductive Laid : (mid : Bool) → (k : Nat) → List Token → Prop
  | done : Laid false 0 []
  | newline {mid : Bool} {k : Nat} {t : Token} {ts : List Token} :
    t.kind = .newline → Laid false k ts → Laid mid k (t :: ts)
  | indent {k : Nat} {t : Token} {ts : List Token} :
    t.kind = .indent → Laid false (k + 1) ts → Laid false k (t :: ts)
  | dedent {k : Nat} {t : Token} {ts : List Token} :
    t.kind = .dedent → Laid false k ts → Laid false (k + 1) (t :: ts)
  | plain {mid : Bool} {k : Nat} {t : Token} {ts : List Token} :
    t.kind.isLayout = false → Laid true k ts → Laid mid k (t :: ts)

namespace Laid

variable {mid : Bool} {k : Nat} {t : Token} {ts : List Token}

/-! ### One token at a time -/

theorem of_newline (h : Laid mid k (t :: ts)) (hk : t.kind = .newline) : Laid false k ts := by
  cases h with
  | newline _ h => exact h
  | indent hk' _ => rw [hk] at hk'; cases hk'
  | dedent hk' _ => rw [hk] at hk'; cases hk'
  | plain hk' _ => rw [hk] at hk'; cases hk'

theorem of_indent (h : Laid mid k (t :: ts)) (hk : t.kind = .indent) : Laid false (k + 1) ts := by
  cases h with
  | newline hk' _ => rw [hk] at hk'; cases hk'
  | indent _ h => exact h
  | dedent hk' _ => rw [hk] at hk'; cases hk'
  | plain hk' _ => rw [hk] at hk'; cases hk'

theorem of_dedent (h : Laid mid k (t :: ts)) (hk : t.kind = .dedent) :
    ∃ j, k = j + 1 ∧ Laid false j ts := by
  cases h with
  | newline hk' _ => rw [hk] at hk'; cases hk'
  | indent hk' _ => rw [hk] at hk'; cases hk'
  | dedent _ h => exact ⟨_, rfl, h⟩
  | plain hk' _ => rw [hk] at hk'; cases hk'

theorem of_plain (h : Laid mid k (t :: ts)) (hk : t.kind.isLayout = false) : Laid true k ts := by
  cases h with
  | newline hk' _ => rw [hk'] at hk; cases hk
  | indent hk' _ => rw [hk'] at hk; cases hk
  | dedent hk' _ => rw [hk'] at hk; cases hk
  | plain _ h => exact h

/-- An end of input is not part of a layout. -/
theorem kind_ne_eof (h : Laid mid k (t :: ts)) : t.kind ≠ .eof := by
  intro hk
  cases h with
  | newline hk' _ => rw [hk] at hk'; cases hk'
  | indent hk' _ => rw [hk] at hk'; cases hk'
  | dedent hk' _ => rw [hk] at hk'; cases hk'
  | plain hk' _ => rw [hk] at hk'; cases hk'

/-- No token of a layout is an end of input. -/
theorem forall_kind_ne_eof (h : Laid mid k ts) : ∀ t ∈ ts, t.kind ≠ .eof := by
  induction h with
  | done => simp
  | newline hk _ ih | indent hk _ ih | dedent hk _ ih => simpa [hk] using ih
  | @plain mid k t ts hk _ ih =>
    have hne : t.kind ≠ .eof := by
      intro heof
      simp [heof, TokenKind.isLayout] at hk
    simpa [hne] using ih

/-- Outside of all blocks there is no dedent. -/
theorem kind_ne_dedent_of_zero (h : Laid mid 0 (t :: ts)) : t.kind ≠ .dedent := by
  intro hk
  obtain ⟨j, hj, _⟩ := h.of_dedent hk
  exact absurd hj (Nat.succ_ne_zero j).symm

/-! ### What is bound to come -/

/-- A line that has been begun is ended. -/
theorem exists_newline (h : Laid true k ts) : ∃ t ∈ ts, t.kind = .newline := by
  induction ts with
  | nil => cases h
  | cons t ts ih =>
    cases h with
    | newline hk _ => exact ⟨t, List.mem_cons_self, hk⟩
    | plain _ h =>
      obtain ⟨u, hu, hk⟩ := ih h
      exact ⟨u, List.mem_cons_of_mem _ hu, hk⟩

theorem ne_nil (h : Laid true k ts) : ts ≠ [] := by
  intro hts
  subst hts
  cases h

/-- An open block is still to be closed. -/
theorem ne_nil_of_pos (h : Laid mid (k + 1) ts) : ts ≠ [] := by
  intro hts
  subst hts
  cases h

theorem dedents (f : Nat → Token) (hf : ∀ n, (f n).kind = .dedent) (h : Laid false k ts) :
    (columns : List Nat) → Laid false (columns.length + k) (columns.map f ++ ts)
  | [] => by simpa using h
  | c :: columns => by
    rw [List.length_cons, Nat.add_right_comm]
    exact .dedent (hf c) (dedents f hf h columns)

end Laid

/-! ### The lexer -/

namespace Lexer

/-- A token stands at the front of a text, and it is none of the layout. -/
def Front.Plain : Front → Prop
  | .skipped _ => False
  | .token kind _ => kind.isLayout = false

theorem operators_plain : ∀ entry ∈ operators, entry.2.isLayout = false := by
  decide

/-- The only layout inside a line is the newline at its end, and only margins, line feeds in
    brackets, comments and continuations are skipped. -/
theorem front_cases (v : Version) (depth : Nat) (first : Char) (cs : List Char) :
    (front v depth first cs).Plain
      ∨ (front v depth first cs = .token .newline 0 ∧ first = '\n' ∧ depth = 0)
      ∨ ((∃ more, front v depth first cs = .skipped more)
        ∧ (isMargin first = true ∨ first = '\n' ∨ first = '#' ∨ first = '\\')) := by
  cases hfront : front v depth first cs with
  | skipped more =>
    refine .inr (.inr ⟨⟨more, rfl⟩, ?_⟩)
    exact (front_eq_skipped hfront).imp And.left (Or.imp And.left (Or.imp And.left And.left))
  | token kind more =>
    cases frontToken_of_front hfront with
    | newline hfirst hdepth => exact .inr (.inl ⟨rfl, hfirst, hdepth⟩)
    | operator hentry _ => exact .inl (operators_plain _ hentry)
    | _ => exact .inl rfl

@[simp] theorem stop_skipBlankLines (i : Input) : (skipBlankLines i).stop = i.stop := by
  fun_induction skipBlankLines i with
  | case1 i n cs h ih => rw [ih, Input.stop_advance]
  | case2 i n cs h ih => rw [ih, Input.stop_advance]
  | case3 i n h => rfl

@[simp] theorem stop_openLine (l : Layout) (i : Input) : (openLine l i).2.2.stop = i.stop := by
  simp only [openLine]
  split
  · exact i.stop_skipWhile _
  · split
    · exact i.stop_skipWhile _
    · split
      · exact i.stop_skipWhile _
      · split <;> exact i.stop_skipWhile _

/-- The tokens before a line take the layout from the old blocks to the new ones. -/
theorem openLine_laid {l : Layout} {i : Input} {ts : List Token} (hl : l.lineOpen = false)
    (h : Laid (openLine l i).2.1.lineOpen (openLine l i).2.1.blocks.length ts) :
    Laid l.lineOpen l.blocks.length ((openLine l i).1 ++ ts) := by
  obtain ⟨blocks, depth, lineOpen⟩ := l
  subst hl
  unfold openLine at h ⊢
  simp only [Bool.false_and] at h ⊢
  split at h
  · exact h
  · split at h
    · rename_i hc
      rw [if_pos hc]
      exact h
    · rename_i hc
      rw [if_neg hc]
      split at h
      · rename_i hlt
        rw [if_pos hlt]
        exact .indent rfl h
      · rename_i hlt
        rw [if_neg hlt]
        -- The line closes the blocks that are deeper than its column. If it then stands at no block
        -- an error follows them.
        have hlength : blocks.length
            = (blocks.takeWhile (marginColumn i.rest < ·)).length
              + (blocks.dropWhile (marginColumn i.rest < ·)).length := by
          rw [← List.length_append, List.takeWhile_append_dropWhile]
        split at h
        · rename_i heq
          rw [if_pos heq, hlength]
          exact h.dedents _ (fun _ => rfl) _
        · rename_i heq
          rw [if_neg heq, hlength, List.append_assoc]
          exact Laid.dedents _ (fun _ => rfl) (.plain rfl h) _

/-- The tokens at the end of a text end the line and close the blocks. -/
theorem finish_laid (l : Layout) (size : Nat) :
    ∃ ts, finish l size = ts ++ [Token.endOfInput size]
      ∧ Laid l.lineOpen l.blocks.length ts := by
  obtain ⟨blocks, depth, lineOpen⟩ := l
  have hdedents := Laid.done.dedents (fun _ => ⟨.dedent, ⟨size, size⟩, ""⟩) (fun _ => rfl) blocks
  simp only [List.append_nil, Nat.add_zero] at hdedents
  cases lineOpen with
  | false => exact ⟨_, rfl, hdedents⟩
  | true => exact ⟨_, rfl, .newline rfl hdedents⟩

/-- Whatever the lexer yields is laid out, and one end of input follows. -/
theorem run_laid (v : Version) (l : Layout) (fresh : Bool) (i : Input)
    (hl : fresh = true → l.lineOpen = false) :
    ∃ ts, run v l fresh i = ts ++ [Token.endOfInput i.stop]
      ∧ Laid l.lineOpen l.blocks.length ts := by
  fun_induction run v l fresh i with
  | case1 l i opened ih =>
    obtain ⟨ts, hrun, hts⟩ := ih (fun h => absurd h Bool.false_ne_true)
    refine ⟨opened.1 ++ ts, ?_, openLine_laid (hl rfl) hts⟩
    rw [hrun, stop_openLine, stop_skipBlankLines, List.append_assoc]
  | case2 l fresh i hfresh hrest =>
    have hstop : i.stop = i.offset := by simp [Input.stop, hrest]
    rw [hstop]
    exact finish_laid l i.offset
  | case3 l fresh i hfresh first cs hrest more hfront ih =>
    obtain ⟨ts, hrun, hts⟩ := ih (fun h => absurd h Bool.false_ne_true)
    rw [Input.stop_advance] at hrun
    exact ⟨ts, hrun, hts⟩
  | case4 l fresh i hfresh first cs hrest kind more hfront ih =>
    have hkind := front_cases v l.depth first cs
    rw [hfront] at hkind
    -- The run starts a line behind a newline and goes on inside one behind all other tokens.
    have hopen : kind = .newline → (l.after kind).lineOpen = false := by
      intro hk
      rw [hk]
      rfl
    obtain ⟨ts, hrun, hts⟩ := ih (fun h => hopen (by simpa using h))
    rw [Input.stop_advance] at hrun
    refine ⟨_ :: ts, by rw [hrun, List.cons_append], ?_⟩
    rcases hkind with hk | ⟨heq, -, -⟩ | ⟨⟨_, heq⟩, -⟩
    · have hlined : (l.after kind).lineOpen = true := by
        show (!kind.isLayout) = true
        rw [show kind.isLayout = false from hk, Bool.not_false]
      rw [hlined] at hts
      exact .plain hk hts
    · cases heq
      rw [hopen rfl] at hts
      exact .newline rfl hts
    · cases heq

end Lexer

/-- The tokens of a text are laid out, and one end of input follows. -/
theorem tokenize_laid (v : Version) (source : String) :
    ∃ ts, tokenize v source = ts ++ [Token.endOfInput source.utf8ByteSize]
      ∧ Laid false 0 ts := by
  have hstop : (Lexer.Input.ofChars source.toList).stop = source.utf8ByteSize := by
    rw [Lexer.Input.stop, Lexer.Input.ofChars, Nat.zero_add, Text.byteSize_toList]
  rw [← hstop]
  exact Lexer.run_laid v .initial true _ (fun _ => rfl)

end PyAtlas
