import PyAtlas.Proofs.Token.Steps
import PyAtlas.Syntax.Lookahead

/-!
# Two words that are reserved or not

The versions before 3.7 that know `async` and `await` do not reserve them. Under these versions a
text has the same tokens as under 3.7, with identifiers where those two words stand; nothing else
that the lexer looks at differs. Which tokens these are can be told from 3.7 alone: there the kind
of a word says how it is spelled, as far as the two words go.

## Key definitions
- `Token.soften`: the token under a version that does not reserve the two words.
- `Token.Reserving`: the kind of the token agrees with its spelling.

## Key results
- `tokenize_soften`: the tokens of a text under the earlier versions.
- `reserving_of_mem_tokenize`: under 3.7 the kinds of all tokens agree with their spellings.
-/

namespace PyAtlas

/-! ### Softer tokens -/

/-- The kind of a token where `async` and `await` are identifiers. -/
def TokenKind.soften : TokenKind → TokenKind
  | .keyword .async | .keyword .await => .identifier
  | kind => kind

/-- The token where `async` and `await` are identifiers. -/
def Token.soften (t : Token) : Token :=
  { t with kind := t.kind.soften }

@[simp] theorem Token.soften_kind (t : Token) : t.soften.kind = t.kind.soften := rfl

@[simp] theorem Token.soften_span (t : Token) : t.soften.span = t.span := rfl

@[simp] theorem Token.soften_text (t : Token) : t.soften.text = t.text := rfl

namespace TokenKind

/-- Kinds that are the same whether the two words are reserved or not, and that neither of the
    words has in either case. -/
def isSteady : TokenKind → Bool
  | .keyword .async | .keyword .await | .identifier => false
  | _ => true

variable {kind k : TokenKind}

theorem soften_of_isSteady (h : k.isSteady = true) : k.soften = k := by
  unfold soften
  split
  · cases h
  · cases h
  · rfl

/-- A kind is left alone, or it is that of one of the two words. -/
theorem soften_cases (kind : TokenKind) :
    kind.soften = kind ∨ kind = .keyword .async ∨ kind = .keyword .await := by
  unfold soften
  split
  · exact .inr (.inl rfl)
  · exact .inr (.inr rfl)
  · exact .inl rfl

theorem soften_eq_iff (h : k.isSteady = true) : kind.soften = k ↔ kind = k := by
  rcases kind.soften_cases with hsame | rfl | rfl
  · rw [hsame]
  all_goals
    constructor
    · intro heq
      rw [← heq] at h
      cases h
    · intro heq
      rw [← heq] at h
      cases h

@[simp] theorem isLayout_soften (kind : TokenKind) : kind.soften.isLayout = kind.isLayout := by
  rcases kind.soften_cases with hsame | rfl | rfl
  · rw [hsame]
  · rfl
  · rfl

end TokenKind

/-- The versions that know the two words without reserving them. -/
theorem Version.hasSoftAsync_iff {v : Version} : v.hasSoftAsync = true ↔ v = .v35 ∨ v = .v36 := by
  cases v <;> decide

/-! ### Softer streams -/

namespace Lexer

/-- What stands at the front of a text where `async` and `await` are identifiers. -/
def Front.soften : Front → Front
  | .skipped more => .skipped more
  | .token kind more => .token kind.soften more

/-- The front is none of the two words and no identifier. -/
def Front.IsSteady : Front → Prop
  | .skipped _ => True
  | .token kind _ => kind.isSteady = true

theorem Front.IsSteady.soften_eq {f : Front} (h : f.IsSteady) : f.soften = f := by
  cases f with
  | skipped more => rfl
  | token kind more => rw [soften, TokenKind.soften_of_isSteady h]

/-- The fronts `f` and `g` of the text `letters` are those of a version that does not reserve the
    two words and of one that does. -/
structure Rereads (letters : List Char) (f g : Front) : Prop where
  soften : f = g.soften
  kind : ∀ kind more, g = .token kind more → kind.isSteady = false →
    kind = wordKind .v37 (String.ofList (letters.take (more + 1)))

namespace Rereads

variable {letters : List Char} {f g : Front}

theorem of_steady (h : f.IsSteady) (hg : g = f) : Rereads letters f g where
  soften := by rw [hg, h.soften_eq]
  kind kind more hkind hsteady := by
    rw [← hg, hkind, Front.IsSteady, hsteady] at h
    cases h

end Rereads

theorem stringFront_isSteady (marks : StringMarks) (quote : Char) (n : Nat) (cs : List Char) :
    (stringFront marks quote n cs).IsSteady := by
  simp only [stringFront]
  split <;> rfl

theorem numberFront_isSteady (v : Version) (first : Char) (cs : List Char) :
    (numberFront v first cs).IsSteady := by
  obtain ⟨_, _, hfront⟩ := exists_numberFront v first cs
  rw [hfront]
  rfl

/-- No operator is one of the two words. -/
theorem operators_isSteady : (operators.all fun entry => entry.2.isSteady) = true := by
  decide

theorem operatorFront_isSteady (v : Version) (first : Char) (cs : List Char) :
    (operatorFront v first cs).IsSteady := by
  rcases operatorFront_cases v first cs with ⟨entry, hentry, -, hfront⟩ | hfront
  · rw [hfront]
    exact List.all_eq_true.1 operators_isSteady entry hentry
  · rw [hfront]
    rfl

variable {v : Version}

/-- A word is read as under 3.7, unless it is one of the two. -/
theorem wordKind_soften (hv : v.hasSoftAsync = true) (word : String) :
    wordKind v word = (wordKind .v37 word).soften := by
  -- All other words are reserved by both versions or by neither.
  have hreserved : ∀ k : Keyword, k.reservedIn v
      = (k.reservedIn .v37 && TokenKind.isSteady (.keyword k)) := by
    rcases Version.hasSoftAsync_iff.1 hv with rfl | rfl
    all_goals
      intro k
      cases k <;> rfl
  rw [wordKind, wordKind]
  cases hword : Keyword.ofText? .v37 word with
  | none =>
    cases hword' : Keyword.ofText? v word with
    | none => rfl
    | some k =>
      have hk := Keyword.ofText?_eq_some_iff.1 hword'
      rw [hreserved, Bool.and_eq_true] at hk
      rw [Keyword.ofText?_eq_some_iff.2 ⟨hk.1, hk.2.1⟩] at hword
      cases hword
  | some k =>
    have hk := Keyword.ofText?_eq_some_iff.1 hword
    cases hsteady : TokenKind.isSteady (.keyword k) with
    | true =>
      have hword' : Keyword.ofText? v word = some k :=
        Keyword.ofText?_eq_some_iff.2 ⟨hk.1, by rw [hreserved, hk.2, hsteady]; rfl⟩
      rw [hword']
      exact (TokenKind.soften_of_isSteady hsteady).symm
    | false =>
      -- One of the two words, which only this spelling stands for.
      have hword' : Keyword.ofText? v word = none := by
        cases hother : Keyword.ofText? v word with
        | none => rfl
        | some k' =>
          have hk' := Keyword.ofText?_eq_some_iff.1 hother
          rw [Keyword.spelling_injective (hk'.1.trans hk.1.symm), hreserved, hsteady,
            Bool.and_false] at hk'
          cases hk'.2
      rw [hword']
      revert hsteady
      cases k <;> simp [TokenKind.isSteady, TokenKind.soften]

theorem is3x_of_hasSoftAsync (hv : v.hasSoftAsync = true) : v.is3x = true := by
  rcases Version.hasSoftAsync_iff.1 hv with rfl | rfl <;> rfl

theorem wordFront_rereads (hv : v.hasSoftAsync = true) (first : Char) (cs : List Char) :
    Rereads (first :: cs) (wordFront v first cs) (wordFront .v37 first cs) := by
  have h3x : Version.v37.is3x = v.is3x := (is3x_of_hasSoftAsync hv).symm
  -- Letters are marks under both versions, or under none.
  have hmarks_iff : ∀ letters quote marks,
      AreMarks .v37 letters quote marks ↔ AreMarks v letters quote marks := fun _ _ _ =>
    ⟨fun h => ⟨h.isQuote, h.marked, h3x ▸ h.exist⟩,
      fun h => ⟨h.isQuote, h.marked, h3x ▸ h.exist⟩⟩
  rcases wordFront_cases v first cs with ⟨letters, quote, marks, after, rfl, hletters, hmarks⟩
    | ⟨letters, rest, rfl, hletters, hends, hnone⟩
  · rw [wordFront_literal hletters hmarks,
      wordFront_literal hletters ((hmarks_iff _ _ _).2 hmarks)]
    exact .of_steady (stringFront_isSteady _ _ _ _) rfl
  · rw [wordFront_name hletters hends hnone, wordFront_name hletters hends
      fun quote hquote marks h => hnone quote hquote marks ((hmarks_iff _ _ _).1 h)]
    exact
      { soften := by rw [wordKind_soften hv, Front.soften]
        kind := fun kind more hkind _ => by
          obtain ⟨rfl, rfl⟩ := Front.token.inj hkind
          simp }

theorem operatorFront_eq (hv : v.hasSoftAsync = true) (first : Char) (cs : List Char) :
    operatorFront .v37 first cs = operatorFront v first cs := by
  have hexists : operatorExists .v37 = operatorExists v := by
    rcases Version.hasSoftAsync_iff.1 hv with rfl | rfl <;> rfl
  rw [operatorFront, operatorFront, hexists]

theorem numberFront_eq (hv : v.hasSoftAsync = true) (first : Char) (cs : List Char) :
    numberFront .v37 first cs = numberFront v first cs := by
  rcases Version.hasSoftAsync_iff.1 hv with rfl | rfl <;> rfl

/-- At the front of a text the same stands, unless it is one of the two words. -/
theorem front_rereads (hv : v.hasSoftAsync = true) (depth : Nat) (first : Char) (cs : List Char) :
    Rereads (first :: cs) (front v depth first cs) (front .v37 depth first cs) := by
  have hskipped : ∀ more, Rereads (first :: cs) (.skipped more) (.skipped more) :=
    fun more => .of_steady (f := .skipped more) trivial rfl
  refine front_elim (motive := fun f => Rereads (first :: cs) (f v) (f .v37))
    ?margin ?newline ?lineFeed ?comment ?continuation ?number ?string ?word ?operator
  case margin | lineFeed | comment | continuation =>
    intros
    exact hskipped _
  case newline => exact fun _ _ => .of_steady (f := .token .newline 0) rfl rfl
  case number => exact .of_steady (numberFront_isSteady v first cs) (numberFront_eq hv first cs)
  case string => exact fun _ => .of_steady (stringFront_isSteady _ _ _ _) rfl
  case word => exact fun _ => wordFront_rereads hv first cs
  case operator =>
    exact .of_steady (operatorFront_isSteady v first cs) (operatorFront_eq hv first cs)

/-! ### Softer tokens -/

theorem soften_of_isIndentation {t : Token} (h : t.kind.isIndentation = true) : t.soften = t := by
  obtain ⟨kind, span, text⟩ := t
  cases kind with
  | keyword word => cases h
  | _ => rfl

theorem finish_soften (l : Layout) (size : Nat) :
    (finish l size).map Token.soften = finish l size := by
  refine List.map_congr_left (g := id) (fun t ht => ?_) |>.trans (List.map_id _)
  have hlayout := (mem_finish ht).2.1
  obtain ⟨kind, span, text⟩ := t
  cases kind with
  | keyword word => cases hlayout
  | _ => rfl

theorem after_soften (l : Layout) (kind : TokenKind) : l.after kind.soften = l.after kind := by
  rcases kind.soften_cases with hsame | rfl | rfl
  · rw [hsame]
  · rfl
  · rfl

/-- The tokens of the unread text are the same up to the two words. -/
theorem run_soften (hv : v.hasSoftAsync = true) (l : Layout) (fresh : Bool) (i : Input) :
    run v l fresh i = (run .v37 l fresh i).map Token.soften := by
  -- Induction along the run under 3.7: the other one reads the same text at each step.
  fun_induction run .v37 l fresh i with
  | case1 l i opened ih =>
    rw [run_fresh, ih, List.map_append]
    refine congrArg (· ++ _) ?_
    refine ((List.map_congr_left fun t ht => ?_).trans (List.map_id _)).symm
    exact soften_of_isIndentation (isIndentation_of_mem_openLine ht)
  | case2 l fresh i hfresh hrest =>
    obtain rfl : fresh = false := Bool.eq_false_iff.2 hfresh
    rw [run_nil v l hrest, finish_soften]
  | case3 l fresh i hfresh first cs hrest more hfront ih =>
    obtain rfl : fresh = false := Bool.eq_false_iff.2 hfresh
    have hsoften := (front_rereads hv l.depth first cs).soften
    rw [hfront] at hsoften
    rw [run_cons v l hrest, hsoften]
    exact ih
  | case4 l fresh i hfresh first cs hrest kind more hfront ih =>
    obtain rfl : fresh = false := Bool.eq_false_iff.2 hfresh
    have hsoften := (front_rereads hv l.depth first cs).soften
    rw [hfront] at hsoften
    have hnewline : (kind.soften == .newline) = (kind == .newline) := by
      rw [Bool.eq_iff_iff, beq_iff_eq, beq_iff_eq, TokenKind.soften_eq_iff rfl]
    rw [run_cons v l hrest, hsoften, List.map_cons, ← ih, ← after_soften l kind, ← hnewline]
    rfl

end Lexer

/-- Under a version that does not reserve the two words a text has the same tokens up to these. -/
theorem tokenize_soften {v : Version} (hv : v.hasSoftAsync = true) (source : String) :
    tokenize v source = (tokenize .v37 source).map Token.soften :=
  Lexer.run_soften hv _ _ _

/-! ### Kinds and spellings -/

/-- Whether the token is an identifier or one of the two words can be told from its spelling. -/
def Token.Reserving (t : Token) : Prop :=
  t.kind.isSteady = false → t.kind = Lexer.wordKind .v37 t.text

namespace Token.Reserving

variable {t : Token}

/-- A reserved word is written as it is spelled. -/
theorem text_of_keyword (h : t.Reserving) {k : Keyword} (hk : t.kind = .keyword k)
    (hsteady : t.kind.isSteady = false) : t.text = k.spelling := by
  have hword := h hsteady
  rw [hk, Lexer.wordKind] at hword
  split at hword
  · rename_i k' hfound
    obtain rfl := TokenKind.keyword.inj hword
    exact (Keyword.ofText?_eq_some_iff.1 hfound).1.symm
  · cases hword

end Token.Reserving

open Lexer in
/-- Under 3.7 the kinds of all tokens agree with their spellings. -/
theorem reserving_of_mem_tokenize {source : String} {t : Token} (h : t ∈ tokenize .v37 source) :
    t.Reserving := by
  intro hsteady
  have hword : t.kind.isWord = true := by
    revert hsteady
    cases t.kind <;>
      simp [TokenKind.isSteady, TokenKind.isWord, TokenKind.isLayout, TokenKind.isIndentation]
  obtain ⟨-, first, cs, depth, more, -, -, hfront, htext⟩ := exists_front_of_mem_tokenize h hword
  have hkind := (front_rereads (v := .v36) rfl depth first cs).kind _ _ hfront hsteady
  rw [hkind, ← htext, String.ofList_toList]

end PyAtlas
