import PyAtlas.Proofs.Syntax.Brackets
import PyAtlas.Proofs.Syntax.Reading
import PyAtlas.Proofs.Syntax.Term

/-!
# The words of a term

What the words that a term is written with have in common: each is read as it stands, the first
one begins an expression, and brackets match. The parser looks no further ahead than that.

## Key results
- `Term.Valid.separate`: every word of a term is read as it stands.
- `Term.Valid.starts`: a term begins with a word that begins an expression.
- `Term.Valid.balanced`: the brackets of a term match, and outside of them there is neither a
  comma nor a colon.
-/

namespace PyAtlas

/-! ### Each word on its own -/

section Separate

open Lexer

variable {v : Version}

/-- An identifier that the version does not reserve. -/
structure Unreserved (v : Version) (name : String) : Prop where
  identifier : Text.isIdentifier name = true
  notReserved : Keyword.ofText? v name = none

instance (v : Version) (name : String) : Decidable (Unreserved v name) :=
  decidable_of_iff (Text.isIdentifier name = true ∧ Keyword.ofText? v name = none)
    ⟨fun h => ⟨h.1, h.2⟩, fun h => ⟨h.identifier, h.notReserved⟩⟩

theorem Unreserved.free {name : String} (h : Unreserved v name) (hv : v.atLeast 3 7 = true) :
    FreeName v name := by
  have hreserved : Keyword.ofText? v "async" ≠ none ∧ Keyword.ofText? v "await" ≠ none := by
    revert hv
    cases v <;> decide
  refine ⟨h.identifier, h.notReserved, ?_, ?_⟩
  · rintro rfl
    exact hreserved.1 h.notReserved
  · rintro rfl
    exact hreserved.2 h.notReserved

theorem FreeName.standsBefore {text : String} (h : FreeName v text) {rest : List Char}
    (hrest : endsLetters rest = true) : StandsBefore v (.name text) rest := by
  have hkind : wordKind v text = .identifier := by rw [wordKind, h.notReserved]
  rw [Word.name, ← hkind]
  exact standsBefore_ofText v h.identifier hrest

theorem FreeName.separate {text : String} (h : FreeName v text) : Separate v (.name text) := by
  have hkind : wordKind v text = .identifier := by rw [wordKind, h.notReserved]
  rw [Word.name, ← hkind]
  exact separate_ofText v h.identifier

theorem separate_keyword {k : Keyword} {text : String} (hv : k.reservedIn v = true)
    (htext : k.spelling = text) (hident : Text.isIdentifier text = true) :
    Separate v ⟨.keyword k, text⟩ := by
  have hkind : wordKind v text = .keyword k := by
    rw [wordKind, Keyword.ofText?_eq_some_iff.2 ⟨htext, hv⟩]
  rw [← hkind]
  exact separate_ofText v hident

theorem standsBefore_keyword {k : Keyword} {text : String} (hv : k.reservedIn v = true)
    (htext : k.spelling = text) (hident : Text.isIdentifier text = true) {rest : List Char}
    (hrest : endsLetters rest = true) : StandsBefore v ⟨.keyword k, text⟩ rest := by
  have hkind : wordKind v text = .keyword k := by
    rw [wordKind, Keyword.ofText?_eq_some_iff.2 ⟨htext, hv⟩]
  rw [← hkind]
  exact standsBefore_ofText v hident hrest

/-- Operators that every version has. -/
theorem separate_sign {kind : TokenKind} {text : String} (h : (text.toList, kind) ∈ operators)
    (hv : ∀ v, operatorExists v (text.toList, kind) = true) : Separate v ⟨kind, text⟩ := by
  have hseparate := separate_operator h (hv v)
  rwa [String.ofList_toList] at hseparate

/-- Whether the word is an operator that every version has. -/
def Word.isSign (w : Word) : Bool :=
  operators.contains (w.text.toList, w.kind)
    && Version.all.all fun v => operatorExists v (w.text.toList, w.kind)

theorem standsBefore_sign {w : Word} (hw : w.isSign = true) {rest : List Char}
    (hrest : endsOperator w.text.toList rest = true) : StandsBefore v w rest := by
  rw [Word.isSign, Bool.and_eq_true, List.contains_iff_mem, List.all_eq_true] at hw
  have hstands := standsBefore_operator hw.1 (hw.2 v v.mem_all) hrest
  rwa [String.ofList_toList] at hstands

theorem FreeName.renders {text : String} (h : FreeName v text) {rest : List Char}
    (hrest : endsLetters rest = true) :
    Renders v rest [.name text] text.toList :=
  .single (h.standsBefore hrest)

/-- A mark in front of other words. -/
theorem renders_sign {w : Word} (hw : w.isSign = true) {words : List Word}
    {cs rest : List Char}
    (hnext : endsOperator w.text.toList (cs ++ rest) = true) (h : Renders v rest words cs) :
    Renders v rest (w :: words) (w.text.toList ++ cs) :=
  .word (standsBefore_sign hw hnext) h

theorem separate_binary {op : BinaryOp} (h : op.strength ≠ 0) :
    ∀ w ∈ op.words, Separate v w := by
  cases op with
  | operator op =>
    simp only [BinaryOp.words, List.forall_mem_singleton]
    cases op
    all_goals first
      | exact absurd rfl h
      | exact separate_sign (by decide) fun v => by cases v <;> rfl
  | _ =>
    simp only [BinaryOp.words, List.forall_mem_cons]
    refine ⟨separate_keyword rfl rfl (by decide), ?_⟩
    first
      | exact fun w hw => nomatch hw
      | exact ⟨separate_keyword rfl rfl (by decide), fun w hw => nomatch hw⟩

theorem separate_unary {op : UnaryOp} (h : op ≠ .await) : Separate v op.word := by
  cases op with
  | await => exact absurd rfl h
  | not => exact separate_keyword rfl rfl (by decide)
  | _ => exact separate_sign (by decide) fun v => by cases v <;> rfl

/-- The brackets, and what separates the parts of an expression. -/
def Word.marks : List Word :=
  [equals, comma, colon, dot, star, doubleStar, lParen, rParen, lBracket, rBracket, lCurly, rCurly]

theorem separate_mark {w : Word} (h : w ∈ Word.marks) : Separate v w := by
  simp only [Word.marks, List.mem_cons, List.not_mem_nil, or_false] at h
  rcases h with rfl | rfl | rfl | rfl | rfl | rfl | rfl | rfl | rfl | rfl | rfl | rfl
  all_goals exact separate_sign (by decide) fun v => by cases v <;> rfl

namespace Lexer.AllSeparate

variable {w : Word} {words : List Word}

theorem mark (hw : w ∈ Word.marks) (h : AllSeparate v words) : AllSeparate v (w :: words) :=
  .cons (separate_mark hw) h

theorem parenthesize (h : AllSeparate v words) (needed : Bool) :
    AllSeparate v (parenthesize needed words) := by
  cases needed with
  | false => exact h
  | true => exact .mark (by decide) (.append h (.mark (by decide) .nil))

theorem itemWords {items : List Term} (h : ∀ item ∈ items, AllSeparate v item.words) :
    AllSeparate v (itemWords items) := by
  induction items with
  | nil => exact .nil
  | cons item items ih =>
    obtain ⟨hitem, hitems⟩ := List.forall_mem_cons.1 h
    exact .append (.mark (by decide) hitem) (ih hitems)

theorem argumentWords {arguments : List (CallForm × Term)}
    (hform : ∀ a ∈ arguments, a.1.Valid v) (h : ∀ a ∈ arguments, AllSeparate v a.2.words) :
    AllSeparate v (argumentWords arguments) := by
  induction arguments with
  | nil => exact .nil
  | cons a arguments ih =>
    obtain ⟨hfirst, hforms⟩ := List.forall_mem_cons.1 hform
    obtain ⟨hvalue, hvalues⟩ := List.forall_mem_cons.1 h
    refine .append (.append (.mark (by decide) ?_) hvalue) (ih hforms hvalues)
    obtain ⟨form, value⟩ := a
    cases form with
    | positional => exact .nil
    | keyword name => exact .cons (FreeName.separate hfirst) (.mark (by decide) .nil)
    | star => exact .mark (by decide) .nil
    | doubleStar => exact .mark (by decide) .nil

theorem entryWords {entries : List (Term × Term)} (hkey : ∀ e ∈ entries, AllSeparate v e.1.words)
    (hvalue : ∀ e ∈ entries, AllSeparate v e.2.words) : AllSeparate v (entryWords entries) := by
  induction entries with
  | nil => exact .nil
  | cons e entries ih =>
    obtain ⟨hfirst, hkeys⟩ := List.forall_mem_cons.1 hkey
    obtain ⟨hsecond, hvalues⟩ := List.forall_mem_cons.1 hvalue
    exact .append (.append (.mark (by decide) hfirst) (.mark (by decide) hsecond))
      (ih hkeys hvalues)

end Lexer.AllSeparate

/-- Every word of a term is read as it stands. -/
theorem Term.Valid.separate {t : Term} (h : t.Valid v) : AllSeparate v t.words := by
  induction h with
  | name h => exact .cons h.separate .nil
  | int h => exact .cons (separate_digits v h.nonempty h.digits) .nil
  | none => exact .cons (separate_keyword rfl rfl (by decide)) .nil
  -- Operands stand in parentheses where they bind less tightly.
  | unary hop _ ih => exact .cons (separate_unary hop) (ih.parenthesize _)
  | binary hop _ _ ihl ihr =>
    exact .append (.append (ihl.parenthesize _) (separate_binary hop)) (ihr.parenthesize _)
  | member _ hattr ih =>
    exact .append (ih.parenthesize _) (.mark (by decide) (.cons hattr.separate .nil))
  | subscript _ _ ih ihi =>
    exact .append (.append (ih.parenthesize _) (.mark (by decide) ihi)) (.mark (by decide) .nil)
  | call _ hforms _ ih iha =>
    have harguments := (AllSeparate.argumentWords hforms iha).tail
    exact .append (.append (ih.parenthesize _) (.mark (by decide) harguments))
      (.mark (by decide) .nil)
  | list _ ih =>
    exact .append (.mark (by decide) (AllSeparate.itemWords ih).tail) (.mark (by decide) .nil)
  | tuple _ ih =>
    refine .append (.append (.mark (by decide) (AllSeparate.itemWords ih).tail) ?_)
      (.mark (by decide) .nil)
    split
    · exact .mark (by decide) .nil
    · exact .nil
  | set _ _ ih ihm =>
    exact .append (.append (.mark (by decide) ih) (AllSeparate.itemWords ihm))
      (.mark (by decide) .nil)
  | dict _ _ ihk ihv =>
    exact .append (.mark (by decide) (AllSeparate.entryWords ihk ihv).tail)
      (.mark (by decide) .nil)

end Separate

/-! ### The first words -/

/-- Kinds of words that begin a term or a lambda. -/
def TokenKind.opensTerm : TokenKind → Bool
  | .identifier | .number _ | .keyword .none | .keyword .not | .keyword .lambda
  | .operator .lParen | .operator .lBracket | .operator .lCurly | .operator .minus
  | .operator .plus | .operator .tilde => true
  | _ => false

theorem TokenKind.ne_of_opensTerm {k k' : TokenKind} (h : k.opensTerm = true)
    (h' : k'.opensTerm = false) : k ≠ k' := by
  rintro rfl
  rw [h] at h'
  cases h'

/-- The words begin a term, and what follows the first word does not make it the name of an
    argument. -/
def Starts (words : List Word) : Prop :=
  ∃ w more, words = w :: more ∧ w.kind.opensTerm = true ∧ kindAt more 0 ≠ .equal

namespace Starts

variable {words words' : List Word}

theorem kindAt (h : Starts words) (more : List Word) :
    (PyAtlas.kindAt (words ++ more) 0).opensTerm = true := by
  obtain ⟨w, more, rfl, hw, -⟩ := h
  exact hw

theorem length_pos (h : Starts words) : 0 < words.length := by
  obtain ⟨w, more, rfl, -, -⟩ := h
  exact Nat.succ_pos _

theorem append (h : Starts words) (hmore : PyAtlas.kindAt words' 0 ≠ .equal) :
    Starts (words ++ words') := by
  obtain ⟨w, more, rfl, hw, hnext⟩ := h
  refine ⟨w, more ++ words', rfl, hw, ?_⟩
  cases more with
  | nil => exact hmore
  | cons next more => exact hnext

theorem append_starts (h : Starts words) (h' : Starts words') : Starts (words ++ words') := by
  have hopens : (PyAtlas.kindAt words' 0).opensTerm = true := by simpa using h'.kindAt []
  exact h.append (TokenKind.ne_of_opensTerm hopens rfl)

theorem parenthesize (h : Starts words) (needed : Bool) : Starts (parenthesize needed words) := by
  cases needed with
  | false => exact h
  | true =>
    exact ⟨.lParen, _, rfl, rfl, TokenKind.ne_of_opensTerm (h.kindAt _) rfl⟩

/-- A bracket before some terms with commas between them. -/
theorem bracket {w : Word} (hw : w.kind.opensTerm = true) (h : words = [] ∨ Starts words)
    {closing : List Word} (hclosing : PyAtlas.kindAt closing 0 ≠ .equal) :
    Starts (w :: words ++ closing) := by
  refine ⟨w, words ++ closing, rfl, hw, ?_⟩
  rcases h with rfl | h
  · exact hclosing
  · exact TokenKind.ne_of_opensTerm (h.kindAt closing) rfl

theorem itemWords {items : List Term} (h : ∀ item ∈ items, Starts item.words) :
    (itemWords items).tail = [] ∨ Starts (PyAtlas.itemWords items).tail := by
  cases items with
  | nil => exact .inl rfl
  | cons item items =>
    refine .inr (append (h item List.mem_cons_self) ?_)
    cases items <;> exact TokenKind.noConfusion

theorem entryWords {entries : List (Term × Term)} (h : ∀ e ∈ entries, Starts e.1.words) :
    (entryWords entries).tail = [] ∨ Starts (PyAtlas.entryWords entries).tail := by
  cases entries with
  | nil => exact .inl rfl
  | cons e entries =>
    refine .inr ?_
    show Starts (e.1.words ++ .colon :: e.2.words ++ PyAtlas.entryWords entries)
    rw [List.append_assoc]
    exact append (h e List.mem_cons_self) TokenKind.noConfusion

end Starts

theorem BinaryOp.kindAt_words (op : BinaryOp) (more : List Word) :
    kindAt (op.words ++ more) 0 ≠ .equal := by
  cases op <;> exact TokenKind.noConfusion

/-- A term begins with a word that begins an expression. -/
theorem Term.Valid.starts {v : Version} {t : Term} (h : t.Valid v) : Starts t.words := by
  induction h with
  | name _ => exact ⟨_, _, rfl, rfl, TokenKind.noConfusion⟩
  | int _ => exact ⟨_, _, rfl, rfl, TokenKind.noConfusion⟩
  | none => exact ⟨_, _, rfl, rfl, TokenKind.noConfusion⟩
  | @unary op operand hop _ ih =>
    refine ⟨op.word, _, rfl, ?_, TokenKind.ne_of_opensTerm ?_ rfl⟩
    · cases op <;> first | rfl | exact absurd rfl hop
    · simpa using (ih.parenthesize _).kindAt []
  | @binary op _ _ _ _ _ ihl ihr =>
    refine Starts.append_starts (Starts.append (ihl.parenthesize _) ?_) (ihr.parenthesize _)
    simpa using op.kindAt_words []
  | member _ _ ih => exact (ih.parenthesize _).append TokenKind.noConfusion
  | subscript _ _ ih _ =>
    rw [Term.words, List.append_assoc]
    exact (ih.parenthesize _).append TokenKind.noConfusion
  | call _ _ _ ih _ =>
    rw [Term.words, List.append_assoc]
    exact (ih.parenthesize _).append TokenKind.noConfusion
  | list _ ih => exact .bracket rfl (Starts.itemWords ih) TokenKind.noConfusion
  | tuple _ ih =>
    rw [Term.words, List.append_assoc]
    refine .bracket rfl (Starts.itemWords ih) ?_
    split <;> exact TokenKind.noConfusion
  | @set first more _ _ ih ihm =>
    have hitems : Starts (first.words ++ itemWords more) := by
      refine ih.append ?_
      cases more <;> exact TokenKind.noConfusion
    exact .bracket rfl (.inr hitems) TokenKind.noConfusion
  | dict _ _ ih _ => exact .bracket rfl (Starts.entryWords ih) TokenKind.noConfusion

/-! ### Matching brackets -/

theorem BinaryOp.balanced_words {op : BinaryOp} (h : op.strength ≠ 0) {commas colons : Bool} :
    Balanced commas colons op.words := by
  cases op with
  | operator op =>
    refine .plain ?_
    cases op <;> first | rfl | exact absurd rfl h
  | notIn => exact .cons (.plain rfl) (.plain rfl)
  | isNot => exact .cons (.plain rfl) (.plain rfl)
  | _ => exact .plain rfl

theorem UnaryOp.balanced_word (op : UnaryOp) {commas colons : Bool} :
    Balanced commas colons [op.word] := by
  refine .plain ?_
  cases op <;> rfl

theorem CallForm.balanced_words (form : CallForm) {commas colons : Bool} :
    Balanced commas colons form.words := by
  cases form with
  | positional => exact .nil
  | keyword name => exact .cons (.plain rfl) (.plain rfl)
  | star => exact .plain rfl
  | doubleStar => exact .plain rfl

namespace Balanced

theorem parenthesize {commas colons : Bool} {words : List Word}
    (h : Balanced commas colons words) (needed : Bool) :
    Balanced commas colons (parenthesize needed words) := by
  cases needed with
  | false => exact h
  | true => exact .bracket rfl rfl h.inward

theorem itemWords {items : List Term} (h : ∀ item ∈ items, Balanced true true item.words) :
    Balanced true true (itemWords items) := by
  induction items with
  | nil => exact .nil
  | cons item items ih =>
    obtain ⟨hitem, hitems⟩ := List.forall_mem_cons.1 h
    exact .append (.cons .comma hitem) (ih hitems)

theorem itemWords_tail {items : List Term} (h : ∀ item ∈ items, Balanced true true item.words) :
    Balanced true true (PyAtlas.itemWords items).tail := by
  cases items with
  | nil => exact .nil
  | cons item items =>
    obtain ⟨hitem, hitems⟩ := List.forall_mem_cons.1 h
    exact .append hitem (itemWords hitems)

theorem argumentWords {arguments : List (CallForm × Term)}
    (h : ∀ a ∈ arguments, Balanced true true a.2.words) :
    Balanced true true (argumentWords arguments) := by
  induction arguments with
  | nil => exact .nil
  | cons a arguments ih =>
    obtain ⟨hvalue, hvalues⟩ := List.forall_mem_cons.1 h
    exact .append (.append (.cons .comma a.1.balanced_words) hvalue) (ih hvalues)

theorem argumentWords_tail {arguments : List (CallForm × Term)}
    (h : ∀ a ∈ arguments, Balanced true true a.2.words) :
    Balanced true true (PyAtlas.argumentWords arguments).tail := by
  cases arguments with
  | nil => exact .nil
  | cons a arguments =>
    obtain ⟨hvalue, hvalues⟩ := List.forall_mem_cons.1 h
    exact .append (.append a.1.balanced_words hvalue) (argumentWords hvalues)

theorem entryWords {entries : List (Term × Term)}
    (hkey : ∀ e ∈ entries, Balanced true true e.1.words)
    (hvalue : ∀ e ∈ entries, Balanced true true e.2.words) :
    Balanced true true (entryWords entries) := by
  induction entries with
  | nil => exact .nil
  | cons e entries ih =>
    obtain ⟨hfirst, hkeys⟩ := List.forall_mem_cons.1 hkey
    obtain ⟨hsecond, hvalues⟩ := List.forall_mem_cons.1 hvalue
    exact .append (.append (.cons .comma hfirst) (.cons .colon hsecond)) (ih hkeys hvalues)

theorem entryWords_tail {entries : List (Term × Term)}
    (hkey : ∀ e ∈ entries, Balanced true true e.1.words)
    (hvalue : ∀ e ∈ entries, Balanced true true e.2.words) :
    Balanced true true (PyAtlas.entryWords entries).tail := by
  cases entries with
  | nil => exact .nil
  | cons e entries =>
    obtain ⟨hfirst, hkeys⟩ := List.forall_mem_cons.1 hkey
    obtain ⟨hsecond, hvalues⟩ := List.forall_mem_cons.1 hvalue
    exact .append (.append hfirst (.cons .colon hsecond)) (entryWords hkeys hvalues)

end Balanced

/-- The brackets of a term match. -/
theorem Term.Valid.balanced {v : Version} {t : Term} (h : t.Valid v) :
    Balanced false false t.words := by
  induction h with
  | name _ => exact .plain rfl
  | int _ => exact .plain rfl
  | none => exact .plain rfl
  | @unary op _ _ _ ih => exact .cons op.balanced_word (ih.parenthesize _)
  | binary hop _ _ ihl ihr =>
    exact .append (.append (ihl.parenthesize _) (BinaryOp.balanced_words hop))
      (ihr.parenthesize _)
  | member _ _ ih => exact .append (ih.parenthesize _) (.cons (.plain rfl) (.plain rfl))
  | subscript _ _ ih ihi =>
    rw [Term.words, List.append_assoc]
    exact .append (ih.parenthesize _) (.bracket rfl rfl ihi.inward)
  | call _ _ _ ih iha =>
    rw [Term.words, List.append_assoc]
    exact .append (ih.parenthesize _)
      (.bracket rfl rfl (Balanced.argumentWords_tail fun a ha => (iha a ha).inward))
  | list _ ih =>
    exact .bracket rfl rfl (Balanced.itemWords_tail fun item hitem => (ih item hitem).inward)
  | tuple _ ih =>
    refine .bracket rfl rfl (.append  ?_ ?_)
    · exact Balanced.itemWords_tail fun item hitem => (ih item hitem).inward
    · split
      · exact .comma
      · exact .nil
  | set _ _ ih ihm =>
    exact .bracket rfl rfl
      (.append ih.inward (Balanced.itemWords fun item hitem => (ihm item hitem).inward))
  | dict _ _ ihk ihv =>
    exact .bracket rfl rfl (Balanced.entryWords_tail (fun e he => (ihk e he).inward)
      fun e he => (ihv e he).inward)

/-! ### Negation at the front -/

theorem Starts.kindAt_append {words : List Word} (h : Starts words) (more : List Word) :
    PyAtlas.kindAt (words ++ more) 0 = PyAtlas.kindAt words 0 := by
  obtain ⟨w, words, rfl, -, -⟩ := h
  rfl

/-- An operand that begins with `not` is in parentheses where the operator holds tighter. -/
theorem not_first_parenthesize {operand : Term} {strength : Nat} (equal : Bool)
    (hstrength : UnaryOp.strength .not < strength)
    (h : UnaryOp.strength .not < operand.strength → kindAt operand.words 0 ≠ .keyword .not) :
    kindAt (parenthesize (operand.needsParens strength equal) operand.words) 0
      ≠ .keyword .not := by
  cases hneeded : operand.needsParens strength equal with
  | true => exact TokenKind.noConfusion
  | false =>
    refine h ?_
    cases equal <;> simp [Term.needsParens] at hneeded <;> omega

/-- A term begins with `not` only where it holds together no tighter than that. -/
theorem Term.Valid.not_first {v : Version} {t : Term} (h : t.Valid v)
    (hstrength : UnaryOp.strength .not < t.strength) : kindAt t.words 0 ≠ .keyword .not := by
  induction h with
  | @unary op _ _ _ _ =>
    cases op with
    | not => exact absurd hstrength (Nat.lt_irrefl _)
    | _ => exact fun heq => by cases heq
  | binary _ hl _ ih _ =>
    rw [Term.words, List.append_assoc, (hl.starts.parenthesize _).kindAt_append]
    exact not_first_parenthesize _ hstrength ih
  | member hvalue _ ih =>
    rw [Term.words, (hvalue.starts.parenthesize _).kindAt_append]
    exact not_first_parenthesize _ (by decide) ih
  | subscript hvalue _ ih _ =>
    rw [Term.words, List.append_assoc, (hvalue.starts.parenthesize _).kindAt_append]
    exact not_first_parenthesize _ (by decide) ih
  | call hvalue _ _ ih _ =>
    rw [Term.words, List.append_assoc, (hvalue.starts.parenthesize _).kindAt_append]
    exact not_first_parenthesize _ (by decide) ih
  | _ => exact fun heq => by cases heq

end PyAtlas
