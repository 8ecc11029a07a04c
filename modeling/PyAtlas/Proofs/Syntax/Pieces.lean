import PyAtlas.Proofs.Syntax.TermParts

/-!
# Parsing what stands in brackets

Displays, subscripts and calls hold expressions with commas between them. A `Piece` is one such
expression: its words and the tree they stand for. How it was built does not matter here, only
that it is read as its tree where an expression of the loosest kind is asked for.

## Key results
- `Piece.Read.alone`, `Piece.Read.item`: a piece is read up to where it ends.
- `takes_parenthesized`, `takes_tuple`, `takes_listDisplay`, `takes_set`, `takes_dict`: displays.
- `takes_callArguments`, `takes_subscript`: what follows a value.
- `Reads.brackets`, `reads_list`, `reads_dict`, `Reads.call`: all of these where an operand is
  asked for.
-/

namespace PyAtlas

open PyAtlas.Parser

/-! ### Pieces -/

/-- The words of an expression and the tree they stand for. -/
structure Piece where
  words : List Word
  tree : Expr

/-- The words begin an expression and are read as the tree wherever a whole expression may
    stand. -/
structure Piece.Read (v : Version) (x : Piece) : Prop where
  starts : Starts x.words
  reads : Reads v x.words 2 0 x.tree

/-- In front of a colon the piece is taken for the first key of a dictionary. -/
def Piece.OpensDict (x : Piece) : Prop :=
  ∀ (s : ParserState) (rest : List Word), s.ahead = x.words ++ .colon :: rest →
    s.cursor.atDictEntry = true

/-- In front of a comma or the closing bracket the piece is taken for the first item of a set. -/
def Piece.OpensSet (x : Piece) : Prop :=
  ∀ (s : ParserState) (rest : List Word), s.ahead = x.words ++ rest →
    kindAt rest 0 = .operator .comma ∨ kindAt rest 0 = .operator .rCurly →
    s.cursor.atDictEntry = false

/-- A comma may stand behind the last part of a row. -/
def Trailing (words : List Word) : Prop := words = [] ∨ words = [.comma]

/-- What stands behind a separator is shorter than the whole. -/
theorem length_lt_append_cons (words : List Word) (w : Word) (rest : List Word) :
    rest.length < (words ++ w :: rest).length := by
  rw [List.length_append, List.length_cons]
  omega

section Brackets

variable {v : Version} {expr : ExprParser} {limit : Nat} {w : Word}
  {words rest trailing : List Word} {x first : Piece} {items : List Piece}

theorem Piece.Read.takes (h : x.Read v) (hexpr : Inner v limit expr)
    (hlimit : (x.words ++ rest).length < limit) (hrest : Follows rest 0) {p : Nat} (hp : p < 2) :
    Takes (x.words ++ rest) rest (expr p) fun e => e.unplaced = x.tree :=
  h.reads.run hexpr hlimit hp hrest (hrest.mono (Nat.zero_le p))

theorem Piece.Read.alone (h : x.Read v) (hexpr : Inner v limit expr)
    (hlimit : (x.words ++ rest).length < limit) (hrest : Follows rest 0) :
    Takes (x.words ++ rest) rest (expr .initial) fun e => e.unplaced = x.tree :=
  h.takes hexpr hlimit hrest Nat.two_pos

/-- Where no star comes next, none is read. -/
theorem Takes.starOrExpr {before after : List Word} {Q : Expr → Prop}
    (hfirst : kindAt before 0 ≠ .operator .star) (h : Takes before after (expr .initial) Q) :
    Takes before after (Parser.starOrExpr expr) Q := by
  intro s hs
  have hkind : s.cursor.peek.kind ≠ .operator .star := by
    rw [← s.kindAt_eq hs] at hfirst
    exact hfirst
  have hrun : Parser.starOrExpr expr s = expr .initial s := by
    have hno : ¬ (s.cursor.peek.kind == TokenKind.operator .star) = true := by simpa using hkind
    exact congrFun (if_neg hno) s
  rw [hrun]
  exact h s hs

theorem Piece.Read.item (h : x.Read v) (hexpr : Inner v limit expr)
    (hlimit : (x.words ++ rest).length < limit) (hrest : Follows rest 0) :
    Takes (x.words ++ rest) rest (starOrExpr expr) fun e => e.unplaced = x.tree :=
  .starOrExpr (TokenKind.ne_of_opensTerm (h.starts.kindAt _) rfl) (h.alone hexpr hlimit hrest)

/-- The first word of a piece is none that cannot begin an expression. -/
theorem Piece.Read.first_ne (h : x.Read v) {k : TokenKind} (hk : k.opensTerm = false) :
    kindAt (x.words ++ rest) 0 ≠ k :=
  TokenKind.ne_of_opensTerm (h.starts.kindAt rest) hk

/-- The bracket that closes is there. -/
theorem takes_expectClosing {closing : Operator} (hw : w.kind = .operator closing) :
    Takes (w :: rest) rest (expectClosing closing) fun _ => True :=
  Takes.peek_bind fun _ _ => Takes.eats_true hw (.pure trivial)

/-- A word that closes a bracket ends a term. -/
theorem endsTerm_of_isClosing {closing : Operator} (h : closing.isClosing = true) :
    (TokenKind.operator closing).endsTerm = true := by
  simp [TokenKind.endsTerm, h]

theorem opensTerm_of_isClosing {closing : Operator} (h : closing.isClosing = true) :
    (TokenKind.operator closing).opensTerm = false := by
  cases closing <;> first | rfl | cases h

/-! ### Rows -/

/-- The words of a row of pieces behind a comma each. -/
def rowWords (items : List Piece) : List Word := behindCommas (items.map Piece.words)

theorem rowWords_cons (x : Piece) (items : List Piece) (rest : List Word) :
    rowWords (x :: items) ++ rest = .comma :: (x.words ++ (rowWords items ++ rest)) := by
  simp [rowWords, behindCommas]

/-- Behind each part of a row comes a comma or the closing bracket. -/
theorem endsTerm_behindCommas (groups : List (List Word)) (htrailing : Trailing trailing)
    (hw : w.kind.endsTerm = true) :
    (kindAt (behindCommas groups ++ (trailing ++ w :: rest)) 0).endsTerm = true := by
  cases groups with
  | nil =>
    rcases htrailing with rfl | rfl
    · exact hw
    · rfl
  | cons group groups => rfl

/-- The items of a display after the first one, with or without a comma at the end. -/
theorem takes_moreItems {closing : Operator} (hw : w.kind = .operator closing)
    (hclosing : closing.isClosing = true) (htrailing : Trailing trailing)
    (hexpr : Inner v limit expr) (hitems : ∀ item ∈ items, item.Read v)
    (hlimit : (rowWords items ++ (trailing ++ w :: rest)).length ≤ limit) (done : List Expr) :
    Takes (rowWords items ++ (trailing ++ w :: rest)) (w :: rest) (moreItems expr closing done)
      fun es => unplacedExprs es = unplacedExprs done ++ items.map Piece.tree := by
  have hends : w.kind.endsTerm = true := by rw [hw, endsTerm_of_isClosing hclosing]
  induction items generalizing done with
  | nil =>
    refine Takes.loop_finished ?_
    have hdone : unplacedExprs done = unplacedExprs done ++ [] := (List.append_nil _).symm
    -- Only the comma at the end, if there is one, is left before the bracket.
    rcases htrailing with rfl | rfl
    · refine Takes.eats_false (fun heq => ?_) (.pure ⟨done, rfl, hdone⟩)
      cases hw.symm.trans heq
      cases hclosing
    · exact Takes.eats_true rfl (Takes.at?_true hw (.pure ⟨done, rfl, hdone⟩))
  | cons item items ih =>
    obtain ⟨hitem, hitems⟩ := List.forall_mem_cons.1 hitems
    rw [rowWords_cons] at hlimit ⊢
    have hrest : (kindAt (rowWords items ++ (trailing ++ w :: rest)) 0).endsTerm = true :=
      endsTerm_behindCommas _ htrailing hends
    have hlength : (rowWords items ++ (trailing ++ w :: rest)).length
        < (Word.comma :: (item.words ++ (rowWords items ++ (trailing ++ w :: rest)))).length := by
      simp only [List.length_cons, List.length_append]
      omega
    refine Takes.loop_again (y := rowWords items ++ (trailing ++ w :: rest))
      (S := fun es => unplacedExprs es = unplacedExprs done ++ [item.tree])
      (Takes.eats_true rfl (Takes.at?_false ?_ ?_)) hlength fun es hes => ?_
    -- Behind a comma that does not come last an item begins.
    · exact hitem.first_ne (opensTerm_of_isClosing hclosing)
    · refine (hitem.item hexpr (by simp at hlimit ⊢; omega) (.of_endsTerm hrest 0)).bind
        fun e he => .pure ⟨_, rfl, ?_⟩
      rw [unplacedExprs_append, unplacedExprs, he]
      rfl
    · have hless := Nat.le_of_lt (Nat.lt_of_lt_of_le hlength hlimit)
      refine (ih hitems hless es).weaken fun es' hes' => ?_
      rw [hes', hes, List.append_assoc]
      rfl

/-! ### Arguments -/

/-- The words of an argument. -/
def argumentPieceWords (a : CallForm × Piece) : List Word := a.1.words ++ a.2.words

theorem Piece.Read.positional (h : x.Read v) (hexpr : Inner v limit expr)
    (hlimit : (x.words ++ rest).length < limit) (hrest : (kindAt rest 0).endsTerm = true) :
    Takes (x.words ++ rest) rest (positionalArgument v expr)
      fun a => a.unplaced = .positional x.tree := by
  refine (h.alone hexpr hlimit (.of_endsTerm hrest 0)).bind fun e he => ?_
  refine Takes.look_bind (a := false) (fun s hs => atComprehension_of_endsTerm v hs hrest) ?_
  exact .pure (congrArg Argument.positional he)

/-- What begins an argument without a name is read as such: it may begin with a name, but no
    equals sign stands behind its first word. -/
theorem takes_argument_positional {Q : Argument → Prop} {after : List Word}
    (hstarts : Starts words) (h : Takes words after (positionalArgument v expr) Q) :
    Takes words after (argument v expr) Q := by
  obtain ⟨w, more, rfl, hopens, hnext⟩ := hstarts
  refine Takes.peek_bind fun token htoken => ?_
  have hkind : token.kind = w.kind := congrArg Word.kind htoken
  split
  · next hstar => rw [← hkind, hstar] at hopens; cases hopens
  · next hstar => rw [← hkind, hstar] at hopens; cases hopens
  · split
    · refine Takes.look_bind (a := false) (fun s hs => ?_) h
      rw [s.kindAt_eq hs]
      exact beq_eq_false_iff_ne.2 hnext
    · exact h

/-- One argument of a call. -/
theorem takes_argument {form : CallForm} (h : x.Read v) (hexpr : Inner v limit expr)
    (hlimit : (form.words ++ x.words ++ rest).length < limit)
    (hrest : (kindAt rest 0).endsTerm = true) (hequal : kindAt rest 0 ≠ .equal) :
    Takes (form.words ++ x.words ++ rest) rest (argument v expr)
      fun a => a.unplaced = form.argument x.tree := by
  have hfollows : Follows rest 0 := .of_endsTerm hrest 0
  have hless : (x.words ++ rest).length < limit := by
    simp only [List.length_append] at hlimit ⊢
    omega
  cases form with
  | star =>
    refine Takes.peek_bind fun token htoken => ?_
    have hkind : token.kind = .operator .star := congrArg Word.kind htoken
    rw [hkind]
    refine Takes.advance_bind (Takes.map ?_)
    exact (h.alone hexpr hless hfollows).weaken fun e he => congrArg Argument.star he
  | doubleStar =>
    refine Takes.peek_bind fun token htoken => ?_
    have hkind : token.kind = .operator .doubleStar := congrArg Word.kind htoken
    rw [hkind]
    refine Takes.advance_bind (Takes.map ?_)
    exact (h.alone hexpr hless hfollows).weaken fun e he => congrArg Argument.doubleStar he
  | keyword name =>
    refine Takes.peek_bind fun token htoken => ?_
    have hkind : token.kind = .identifier := congrArg Word.kind htoken
    have hident : identifier? token = some ⟨token.text, token.span⟩ := by rw [identifier?, hkind]
    rw [hkind, hident]
    refine Takes.look_bind (a := true) (fun s hs => by rw [s.kindAt_eq hs]; rfl) ?_
    refine Takes.advance_bind (Takes.advance_bind (Takes.map ?_))
    have hname : token.text = name := Token.text_of_word htoken rfl
    refine (h.alone hexpr hless hfollows).weaken fun e he => ?_
    rw [Argument.unplaced, he, Identifier.unplaced, hname]
    rfl
  | positional =>
    exact takes_argument_positional (h.starts.append hequal) (h.positional hexpr hless hrest)

/-- An argument begins with none of the words that stand behind one. -/
theorem argument_first_ne (form : CallForm) (h : Starts words) (rest : List Word) :
    kindAt (form.words ++ words ++ rest) 0 ≠ .operator .rParen
      ∧ kindAt (form.words ++ words ++ rest) 0 ≠ .operator .comma := by
  cases form with
  | positional =>
    exact ⟨TokenKind.ne_of_opensTerm (h.kindAt _) rfl, TokenKind.ne_of_opensTerm (h.kindAt _) rfl⟩
  | _ => constructor <;> exact fun heq => by cases heq

/-- Behind an argument comes a comma or the closing parenthesis. -/
def EndsArgument (words : List Word) : Prop :=
  kindAt words 0 = .operator .comma ∨ kindAt words 0 = .operator .rParen

theorem endsArgument_behindCommas (groups : List (List Word)) (htrailing : Trailing trailing) :
    EndsArgument (behindCommas groups ++ (trailing ++ .rParen :: rest)) := by
  cases groups with
  | nil =>
    rcases htrailing with rfl | rfl
    · exact .inr rfl
    · exact .inl rfl
  | cons _ _ => exact .inl rfl

/-- Where an argument begins it is read before all others. -/
theorem takes_moreArguments_one {form : CallForm} {middle : List Word}
    {Q : List Argument → Prop} (h : x.Read v) (hexpr : Inner v limit expr)
    (hlimit : (form.words ++ x.words ++ middle).length < limit) (hmiddle : EndsArgument middle)
    (done : List Argument)
    (hnext : ∀ a : Argument, a.unplaced = form.argument x.tree →
      Takes middle rest (moreArguments v expr (done ++ [a])) Q) :
    Takes (form.words ++ x.words ++ middle) rest (moreArguments v expr done) Q := by
  have hends : (kindAt middle 0).endsTerm = true := by rcases hmiddle with h | h <;> rw [h] <;> rfl
  have hequal : kindAt middle 0 ≠ .equal := by
    rcases hmiddle with h | h <;> exact h ▸ TokenKind.noConfusion
  refine Takes.loop_again (y := middle)
    (S := fun as => ∃ a : Argument, a.unplaced = form.argument x.tree ∧ as = done ++ [a])
    (Takes.kind_bind ?_) ?_ ?_
  · obtain ⟨hclose, hcomma⟩ := argument_first_ne form h.starts middle
    rw [if_neg (by simpa using hclose), beq_eq_false_iff_ne.2 hcomma, Bool.false_and]
    refine (takes_argument h hexpr hlimit hends hequal).bind fun a ha => ?_
    refine Takes.peekKind_bind fun token hkind => ?_
    rcases hmiddle with hmiddle | hmiddle
    all_goals
      rw [hkind, hmiddle]
      exact .pure ⟨_, rfl, a, ha, rfl⟩
  · have := h.starts.length_pos
    simp
    omega
  · rintro _ ⟨a, ha, rfl⟩
    exact hnext a ha

/-- A comma behind an argument is read by a step of its own. -/
theorem takes_moreArguments_comma {Q : List Argument → Prop} {done : List Argument}
    (hdone : done ≠ []) {after : List Word}
    (h : Takes rest after (moreArguments v expr done) Q) :
    Takes (.comma :: rest) after (moreArguments v expr done) Q := by
  refine Takes.loop_again (S := fun as => as = done) (Takes.kind_bind ?_) (Nat.lt_succ_self _) ?_
  · have hseparator : (TokenKind.operator .comma == .operator .comma && !done.isEmpty) = true := by
      simpa using hdone
    exact (if_pos hseparator).symm ▸ Takes.advance_bind (.pure ⟨done, rfl, rfl⟩)
  · rintro _ rfl
    exact h

theorem takes_moreArguments_end (done : List Argument) :
    Takes (.rParen :: rest) rest (moreArguments v expr done)
      fun as => unplacedArguments as = unplacedArguments done :=
  Takes.loop_finished (Takes.kind_bind (Takes.advance_bind (.pure ⟨done, rfl, rfl⟩)))

/-- The arguments behind the first one and the closing parenthesis. -/
theorem takes_moreArguments (hexpr : Inner v limit expr) {arguments : List (CallForm × Piece)}
    (hread : ∀ a ∈ arguments, a.2.Read v) (htrailing : Trailing trailing)
    (hlimit : (behindCommas (arguments.map argumentPieceWords)
      ++ (trailing ++ .rParen :: rest)).length ≤ limit)
    {done : List Argument} (hdone : done ≠ []) :
    Takes (behindCommas (arguments.map argumentPieceWords) ++ (trailing ++ .rParen :: rest)) rest
      (moreArguments v expr done)
      fun as => unplacedArguments as
        = unplacedArguments done ++ arguments.map fun a => a.1.argument a.2.tree := by
  induction arguments generalizing done with
  | nil =>
    have hend : Takes (.rParen :: rest) rest (moreArguments v expr done)
        fun as => unplacedArguments as = unplacedArguments done ++ [] := by
      rw [List.append_nil]
      exact takes_moreArguments_end done
    rcases htrailing with rfl | rfl
    · exact hend
    · exact takes_moreArguments_comma hdone hend
  | cons a arguments ih =>
    obtain ⟨hfirst, hmore⟩ := List.forall_mem_cons.1 hread
    obtain ⟨form, value⟩ := a
    have hsplit : behindCommas (((form, value) :: arguments).map argumentPieceWords)
          ++ (trailing ++ .rParen :: rest)
        = .comma :: (form.words ++ value.words
          ++ (behindCommas (arguments.map argumentPieceWords)
            ++ (trailing ++ .rParen :: rest))) := by
      simp [behindCommas, argumentPieceWords]
    rw [hsplit] at hlimit ⊢
    refine takes_moreArguments_comma hdone (takes_moreArguments_one hfirst hexpr
      (Nat.lt_of_succ_le hlimit) (endsArgument_behindCommas _ htrailing) _ fun a ha => ?_)
    have hless : (behindCommas (arguments.map argumentPieceWords)
        ++ (trailing ++ .rParen :: rest)).length ≤ limit := by
      simp only [List.length_cons, List.length_append] at hlimit ⊢
      omega
    refine (ih hmore hless (List.append_ne_nil_of_right_ne_nil _ (List.cons_ne_nil _ _))).weaken
      fun as has => ?_
    rw [has, unplacedArguments_append, unplacedArguments, ha, List.map_cons, List.append_assoc]
    rfl

/-- The arguments of a call and the closing parenthesis. -/
theorem takes_callArguments (hexpr : Inner v limit expr) {arguments : List (CallForm × Piece)}
    (hread : ∀ a ∈ arguments, a.2.Read v) (htrailing : Trailing trailing)
    (hcomma : arguments = [] → trailing = [])
    (hlimit : ((behindCommas (arguments.map argumentPieceWords)).tail
      ++ (trailing ++ .rParen :: rest)).length < limit) :
    Takes ((behindCommas (arguments.map argumentPieceWords)).tail
        ++ (trailing ++ .rParen :: rest)) rest (callArguments v expr)
      fun as => unplacedArguments as = arguments.map fun a => a.1.argument a.2.tree := by
  cases arguments with
  | nil =>
    obtain rfl := hcomma rfl
    exact takes_moreArguments_end []
  | cons a arguments =>
    obtain ⟨hfirst, hmore⟩ := List.forall_mem_cons.1 hread
    obtain ⟨form, value⟩ := a
    have hsplit : (behindCommas (((form, value) :: arguments).map argumentPieceWords)).tail
          ++ (trailing ++ .rParen :: rest)
        = form.words ++ value.words ++ (behindCommas (arguments.map argumentPieceWords)
          ++ (trailing ++ .rParen :: rest)) := by
      simp [behindCommas, argumentPieceWords]
    rw [hsplit] at hlimit ⊢
    refine takes_moreArguments_one hfirst hexpr hlimit (endsArgument_behindCommas _ htrailing) _
      fun a ha => ?_
    refine (takes_moreArguments hexpr hmore htrailing ?_ (List.cons_ne_nil _ _)).weaken
        fun as has => ?_
    · rw [List.length_append] at hlimit
      omega
    · rw [has, unplacedArguments, ha]
      rfl

/-! ### Dictionaries -/

/-- The words of an entry of a dictionary. -/
def entryPieceWords (e : Piece × Piece) : List Word := e.1.words ++ .colon :: e.2.words

section Entries

variable {key value : Piece} {entries : List (Piece × Piece)}

/-- One entry of a dictionary. -/
theorem takes_dictEntry (hkey : key.Read v) (hvalue : value.Read v) (hexpr : Inner v limit expr)
    (hlimit : (entryPieceWords (key, value) ++ rest).length < limit) (hrest : Follows rest 0) :
    Takes (entryPieceWords (key, value) ++ rest) rest (dictEntry expr)
      fun r => ∃ k e, r = some (k, e) ∧ k.unplaced = key.tree ∧ e.unplaced = value.tree := by
  have hsplit : entryPieceWords (key, value) ++ rest
      = key.words ++ .colon :: (value.words ++ rest) := by
    simp [entryPieceWords]
  rw [hsplit] at hlimit ⊢
  refine Takes.peekKind_bind fun start _ => Takes.eats_false (hkey.first_ne rfl) ?_
  refine (hkey.alone hexpr hlimit (.of_endsTerm rfl 0)).bind fun k hk => ?_
  refine Takes.peekKind_bind fun token _ => Takes.eats_true rfl ?_
  have hless : (value.words ++ rest).length < limit := by
    rw [List.length_append, List.length_cons] at hlimit
    omega
  exact (hvalue.alone hexpr hless hrest).bind fun e he => .pure ⟨k, e, rfl, hk, he⟩

theorem entryRow_cons (next : Piece × Piece) (entries : List (Piece × Piece)) (rest : List Word) :
    behindCommas ((next :: entries).map entryPieceWords) ++ rest
      = .comma :: (entryPieceWords next
        ++ (behindCommas (entries.map entryPieceWords) ++ rest)) := by
  simp [behindCommas]

/-- An entry is put behind those that have been read. -/
theorem unplacedEntries_concat (done : List (Expr × Expr)) {k e : Expr}
    (hk : k.unplaced = key.tree) (he : e.unplaced = value.tree) :
    unplacedEntries (done ++ [(k, e)]) = unplacedEntries done ++ [(key.tree, value.tree)] := by
  rw [unplacedEntries_append, unplacedEntries, hk, he]
  rfl

/-- The last entry is read with the closing bracket, and with a comma before it. -/
theorem takes_entryStep_last (hkey : key.Read v) (hvalue : value.Read v)
    (hexpr : Inner v limit expr) (htrailing : Trailing trailing)
    (hlimit : (entryPieceWords (key, value) ++ (trailing ++ .rCurly :: rest)).length < limit)
    (done : List (Expr × Expr)) :
    Takes (entryPieceWords (key, value) ++ (trailing ++ .rCurly :: rest)) rest
      (entryStep v expr done)
      fun r => ∃ items, r = .finished (some items)
        ∧ unplacedEntries items = unplacedEntries done ++ [(key.tree, value.tree)] := by
  have hrest : (kindAt (trailing ++ .rCurly :: rest) 0).endsTerm = true :=
    endsTerm_behindCommas [] htrailing rfl
  refine (takes_dictEntry hkey hvalue hexpr hlimit (.of_endsTerm hrest 0)).bind ?_
  rintro _ ⟨k, e, rfl, hk, he⟩
  refine Takes.look_bind (a := false) (fun s hs => atComprehension_of_endsTerm v hs hrest) ?_
  rw [Bool.and_false]
  have hclosed : Takes (.rCurly :: rest) rest
      (do
        expectClosing .rCurly
        pure (.finished (some (done ++ [(k, e)]))) :
        Parser (LoopStep (List (Expr × Expr)) (Option (List (Expr × Expr)))))
      fun r => ∃ items, r = .finished (some items)
        ∧ unplacedEntries items = unplacedEntries done ++ [(key.tree, value.tree)] :=
    (takes_expectClosing rfl).bind fun _ _ => .pure ⟨_, rfl, unplacedEntries_concat done hk he⟩
  rcases htrailing with rfl | rfl
  · exact Takes.eats_false (fun heq => by cases heq) hclosed
  · exact Takes.eats_true rfl (Takes.at?_true rfl hclosed)

/-- Where a comma is followed by no closing bracket, there is one more entry. -/
theorem takes_entryStep_comma (hkey : key.Read v) (hvalue : value.Read v)
    (hexpr : Inner v limit expr)
    (hlimit : (entryPieceWords (key, value) ++ .comma :: rest).length < limit)
    (hrest : kindAt rest 0 ≠ .operator .rCurly) (done : List (Expr × Expr)) :
    Takes (entryPieceWords (key, value) ++ .comma :: rest) rest (entryStep v expr done)
      fun r => ∃ items, r = .again items
        ∧ unplacedEntries items = unplacedEntries done ++ [(key.tree, value.tree)] := by
  refine (takes_dictEntry hkey hvalue hexpr hlimit (.of_endsTerm rfl 0)).bind ?_
  rintro _ ⟨k, e, rfl, hk, he⟩
  refine Takes.look_bind (a := false) (fun s hs => atComprehension_of_endsTerm v hs rfl) ?_
  rw [Bool.and_false]
  exact Takes.eats_true rfl
    (Takes.at?_false hrest (.pure ⟨_, rfl, unplacedEntries_concat done hk he⟩))

/-- The entries of a dictionary and its closing bracket. -/
theorem takes_moreEntries (hexpr : Inner v limit expr) (hkey : key.Read v) (hvalue : value.Read v)
    (hread : ∀ e ∈ entries, e.1.Read v ∧ e.2.Read v) (htrailing : Trailing trailing)
    (hlimit : (entryPieceWords (key, value) ++ (behindCommas (entries.map entryPieceWords)
      ++ (trailing ++ .rCurly :: rest))).length < limit) (done : List (Expr × Expr)) :
    Takes (entryPieceWords (key, value) ++ (behindCommas (entries.map entryPieceWords)
        ++ (trailing ++ .rCurly :: rest))) rest (moreEntries v expr done)
      fun r => ∃ items, r = some items ∧ unplacedEntries items
        = unplacedEntries done ++ ((key, value) :: entries).map fun e => (e.1.tree, e.2.tree) := by
  induction entries generalizing key value done with
  | nil =>
    refine Takes.loop_finished
      ((takes_entryStep_last hkey hvalue hexpr htrailing hlimit done).weaken ?_)
    rintro _ ⟨items, rfl, hitems⟩
    exact ⟨_, rfl, items, rfl, hitems⟩
  | cons next entries ih =>
    obtain ⟨hnext, hmore⟩ := List.forall_mem_cons.1 hread
    rw [entryRow_cons] at hlimit ⊢
    have hopens : kindAt (entryPieceWords next ++ (behindCommas (entries.map entryPieceWords)
        ++ (trailing ++ .rCurly :: rest))) 0 ≠ .operator .rCurly := by
      rw [entryPieceWords, List.append_assoc]
      exact hnext.1.first_ne rfl
    refine Takes.loop_again (takes_entryStep_comma hkey hvalue hexpr hlimit hopens done)
      (length_lt_append_cons _ _ _) fun items hitems => ?_
    have hless := Nat.lt_trans (length_lt_append_cons _ _ _) hlimit
    refine (ih hnext.1 hnext.2 hmore hless items).weaken ?_
    rintro _ ⟨items', rfl, hitems'⟩
    refine ⟨items', rfl, ?_⟩
    rw [hitems', hitems, List.append_assoc]
    rfl

end Entries

/-! ### Displays -/

/-- What follows an opening parenthesis, where one expression stands in parentheses. -/
theorem takes_parenthesized (h : x.Read v) (hexpr : Inner v limit expr)
    (hlimit : (x.words ++ .rParen :: rest).length < limit) (start : Span) :
    Takes (x.words ++ .rParen :: rest) rest (parenthesized v expr start)
      fun e => e.unplaced = x.tree := by
  refine Takes.eats_false (h.first_ne rfl) (Takes.eat_none (h.first_ne rfl) ?_)
  refine (h.item hexpr hlimit (.of_endsTerm rfl 0)).bind fun e he => ?_
  refine Takes.look_bind (a := false) (fun s hs => atComprehension_of_endsTerm v hs rfl) ?_
  refine Takes.at?_false (fun heq => by cases heq) ?_
  exact (takes_expectClosing rfl).bind fun _ _ => .pure he

/-- What stands behind the first item of a display, and the bracket that closes it. -/
theorem takes_furtherItems {closing : Operator} (hw : w.kind = .operator closing)
    (hclosing : closing.isClosing = true) (htrailing : Trailing trailing)
    (hexpr : Inner v limit expr) (hitems : ∀ item ∈ items, item.Read v)
    (hlimit : (words ++ (rowWords items ++ (trailing ++ w :: rest))).length < limit) {e : Expr}
    (he : e.unplaced = x.tree) (make : List Expr → Span → Expr) (tree : List Expr → Expr)
    (hmake : ∀ es span, (make es span).unplaced = tree (unplacedExprs es)) (start : Span) :
    Takes (rowWords items ++ (trailing ++ w :: rest)) rest
      (do
        let es ← moreItems expr closing [e]
        expectClosing closing
        pure (make es (← spanFrom start)))
      fun r => r.unplaced = tree (x.tree :: items.map Piece.tree) := by
  have hless : (rowWords items ++ (trailing ++ w :: rest)).length ≤ limit := by
    rw [List.length_append] at hlimit
    omega
  refine (takes_moreItems hw hclosing htrailing hexpr hitems hless [e]).bind fun es hes => ?_
  refine (takes_expectClosing hw).bind fun _ _ => Takes.spanFrom_bind fun span => .pure ?_
  rw [hmake, hes, unplacedExprs, he]
  rfl

/-- What follows an opening parenthesis, where a tuple stands there. A tuple of one item has a
    comma behind it. -/
theorem takes_tuple (hexpr : Inner v limit expr) (hread : ∀ item ∈ items, item.Read v)
    (htrailing : Trailing trailing) (hempty : items = [] → trailing = [])
    (hone : items.length = 1 → trailing = [.comma])
    (hlimit : ((rowWords items).tail ++ (trailing ++ .rParen :: rest)).length < limit)
    (start : Span) :
    Takes ((rowWords items).tail ++ (trailing ++ .rParen :: rest)) rest
      (parenthesized v expr start)
      fun e => e.unplaced = .tuple (items.map Piece.tree) .nowhere := by
  cases items with
  | nil =>
    obtain rfl := hempty rfl
    exact Takes.eats_true rfl (Takes.spanFrom_bind fun _ => .pure rfl)
  | cons first more =>
    obtain ⟨hfirst, hmore⟩ := List.forall_mem_cons.1 hread
    -- A comma follows the first item: one that separates it from the next, or the one that makes a
    -- tuple of a single item.
    have hcomma : kindAt (rowWords more ++ (trailing ++ .rParen :: rest)) 0
        = .operator .comma := by
      cases more with
      | nil => rw [hone rfl]; rfl
      | cons _ _ => rfl
    have hends : (kindAt (rowWords more ++ (trailing ++ .rParen :: rest)) 0).endsTerm = true := by
      rw [hcomma]
      rfl
    have hsplit : (rowWords (first :: more)).tail ++ (trailing ++ .rParen :: rest)
        = first.words ++ (rowWords more ++ (trailing ++ .rParen :: rest)) := by
      simp [rowWords, behindCommas]
    rw [hsplit] at hlimit ⊢
    refine Takes.eats_false (hfirst.first_ne rfl) (Takes.eat_none (hfirst.first_ne rfl) ?_)
    refine (hfirst.item hexpr hlimit (.of_endsTerm hends 0)).bind fun e he => ?_
    refine Takes.look_bind (a := false) (fun s hs => atComprehension_of_endsTerm v hs hends) ?_
    refine Takes.at?_true hcomma ?_
    exact takes_furtherItems rfl rfl htrailing hexpr hmore hlimit he Expr.tuple (.tuple · .nowhere)
      (fun _ _ => rfl) start

/-- What follows an opening square bracket. -/
theorem takes_listDisplay (hexpr : Inner v limit expr) (hread : ∀ item ∈ items, item.Read v)
    (htrailing : Trailing trailing) (hempty : items = [] → trailing = [])
    (hlimit : ((rowWords items).tail ++ (trailing ++ .rBracket :: rest)).length < limit)
    (start : Span) :
    Takes ((rowWords items).tail ++ (trailing ++ .rBracket :: rest)) rest
      (listDisplay v expr start)
      fun e => e.unplaced = .list (items.map Piece.tree) .nowhere := by
  cases items with
  | nil =>
    obtain rfl := hempty rfl
    exact Takes.eats_true rfl (Takes.spanFrom_bind fun _ => .pure rfl)
  | cons first more =>
    obtain ⟨hfirst, hmore⟩ := List.forall_mem_cons.1 hread
    have hends : (kindAt (rowWords more ++ (trailing ++ .rBracket :: rest)) 0).endsTerm = true :=
      endsTerm_behindCommas _ htrailing rfl
    have hsplit : (rowWords (first :: more)).tail ++ (trailing ++ .rBracket :: rest)
        = first.words ++ (rowWords more ++ (trailing ++ .rBracket :: rest)) := by
      simp [rowWords, behindCommas]
    rw [hsplit] at hlimit ⊢
    refine Takes.eats_false (hfirst.first_ne rfl) ?_
    refine (hfirst.item hexpr hlimit (.of_endsTerm hends 0)).bind fun e he => ?_
    refine Takes.look_bind (a := false) (fun s hs => atComprehension_of_endsTerm v hs hends) ?_
    exact takes_furtherItems rfl rfl htrailing hexpr hmore hlimit he Expr.list (.list · .nowhere)
      (fun _ _ => rfl) start

/-- What follows an opening curly bracket, where a set stands there and is told from a
    dictionary. -/
theorem takes_set (hexpr : Inner v limit expr) (hfirst : first.Read v)
    (hmore : ∀ item ∈ items, item.Read v) (htrailing : Trailing trailing)
    (hset : first.OpensSet)
    (hlimit : (first.words ++ (rowWords items ++ (trailing ++ .rCurly :: rest))).length < limit)
    (start : Span) :
    Takes (first.words ++ (rowWords items ++ (trailing ++ .rCurly :: rest))) rest
      (curlyDisplay v expr start)
      fun e => e.unplaced = .set (first.tree :: items.map Piece.tree) .nowhere := by
  have hends : (kindAt (rowWords items ++ (trailing ++ .rCurly :: rest)) 0).endsTerm = true :=
    endsTerm_behindCommas _ htrailing rfl
  have hat : ∀ s : ParserState,
      s.ahead = first.words ++ (rowWords items ++ (trailing ++ .rCurly :: rest)) →
      s.cursor.atDictEntry = false := by
    refine fun s hs => hset s _ hs ?_
    cases items with
    | nil =>
      rcases htrailing with rfl | rfl
      · exact .inr rfl
      · exact .inl rfl
    | cons _ _ => exact .inl rfl
  refine Takes.eats_false (hfirst.first_ne rfl) (Takes.look_bind (a := false) hat ?_)
  refine (hfirst.item hexpr hlimit (.of_endsTerm hends 0)).bind fun e he => ?_
  refine Takes.look_bind (a := false) (fun s hs => atComprehension_of_endsTerm v hs hends) ?_
  exact takes_furtherItems rfl rfl htrailing hexpr hmore hlimit he Expr.set (.set · .nowhere)
    (fun _ _ => rfl) start

/-- What follows an opening curly bracket, where a dictionary stands there and is told from a
    set. -/
theorem takes_dict (hexpr : Inner v limit expr) {entries : List (Piece × Piece)}
    (hread : ∀ e ∈ entries, e.1.Read v ∧ e.2.Read v) (htrailing : Trailing trailing)
    (hempty : entries = [] → trailing = [])
    (hdict : ∀ e ∈ entries.head?, e.1.OpensDict)
    (hlimit : ((behindCommas (entries.map entryPieceWords)).tail
      ++ (trailing ++ .rCurly :: rest)).length < limit)
    (start : Span) :
    Takes ((behindCommas (entries.map entryPieceWords)).tail ++ (trailing ++ .rCurly :: rest)) rest
      (curlyDisplay v expr start)
      fun e => e.unplaced = .dict (entries.map fun e => (e.1.tree, e.2.tree)) .nowhere := by
  cases entries with
  | nil =>
    obtain rfl := hempty rfl
    exact Takes.eats_true rfl (Takes.spanFrom_bind fun _ => .pure rfl)
  | cons e entries =>
    obtain ⟨⟨hkey, hvalue⟩, hmore⟩ := List.forall_mem_cons.1 hread
    have hsplit : (behindCommas ((e :: entries).map entryPieceWords)).tail
          ++ (trailing ++ .rCurly :: rest)
        = entryPieceWords e ++ (behindCommas (entries.map entryPieceWords)
          ++ (trailing ++ .rCurly :: rest)) := by
      simp [behindCommas]
    rw [hsplit] at hlimit ⊢
    refine Takes.eats_false ?_ (Takes.look_bind (a := true) (fun s hs => ?_) ?_)
    · rw [entryPieceWords, List.append_assoc]
      exact hkey.first_ne rfl
    · rw [entryPieceWords, List.append_assoc, List.cons_append] at hs
      exact hdict e rfl s _ hs
    refine (takes_moreEntries hexpr hkey hvalue hmore htrailing hlimit []).bind ?_
    rintro _ ⟨items, rfl, hitems⟩
    exact Takes.spanFrom_bind fun _ => .pure (congrArg (Expr.dict · .nowhere) hitems)

end Brackets

/-! ### Subscripts -/

/-- One item of a subscript: an index, or a slice with a colon before each bound behind the
    first. -/
structure Slot where
  lower : Option Piece
  bounds : List (Option Piece)

/-- The words of a bound, if it is there. -/
def boundWords (bound : Option Piece) : List Word := (bound.map Piece.words).getD []

/-- The words of bounds behind a colon each. -/
def behindColons : List (Option Piece) → List Word
  | [] => []
  | bound :: bounds => .colon :: boundWords bound ++ behindColons bounds

namespace Slot

def words (slot : Slot) : List Word := boundWords slot.lower ++ behindColons slot.bounds

/-- The tree of an index; of a slice only that it is there is kept. -/
def tree : Slot → Expr
  | ⟨some index, []⟩ => index.tree
  | _ => .other .nowhere

/-- A slot is not empty, and its expressions are read. -/
structure Read (v : Version) (slot : Slot) : Prop where
  nonempty : slot.lower.isSome ∨ slot.bounds ≠ []
  lower : ∀ x ∈ slot.lower, x.Read v
  bounds : ∀ bound ∈ slot.bounds, ∀ x ∈ bound, x.Read v

end Slot

section Subscripts

variable {v : Version} {expr : ExprParser} {limit : Nat} {rest trailing : List Word}

/-- Behind a bound comes a colon, a comma or the closing bracket. -/
def EndsBound (words : List Word) : Prop :=
  kindAt words 0 = .operator .colon ∨ kindAt words 0 = .operator .comma
    ∨ kindAt words 0 = .operator .rBracket

theorem EndsBound.endsTerm (h : EndsBound rest) : (kindAt rest 0).endsTerm = true := by
  rcases h with h | h | h <;> rw [h] <;> rfl

/-- What ends an item of a subscript. -/
def EndsSlot (words : List Word) : Prop :=
  kindAt words 0 = .operator .comma ∨ kindAt words 0 = .operator .rBracket

theorem EndsSlot.behindColons (h : EndsSlot rest) (bounds : List (Option Piece)) :
    EndsBound (behindColons bounds ++ rest) := by
  cases bounds with
  | nil => exact .inr h
  | cons _ _ => exact .inl rfl

/-- The colons of a slice with the bounds behind them. -/
theorem takes_sliceBounds (hexpr : Inner v limit expr) {bounds : List (Option Piece)}
    (h : ∀ bound ∈ bounds, ∀ x ∈ bound, x.Read v)
    (hlimit : (behindColons bounds ++ rest).length ≤ limit) (hrest : EndsSlot rest) :
    Takes (behindColons bounds ++ rest) rest (sliceBounds expr) fun _ => True := by
  induction bounds with
  | nil =>
    refine Takes.loop_finished (Takes.eats_false ?_ (.pure ⟨(), rfl, trivial⟩))
    rcases hrest with h | h <;> exact h ▸ by simp
  | cons bound bounds ih =>
    obtain ⟨hbound, hbounds⟩ := List.forall_mem_cons.1 h
    have hsplit : behindColons (bound :: bounds) ++ rest
        = .colon :: (boundWords bound ++ (behindColons bounds ++ rest)) := by
      simp [behindColons]
    rw [hsplit] at hlimit ⊢
    have hends := hrest.behindColons bounds
    have hless : (behindColons bounds ++ rest).length
        < (Word.colon :: (boundWords bound ++ (behindColons bounds ++ rest))).length := by
      simp only [List.length_cons, List.length_append]
      omega
    refine Takes.loop_again (y := behindColons bounds ++ rest) (S := fun _ => True)
      (Takes.eats_true rfl (Takes.kind_bind ?_)) hless
      fun _ _ => ih hbounds (Nat.le_of_lt (Nat.lt_of_lt_of_le hless hlimit))
    cases bound with
    | none =>
      rw [boundWords, Option.map_none, Option.getD_none, List.nil_append]
      rcases hends with hk | hk | hk
      all_goals
        rw [hk]
        exact .pure ⟨(), rfl, trivial⟩
    | some x =>
      have hx := hbound x rfl
      have hopens := hx.starts.kindAt (behindColons bounds ++ rest)
      have hvalue := hx.alone hexpr (Nat.lt_of_succ_le hlimit) (.of_endsTerm hends.endsTerm 0)
      rw [boundWords, Option.map_some, Option.getD_some]
      -- The bound begins with none of the words that stand behind one.
      generalize kindAt (x.words ++ (behindColons bounds ++ rest)) 0 = k at hopens
      split
      · cases hopens
      · cases hopens
      · cases hopens
      · exact hvalue.discard.bind fun _ _ => .pure ⟨(), rfl, trivial⟩

theorem takes_slice (hexpr : Inner v limit expr) {bounds : List (Option Piece)}
    (h : ∀ bound ∈ bounds, ∀ x ∈ bound, x.Read v)
    (hlimit : (behindColons bounds ++ rest).length ≤ limit) (hrest : EndsSlot rest)
    (start : Span) :
    Takes (behindColons bounds ++ rest) rest (slice expr start)
      fun e => e.unplaced = .other .nowhere :=
  (takes_sliceBounds hexpr h hlimit hrest).bind fun _ _ => Takes.spanFrom_bind fun _ => .pure rfl

/-- One item of a subscript. -/
theorem takes_subscriptItem {slot : Slot} (h : slot.Read v) (hexpr : Inner v limit expr)
    (hlimit : (slot.words ++ rest).length < limit) (hrest : EndsSlot rest) :
    Takes (slot.words ++ rest) rest (subscriptItem expr) fun e => e.unplaced = slot.tree := by
  obtain ⟨lower, bounds⟩ := slot
  have hsplit : Slot.words ⟨lower, bounds⟩ ++ rest
      = boundWords lower ++ (behindColons bounds ++ rest) := by
    rw [Slot.words, List.append_assoc]
  rw [hsplit] at hlimit ⊢
  have hless : (behindColons bounds ++ rest).length ≤ limit := by
    rw [List.length_append] at hlimit
    omega
  have hslice := takes_slice hexpr h.bounds hless hrest
  refine Takes.peekKind_bind fun start hstart => ?_
  cases lower with
  | none =>
    -- A slice without a lower bound begins with its colon.
    cases bounds with
    | nil => exact absurd h.nonempty (by simp)
    | cons bound bounds =>
      have hcolon : (start.kind == .operator .colon) = true := by
        rw [hstart]
        rfl
      rw [if_pos hcolon]
      exact hslice _
  | some x =>
    have hx := h.lower x rfl
    have hends := hrest.behindColons bounds
    have hcolon : (start.kind == .operator .colon) = false := by
      rw [hstart, beq_eq_false_iff_ne]
      exact hx.first_ne rfl
    rw [hcolon]
    refine (hx.item hexpr hlimit (.of_endsTerm hends.endsTerm 0)).bind fun e he => ?_
    cases bounds with
    | nil =>
      refine Takes.at?_false (fun heq => ?_) (.pure he)
      rcases hrest with h | h <;> cases h.symm.trans heq
    | cons bound bounds => exact Takes.at?_true rfl (hslice _)

theorem takes_subscriptItem_first {slot : Slot} (h : slot.Read v) (rest : List Word) :
    (kindAt (slot.words ++ rest) 0 == .operator .rBracket
      || (kindAt (slot.words ++ rest) 0).isLineEnd) = false := by
  obtain ⟨lower, bounds⟩ := slot
  cases lower with
  | none =>
    cases bounds with
    | nil => exact absurd h.nonempty (by simp)
    | cons bound bounds => rfl
  | some x =>
    have hopens := (h.lower x rfl).starts.kindAt (behindColons bounds ++ rest)
    have hsplit : Slot.words ⟨some x, bounds⟩ ++ rest
        = x.words ++ (behindColons bounds ++ rest) := by
      simp [Slot.words, boundWords]
    rw [hsplit]
    generalize kindAt (x.words ++ (behindColons bounds ++ rest)) 0 = k at hopens
    cases k with
    | operator op => cases op <;> first | rfl | cases hopens
    | _ => first | rfl | cases hopens

/-- A comma behind an item of a subscript is read with the item. -/
theorem takes_subscriptStep_comma {slot : Slot} (h : slot.Read v) (hexpr : Inner v limit expr)
    (hlimit : (slot.words ++ .comma :: rest).length < limit) (done : List Expr) (separated : Bool) :
    Takes (slot.words ++ .comma :: rest) rest (subscriptStep expr (done, separated))
      fun r => ∃ c, r = .again c ∧ unplacedExprs c.1 = unplacedExprs done ++ [slot.tree]
        ∧ c.2 = true := by
  refine Takes.kind_bind ?_
  rw [takes_subscriptItem_first h]
  refine (takes_subscriptItem h hexpr hlimit (.inl rfl)).bind fun e he =>
    Takes.eats_true rfl (.pure ⟨_, rfl, ?_, rfl⟩)
  rw [unplacedExprs_append, unplacedExprs, he]
  rfl

/-- An item that the closing bracket follows is the last one. -/
theorem takes_subscriptStep_last {slot : Slot} (h : slot.Read v) (hexpr : Inner v limit expr)
    (hlimit : (slot.words ++ .rBracket :: rest).length < limit) (done : List Expr)
    (separated : Bool) :
    Takes (slot.words ++ .rBracket :: rest) (.rBracket :: rest)
      (subscriptStep expr (done, separated))
      fun r => ∃ es, r = .finished (es, separated)
        ∧ unplacedExprs es = unplacedExprs done ++ [slot.tree] := by
  refine Takes.kind_bind ?_
  rw [takes_subscriptItem_first h]
  refine (takes_subscriptItem h hexpr hlimit (.inr rfl)).bind fun e he =>
    Takes.eats_false (fun heq => by cases heq) (.pure ⟨_, rfl, ?_⟩)
  rw [unplacedExprs_append, unplacedExprs, he]
  rfl

/-- The items of a subscript, and whether a comma stands among them or behind them. -/
theorem takes_subscriptItems (hexpr : Inner v limit expr) {slot : Slot} {slots : List Slot}
    (h : slot.Read v) (hmore : ∀ slot ∈ slots, slot.Read v) (htrailing : Trailing trailing)
    (hlimit : (slot.words ++ (behindCommas (slots.map Slot.words)
      ++ (trailing ++ .rBracket :: rest))).length < limit) (done : List Expr) (separated : Bool) :
    Takes (slot.words ++ (behindCommas (slots.map Slot.words) ++ (trailing ++ .rBracket :: rest)))
      (.rBracket :: rest) (loop id (subscriptStep expr) (done, separated))
      fun r => unplacedExprs r.1 = unplacedExprs done ++ (slot :: slots).map Slot.tree
        ∧ r.2 = (separated || !slots.isEmpty || !trailing.isEmpty) := by
  induction slots generalizing slot done separated with
  | nil =>
    rcases htrailing with rfl | rfl
    · refine Takes.loop_finished
        ((takes_subscriptStep_last h hexpr hlimit done separated).weaken ?_)
      rintro _ ⟨es, rfl, hes⟩
      exact ⟨_, rfl, hes, by simp⟩
    · -- The comma at the end sends the loop round once more, to the bracket.
      refine Takes.loop_again (takes_subscriptStep_comma h hexpr hlimit done separated)
        (length_lt_append_cons _ _ _) ?_
      rintro ⟨items, _⟩ ⟨hitems, rfl⟩
      exact Takes.loop_finished (Takes.kind_bind (.pure ⟨_, rfl, hitems, by simp⟩))
  | cons next slots ih =>
    obtain ⟨hnext, hmore⟩ := List.forall_mem_cons.1 hmore
    have hsplit : behindCommas ((next :: slots).map Slot.words) ++ (trailing ++ .rBracket :: rest)
        = .comma :: (next.words ++ (behindCommas (slots.map Slot.words)
          ++ (trailing ++ .rBracket :: rest))) := by
      simp [behindCommas]
    rw [hsplit] at hlimit ⊢
    refine Takes.loop_again (takes_subscriptStep_comma h hexpr hlimit done separated)
      (length_lt_append_cons _ _ _) ?_
    rintro ⟨items, _⟩ ⟨hitems, rfl⟩
    have hless := Nat.lt_trans (length_lt_append_cons _ _ _) hlimit
    refine (ih hnext hmore hless items true).weaken fun r hr => ?_
    rw [hr.1, hr.2, hitems, List.append_assoc]
    exact ⟨rfl, by simp⟩

/-- The tree of what stands between the square brackets of a subscript. -/
def subscriptTree (slots : List Slot) (trailing : List Word) : Expr :=
  match slots, trailing with
  | [slot], [] => slot.tree
  | slots, _ => .tuple (slots.map Slot.tree) .nowhere

/-- What follows an opening square bracket behind a value. -/
theorem takes_subscript (hexpr : Inner v limit expr) {slots : List Slot} (hne : slots ≠ [])
    (h : ∀ slot ∈ slots, slot.Read v) (htrailing : Trailing trailing)
    (hlimit : ((behindCommas (slots.map Slot.words)).tail
      ++ (trailing ++ .rBracket :: rest)).length < limit) :
    Takes ((behindCommas (slots.map Slot.words)).tail ++ (trailing ++ .rBracket :: rest)) rest
      (subscript expr) fun e => e.unplaced = subscriptTree slots trailing := by
  cases slots with
  | nil => exact absurd rfl hne
  | cons slot slots =>
    obtain ⟨hslot, hmore⟩ := List.forall_mem_cons.1 h
    have hsplit : (behindCommas ((slot :: slots).map Slot.words)).tail
          ++ (trailing ++ .rBracket :: rest)
        = slot.words ++ (behindCommas (slots.map Slot.words)
          ++ (trailing ++ .rBracket :: rest)) := by
      simp [behindCommas]
    rw [hsplit] at hlimit ⊢
    refine Takes.peekKind_bind fun start _ => ?_
    refine (takes_subscriptItems hexpr hslot hmore htrailing hlimit [] false).bind ?_
    rintro ⟨es, separated⟩ ⟨hes, hseparated⟩
    refine (takes_expectClosing rfl).bind fun _ _ => ?_
    have htuple : Takes rest rest
        (do pure (Expr.tuple es (← spanFrom start.span)) : Parser Expr)
        fun e => e.unplaced = .tuple ((slot :: slots).map Slot.tree) .nowhere :=
      Takes.spanFrom_bind fun _ => .pure (congrArg (Expr.tuple · .nowhere) hes)
    -- One subscript is what stands there, unless a comma follows it. All others are a tuple.
    cases slots with
    | nil =>
      obtain ⟨e, rfl⟩ : ∃ e, es = [e] := by
        have hlength := congrArg List.length hes
        rw [unplacedExprs_eq_map, List.length_map] at hlength
        exact List.length_eq_one_iff.1 hlength
      rcases htrailing with rfl | rfl
      · obtain rfl : separated = false := hseparated
        exact .pure (by simpa [unplacedExprs, subscriptTree] using hes)
      · obtain rfl : separated = true := hseparated
        exact htuple
    | cons next slots =>
      obtain rfl : separated = true := by simpa using hseparated
      split
      · next hno => cases hno
      · exact htuple

end Subscripts

/-! ### Operands made of pieces -/

section Operands

variable {v : Version} {level edge : Nat} {tree : Expr} {trailing : List Word} {x : Piece}
  {items : List Piece}

/-- What a production reads between brackets is an operand, and so it is read whatever is
    asked for. -/
theorem Reads.brackets {opening closing : Word} {inner : List Word}
    (display : ExprParser → Span → Parser Expr)
    (ho : opening.kind.opensTerm = true) (hname : opening.kind ≠ .identifier)
    (hdisplay : ∀ (expr : ExprParser) (token : Token), token.kind = opening.kind →
      operandAfter v expr token = display expr token.span)
    (h : ∀ (expr : ExprParser) (limit : Nat) (rest : List Word) (start : Span),
      Inner v limit expr → (inner ++ closing :: rest).length < limit →
      Takes (inner ++ closing :: rest) rest (display expr start) fun e => e.unplaced = tree) :
    Reads v (opening :: (inner ++ [closing])) level edge tree := by
  refine .of_first ho hname fun expr limit rest token hexpr hlimit _ hkind => ?_
  rw [hdisplay expr token hkind]
  rw [List.append_assoc] at hlimit ⊢
  exact h expr limit rest token.span hexpr hlimit

theorem Reads.inParens {inner : List Word}
    (h : ∀ (expr : ExprParser) (limit : Nat) (rest : List Word) (start : Span),
      Inner v limit expr → (inner ++ .rParen :: rest).length < limit →
      Takes (inner ++ .rParen :: rest) rest (parenthesized v expr start)
        fun e => e.unplaced = tree) :
    Reads v (.lParen :: (inner ++ [.rParen])) level edge tree :=
  .brackets (parenthesized v) rfl TokenKind.noConfusion
    (fun _ _ hkind => by rw [operandAfter, hkind]; rfl) h

theorem Reads.inSquares {inner : List Word}
    (h : ∀ (expr : ExprParser) (limit : Nat) (rest : List Word) (start : Span),
      Inner v limit expr → (inner ++ .rBracket :: rest).length < limit →
      Takes (inner ++ .rBracket :: rest) rest (listDisplay v expr start)
        fun e => e.unplaced = tree) :
    Reads v (.lBracket :: (inner ++ [.rBracket])) level edge tree :=
  .brackets (listDisplay v) rfl TokenKind.noConfusion
    (fun _ _ hkind => by rw [operandAfter, hkind]; rfl) h

theorem Reads.inCurlies {inner : List Word}
    (h : ∀ (expr : ExprParser) (limit : Nat) (rest : List Word) (start : Span),
      Inner v limit expr → (inner ++ .rCurly :: rest).length < limit →
      Takes (inner ++ .rCurly :: rest) rest (curlyDisplay v expr start)
        fun e => e.unplaced = tree) :
    Reads v (.lCurly :: (inner ++ [.rCurly])) level edge tree :=
  .brackets (curlyDisplay v) rfl TokenKind.noConfusion
    (fun _ _ hkind => by rw [operandAfter, hkind]; rfl) h

/-- In parentheses any piece stands where an operand may. -/
theorem Piece.Read.inParens (h : x.Read v) :
    Reads v (.lParen :: (x.words ++ [.rParen])) level edge x.tree :=
  .inParens fun _ _ _ start hexpr hlimit => takes_parenthesized h hexpr hlimit start

theorem reads_list (hread : ∀ item ∈ items, item.Read v) (htrailing : Trailing trailing)
    (hempty : items = [] → trailing = []) :
    Reads v (.lBracket :: ((rowWords items).tail ++ trailing ++ [.rBracket])) level edge
      (.list (items.map Piece.tree) .nowhere) := by
  refine .inSquares fun expr limit rest start hexpr hlimit => ?_
  rw [List.append_assoc] at hlimit ⊢
  exact takes_listDisplay hexpr hread htrailing hempty hlimit start

theorem reads_tuple (hread : ∀ item ∈ items, item.Read v) (htrailing : Trailing trailing)
    (hempty : items = [] → trailing = []) (hone : items.length = 1 → trailing = [.comma]) :
    Reads v (.lParen :: ((rowWords items).tail ++ trailing ++ [.rParen])) level edge
      (.tuple (items.map Piece.tree) .nowhere) := by
  refine .inParens fun expr limit rest start hexpr hlimit => ?_
  rw [List.append_assoc] at hlimit ⊢
  exact takes_tuple hexpr hread htrailing hempty hone hlimit start

theorem reads_set (hread : ∀ item ∈ items, item.Read v) (htrailing : Trailing trailing)
    (hne : items ≠ []) (hset : ∀ item ∈ items.head?, item.OpensSet) :
    Reads v (.lCurly :: ((rowWords items).tail ++ trailing ++ [.rCurly])) level edge
      (.set (items.map Piece.tree) .nowhere) := by
  refine .inCurlies fun expr limit rest start hexpr hlimit => ?_
  cases items with
  | nil => exact absurd rfl hne
  | cons first more =>
    obtain ⟨hfirst, hmore⟩ := List.forall_mem_cons.1 hread
    have hsplit : (rowWords (first :: more)).tail ++ trailing ++ .rCurly :: rest
        = first.words ++ (rowWords more ++ (trailing ++ .rCurly :: rest)) := by
      simp [rowWords, behindCommas]
    rw [hsplit] at hlimit ⊢
    exact takes_set hexpr hfirst hmore htrailing (hset first rfl) hlimit start

theorem reads_dict {entries : List (Piece × Piece)}
    (hread : ∀ e ∈ entries, e.1.Read v ∧ e.2.Read v) (htrailing : Trailing trailing)
    (hempty : entries = [] → trailing = []) (hdict : ∀ e ∈ entries.head?, e.1.OpensDict) :
    Reads v (.lCurly :: ((behindCommas (entries.map entryPieceWords)).tail ++ trailing
      ++ [.rCurly])) level edge (.dict (entries.map fun e => (e.1.tree, e.2.tree)) .nowhere) := by
  refine .inCurlies fun expr limit rest start hexpr hlimit => ?_
  rw [List.append_assoc] at hlimit ⊢
  exact takes_dict hexpr hread htrailing hempty hdict hlimit start

section Trailers

variable {valueWords : List Word} {valueTree : Expr}

/-- A call of what is read as an operand. -/
theorem Reads.call
    (h : Reads v valueWords (trailerStrength + 2) (trailerStrength + 2) valueTree)
    {arguments : List (CallForm × Piece)} (hread : ∀ a ∈ arguments, a.2.Read v)
    (htrailing : Trailing trailing) (hempty : arguments = [] → trailing = []) :
    Reads v (valueWords ++ .lParen :: ((behindCommas (arguments.map argumentPieceWords)).tail
        ++ trailing ++ [.rParen])) (trailerStrength + 2) (trailerStrength + 2)
      (.call valueTree (arguments.map fun a => a.1.argument a.2.tree) .nowhere) := by
  refine .trailer (c := .call) h (fun _ => rfl) rfl
    fun expr limit rest value token hexpr hlimit hvalue => ?_
  rw [List.append_assoc, List.append_assoc] at hlimit ⊢
  refine (takes_callArguments hexpr hread htrailing hempty hlimit).bind fun as has =>
    Takes.spanFrom_bind fun _ => .pure ?_
  rw [Expr.unplaced, hvalue, has]

/-- A subscript behind what is read as an operand. -/
theorem Reads.subscript
    (h : Reads v valueWords (trailerStrength + 2) (trailerStrength + 2) valueTree)
    {slots : List Slot} (hne : slots ≠ []) (hread : ∀ slot ∈ slots, slot.Read v)
    (htrailing : Trailing trailing) :
    Reads v (valueWords ++ .lBracket :: ((behindCommas (slots.map Slot.words)).tail
        ++ trailing ++ [.rBracket])) (trailerStrength + 2) (trailerStrength + 2)
      (.subscript valueTree (subscriptTree slots trailing) .nowhere) := by
  refine .trailer (c := .subscript) h (fun _ => rfl) rfl
    fun expr limit rest value token hexpr hlimit hvalue => ?_
  rw [List.append_assoc, List.append_assoc] at hlimit ⊢
  refine (takes_subscript hexpr hne hread htrailing hlimit).bind fun e he =>
    Takes.spanFrom_bind fun _ => .pure ?_
  rw [Expr.unplaced, hvalue, he]

/-- An attribute of what is read as an operand. -/
theorem Reads.member
    (h : Reads v valueWords (trailerStrength + 2) (trailerStrength + 2) valueTree)
    (attr : String) :
    Reads v (valueWords ++ [.dot, .name attr]) (trailerStrength + 2) (trailerStrength + 2)
      (.attribute valueTree ⟨attr, .nowhere⟩ .nowhere) := by
  refine .trailer (c := .attribute) h (fun _ => rfl) rfl
    fun expr limit rest value token _ _ hvalue => ?_
  refine Takes.expectIdentifier_bind rfl fun ident hident => .pure ?_
  rw [Expr.unplaced, hvalue, Identifier.unplaced, hident]
  rfl

end Trailers

end Operands

end PyAtlas
