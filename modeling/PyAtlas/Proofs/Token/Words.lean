import PyAtlas.Proofs.Token.Concatenation

/-!
# Words with spaces between them

A line that is written word by word, with a space after each, is read as just these words. A
word is given by its spelling and the kind of the token that it makes; `Separate` says of a word
that it is read as that token wherever a space, a line feed or the end of the text follows.

Spaces may be left out between words that do not run into each other. `StandsBefore` says so of
a word and the text behind it, and `Renders` of the words of a text.

## Key results
- `standsBefore_ofText`, `standsBefore_operator`: what may follow letters and operators.
- `separate_ofText`, `separate_operator`, `separate_digits`: identifiers and reserved words,
  operators, and numbers stand on their own.
- `run_renders`: a line of words is read word by word.
- `tokenize_words`: the tokens of a text of one line.
-/

namespace PyAtlas

/-- A word as it is written and the kind of the token that it makes. -/
structure Word where
  kind : TokenKind
  text : String
deriving Repr, DecidableEq

/-- What a token is, wherever it stands. Layout is not told apart by its characters. -/
def Token.word (t : Token) : Word := ⟨t.kind, if t.kind.isLayout then "" else t.text⟩

theorem Token.text_of_word {t : Token} {w : Word} (h : t.word = w)
    (hw : w.kind.isLayout = false) : t.text = w.text := by
  subst h
  exact (if_neg (by rw [show t.kind.isLayout = false from hw]; exact Bool.false_ne_true)).symm

namespace Lexer

/-! ### Words on their own -/

/-- A text that goes on with a space or a line feed, or does not go on. -/
def Apart (rest : List Char) : Prop := ∀ c ∈ rest.head?, c = ' ' ∨ c = '\n'

/-- The word is read as it stands wherever a space, a line feed or nothing follows. -/
structure Separate (v : Version) (w : Word) : Prop where
  nonempty : ∃ first cs, w.text.toList = first :: cs ∧ startsWord first = true
    ∧ ∀ depth rest, Apart rest → front v depth first (cs ++ rest) = .token w.kind cs.length
  plain : w.kind.isLayout = false

/-- The word is read as it stands in front of the text `rest`. -/
structure StandsBefore (v : Version) (w : Word) (rest : List Char) : Prop where
  nonempty : ∃ first cs, w.text.toList = first :: cs ∧ startsWord first = true
    ∧ ∀ depth, front v depth first (cs ++ rest) = .token w.kind cs.length
  plain : w.kind.isLayout = false

theorem Separate.standsBefore {v : Version} {w : Word} (h : Separate v w) {rest : List Char}
    (hrest : Apart rest) : StandsBefore v w rest := by
  obtain ⟨first, cs, htext, hstarts, hfront⟩ := h.nonempty
  exact ⟨⟨first, cs, htext, hstarts, fun depth => hfront depth rest hrest⟩, h.plain⟩

/-- A word that stands in front of all that keeps apart. -/
theorem separate_of_standsBefore {v : Version} {w : Word}
    (h : ∀ rest, Apart rest → StandsBefore v w rest) : Separate v w := by
  obtain ⟨⟨first, cs, htext, hstarts, -⟩, hplain⟩ := h [] fun c hc => nomatch hc
  refine ⟨⟨first, cs, htext, hstarts, fun depth rest hrest => ?_⟩, hplain⟩
  obtain ⟨first', cs', htext', -, hfront⟩ := (h rest hrest).nonempty
  obtain ⟨rfl, rfl⟩ := List.cons.inj (htext.symm.trans htext')
  exact hfront depth

theorem countWhile_apart {p : Char → Bool} {cs rest : List Char} (hcs : ∀ c ∈ cs, p c = true)
    (hrest : Apart rest) (hspace : p ' ' = false) (hnewline : p '\n' = false) :
    countWhile p (cs ++ rest) = cs.length := by
  rw [countWhile, List.takeWhile_append_of_pos hcs]
  cases rest with
  | nil => simp
  | cons c rest =>
    have hc : p c = false := by
      rcases hrest c rfl with rfl | rfl
      · exact hspace
      · exact hnewline
    simp [hc]

/-! ### Digits and letters -/

theorem mem_digits_of_isDigit {c : Char} (h : c.isDigit = true) :
    c ∈ ['0', '1', '2', '3', '4', '5', '6', '7', '8', '9'] := by
  simp only [Char.isDigit, Bool.and_eq_true, decide_eq_true_eq, ge_iff_le,
    UInt32.le_iff_toNat_le] at h
  have hcode : c.toNat = 48 ∨ c.toNat = 49 ∨ c.toNat = 50 ∨ c.toNat = 51 ∨ c.toNat = 52 ∨
      c.toNat = 53 ∨ c.toNat = 54 ∨ c.toNat = 55 ∨ c.toNat = 56 ∨ c.toNat = 57 := by
    have hzero : ('0' : Char).val.toNat = 48 := rfl
    have hnine : ('9' : Char).val.toNat = 57 := rfl
    have hc : c.toNat = c.val.toNat := rfl
    omega
  have hofNat : c = Char.ofNat c.toNat := (Char.ofNat_toNat c).symm
  rcases hcode with hc | hc | hc | hc | hc | hc | hc | hc | hc | hc
  all_goals
    rw [hofNat, hc]
    decide

/-- What holds of the ten digits holds of every digit. -/
theorem of_isDigit {p : Char → Bool} {c : Char} (h : c.isDigit = true)
    (hp : ['0', '1', '2', '3', '4', '5', '6', '7', '8', '9'].all p = true) : p c = true :=
  List.all_eq_true.1 hp c (mem_digits_of_isDigit h)

/-- Letters and the underscore begin words that are neither numbers nor string literals. -/
theorem startsWord_of_isIdentStart {c : Char} (h : Text.isIdentStart c = true) :
    startsWord c = true ∧ c.isDigit = false ∧ c ≠ '.' ∧ isQuote c = false := by
  have hne : ∀ d, Text.isIdentStart d = false → c ≠ d := by
    rintro d hd rfl
    rw [h] at hd
    cases hd
  refine ⟨?_, ?_, hne '.' (by decide), ?_⟩
  -- None of the characters that begin no word is a letter.
  · have hspace := hne ' ' (by decide)
    have htab := hne '\t' (by decide)
    have hfeed := hne '\x0c' (by decide)
    have hreturn := hne '\r' (by decide)
    have hline := hne '\n' (by decide)
    have hhash := hne '#' (by decide)
    have hbackslash := hne '\\' (by decide)
    simp [startsWord, isMargin, hspace, htab, hfeed, hreturn, hline, hhash, hbackslash]
  · rw [Bool.eq_false_iff]
    intro hdigit
    have := of_isDigit (p := fun d => !Text.isIdentStart d) hdigit (by decide)
    rw [h] at this
    cases this
  · have hdouble := hne '\x22' (by decide)
    have hsingle := hne '\x27' (by decide)
    simp [isQuote, hdouble, hsingle]

/-! ### Names and reserved words -/

/-- Whether letters end in front of a text: no letter goes on with them, and no quote makes them
    the marks of a literal. -/
def endsLetters (rest : List Char) : Bool :=
  rest.head?.all fun c => !Text.isIdentPart c && !isQuote c

/-- A word of letters: a reserved word, or else an identifier. -/
theorem standsBefore_ofText (v : Version) {text : String} (h : Text.isIdentifier text = true)
    {rest : List Char} (hrest : endsLetters rest = true) :
    StandsBefore v ⟨wordKind v text, text⟩ rest := by
  have hnext : ∀ c ∈ rest.head?, Text.isIdentPart c = false ∧ isQuote c = false := by
    intro c hc
    simpa using (Option.all_eq_true _ _).1 hrest c hc
  obtain ⟨first, cs, htext, hfirst, hcs⟩ := Text.isIdentifier_iff.1 h
  obtain ⟨hstarts, hdigit, hpoint, hnoquote⟩ := startsWord_of_isIdentStart hfirst
  refine ⟨⟨first, cs, htext, hstarts, fun depth => ?_⟩, ?_⟩
  · have hword : String.ofList (first :: cs) = text := by rw [← htext, String.ofList_toList]
    -- No literal begins here, since no quote follows.
    have hname : wordFront v first (cs ++ rest)
        = .token (wordKind v (String.ofList (first :: cs))) cs.length :=
      wordFront_name hcs (fun c hc => (hnext c hc).1)
        fun c hc marks hmarks => Bool.eq_false_iff.1 (hnext c hc).2 hmarks.isQuote
    rw [hword] at hname
    rw [front_of_startsWord hstarts, hdigit, beq_false_of_ne hpoint, hnoquote, hfirst]
    exact hname
  · rw [wordKind]
    split <;> rfl

theorem separate_ofText (v : Version) {text : String} (h : Text.isIdentifier text = true) :
    Separate v ⟨wordKind v text, text⟩ := by
  refine separate_of_standsBefore fun rest hrest => standsBefore_ofText v h ?_
  cases rest with
  | nil => rfl
  | cons c rest => rcases hrest c rfl with rfl | rfl <;> rfl

/-! ### Numbers -/

theorem countOne_apart {p : Char → Bool} {rest : List Char} (hrest : Apart rest)
    (hspace : p ' ' = false) (hnewline : p '\n' = false) : countOne p rest = 0 := by
  cases rest with
  | nil => rfl
  | cons c rest =>
    have hc : p c = false := by
      rcases hrest c rfl with rfl | rfl
      · exact hspace
      · exact hnewline
    simp [countOne, hc]

theorem exponentLength_apart {rest : List Char} (hrest : Apart rest) : exponentLength rest = 0 := by
  match rest, hrest with
  | [], _ => rfl
  | [c], _ => rfl
  | c :: d :: rest, hrest => rcases hrest c rfl with rfl | rfl <;> rfl

/-- Digits alone are an integer. -/
theorem decimalFront_digits (v : Version) {first : Char} {cs rest : List Char}
    (hfirst : first.isDigit = true) (hcs : ∀ c ∈ cs, c.isDigit = true) (hrest : Apart rest) :
    decimalFront v first (cs ++ rest) = .token (.number .int) cs.length := by
  have hpoint : (first == '.') = false := by
    simpa using of_isDigit (p := fun c => !(c == '.')) hfirst (by decide)
  have hcount : countWhile isDigitOrBreak (cs ++ rest) = cs.length := by
    refine countWhile_apart (fun c hc => ?_) hrest (by decide) (by decide)
    rw [isDigitOrBreak, hcs c hc, Bool.true_or]
  have hmantissa : mantissa first (cs ++ rest) = (.int, cs.length) := by
    simp only [mantissa, hpoint, hcount, List.drop_left, Bool.false_eq_true, if_false]
    cases rest with
    | nil => rfl
    | cons c rest => rcases hrest c rfl with rfl | rfl <;> rfl
  have himaginary := countOne_apart (p := isImaginaryMark) hrest (by decide) (by decide)
  have hlong := countOne_apart (p := isLongMark) hrest (by decide) (by decide)
  simp [decimalFront, hmantissa, exponentLength_apart hrest, himaginary, hlong]

/-- Decimal digits. -/
theorem separate_digits (v : Version) {text : String} (hne : text.toList ≠ [])
    (h : ∀ c ∈ text.toList, c.isDigit = true) : Separate v ⟨.number .int, text⟩ := by
  refine ⟨?_, rfl⟩
  obtain ⟨first, cs, htext⟩ := List.exists_cons_of_ne_nil hne
  rw [htext] at h
  have hfirst := h first List.mem_cons_self
  have hcs : ∀ c ∈ cs, c.isDigit = true := fun c hc => h c (List.mem_cons_of_mem _ hc)
  have hstarts : startsWord first = true := of_isDigit hfirst (by decide)
  refine ⟨first, cs, htext, hstarts, fun depth rest hrest => ?_⟩
  have hradix : countOne isRadixMark (cs ++ rest) = 0 := by
    cases cs with
    | nil => exact countOne_apart hrest (by decide) (by decide)
    | cons c cs =>
      have hc : isRadixMark c = false := by
        simpa using of_isDigit (p := fun c => !isRadixMark c) (hcs c List.mem_cons_self) (by decide)
      simp [countOne, hc]
  rw [front_of_startsWord hstarts, hfirst, Bool.true_or, if_pos rfl, numberFront, hradix]
  simp [decimalFront_digits v hfirst hcs hrest]

/-! ### Operators -/

/-- Whether the character may belong to the operator or the number that the spelling in front
    of it begins. -/
def goesOn (spelling : List Char) (c : Char) : Bool :=
  (spelling == ['.'] && c.isDigit)
    || operators.any fun entry => (spelling ++ [c]).isPrefixOf entry.1

/-- Whether the spelling of an operator ends in front of a text. -/
def endsOperator (spelling rest : List Char) : Bool :=
  rest.head?.all fun c => !goesOn spelling c

/-- No operator reaches over the end of a spelling. -/
theorem isPrefixOf_of_endsOperator {entry : List Char × TokenKind} (hentry : entry ∈ operators)
    {spelling rest : List Char} (h : endsOperator spelling rest = true) :
    entry.1.isPrefixOf (spelling ++ rest) = entry.1.isPrefixOf spelling := by
  cases rest with
  | nil => rw [List.append_nil]
  | cons c rest =>
    rw [Bool.eq_iff_iff, List.isPrefixOf_iff_prefix, List.isPrefixOf_iff_prefix]
    refine ⟨fun hprefix => ?_, fun hprefix => hprefix.trans (List.prefix_append _ _)⟩
    by_cases hlength : entry.1.length ≤ spelling.length
    · exact List.prefix_of_prefix_length_le hprefix (List.prefix_append _ _) hlength
    · -- A longer operator begins with the spelling and the character behind it.
      have hgoes : goesOn spelling c = false := by simpa [endsOperator] using h
      rw [goesOn, Bool.or_eq_false_iff, List.any_eq_false] at hgoes
      refine absurd (List.isPrefixOf_iff_prefix.2 ?_) (hgoes.2 entry hentry)
      refine List.prefix_of_prefix_length_le ?_ hprefix ?_
      · exact ⟨rest, by rw [List.append_assoc]; rfl⟩
      · rw [List.length_append, List.length_singleton]
        omega

theorem operators_apart : ∀ entry ∈ operators,
    goesOn entry.1 ' ' = false ∧ goesOn entry.1 '\n' = false := by
  have hall : (operators.all fun entry => !goesOn entry.1 ' ' && !goesOn entry.1 '\n') = true := by
    decide +kernel
  intro entry hentry
  have h := List.all_eq_true.1 hall entry hentry
  rw [Bool.and_eq_true, Bool.not_eq_true', Bool.not_eq_true'] at h
  exact h

/-- All operators and versions, each spelling looked for among the operators. -/
private theorem all_operators_found : (operators.all fun entry => Version.all.all fun v =>
    !operatorExists v entry ||
      (operators.find? fun other => other.1.isPrefixOf entry.1 && operatorExists v other)
        == some entry) = true := by
  decide +kernel

/-- No spelling is taken for another operator. -/
theorem find?_spelled {v : Version} {entry : List Char × TokenKind} (h : entry ∈ operators)
    (hv : operatorExists v entry = true) :
    (operators.find? fun other => other.1.isPrefixOf entry.1 && operatorExists v other)
      = some entry := by
  have hall := List.all_eq_true.1 (List.all_eq_true.1 all_operators_found entry h) v v.mem_all
  rw [hv, Bool.not_true, Bool.false_or] at hall
  exact eq_of_beq hall

/-- No operator begins like a word, a number or a literal. -/
theorem operators_start : ∀ entry ∈ operators, ∃ first cs, entry.1 = first :: cs
    ∧ startsWord first = true ∧ first.isDigit = false ∧ isQuote first = false
    ∧ Text.isIdentStart first = false ∧ countOne Char.isDigit cs = 0 := by
  have hall : (operators.all fun entry => entry.1.head?.any fun first =>
      startsWord first && !first.isDigit && !isQuote first && !Text.isIdentStart first
        && countOne Char.isDigit entry.1.tail == 0) = true := by
    decide +kernel
  intro entry hentry
  have h := List.all_eq_true.1 hall entry hentry
  cases hspelled : entry.1 with
  | nil =>
    rw [hspelled] at h
    cases h
  | cons first cs =>
    rw [hspelled] at h
    simp only [List.head?_cons, Option.any_some, List.tail_cons, Bool.and_eq_true,
      Bool.not_eq_true', beq_iff_eq] at h
    obtain ⟨⟨⟨⟨hstarts, hdigit⟩, hquote⟩, hident⟩, hcount⟩ := h
    exact ⟨first, cs, rfl, hstarts, hdigit, hquote, hident, hcount⟩

/-- An operator that the version has, in front of what does not lengthen it. -/
theorem standsBefore_operator {v : Version} {entry : List Char × TokenKind}
    (h : entry ∈ operators) (hv : operatorExists v entry = true) {rest : List Char}
    (hrest : endsOperator entry.1 rest = true) :
    StandsBefore v ⟨entry.2, String.ofList entry.1⟩ rest := by
  refine ⟨?_, operators_plain entry h⟩
  obtain ⟨first, cs, hspelled, hstarts, hdigit, hquote, hident, hcount⟩ := operators_start entry h
  refine ⟨first, cs, by rw [String.toList_ofList, hspelled], hstarts, fun depth => ?_⟩
  have hnumber : (first == '.' && countOne Char.isDigit (cs ++ rest) == 1) = false := by
    cases cs with
    | cons c cs => rw [show countOne Char.isDigit (c :: cs ++ rest) = 0 from hcount]; simp
    | nil =>
      cases rest with
      | nil => simp [countOne]
      | cons c rest =>
        -- A point in front of a digit would begin a number.
        have hgoes : goesOn entry.1 c = false := by simpa [endsOperator] using hrest
        rw [goesOn, hspelled, Bool.or_eq_false_iff] at hgoes
        by_cases hfirst : first = '.'
        · have hc : c.isDigit = false := by simpa [hfirst] using hgoes.1
          simp [countOne, hc]
        · simp [hfirst]
  have hfind : (operators.find? fun other =>
      other.1.isPrefixOf (first :: (cs ++ rest)) && operatorExists v other) = some entry := by
    rw [← find?_spelled h hv, hspelled, ← List.head?_filter, ← List.head?_filter]
    refine congrArg List.head? (List.filter_congr fun other hother => ?_)
    rw [← List.cons_append, isPrefixOf_of_endsOperator hother (hspelled ▸ hrest)]
  rw [front_of_startsWord hstarts, hdigit, hquote, hident, hnumber]
  simp [operatorFront, hfind, hspelled]

theorem separate_operator {v : Version} {entry : List Char × TokenKind} (h : entry ∈ operators)
    (hv : operatorExists v entry = true) : Separate v ⟨entry.2, String.ofList entry.1⟩ := by
  refine separate_of_standsBefore fun rest hrest => standsBefore_operator h hv ?_
  obtain ⟨hspace, hnewline⟩ := operators_apart entry h
  cases rest with
  | nil => rfl
  | cons c rest => rcases hrest c rfl with rfl | rfl <;> simpa [endsOperator]

/-- Whether no operator and no number begins with the spelling but the operator itself. -/
def standsAlone (spelling : List Char) : Bool :=
  spelling != ['.'] && operators.all fun entry =>
    !(spelling.isPrefixOf entry.1 && spelling.length < entry.1.length)

theorem endsOperator_of_standsAlone {spelling : List Char} (h : standsAlone spelling = true)
    (rest : List Char) : endsOperator spelling rest = true := by
  rw [standsAlone, Bool.and_eq_true, bne_iff_ne] at h
  refine (Option.all_eq_true _ _).2 fun c _ => ?_
  rw [Bool.not_eq_true', goesOn, beq_false_of_ne h.1, Bool.false_and, Bool.false_or,
    List.any_eq_false]
  intro entry hentry hprefix
  rw [List.isPrefixOf_iff_prefix] at hprefix
  have hlength := hprefix.length_le
  rw [List.length_append, List.length_singleton] at hlength
  have hnot := List.all_eq_true.1 h.2 entry hentry
  simp only [Bool.not_eq_true', Bool.and_eq_false_iff, decide_eq_false_iff_not] at hnot
  rcases hnot with hnot | hnot
  · exact absurd (List.isPrefixOf_iff_prefix.2 ((List.prefix_append _ _).trans hprefix))
      (Bool.eq_false_iff.1 hnot)
  · omega

/-- No operator goes on with a letter. -/
theorem goesOn_of_isIdentStart {spelling : List Char} {c : Char} (h : Text.isIdentStart c = true) :
    goesOn spelling c = false := by
  obtain ⟨-, hdigit, -, -⟩ := startsWord_of_isIdentStart h
  have hletters : (operators.all fun entry => entry.1.all fun d => !Text.isIdentStart d) = true := by
    decide +kernel
  rw [goesOn, hdigit, Bool.and_false, Bool.false_or, List.any_eq_false]
  intro entry hentry hprefix
  have hmem : c ∈ entry.1 :=
    (List.isPrefixOf_iff_prefix.1 hprefix).subset (List.mem_append_right _ List.mem_cons_self)
  have hno := List.all_eq_true.1 (List.all_eq_true.1 hletters entry hentry) c hmem
  rw [h] at hno
  cases hno

theorem endsOperator_identifier {text : String} (h : Text.isIdentifier text = true)
    (spelling more : List Char) : endsOperator spelling (text.toList ++ more) = true := by
  obtain ⟨first, cs, htext, hfirst, -⟩ := Text.isIdentifier_iff.1 h
  simp [htext, endsOperator, goesOn_of_isIdentStart hfirst]

/-! ### Lines of words -/

/-- Each of some words is read as it stands. -/
def AllSeparate (v : Version) (words : List Word) : Prop := ∀ w ∈ words, Separate v w

namespace AllSeparate

variable {v : Version} {w : Word} {words words' : List Word}

theorem nil : AllSeparate v [] := fun _ hw => nomatch hw

theorem cons (hw : Separate v w) (h : AllSeparate v words) : AllSeparate v (w :: words) :=
  List.forall_mem_cons.2 ⟨hw, h⟩

theorem append (h : AllSeparate v words) (h' : AllSeparate v words') :
    AllSeparate v (words ++ words') :=
  List.forall_mem_append.2 ⟨h, h'⟩

theorem tail (h : AllSeparate v words) : AllSeparate v words.tail :=
  fun w hw => h w (List.mem_of_mem_tail hw)

end AllSeparate

/-- Some words with single spaces between them. -/
def spaced (words : List Word) : List Char :=
  [' '].intercalate (words.map fun w => w.text.toList)

/-- The layout after some words have been read. -/
def Layout.through (l : Layout) (words : List Word) : Layout :=
  words.foldl (fun l w => l.after w.kind) l

@[simp] theorem Layout.through_nil (l : Layout) : l.through [] = l := rfl

@[simp] theorem Layout.through_cons (l : Layout) (w : Word) (words : List Word) :
    l.through (w :: words) = (l.after w.kind).through words := rfl

theorem Layout.through_append (l : Layout) (words words' : List Word) :
    l.through (words ++ words') = (l.through words).through words' :=
  List.foldl_append

/-- A word in front of what does not run into it. -/
theorem run_word {v : Version} {w : Word} {rest : List Char} (h : StandsBefore v w rest)
    (l : Layout) (offset : Nat) :
    ∃ t, t.word = w ∧ run v l false ⟨offset, w.text.toList ++ rest⟩
      = t :: run v (l.after w.kind) false ⟨offset + Text.byteSize w.text.toList, rest⟩ := by
  obtain ⟨first, cs, htext, -, hfront⟩ := h.nonempty
  have hnewline : (w.kind == .newline) = false := by
    refine beq_false_of_ne fun heq => ?_
    have hplain := h.plain
    rw [heq] at hplain
    cases hplain
  have hadvance : Input.advance ⟨offset, first :: (cs ++ rest)⟩ (cs.length + 1)
      = ⟨offset + Text.byteSize (first :: cs), rest⟩ := by
    simp [Input.advance]
  refine ⟨Input.token ⟨offset, first :: (cs ++ rest)⟩ w.kind (cs.length + 1), ?_, ?_⟩
  · have htake : String.ofList (first :: cs) = w.text := by rw [← htext, String.ofList_toList]
    simp [Token.word, Input.token, htake, h.plain]
  · rw [htext, List.cons_append, run_cons v l rfl, hfront l.depth]
    simp only [hnewline, hadvance]

theorem run_space (v : Version) (l : Layout) (offset : Nat) (cs : List Char) :
    run v l false ⟨offset, ' ' :: cs⟩ = run v l false ⟨offset + 1, cs⟩ := by
  rw [run_cons v l rfl]
  rfl

/-- The text, in front of `rest`, is the words with spaces wherever two of them would run into
    each other. -/
inductive Renders (v : Version) (rest : List Char) : List Word → List Char → Prop
  | nil : Renders v rest [] []
  | space {words : List Word} {cs : List Char} :
    Renders v rest words cs → Renders v rest words (' ' :: cs)
  | word {w : Word} {words : List Word} {cs : List Char} :
    StandsBefore v w (cs ++ rest) → Renders v rest words cs →
    Renders v rest (w :: words) (w.text.toList ++ cs)

theorem Renders.append {v : Version} {rest cs cs' : List Char} {words words' : List Word}
    (h : Renders v (cs' ++ rest) words cs) (h' : Renders v rest words' cs') :
    Renders v rest (words ++ words') (cs ++ cs') := by
  induction h with
  | nil => exact h'
  | space _ ih => exact .space ih
  | word hw _ ih =>
    rw [List.append_assoc, List.cons_append]
    exact .word (by rwa [List.append_assoc]) ih

theorem Renders.single {v : Version} {w : Word} {rest : List Char} (h : StandsBefore v w rest) :
    Renders v rest [w] w.text.toList := by
  have hword : Renders v rest [w] (w.text.toList ++ []) := .word h .nil
  rwa [List.append_nil] at hword

theorem Renders.plain {v : Version} {rest cs : List Char} {words : List Word}
    (h : Renders v rest words cs) : ∀ w ∈ words, w.kind.isLayout = false := by
  induction h with
  | nil => exact fun w hw => nomatch hw
  | space _ ih => exact ih
  | word hw _ ih => exact List.forall_mem_cons.2 ⟨hw.plain, ih⟩

/-- A text that is words is read word by word. -/
theorem run_renders {v : Version} {words : List Word} {cs rest : List Char}
    (h : Renders v rest words cs) (l : Layout) (offset : Nat) :
    ∃ ts, ts.map Token.word = words ∧ run v l false ⟨offset, cs ++ rest⟩
      = ts ++ run v (l.through words) false ⟨offset + Text.byteSize cs, rest⟩ := by
  induction h generalizing l offset with
  | nil => exact ⟨[], rfl, rfl⟩
  | @space words cs _ ih =>
    obtain ⟨ts, hts, hrun⟩ := ih l (offset + 1)
    refine ⟨ts, hts, ?_⟩
    have hsize : ' '.utf8Size = 1 := rfl
    rw [List.cons_append, run_space, hrun]
    simp [Nat.add_assoc, hsize]
  | @word w words cs hw _ ih =>
    obtain ⟨t, ht, hrun⟩ := run_word hw l offset
    obtain ⟨ts, hts, hruns⟩ := ih (l.after w.kind) (offset + Text.byteSize w.text.toList)
    refine ⟨t :: ts, by rw [List.map_cons, ht, hts], ?_⟩
    rw [List.append_assoc, hrun, hruns]
    simp [Nat.add_assoc]

/-- Words that stand on their own, with a space between any two of them. -/
theorem renders_spaced {v : Version} {words : List Word} (h : AllSeparate v words)
    {rest : List Char} (hrest : Apart rest) : Renders v rest words (spaced words) := by
  induction words with
  | nil => exact .nil
  | cons w words ih =>
    obtain ⟨hw, hwords⟩ := List.forall_mem_cons.1 h
    -- The last word stands before `rest`, every other one before a space.
    cases words with
    | nil =>
      have hspaced : spaced [w] = w.text.toList := by simp [spaced]
      rw [hspaced]
      exact .single (hw.standsBefore hrest)
    | cons next words =>
      have hspaced : spaced (w :: next :: words)
          = w.text.toList ++ ' ' :: spaced (next :: words) := by
        simp [spaced]
      have hspace : Apart (' ' :: spaced (next :: words) ++ rest) :=
        fun c hc => .inl (Option.some.inj hc).symm
      rw [hspaced]
      exact .word (hw.standsBefore hspace) (.space (ih hwords))

@[simp] theorem Layout.through_blocks (l : Layout) (words : List Word) :
    (l.through words).blocks = l.blocks := by
  induction words generalizing l with
  | nil => rfl
  | cons w words ih => exact ih (l.after w.kind)

/-- After a word a line is open. -/
theorem Layout.through_lineOpen {words : List Word} (h : ∀ w ∈ words, w.kind.isLayout = false)
    (hne : words ≠ []) (l : Layout) : (l.through words).lineOpen = true := by
  induction words generalizing l with
  | nil => exact absurd rfl hne
  | cons w words ih =>
    cases words with
    | nil => exact congrArg (!·) (h w List.mem_cons_self)
    | cons next words =>
      exact ih (fun w hw => h w (List.mem_cons_of_mem _ hw)) (List.cons_ne_nil _ _) (l.after w.kind)

/-- A text that begins with a word begins at the margin. -/
theorem flush_of_startsWord {first : Char} (h : startsWord first = true) (cs : List Char) :
    Flush (first :: cs) :=
  ⟨first, cs, rfl, startsWord_iff.1 h⟩

/-- So does a line that begins with one. -/
theorem flush_spaced {v : Version} {w : Word} (h : Separate v w) (words : List Word)
    (rest : List Char) : Flush (spaced (w :: words) ++ rest) := by
  obtain ⟨first, cs, htext, hstarts, -⟩ := h.nonempty
  have hspaced : ∃ more, spaced (w :: words) ++ rest = first :: more := by
    cases words with
    | nil => exact ⟨cs ++ rest, by simp [spaced, htext]⟩
    | cons next words =>
      exact ⟨cs ++ ' ' :: spaced (next :: words) ++ rest, by simp [spaced, htext]⟩
  obtain ⟨more, hmore⟩ := hspaced
  rw [hmore]
  exact flush_of_startsWord hstarts more

/-- The end of a text in which no block is open and a line is. -/
theorem finish_word {l : Layout} (hblocks : l.blocks = []) (hopen : l.lineOpen = true)
    (size : Nat) : (finish l size).map Token.word = [⟨.newline, ""⟩, ⟨.eof, ""⟩] := by
  rw [finish, hblocks, hopen]
  rfl

end Lexer

/-- The tokens of a text of one line. -/
theorem tokenize_renders {v : Version} {words : List Word} {text : String} (hne : words ≠ [])
    (h : Lexer.Renders v [] words text.toList) (hflush : Lexer.Flush text.toList) :
    (tokenize v text).map Token.word = words ++ [⟨.newline, ""⟩, ⟨.eof, ""⟩] := by
  obtain ⟨ts, hts, hrun⟩ := Lexer.run_renders h .initial 0
  rw [List.append_nil] at hrun
  rw [tokenize, Lexer.Input.ofChars, Lexer.run_flush v hflush (fun c hc => by cases hc) rfl rfl,
    hrun, Lexer.run_nil v _ rfl]
  rw [List.map_append, List.map_append, hts, Lexer.finish_word (Lexer.Layout.through_blocks _ _)]
  · rfl
  · exact Lexer.Layout.through_lineOpen h.plain hne _

theorem tokenize_words {v : Version} {words : List Word} (hne : words ≠ [])
    (h : Lexer.AllSeparate v words) :
    (tokenize v (String.ofList (Lexer.spaced words))).map Token.word
      = words ++ [⟨.newline, ""⟩, ⟨.eof, ""⟩] := by
  have hend : Lexer.Apart [] := fun c hc => nomatch hc
  refine tokenize_renders hne ?_ ?_
  · rw [String.toList_ofList]
    exact Lexer.renders_spaced h hend
  · obtain ⟨w, more, rfl⟩ := List.exists_cons_of_ne_nil hne
    simpa using Lexer.flush_spaced (h w List.mem_cons_self) more []

end PyAtlas
