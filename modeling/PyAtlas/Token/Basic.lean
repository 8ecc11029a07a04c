import PyAtlas.Source.Span
import PyAtlas.Source.Version

/-!
# Tokens

The words that source text is made of. A token carries its kind, its span and its spelling, so
that a reader of tokens does not need the source beside them.

Reserved words and operators are tables: each has one spelling, and `Keyword.ofText?` is the
search for a spelling among the words that the version reserves.

## Key results
- `Keyword.ofText?_eq_some_iff`: a text is a reserved word exactly when it is the spelling of a
  word that the version reserves.
-/

namespace PyAtlas

/-- Reserved words. Words with a special meaning in some places only are not among them. -/
inductive Keyword
  | false
  | none
  | true
  | and
  | as
  | assert
  | async
  | await
  | break
  | classWord
  | continue
  | define
  | del
  | elif
  | else
  | except
  | exec
  | finally
  | for
  | from
  | global
  | if
  | import
  | in
  | is
  | lambda
  | nonlocal
  | not
  | or
  | pass
  | print
  | raise
  | return
  | try
  | while
  | with
  | yield
deriving Repr, DecidableEq, Inhabited

namespace Keyword

/-- All reserved words. -/
def all : List Keyword :=
  [.false, .none, .true, .and, .as, .assert, .async, .await, .break, .classWord, .continue, .define,
    .del, .elif, .else, .except, .exec, .finally, .for, .from, .global, .if, .import, .in, .is,
    .lambda, .nonlocal, .not, .or, .pass, .print, .raise, .return, .try, .while, .with, .yield]

/-- Every reserved word is listed. -/
@[simp] theorem mem_all (k : Keyword) : k ∈ all := by
  cases k <;> decide

/-- How the word is written. -/
def spelling : Keyword → String
  | .false => "False"
  | .none => "None"
  | .true => "True"
  | .and => "and"
  | .as => "as"
  | .assert => "assert"
  | .async => "async"
  | .await => "await"
  | .break => "break"
  | .classWord => "class"
  | .continue => "continue"
  | .define => "def"
  | .del => "del"
  | .elif => "elif"
  | .else => "else"
  | .except => "except"
  | .exec => "exec"
  | .finally => "finally"
  | .for => "for"
  | .from => "from"
  | .global => "global"
  | .if => "if"
  | .import => "import"
  | .in => "in"
  | .is => "is"
  | .lambda => "lambda"
  | .nonlocal => "nonlocal"
  | .not => "not"
  | .or => "or"
  | .pass => "pass"
  | .print => "print"
  | .raise => "raise"
  | .return => "return"
  | .try => "try"
  | .while => "while"
  | .with => "with"
  | .yield => "yield"

/-- Whether the version reserves the word. -/
def reservedIn (v : Version) : Keyword → Bool
  | .false | .true | .nonlocal => v.is3x
  | .exec | .print => !v.is3x
  | .async | .await => v.atLeast 3 7
  | _ => Bool.true

/-- The reserved word with the given spelling, if the version has one. -/
def ofText? (v : Version) (text : String) : Option Keyword :=
  all.find? fun k => k.spelling == text && k.reservedIn v

/-- All pairs of words, compared by their spelling. -/
private theorem spelling_pairwise :
    (all.all fun a => all.all fun b => !(a.spelling == b.spelling) || a == b) = Bool.true := by
  decide +kernel

/-- No two words are written alike. -/
theorem spelling_injective {a b : Keyword} (h : a.spelling = b.spelling) : a = b := by
  have pairs := spelling_pairwise
  simp only [List.all_eq_true] at pairs
  simpa [h] using pairs a (mem_all a) b (mem_all b)

/-- A text is read as a reserved word exactly when it spells a word that the version
    reserves. -/
theorem ofText?_eq_some_iff {v : Version} {text : String} {k : Keyword} :
    ofText? v text = some k ↔ k.spelling = text ∧ k.reservedIn v = Bool.true := by
  constructor
  · intro h
    have := List.find?_some h
    simpa using this
  · rintro ⟨rfl, hv⟩
    cases h : ofText? v k.spelling with
    | none =>
      have := List.find?_eq_none.1 h k (mem_all k)
      simp [hv] at this
    | some k' =>
      have := List.find?_some h
      simp only [Bool.and_eq_true, beq_iff_eq] at this
      rw [spelling_injective this.1]

end Keyword

/-- Operators and delimiters, the single equals sign apart, which has a kind of its own. -/
inductive Operator
  | lParen
  | rParen
  | lBracket
  | rBracket
  | lCurly
  | rCurly
  | colon
  | comma
  | semicolon
  | dot
  | ellipsis
  | arrow
  | at
  | walrus
  | backquote
  | plus
  | minus
  | star
  | doubleStar
  | slash
  | doubleSlash
  | percent
  | ampersand
  | pipe
  | caret
  | tilde
  | leftShift
  | rightShift
  | equalEqual
  | notEqual
  | lessThan
  | lessThanOrEqual
  | greaterThan
  | greaterThanOrEqual
  | plusEqual
  | minusEqual
  | starEqual
  | doubleStarEqual
  | slashEqual
  | doubleSlashEqual
  | percentEqual
  | atEqual
  | ampersandEqual
  | pipeEqual
  | caretEqual
  | leftShiftEqual
  | rightShiftEqual
deriving Repr, DecidableEq, Inhabited

namespace Operator

/-- Operators of an assignment that also computes, such as `+=`. -/
def isAugmented : Operator → Bool
  | .plusEqual | .minusEqual | .starEqual | .doubleStarEqual | .slashEqual | .doubleSlashEqual
  | .percentEqual | .atEqual | .ampersandEqual | .pipeEqual | .caretEqual | .leftShiftEqual
  | .rightShiftEqual => true
  | _ => false

/-- Brackets that open. -/
def isOpening : Operator → Bool
  | .lParen | .lBracket | .lCurly => true
  | _ => false

/-- Brackets that close. -/
def isClosing : Operator → Bool
  | .rParen | .rBracket | .rCurly => true
  | _ => false

/-- No bracket both opens and closes. -/
theorem not_isClosing_of_isOpening {o : Operator} (h : o.isOpening = true) :
    o.isClosing = false := by
  cases o <;> first | rfl | simp [isOpening] at h

end Operator

/-- Kinds of number literals. -/
inductive NumberKind
  | int
  | float
  | imaginary
deriving Repr, DecidableEq, Inhabited

/-- The letters before the opening quote of a string literal, as a set of marks. -/
structure StringMarks where
  raw : Bool
  bytes : Bool
  unicode : Bool
  formatted : Bool
deriving Repr, DecidableEq

namespace StringMarks

/-- No mark at all. -/
def plain : StringMarks := ⟨false, false, false, false⟩

instance : Inhabited StringMarks := ⟨plain⟩

/-- Sets the mark that a letter stands for; `none` when the letter is no mark or is set
    already. -/
def add? (marks : StringMarks) (c : Char) : Option StringMarks :=
  match c.toLower with
  | 'r' => if marks.raw then none else some { marks with raw := true }
  | 'b' => if marks.bytes then none else some { marks with bytes := true }
  | 'u' => if marks.unicode then none else some { marks with unicode := true }
  | 'f' => if marks.formatted then none else some { marks with formatted := true }
  | _ => none

/-- Marks that exclude each other: bytes, text and formatting. -/
def conflicting (marks : StringMarks) : Bool :=
  (marks.bytes && (marks.unicode || marks.formatted)) || (marks.unicode && marks.formatted)

/-- Reads at most two letters as marks, in either case and any order. -/
def ofChars? (letters : List Char) : Option StringMarks :=
  if Text.byteSize letters ≤ 2 then
    (letters.foldlM add? plain).filter fun marks => !marks.conflicting
  else none

/-- Reads the letters before a quote as marks. -/
def ofText? (text : String) : Option StringMarks :=
  ofChars? text.toList

end StringMarks

/-- What can be wrong with a piece of source text on the level of tokens. -/
inductive LexError
  | unterminatedString
  | inconsistentDedent
  | unexpectedCharacter
deriving Repr, DecidableEq, Inhabited

/-- The report about a malformed token. -/
def LexError.message : LexError → String
  | .unterminatedString => "unterminated string literal"
  | .inconsistentDedent => "unindent does not match any outer indentation level"
  | .unexpectedCharacter => "unexpected character"

/-- Kinds of tokens. The first five but `equal` are layout: they have no spelling of their
    own that matters. -/
inductive TokenKind
  | equal
  | newline
  | indent
  | dedent
  | eof
  | keyword (word : Keyword)
  | operator (op : Operator)
  | number (kind : NumberKind)
  | string (marks : StringMarks)
  | error (cause : LexError)
  | identifier
deriving Repr, DecidableEq, Inhabited

namespace TokenKind

/-- Kinds that end a logical line. -/
def isLineEnd : TokenKind → Bool
  | .newline | .eof => true
  | _ => false

/-- Kinds that show the layout of lines and blocks. -/
def isLayout : TokenKind → Bool
  | .newline | .indent | .dedent | .eof => true
  | _ => false

end TokenKind

/-- A word of a source text. -/
structure Token where
  kind : TokenKind
  span : Span
  text : String
deriving Repr, DecidableEq, Inhabited

namespace Token

/-- The token that stands at and beyond the end of every stream. -/
def endOfInput (size : Nat) : Token :=
  ⟨.eof, ⟨size, size⟩, ""⟩

@[simp] theorem endOfInput_kind (size : Nat) : (endOfInput size).kind = .eof := rfl

/-- Whether two tokens are of one kind. Identifiers differ by where they stand. -/
def sameKind (a b : Token) : Bool :=
  a.kind == b.kind && (a.kind != .identifier || a.span == b.span)

end Token

end PyAtlas
