import PyAtlas.Text.Digits
import PyAtlas.Token.Basic

/-!
# The value of a string literal

`StringLiteral.decode?` reads the text of one literal: the marks before the quote, the quotes
themselves, and the body with its escapes replaced. In a raw literal the body is the value.
-/

namespace PyAtlas

/-- A decoded literal. -/
structure StringLiteral where
  marks : StringMarks
  value : String
deriving Repr, DecidableEq

namespace StringLiteral

/-- What a backslash and the given character stand for, the hexadecimal escape apart. An
    escaped line feed vanishes, and an unknown escape stands for itself. -/
def escape (c : Char) : List Char :=
  match c with
  | '\n' => []
  | 'n' => ['\n']
  | 't' => ['\t']
  | 'r' => ['\r']
  | '0' => ['\x00']
  | 'a' => ['\x07']
  | 'b' => ['\x08']
  | 'f' => ['\x0c']
  | 'v' => ['\x0b']
  | '\\' => ['\\']
  | '\x27' => ['\x27']
  | '\x22' => ['\x22']
  | other => ['\\', other]

/-- What a backslash, an `x` and the two characters after it stand for. Characters that are no
    number in base sixteen are kept with the backslash. -/
def hexEscape (digits : List Char) : List Char :=
  match Text.number? 16 digits with
  | some n => [Char.ofNat n]
  | none => '\\' :: 'x' :: digits

/-- The body of a literal with its escapes replaced. A backslash at the end is kept. -/
def unescape : List Char → List Char
  | [] => []
  | ['\\'] => ['\\']
  | '\\' :: 'x' :: a :: b :: cs => hexEscape [a, b] ++ unescape cs
  | ['\\', 'x', a] => hexEscape [a]
  | ['\\', 'x'] => hexEscape []
  | '\\' :: c :: cs => escape c ++ unescape cs
  | c :: cs => c :: unescape cs

/-- What stands between two copies of `delimiter`. -/
def between? (delimiter cs : List Char) : Option (List Char) :=
  if delimiter.isPrefixOf cs then
    let rest := cs.drop delimiter.length
    if delimiter.isSuffixOf rest then some (rest.take (rest.length - delimiter.length)) else none
  else none

/-- The quotes around a literal: three when the text begins with three and has room for three
    more at its end. -/
def delimiterOf (quote : Char) (cs : List Char) : List Char :=
  let triple := [quote, quote, quote]
  if triple.isPrefixOf cs && 6 ≤ Text.byteSize cs then triple else [quote]

/-- Whether a character is a quote. -/
def isQuote (c : Char) : Bool :=
  c == '\x22' || c == '\x27'

/-- Reads the text of one literal; `none` when the text is not a complete literal. -/
def decodeChars? (cs : List Char) : Option (StringMarks × List Char) := do
  let letters := cs.takeWhile fun c => !isQuote c
  let body := cs.dropWhile fun c => !isQuote c
  let quote ← body.head?
  let marks ← StringMarks.ofChars? letters
  let inner ← between? (delimiterOf quote body) body
  pure (marks, if marks.raw then inner else unescape inner)

/-- Reads the text of one literal; `none` when the text is not a complete literal. -/
def decode? (text : String) : Option StringLiteral :=
  (decodeChars? text.toList).map fun (marks, value) => ⟨marks, String.ofList value⟩

end StringLiteral

end PyAtlas
