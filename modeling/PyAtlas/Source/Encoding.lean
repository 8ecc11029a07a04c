import PyAtlas.Text.CharClass
import PyAtlas.Text.Lines

/-!
# Encodings of source files

Source files hold UTF-8 text, with or without a byte order mark. Older files may say in a
comment on one of the first two lines that they hold Latin-1 text; that is believed only of
files that are not UTF-8.

## Key definitions
- `declaredEncoding?`: the encoding that a comment names.
- `decodeSource?`: the text of a source file.
-/

namespace PyAtlas.Encoding

/-- The bytes without a byte order mark. -/
def dropMark : List UInt8 → List UInt8
  | 0xEF :: 0xBB :: 0xBF :: rest => rest
  | bytes => bytes

/-- The text that bytes encode in UTF-8. -/
def utf8? (bytes : List UInt8) : Option (List Char) :=
  (String.fromUTF8? ⟨bytes.toArray⟩).map String.toList

/-- The text that has each byte as a character of the same code. -/
def latin1 (bytes : List UInt8) : List Char :=
  bytes.map fun b => Char.ofNat b.toNat

/-- The character at the start of some bytes and the number of its bytes. -/
def leadingChar? (bytes : List UInt8) : Option (Char × Nat) :=
  [1, 2, 3, 4].findSome? fun n =>
    match utf8? (bytes.take n) with
    | some [c] => some (c, n)
    | _ => none

/-- The text of bytes that need not be UTF-8, with a replacement character for each byte that
    belongs to no character. `skip` bytes belong to a character already read. -/
def lossy : (skip : Nat) → List UInt8 → List Char
  | _, [] => []
  | skip + 1, _ :: rest => lossy skip rest
  | 0, b :: rest =>
    match leadingChar? (b :: rest) with
    | some (c, n) => c :: lossy (n - 1) rest
    | none => '\ufffd' :: lossy 0 rest

/-- The first two lines of some bytes. -/
def firstLines (bytes : List UInt8) : List (List UInt8) :=
  let notBreak := fun (b : UInt8) => b != 0x0A
  let first := bytes.takeWhile notBreak
  match bytes.dropWhile notBreak with
  | [] => [first]
  | _ :: rest => [first, rest.takeWhile notBreak]

/-- What follows the first occurrence of a word. -/
def after? (word : List Char) : List Char → Option (List Char)
  | [] => if word.isEmpty then some [] else none
  | c :: cs =>
    if word.isPrefixOf (c :: cs) then some ((c :: cs).drop word.length) else after? word cs

/-- Characters of the names of encodings. -/
def isNameChar (c : Char) : Bool :=
  Text.isWordChar c || c == '-' || c == '_' || c == '.'

/-- The encoding that a line names: a comment with the word `coding`, a colon or an equals
    sign, and the name. -/
def namedIn? (line : List Char) : Option String :=
  match Text.trimStart line with
  | '#' :: comment =>
    match after? "coding".toList comment with
    | some (mark :: rest) =>
      let name := (Text.trimStart rest).takeWhile isNameChar
      if (mark == ':' || mark == '=') && !name.isEmpty then
        some (String.ofList (name.map Char.toLower))
      else none
    | _ => none
  | _ => none

/-- The encoding that one of the first two lines names, in lower case. -/
def declaredEncoding? (bytes : List UInt8) : Option String :=
  (firstLines bytes).findSome? fun line => namedIn? (lossy 0 line)

/-- The names under which Latin-1 is known. -/
def latin1Names : List String :=
  ["latin-1", "latin1", "iso-8859-1", "iso8859-1", "l1"]

/-- The text of a source file. -/
def decodeSource? (bytes : List UInt8) : Option String :=
  let bytes := dropMark bytes
  match utf8? bytes with
  | some text => some (String.ofList text)
  | none =>
    match declaredEncoding? bytes with
    | some name => if latin1Names.contains name then some (String.ofList (latin1 bytes)) else none
    | none => none

end PyAtlas.Encoding
