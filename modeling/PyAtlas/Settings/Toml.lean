import PyAtlas.Text.Digits

/-!
# Reading TOML

The part of TOML that settings are written in: keys with values that are texts, whole numbers
or lists of texts, blank lines and comments. Other values, dotted keys and tables are valid
TOML but stand for nothing that a setting can be, so a document that has them is refused like
one that is not TOML at all.

## Key definitions
- `Value`: the values of settings.
- `document?`: the keys of a document with their values.
-/

namespace PyAtlas.Toml

/-- What a key can be set to. -/
inductive Value
  | text (content : String)
  | number (n : Int)
  | texts (items : List String)
deriving Repr, DecidableEq

/-- Reads something from the start of a text and leaves the rest. -/
abbrev Reader := StateT (List Char) Option

/-! ### Blanks and comments -/

/-- Blanks inside a line. -/
def isBlankChar (c : Char) : Bool :=
  c == ' ' || c == '\t'

/-- Characters that comments and texts may hold as they are. -/
def isPlain (c : Char) : Bool :=
  c == '\t' || (0x20 ≤ c.toNat && c.toNat != 0x7F)

/-- Passes over blanks. -/
def blanks : Reader Unit := fun cs => some ((), cs.dropWhile isBlankChar)

/-- Passes over a comment, if there is one. -/
def comment : Reader Unit := fun cs =>
  match cs with
  | '#' :: rest => some ((), rest.dropWhile isPlain)
  | _ => some ((), cs)

/-- Passes over a line break, if there is one, and tells whether there was. -/
def lineBreak : Reader Bool := fun cs =>
  match cs with
  | '\n' :: rest => some (true, rest)
  | '\r' :: '\n' :: rest => some (true, rest)
  | _ => some (false, cs)

/-- Passes over a given character, which has to come next. -/
def character (c : Char) : Reader Unit := fun cs =>
  match cs with
  | d :: rest => if d = c then some ((), rest) else none
  | [] => none

/-- Passes over what may follow a value: blanks, a comment, and the end of the line or of the
    text. -/
def lineEnd : Reader Unit := do
  blanks
  comment
  let broken ← lineBreak
  let rest ← get
  if broken || rest.isEmpty then pure () else failure

/-- Passes over blanks, line breaks and comments. `fuel` is the number of characters. -/
def space : (fuel : Nat) → Reader Unit
  | 0 => pure ()
  | fuel + 1 => do
    blanks
    comment
    if ← lineBreak then space fuel else pure ()

/-- Passes over blanks, line breaks and comments. -/
def anySpace : Reader Unit := do
  space ((← get).length + 1)

/-! ### Texts -/

/-- The character of a code, unless the code is that of no character. -/
def scalar? (digits : List Char) : Option Char :=
  if digits.all Text.isHexDigit then
    let n := Text.digitsValue 16 digits
    if n.isValidChar then some (Char.ofNat n) else none
  else none

/-- The character that a backslash and a letter stand for. -/
def escape? : Char → Option Char
  | 'b' => some '\x08'
  | 't' => some '\t'
  | 'n' => some '\n'
  | 'f' => some '\x0c'
  | 'r' => some '\r'
  | '\x22' => some '\x22'
  | '\\' => some '\\'
  | _ => none

/-- What a backslash and the characters after it stand for. -/
def escape : Reader Char := fun cs =>
  match cs with
  | 'u' :: rest => do
    let c ← if (rest.take 4).length = 4 then scalar? (rest.take 4) else none
    pure (c, rest.drop 4)
  | 'U' :: rest => do
    let c ← if (rest.take 8).length = 8 then scalar? (rest.take 8) else none
    pure (c, rest.drop 8)
  | c :: rest => (escape? c).map (·, rest)
  | [] => none

/-- The rest of a text in double quotes. -/
def quotedRest : (fuel : Nat) → Reader (List Char)
  | 0 => failure
  | fuel + 1 => do
    match ← get with
    | '\x22' :: rest =>
      set rest
      pure []
    | '\\' :: rest =>
      set rest
      let c ← escape
      let cs ← quotedRest fuel
      pure (c :: cs)
    | c :: rest =>
      if isPlain c then
        set rest
        let cs ← quotedRest fuel
        pure (c :: cs)
      else failure
    | [] => failure

/-- The rest of a text in single quotes, which has no escapes. -/
def literalRest : Reader (List Char) := fun cs =>
  let inner := cs.takeWhile fun c => isPlain c && c != '\x27'
  match cs.drop inner.length with
  | '\x27' :: rest => some (inner, rest)
  | _ => none

/-- The number of quotes at the start of a text. -/
def quoteRun (quote : Char) (cs : List Char) : Nat :=
  (cs.takeWhile (· == quote)).length

/-- Passes over what a backslash at the end of a line hides: the line break and all blanks and
    line breaks after it. -/
def hiddenBreak? (cs : List Char) : Option (List Char) :=
  match lineBreak (cs.dropWhile isBlankChar) with
  | some (true, rest) => some (skip rest.length rest)
  | _ => none
where
  /-- The text without the blanks and line breaks at its start. -/
  skip : Nat → List Char → List Char
    | 0, cs => cs
    | fuel + 1, cs =>
      match lineBreak (cs.dropWhile isBlankChar) with
      | some (true, rest) => skip fuel rest
      | _ => cs.dropWhile isBlankChar

/-- The rest of a text of several lines, up to three quotes. One or two quotes are part of the
    text, also right before the three. Escapes are those of double quotes. -/
def blockRest (quote : Char) : (fuel : Nat) → Reader (List Char)
  | 0 => failure
  | fuel + 1 => do
    let cs ← get
    let run := quoteRun quote cs
    if 3 ≤ run then
      -- Up to two quotes right before the closing three belong to the text.
      let kept := min (run - 3) 2
      set (cs.drop (kept + 3))
      pure (List.replicate kept quote)
    else if 0 < run then
      set (cs.drop run)
      let rest ← blockRest quote fuel
      pure (List.replicate run quote ++ rest)
    else if ← lineBreak then
      let rest ← blockRest quote fuel
      pure ('\n' :: rest)
    else
      match cs with
      | [] => failure
      | c :: after =>
        set after
        if c == '\\' && quote == '\x22' then
          match hiddenBreak? after with
          | some after =>
            set after
            blockRest quote fuel
          | none =>
            let c ← escape
            let rest ← blockRest quote fuel
            pure (c :: rest)
        else if isPlain c then
          let rest ← blockRest quote fuel
          pure (c :: rest)
        else failure

/-- The rest of a text of several lines; a line break right at its start is no part of it. -/
def block (quote : Char) : Reader (List Char) := do
  let _ ← lineBreak
  blockRest quote ((← get).length + 1)

/-- A text in quotes on one line. -/
def lineText : Reader String := do
  match ← get with
  | '\x22' :: rest =>
    set rest
    String.ofList <$> quotedRest (rest.length + 1)
  | '\x27' :: rest =>
    set rest
    String.ofList <$> literalRest
  | _ => failure

/-- A text in quotes. -/
def quotedText : Reader String := do
  match ← get with
  | '\x22' :: '\x22' :: '\x22' :: rest =>
    set rest
    String.ofList <$> block '\x22'
  | '\x27' :: '\x27' :: '\x27' :: rest =>
    set rest
    String.ofList <$> block '\x27'
  | _ => lineText

/-! ### Numbers and lists -/

/-- The digits at the start of a text, with single underscores between them left out. -/
def digitRun (base : Nat) : List Char → List Char × List Char
  | [] => ([], [])
  | [c] => if Text.isDigitIn base c then ([c], []) else ([], [c])
  | c :: '_' :: d :: rest =>
    if Text.isDigitIn base c then
      if Text.isDigitIn base d then
        let (digits, after) := digitRun base (d :: rest)
        (c :: digits, after)
      else ([c], '_' :: d :: rest)
    else ([], c :: '_' :: d :: rest)
  | c :: rest =>
    if Text.isDigitIn base c then
      let (digits, after) := digitRun base rest
      (c :: digits, after)
    else ([], c :: rest)

/-- A number in digits of a base. -/
def digits (base : Nat) : Reader Nat := fun cs =>
  match digitRun base cs with
  | ([], _) => none
  | (ds, rest) => some (Text.digitsValue base ds, rest)

/-- A number in base ten, which begins with a zero only if it is zero. -/
def decimal : Reader Nat := fun cs =>
  match cs with
  | '0' :: rest => some (0, rest)
  | _ => digits 10 cs

/-- Numbers have to fit into 64 bits. -/
def inRange (n : Int) : Bool :=
  -0x8000000000000000 ≤ n && n < 0x8000000000000000

/-- A whole number. -/
def wholeNumber : Reader Int := do
  let n : Int ← match ← get with
    | '0' :: 'x' :: rest => set rest; Int.ofNat <$> digits 16
    | '0' :: 'o' :: rest => set rest; Int.ofNat <$> digits 8
    | '0' :: 'b' :: rest => set rest; Int.ofNat <$> digits 2
    | '-' :: rest => set rest; (fun n => -Int.ofNat n) <$> decimal
    | '+' :: rest => set rest; Int.ofNat <$> decimal
    | _ => Int.ofNat <$> decimal
  if inRange n then pure n else failure

/-- The rest of a list of texts. A comma may follow the last of them. -/
def listRest : (fuel : Nat) → Reader (List String)
  | 0 => failure
  | fuel + 1 => do
    anySpace
    match ← get with
    | ']' :: rest =>
      set rest
      pure []
    | _ =>
      let item ← quotedText
      anySpace
      match ← get with
      | ',' :: rest =>
        set rest
        let items ← listRest fuel
        pure (item :: items)
      | ']' :: rest =>
        set rest
        pure [item]
      | _ => failure

/-- A value. -/
def value : Reader Value := do
  match ← get with
  | '[' :: rest =>
    set rest
    Value.texts <$> listRest (rest.length + 1)
  | c :: _ =>
    if c == '\x22' || c == '\x27' then Value.text <$> quotedText else Value.number <$> wholeNumber
  | [] => failure

/-! ### Documents -/

/-- Characters of keys without quotes. -/
def isKeyChar (c : Char) : Bool :=
  c.isAlphanum || c == '_' || c == '-'

/-- A key, with or without quotes. -/
def key : Reader String := do
  let cs ← get
  let name := cs.takeWhile isKeyChar
  if name.isEmpty then lineText
  else
    set (cs.drop name.length)
    pure (String.ofList name)

/-- A line with a key and its value, the line end included. -/
def setting : Reader (String × Value) := do
  let name ← key
  blanks
  character '='
  blanks
  let v ← value
  lineEnd
  pure (name, v)

/-- The settings of the remaining lines. `fuel` is at least the number of lines. -/
def settings : (fuel : Nat) → Reader (List (String × Value))
  | 0 => failure
  | fuel + 1 => do
    blanks
    match ← get with
    | [] => pure []
    | c :: _ =>
      if c == '#' || c == '\n' || c == '\r' then
        lineEnd
        settings fuel
      else
        let first ← setting
        let rest ← settings fuel
        pure (first :: rest)

/-- The keys of a document with their values. No key may be set twice. -/
def document? (text : String) : Option (List (String × Value)) :=
  -- A byte order mark is no part of the document.
  let cs := match text.toList with
    | '\ufeff' :: rest => rest
    | cs => cs
  match settings (cs.length + 1) cs with
  | some (found, []) => if (found.map Prod.fst).Nodup then some found else none
  | _ => none

end PyAtlas.Toml
