import PyAtlas.Text.CharClass

/-!
# Lines and blanks

Splitting text at line feeds and at other marks, and removing white space from its ends.
-/

namespace PyAtlas.Text

/-- Pieces of `cs` between the characters that satisfy `p`. There is always one piece more
    than there are such characters. -/
def splitAt (p : Char → Bool) : List Char → List (List Char)
  | [] => [[]]
  | c :: cs =>
    match p c, splitAt p cs with
    | true, pieces => [] :: pieces
    | false, piece :: pieces => (c :: piece) :: pieces
    | false, [] => [[c]]

/-- A split always yields a piece. -/
theorem splitAt_ne_nil (p : Char → Bool) (cs : List Char) : splitAt p cs ≠ [] := by
  cases cs with
  | nil => simp [splitAt]
  | cons c cs =>
    rw [splitAt]
    split <;> simp

/-- A text without such characters is one piece. -/
theorem splitAt_of_all_not {p : Char → Bool} {cs : List Char} (h : ∀ c ∈ cs, p c = false) :
    splitAt p cs = [cs] := by
  induction cs with
  | nil => rfl
  | cons c cs ih =>
    rw [splitAt, ih fun d hd => h d (List.mem_cons_of_mem _ hd), h c List.mem_cons_self]

/-- A text is split on both sides of such a character. -/
theorem splitAt_append_cons {p : Char → Bool} {c : Char} (h : p c = true) (cs ds : List Char) :
    splitAt p (cs ++ c :: ds) = splitAt p cs ++ splitAt p ds := by
  induction cs with
  | nil =>
    simp only [List.nil_append, splitAt, h]
    rfl
  | cons b cs ih =>
    rw [List.cons_append, splitAt, splitAt, ih]
    cases hs : splitAt p cs with
    | nil => exact absurd hs (splitAt_ne_nil p cs)
    | cons piece pieces => cases p b <;> rfl

/-- The text without the white space at its start. -/
def trimStart (cs : List Char) : List Char :=
  cs.dropWhile isSpace

/-- The text without the white space at its end. -/
def trimEnd (cs : List Char) : List Char :=
  (cs.reverse.dropWhile isSpace).reverse

/-- The text without the white space at both ends. -/
def trim (cs : List Char) : List Char :=
  trimEnd (trimStart cs)

/-- Whether the text holds nothing but white space. -/
def isBlank (cs : List Char) : Bool :=
  cs.all isSpace

/-- A line without the carriage return that may end it. -/
def dropReturn (line : List Char) : List Char :=
  if line.getLast? = some '\r' then line.dropLast else line

/-- The lines of a text. A line feed ends a line, together with one carriage return before
    it; the last line needs no line feed, and none follows the last line feed. -/
def lines (cs : List Char) : List (List Char) :=
  match (splitAt (· == '\n') cs).reverse with
  | [] => []
  | last :: ended =>
    let closed := ended.reverse.map dropReturn
    if last.isEmpty then closed else closed ++ [last]

/-- Lines joined by line feeds. -/
def joinLines (ls : List (List Char)) : List Char :=
  (ls.intersperse ['\n']).flatten

end PyAtlas.Text
