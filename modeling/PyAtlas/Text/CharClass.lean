import PyAtlas.Text.Alphabetic
import PyAtlas.Text.Numeric

/-!
# Character classes

The classes that source text and file names are read with: letters, letters and numbers,
white space, and the characters of an identifier. ASCII is decided by comparison and
everything else by the interval tables.
-/

namespace PyAtlas.Text

/-- Membership of a code point in a list of closed intervals. -/
def inIntervals (intervals : List (Nat × Nat)) (code : Nat) : Bool :=
  intervals.any fun interval => interval.1 ≤ code && code ≤ interval.2

/-- A letter: the Unicode property `Alphabetic`. -/
def isLetter (c : Char) : Bool :=
  if c.toNat < 0x80 then c.isAlpha else inIntervals alphabeticIntervals c.toNat

/-- A number: the general categories `Nd`, `Nl` and `No`. -/
def isNumeral (c : Char) : Bool :=
  if c.toNat < 0x80 then c.isDigit else inIntervals numericIntervals c.toNat

/-- A letter or a number. -/
def isWordChar (c : Char) : Bool :=
  isLetter c || isNumeral c

/-- White space: the Unicode property `White_Space`. -/
def isSpace (c : Char) : Bool :=
  c == ' ' || (0x09 ≤ c.toNat && c.toNat ≤ 0x0D) || c.toNat == 0x85 || c.toNat == 0xA0
    || c.toNat == 0x1680 || (0x2000 ≤ c.toNat && c.toNat ≤ 0x200A) || c.toNat == 0x2028
    || c.toNat == 0x2029 || c.toNat == 0x202F || c.toNat == 0x205F || c.toNat == 0x3000

/-- The first character of an identifier. -/
def isIdentStart (c : Char) : Bool :=
  isLetter c || c == '_'

/-- The characters of an identifier after the first. -/
def isIdentPart (c : Char) : Bool :=
  isWordChar c || c == '_'

/-- An ASCII digit in base sixteen. -/
def isHexDigit (c : Char) : Bool :=
  c.isDigit || ('a' ≤ c && c ≤ 'f') || ('A' ≤ c && c ≤ 'F')

/-- Every character that may begin an identifier may also continue one. -/
theorem isIdentPart_of_isIdentStart {c : Char} (h : isIdentStart c = true) :
    isIdentPart c = true := by
  simp only [isIdentStart, isIdentPart, isWordChar, Bool.or_eq_true] at h ⊢
  exact h.imp_left Or.inl

/-- An identifier: a letter or an underscore, then letters, numbers and underscores. -/
def isIdentifier (name : String) : Bool :=
  match name.toList with
  | [] => false
  | first :: rest => isIdentStart first && rest.all isIdentPart

theorem isIdentifier_iff {name : String} : isIdentifier name = true ↔
    ∃ first rest, name.toList = first :: rest ∧ isIdentStart first = true
      ∧ ∀ c ∈ rest, isIdentPart c = true := by
  rw [isIdentifier]
  cases name.toList with
  | nil => simp
  | cons first rest =>
    rw [Bool.and_eq_true, List.all_eq_true]
    refine ⟨fun h => ⟨first, rest, rfl, h⟩, ?_⟩
    rintro ⟨_, _, ⟨⟩, h⟩
    exact h

end PyAtlas.Text
