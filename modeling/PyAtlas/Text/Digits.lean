import PyAtlas.Text.CharClass

/-!
# Numbers in digits

Reading numbers from their digits, in base ten and in others up to sixteen.
-/

namespace PyAtlas.Text

/-- The value of a character as a digit in base sixteen. -/
def digitValue (c : Char) : Nat :=
  if c.isDigit then c.toNat - '0'.toNat
  else if 'a' ≤ c then c.toNat - 'a'.toNat + 10
  else c.toNat - 'A'.toNat + 10

/-- Whether a character is a digit in a base up to sixteen. -/
def isDigitIn (base : Nat) (c : Char) : Bool :=
  isHexDigit c && digitValue c < base

/-- The number that digits stand for, the first being the most significant. -/
def digitsValue (base : Nat) (digits : List Char) : Nat :=
  digits.foldl (fun n c => base * n + digitValue c) 0

/-- The number that a text stands for: digits of the base, at least one, perhaps after a plus
    sign. -/
def number? (base : Nat) (cs : List Char) : Option Nat :=
  let digits := match cs with
    | '+' :: rest => rest
    | _ => cs
  if digits.isEmpty || !digits.all (isDigitIn base) then none
  else some (digitsValue base digits)

/-- A number in base ten that does not exceed a limit. -/
def decimal? (limit : Nat) (cs : List Char) : Option Nat :=
  (number? 10 cs).filter (· ≤ limit)

end PyAtlas.Text
