/-!
# Byte offsets in text

Positions in a source are counted in UTF-8 bytes while text is read as characters. `byteSize`
measures a list of characters, and `slice?` cuts a byte range out of one, refusing ranges
that would cut a character in two.

## Key results
- `byteSize_append`: sizes add up.
- `byteSize_toList`: the size of a string in these terms.
- `dropBytes_byteSize_append`, `takeBytes_byteSize_append`: a cut at the end of a given
  beginning gives back that beginning and what follows it.
-/

namespace PyAtlas.Text

/-- Number of bytes that the UTF-8 encoding of the characters takes. -/
def byteSize : List Char → Nat
  | [] => 0
  | c :: cs => c.utf8Size + byteSize cs

@[simp] theorem byteSize_nil : byteSize [] = 0 := rfl

@[simp] theorem byteSize_cons (c : Char) (cs : List Char) :
    byteSize (c :: cs) = c.utf8Size + byteSize cs := rfl

/-- Sizes add up. -/
@[simp] theorem byteSize_append (as bs : List Char) :
    byteSize (as ++ bs) = byteSize as + byteSize bs := by
  induction as with
  | nil => simp
  | cons c cs ih => simp [ih, Nat.add_assoc]

/-- A text has at least as many bytes as characters. -/
theorem length_le_byteSize (cs : List Char) : cs.length ≤ byteSize cs := by
  induction cs with
  | nil => simp
  | cons c cs ih =>
    have := c.utf8Size_pos
    simp only [List.length_cons, byteSize_cons]
    omega

/-- The size of a string is the size of its characters. -/
theorem byteSize_toList (s : String) : byteSize s.toList = s.utf8ByteSize := by
  have hofList : ∀ cs : List Char, (String.ofList cs).utf8ByteSize = byteSize cs := by
    intro cs
    induction cs with
    | nil => rfl
    | cons c cs ih =>
      rw [← List.singleton_append, String.ofList_append, String.utf8ByteSize_append, ih]
      simp
  rw [← hofList, String.ofList_toList]

/-- What is left after the first `n` bytes; `none` past the end or inside a character. -/
def dropBytes : Nat → List Char → Option (List Char)
  | 0, cs => some cs
  | _ + 1, [] => none
  | n + 1, c :: cs =>
    if c.utf8Size ≤ n + 1 then dropBytes (n + 1 - c.utf8Size) cs else none
termination_by _ cs => cs.length

/-- The first `n` bytes; `none` past the end or inside a character. -/
def takeBytes : Nat → List Char → Option (List Char)
  | 0, _ => some []
  | _ + 1, [] => none
  | n + 1, c :: cs =>
    if c.utf8Size ≤ n + 1 then (takeBytes (n + 1 - c.utf8Size) cs).map (c :: ·) else none
termination_by _ cs => cs.length

/-- The bytes from `start` up to `stop`; `none` when the range is not a range of the text or
    cuts a character. -/
def slice? (cs : List Char) (start stop : Nat) : Option (List Char) :=
  if start ≤ stop then (dropBytes start cs).bind (takeBytes (stop - start)) else none

/-- Dropping all the bytes of a beginning leaves what follows it. -/
@[simp] theorem dropBytes_byteSize_append (as bs : List Char) :
    dropBytes (byteSize as) (as ++ bs) = some bs := by
  induction as with
  | nil => simp [dropBytes]
  | cons c cs ih =>
    have hpos := c.utf8Size_pos
    rw [byteSize_cons, List.cons_append]
    obtain ⟨n, hn⟩ : ∃ n, c.utf8Size + byteSize cs = n + 1 :=
      ⟨_, (Nat.succ_pred_eq_of_pos (by omega)).symm⟩
    rw [hn, dropBytes, if_pos (by omega), ← hn, Nat.add_sub_cancel_left, ih]

/-- Taking all the bytes of a beginning gives it back. -/
@[simp] theorem takeBytes_byteSize_append (as bs : List Char) :
    takeBytes (byteSize as) (as ++ bs) = some as := by
  induction as with
  | nil => simp [takeBytes]
  | cons c cs ih =>
    have hpos := c.utf8Size_pos
    rw [byteSize_cons, List.cons_append]
    obtain ⟨n, hn⟩ : ∃ n, c.utf8Size + byteSize cs = n + 1 :=
      ⟨_, (Nat.succ_pred_eq_of_pos (by omega)).symm⟩
    rw [hn, takeBytes, if_pos (by omega), ← hn, Nat.add_sub_cancel_left, ih, Option.map_some]

end PyAtlas.Text
