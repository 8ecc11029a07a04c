import PyAtlas.Proofs.Syntax.Shift
import PyAtlas.Proofs.Token.Layout

/-!
# How far ahead a parser looks

Whatever a production asks about the tokens ahead is answered by the tokens up to the end of
the line. So the answers are the same where other tokens follow behind that end, and they are
the same for tokens that stand at another place of the text.

## Key results
- `lineEndsWithColon_append`, `colonFollows_append`, `closingDistance_append`: what stands
  behind a newline does not matter.
- `lineEndsWithColon_shift`, `colonFollows_shift`, `closingDistance_shift`,
  `lineLength_shift`: neither does the place.
-/

namespace PyAtlas

/-- The tokens, each standing `n` bytes later. -/
def shiftTokens (n : Nat) (ts : List Token) : List Token := ts.map (Token.shift n)

@[simp] theorem shiftTokens_nil (n : Nat) : shiftTokens n [] = [] := rfl

@[simp] theorem shiftTokens_cons (n : Nat) (t : Token) (ts : List Token) :
    shiftTokens n (t :: ts) = t.shift n :: shiftTokens n ts := rfl

@[simp] theorem length_shiftTokens (n : Nat) (ts : List Token) :
    (shiftTokens n ts).length = ts.length := List.length_map _

theorem getElem?_shiftTokens (n : Nat) (ts : List Token) (i : Nat) :
    (shiftTokens n ts)[i]? = ts[i]?.map (Token.shift n) := List.getElem?_map ..

/-! ### Other tokens behind the line -/

/-- Among the tokens is one that ends a line. -/
def HasNewline (ts : List Token) : Prop := ∃ t ∈ ts, t.kind = .newline

theorem HasNewline.tail {t : Token} {ts : List Token} (h : HasNewline (t :: ts))
    (ht : t.kind ≠ .newline) : HasNewline ts := by
  obtain ⟨u, hu, hk⟩ := h
  rcases List.mem_cons.1 hu with rfl | hu
  · exact absurd hk ht
  · exact ⟨u, hu, hk⟩

theorem HasNewline.ne_nil {ts : List Token} (h : HasNewline ts) : ts ≠ [] := by
  obtain ⟨u, hu, -⟩ := h
  exact List.ne_nil_of_mem hu

theorem takeWhile_line_append {ts : List Token} (rest : List Token) (h : HasNewline ts) :
    (ts ++ rest).takeWhile (fun t => !t.kind.isLineEnd)
      = ts.takeWhile fun t => !t.kind.isLineEnd := by
  induction ts with
  | nil => exact absurd rfl h.ne_nil
  | cons t ts ih =>
    rw [List.cons_append, List.takeWhile_cons, List.takeWhile_cons]
    split
    · rename_i ht
      rw [ih (h.tail (fun hk => by rw [hk] at ht; cases ht))]
    · rfl

theorem lineEndsWithColon_append {ts : List Token} (rest : List Token) (h : HasNewline ts) :
    lineEndsWithColon (ts ++ rest) = lineEndsWithColon ts := by
  rw [lineEndsWithColon, takeWhile_line_append rest h, lineEndsWithColon]

theorem colonFollows_append {ts : List Token} (rest : List Token) (h : HasNewline ts)
    (depth lambdas : Nat) :
    colonFollows depth lambdas (ts ++ rest) = colonFollows depth lambdas ts := by
  induction ts generalizing depth lambdas with
  | nil => exact absurd rfl h.ne_nil
  | cons t ts ih =>
    by_cases hk : t.kind = .newline
    · simp only [List.cons_append, colonFollows, hk]
    · simp only [List.cons_append, colonFollows, ih (h.tail hk)]

theorem closingDistance_append {ts : List Token} (rest : List Token) (h : HasNewline ts)
    (depth : Nat) :
    Cursor.closingDistance depth (ts ++ rest) = Cursor.closingDistance depth ts := by
  induction ts generalizing depth with
  | nil => exact absurd rfl h.ne_nil
  | cons t ts ih =>
    by_cases hk : t.kind = .newline
    · simp only [List.cons_append, Cursor.closingDistance, hk]
    · simp only [List.cons_append, Cursor.closingDistance, ih (h.tail hk)]

/-! ### The same tokens at another place -/

theorem lineEndsWithColon_shift (n : Nat) (ts : List Token) :
    lineEndsWithColon (shiftTokens n ts) = lineEndsWithColon ts := by
  rw [lineEndsWithColon, shiftTokens, List.takeWhile_map, List.getLast?_map, Option.any_map]
  rfl

theorem colonFollows_shift (n depth lambdas : Nat) (ts : List Token) :
    colonFollows depth lambdas (shiftTokens n ts) = colonFollows depth lambdas ts := by
  induction ts generalizing depth lambdas with
  | nil => rfl
  | cons t ts ih => simp only [shiftTokens_cons, colonFollows, Token.shift_kind, ih]

theorem closingDistance_shift (n depth : Nat) (ts : List Token) :
    Cursor.closingDistance depth (shiftTokens n ts) = Cursor.closingDistance depth ts := by
  induction ts generalizing depth with
  | nil => rfl
  | cons t ts ih => simp only [shiftTokens_cons, Cursor.closingDistance, Token.shift_kind, ih]

theorem lineLength_shift (n : Nat) (ts : List Token) :
    Cursor.lineLength (shiftTokens n ts) = Cursor.lineLength ts := by
  induction ts with
  | nil => rfl
  | cons t ts ih => simp only [shiftTokens_cons, Cursor.lineLength, Token.shift_kind, ih]

/-! ### What is passed over -/

theorem closingDistance_le_length (depth : Nat) (ts : List Token) :
    Cursor.closingDistance depth ts ≤ ts.length := by
  induction ts generalizing depth with
  | nil => exact Nat.le_refl 0
  | cons t ts ih =>
    have hsucc : ∀ depth, Cursor.closingDistance depth ts + 1 ≤ (t :: ts).length :=
      fun depth => Nat.succ_le_succ (ih depth)
    rw [Cursor.closingDistance.eq_def]
    simp only
    split
    · exact Nat.zero_le _
    · exact Nat.zero_le _
    · split
      · exact hsucc _
      · split
        · split
          · exact Nat.zero_le _
          · exact hsucc _
        · exact hsucc _
    · exact hsucc _

/-- What is passed over up to a closing bracket stays within the line. -/
theorem closingDistance_plain {k : Nat} {ts : List Token} (h : Laid true k ts) (depth : Nat) :
    ∀ t ∈ ts.take (Cursor.closingDistance depth ts), t.kind.isLayout = false := by
  induction ts generalizing depth with
  | nil => simp
  | cons t ts ih =>
    cases h with
    | newline hk _ => simp [Cursor.closingDistance, hk]
    | plain hk h =>
      have hzero : ∀ u ∈ (t :: ts).take 0, u.kind.isLayout = false := by simp
      -- Whatever the bracket does to the depth, the token is passed over or the search ends.
      have hsucc : ∀ depth, ∀ u ∈ (t :: ts).take (Cursor.closingDistance depth ts + 1),
          u.kind.isLayout = false := by
        intro depth u hu
        rw [List.take_succ_cons] at hu
        rcases List.mem_cons.1 hu with rfl | hu
        · exact hk
        · exact ih h depth u hu
      rw [Cursor.closingDistance.eq_def]
      simp only
      split
      · exact hzero
      · exact hzero
      · split
        · exact hsucc _
        · split
          · split
            · exact hzero
            · exact hsucc _
          · exact hsucc _
      · exact hsucc _

end PyAtlas
