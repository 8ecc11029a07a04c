import PyAtlas.Text.Lines

/-!
# Dotted names

Names of modules and of members inside them are written with points between their parts. A
text without a point is a dotted name of one part, also when it is empty.

## Key results
- `segments_ne_nil`: there is always a part.
- `join_segments`: the parts with points between them are the name.
- `segments_append`: so the parts of a longer name are those of its front and its back.
- `segments_injective`: and a name is determined by its parts.
-/

namespace PyAtlas.DottedName

/-- The parts of a dotted name. -/
def segments (name : String) : List String :=
  (Text.splitAt (· == '.') name.toList).map String.ofList

/-- The dotted name of some parts. -/
def join (parts : List String) : String :=
  ".".intercalate parts

/-- The first part of a dotted name. -/
def head (name : String) : String :=
  (segments name).headD ""

/-- There is always a part. -/
theorem segments_ne_nil (name : String) : segments name ≠ [] := by
  simp [segments, Text.splitAt_ne_nil]

/-- The parts of a text between its points, with points between them, are the text. -/
theorem chars_segments (cs : List Char) :
    ['.'].intercalate (Text.splitAt (· == '.') cs) = cs := by
  induction cs with
  | nil => rfl
  | cons c cs ih =>
    rw [Text.splitAt]
    cases hs : Text.splitAt (· == '.') cs with
    | nil => exact absurd hs (Text.splitAt_ne_nil _ _)
    | cons piece pieces =>
      rw [hs] at ih
      by_cases hc : c = '.'
      · cases pieces <;> simp_all [List.intercalate, List.intersperse]
      · have hb : (c == '.') = false := by simpa using hc
        simp only [hb]
        cases pieces <;> simp_all [List.intercalate, List.intersperse]

/-- The parts with points between them are the name. -/
theorem join_segments (name : String) : join (segments name) = name := by
  rw [join, segments, ← String.toList_inj, String.toList_intercalate, List.map_map]
  have hpieces : String.toList ∘ String.ofList = id := funext fun _ => String.toList_ofList
  rw [hpieces, List.map_id]
  exact chars_segments name.toList

/-- A text without a point is a name of one part. -/
theorem segments_of_not_mem {name : String} (h : '.' ∉ name.toList) : segments name = [name] := by
  have hsplit : Text.splitAt (· == '.') name.toList = [name.toList] :=
    Text.splitAt_of_all_not fun c hc => by
      simp only [beq_eq_false_iff_ne]
      rintro rfl
      exact h hc
  rw [segments, hsplit, List.map_singleton, String.ofList_toList]

/-- The parts of two names with a point between them. -/
theorem segments_append (front back : String) :
    segments (front ++ "." ++ back) = segments front ++ segments back := by
  rw [segments, String.toList_append, String.toList_append, List.append_assoc]
  rw [show ".".toList ++ back.toList = '.' :: back.toList from rfl]
  rw [Text.splitAt_append_cons rfl, List.map_append, segments, segments]

/-- The first part of two names with a point between them is that of the front one. -/
theorem head_append (front back : String) : head (front ++ "." ++ back) = head front := by
  rw [head, head, segments_append]
  cases hfront : segments front with
  | nil => exact absurd hfront (segments_ne_nil front)
  | cons part parts => rfl

/-- Names of the same parts are the same. -/
theorem segments_injective {a b : String} (h : segments a = segments b) : a = b := by
  have hpieces : Text.splitAt (· == '.') a.toList = Text.splitAt (· == '.') b.toList := by
    refine (List.map_inj_right fun x y hxy => ?_).1 h
    simpa using congrArg String.toList hxy
  rw [← String.toList_inj, ← chars_segments a.toList, hpieces, chars_segments]

end PyAtlas.DottedName
