import Mathlib.Data.List.TakeWhile
import PyAtlas.Proofs.Token.Arrangement
import PyAtlas.Token.Docstring

/-!
# What is kept of a docstring

Cleaning a docstring takes white space away, so of each line it keeps the characters that are not
white space, and of the whole text as well. There is one exception. The margin that the lines have
in common is a number of bytes, the smallest of all margins. In a line that begins with white space
of more than one byte it may end inside a character, and then nothing is left of the line.

## Key definitions
- `Text.ink`: the characters of a text that are not white space.
- `Docstring.laterLines`: the lines of a docstring that have a margin.

## Key results
- `Text.ink_lines`, `Text.ink_joinLines`: the lines of a text have its characters.
- `Docstring.ink_dedentLine`: what is kept of a line.
- `clean_keeps_text_iff`: where all of a docstring is kept.
-/

namespace PyAtlas

/-! ### The characters of a text -/

namespace Text

variable {cs : List Char}

/-- The characters that are not white space. -/
def ink (cs : List Char) : List Char :=
  cs.filter (!isSpace ·)

@[simp] theorem ink_nil : ink [] = [] := rfl

@[simp] theorem ink_append (as bs : List Char) : ink (as ++ bs) = ink as ++ ink bs :=
  List.filter_append as bs

theorem ink_eq_nil (h : ∀ c ∈ cs, isSpace c = true) : ink cs = [] := by
  rw [ink, List.filter_eq_nil_iff]
  intro c hc
  simp [h c hc]

theorem isBlank_iff : isBlank cs = true ↔ ink cs = [] := by
  simp [isBlank, ink]

theorem ink_trimStart (cs : List Char) : ink (trimStart cs) = ink cs := by
  have hsplit : cs.takeWhile isSpace ++ trimStart cs = cs := List.takeWhile_append_dropWhile
  have hblank : ink (cs.takeWhile isSpace) = [] := ink_eq_nil fun c hc => List.mem_takeWhile_imp hc
  calc ink (trimStart cs) = ink (cs.takeWhile isSpace ++ trimStart cs) := by
        rw [ink_append, hblank, List.nil_append]
    _ = ink cs := by rw [hsplit]

theorem ink_reverse (cs : List Char) : ink cs.reverse = (ink cs).reverse :=
  List.filter_reverse

theorem ink_trimEnd (cs : List Char) : ink (trimEnd cs) = ink cs := by
  have hstart : ink (cs.reverse.dropWhile isSpace) = ink cs.reverse := ink_trimStart cs.reverse
  rw [trimEnd, ink_reverse, hstart, ink_reverse, List.reverse_reverse]

/-! ### Lines -/

theorem ink_flatten (ls : List (List Char)) : ink ls.flatten = ls.flatMap ink := by
  induction ls with
  | nil => rfl
  | cons line ls ih => rw [List.flatten_cons, ink_append, ih, List.flatMap_cons]

/-- A text is split at white space without loss. -/
theorem ink_splitAt {p : Char → Bool} (hp : ∀ c, p c = true → isSpace c = true) (cs : List Char) :
    (splitAt p cs).flatMap ink = ink cs := by
  induction cs with
  | nil => rfl
  | cons c cs ih =>
    rw [splitAt]
    cases hs : splitAt p cs with
    | nil => exact absurd hs (splitAt_ne_nil p cs)
    | cons piece pieces =>
      rw [hs] at ih
      cases hc : p c with
      | true =>
        have hblank : ink [c] = [] := ink_eq_nil (by simpa using hp c hc)
        show ink [] ++ (piece :: pieces).flatMap ink = ink ([c] ++ cs)
        rw [ih, ink_append, hblank, ink_nil]
      | false =>
        show ink ([c] ++ piece) ++ pieces.flatMap ink = ink ([c] ++ cs)
        rw [ink_append, ink_append, List.append_assoc, ← ih, List.flatMap_cons]

/-- A carriage return is white space. -/
theorem ink_dropReturn (line : List Char) : ink (dropReturn line) = ink line := by
  rw [dropReturn]
  split
  · rename_i hlast
    obtain ⟨front, rfl⟩ := List.getLast?_eq_some_iff.1 hlast
    have hblank : ink ['\r'] = [] := by decide
    rw [List.dropLast_concat, ink_append, hblank, List.append_nil]
  · rfl

/-- The lines of a text have its characters. -/
theorem ink_lines (cs : List Char) : (lines cs).flatMap ink = ink cs := by
  have hsplit : ∀ c, (c == '\n') = true → isSpace c = true := by
    intro c hc
    rw [beq_iff_eq.1 hc]
    decide
  rw [← ink_splitAt hsplit cs, lines]
  cases hpieces : (splitAt (· == '\n') cs).reverse with
  | nil => rw [List.reverse_eq_nil_iff.1 hpieces]
  | cons last ended =>
    have hclosed : (ended.reverse.map dropReturn).flatMap ink = ended.reverse.flatMap ink := by
      rw [List.flatMap_map]
      simp only [ink_dropReturn]
    rw [← List.reverse_reverse (splitAt _ cs), hpieces, List.reverse_cons, List.flatMap_append]
    dsimp only
    split
    · rename_i hempty
      rw [List.isEmpty_iff.1 hempty, hclosed]
      exact (List.append_nil _).symm
    · rw [List.flatMap_append, hclosed]

/-- Lines joined have their characters. -/
theorem ink_joinLines (ls : List (List Char)) : ink (joinLines ls) = ls.flatMap ink := by
  have hfeed : ink ['\n'] = [] := by decide
  rw [joinLines, ink_flatten]
  induction ls with
  | nil => rfl
  | cons line ls ih =>
    cases ls with
    | nil => rfl
    | cons next ls =>
      rw [List.intersperse_cons_cons, List.flatMap_cons, List.flatMap_cons, ih, hfeed]
      rfl

/-- What is left of a text behind some of its bytes. -/
theorem dropBytes_eq_some_iff {n : Nat} {cs back : List Char} :
    dropBytes n cs = some back ↔ ∃ front, cs = front ++ back ∧ byteSize front = n := by
  constructor
  · intro h
    fun_induction dropBytes n cs with
    | case1 cs =>
      obtain rfl := Option.some.inj h
      exact ⟨[], rfl, rfl⟩
    | case2 n => cases h
    | case3 n c cs hle ih =>
      obtain ⟨front, rfl, hfront⟩ := ih h
      exact ⟨c :: front, rfl, by rw [byteSize_cons, hfront]; omega⟩
    | case4 n c cs hle => cases h
  · rintro ⟨front, rfl, rfl⟩
    exact dropBytes_byteSize_append front back

end Text

namespace Docstring

open Text

variable {lines : List (List Char)} {line : List Char} {margin : Nat}

theorem ink_expandTabs (cs : List Char) : ink (expandTabs cs) = ink cs := by
  induction cs with
  | nil => rfl
  | cons c cs ih =>
    have hchar : ink (if c == '\t' then List.replicate 8 ' ' else [c]) = ink [c] := by
      split
      · rename_i htab
        rw [beq_iff_eq.1 htab]
        decide
      · rfl
    show ink ((if c == '\t' then List.replicate 8 ' ' else [c]) ++ expandTabs cs) = ink ([c] ++ cs)
    rw [ink_append, ink_append, hchar, ih]

/-! ### One line -/

/-- The margin of a line is white space. -/
theorem lineMargin_eq (line : List Char) :
    lineMargin line = byteSize (line.takeWhile isSpace) := by
  have hsplit := congrArg byteSize (List.takeWhile_append_dropWhile (p := isSpace) (l := line))
  rw [byteSize_append] at hsplit
  rw [lineMargin, trimStart]
  omega

/-- The common margin is not longer than that of any line with text. -/
theorem commonMargin_le (hmem : line ∈ lines) (h : isBlank line = false) :
    commonMargin lines ≤ lineMargin line := by
  refine List.min?_getD_le_of_mem (List.mem_map_of_mem (List.mem_filter.2 ⟨hmem, ?_⟩))
  rw [h]
  rfl

/-- A line that is cut within its margin keeps its characters. -/
theorem ink_dedentLine (h : IsBoundary line margin) (hle : margin ≤ lineMargin line) :
    ink (dedentLine margin line) = ink line := by
  obtain ⟨front, back, hline, hfront⟩ := h
  have hdrop : dropBytes margin line = some back := dropBytes_eq_some_iff.2 ⟨front, hline, hfront⟩
  -- What is cut off begins the margin, so it is white space.
  have hsplit : front ++ back = line.takeWhile isSpace ++ line.dropWhile isSpace := by
    rw [List.takeWhile_append_dropWhile, hline]
  have hcut : front <+: line.takeWhile isSpace :=
    isPrefix_of_byteSize_le hsplit (by rw [hfront, ← lineMargin_eq]; exact hle)
  have hblank : ink front = [] :=
    ink_eq_nil fun c hc => List.mem_takeWhile_imp (hcut.subset hc)
  rw [dedentLine, hdrop, Option.getD_some, ink_trimEnd, hline, ink_append, hblank, List.nil_append]

/-- Nothing is left of a line that is cut inside a character, or behind its end. -/
theorem dedentLine_eq_nil (h : ¬ IsBoundary line margin) : dedentLine margin line = [] := by
  have hdrop : dropBytes margin line = none := by
    rw [Option.eq_none_iff_forall_ne_some]
    intro back hback
    obtain ⟨front, hline, hfront⟩ := dropBytes_eq_some_iff.1 hback
    exact h ⟨front, back, hline, hfront⟩
  rw [dedentLine, hdrop]
  rfl

/-- A line has no characters but its own. -/
theorem ink_dedentLine_sublist (margin : Nat) (line : List Char) :
    (ink (dedentLine margin line)).Sublist (ink line) := by
  rw [dedentLine, ink_trimEnd]
  cases hdrop : dropBytes margin line with
  | none => exact List.nil_sublist _
  | some back =>
    obtain ⟨front, rfl, -⟩ := dropBytes_eq_some_iff.1 hdrop
    rw [ink_append]
    exact List.sublist_append_right _ _

/-! ### All lines -/

/-- The lines at the edges have no characters. -/
theorem ink_dropEmptyEdges (lines : List (List Char)) :
    (dropEmptyEdges lines).flatMap ink = lines.flatMap ink := by
  have hnone : ∀ ls : List (List Char), (∀ line ∈ ls, line.isEmpty = true) →
      ls.flatMap ink = [] := by
    intro ls hls
    rw [List.flatMap_eq_nil_iff]
    intro line hline
    rw [List.isEmpty_iff.1 (hls line hline), ink_nil]
  have hfront : ∀ ls : List (List Char),
      (ls.dropWhile List.isEmpty).flatMap ink = ls.flatMap ink := by
    intro ls
    have hsplit : ls.takeWhile List.isEmpty ++ ls.dropWhile List.isEmpty = ls :=
      List.takeWhile_append_dropWhile
    have hempty := hnone _ fun line (hline : line ∈ ls.takeWhile List.isEmpty) =>
      List.mem_takeWhile_imp hline
    conv => rhs; rw [← hsplit, List.flatMap_append, hempty, List.nil_append]
  have hsplit : (lines.reverse.dropWhile List.isEmpty).reverse
      ++ (lines.reverse.takeWhile List.isEmpty).reverse = lines := by
    rw [← List.reverse_append, List.takeWhile_append_dropWhile, List.reverse_reverse]
  have hempty := hnone _ fun line
      (hline : line ∈ (lines.reverse.takeWhile List.isEmpty).reverse) =>
    List.mem_takeWhile_imp (List.mem_reverse.1 hline)
  rw [dropEmptyEdges, hfront]
  conv => rhs; rw [← hsplit, List.flatMap_append, hempty, List.append_nil]

theorem flatMap_sublist_flatMap {α β : Type} {f g : α → List β} {as : List α}
    (h : ∀ a ∈ as, (f a).Sublist (g a)) : (as.flatMap f).Sublist (as.flatMap g) := by
  induction as with
  | nil => exact .slnil
  | cons a as ih =>
    obtain ⟨ha, has⟩ := List.forall_mem_cons.1 h
    rw [List.flatMap_cons, List.flatMap_cons]
    exact ha.append (ih has)

/-- Parts of some texts are all of them only if each part is. -/
theorem flatMap_eq_flatMap_iff {α β : Type} {f g : α → List β} {as : List α}
    (h : ∀ a ∈ as, (f a).Sublist (g a)) :
    as.flatMap f = as.flatMap g ↔ ∀ a ∈ as, f a = g a := by
  induction as with
  | nil => simp
  | cons a as ih =>
    obtain ⟨ha, has⟩ := List.forall_mem_cons.1 h
    have hall := flatMap_sublist_flatMap has
    rw [List.flatMap_cons, List.flatMap_cons, List.forall_mem_cons]
    refine Iff.trans ?_ (and_congr_right fun _ => ih has)
    constructor
    · intro heq
      have hlength := congrArg List.length heq
      rw [List.length_append, List.length_append] at hlength
      have hle := ha.length_le
      have hles := hall.length_le
      exact ⟨ha.eq_of_length (by omega), hall.eq_of_length (by omega)⟩
    · rintro ⟨hfirst, hothers⟩
      rw [hfirst, hothers]

/-- The lines are cleaned without loss where each line with text may be cut behind the common
    margin. -/
theorem ink_cleanLines_iff (lines : List (List Char)) :
    (cleanLines lines).flatMap ink = lines.flatMap ink
      ↔ ∀ line ∈ lines.tail, isBlank line = false → IsBoundary line (commonMargin lines.tail) := by
  cases lines with
  | nil => simp [cleanLines]
  | cons first rest =>
    have hfirst : ink (trim first) = ink first := by rw [trim, ink_trimEnd, ink_trimStart]
    rw [cleanLines, ink_dropEmptyEdges, List.flatMap_cons, List.flatMap_cons, hfirst,
      List.append_cancel_left_eq, List.flatMap_map,
      flatMap_eq_flatMap_iff fun line _ => ink_dedentLine_sublist _ line, List.tail_cons]
    refine forall₂_congr fun line hline => ⟨fun hkept hblank => ?_, fun hcut => ?_⟩
    · -- A line that is lost has no characters.
      refine Classical.byContradiction fun hnot => ?_
      rw [dedentLine_eq_nil hnot] at hkept
      rw [isBlank_iff.2 hkept.symm] at hblank
      cases hblank
    · cases hblank : isBlank line with
      | false => exact ink_dedentLine (hcut hblank) (commonMargin_le hline hblank)
      | true =>
        -- A blank line has nothing to lose.
        have hnone := isBlank_iff.1 hblank
        have hsublist := ink_dedentLine_sublist (commonMargin rest) line
        rw [hnone] at hsublist ⊢
        exact List.sublist_nil.1 hsublist

/-- The lines of a docstring behind the first, with blanks in the place of tabs. -/
def laterLines (doc : String) : List (List Char) :=
  (Text.lines (expandTabs doc.toList)).tail

end Docstring

open Docstring in
/-- A cleaned docstring has all characters of the docstring but white space exactly where the common
    margin ends inside a character of no line with text. A line where it does is lost. -/
theorem clean_keeps_text_iff (doc : String) :
    (Text.ink (clean doc).toList = Text.ink doc.toList
      ↔ ∀ line ∈ laterLines doc, Text.isBlank line = false →
        Text.IsBoundary line (commonMargin (laterLines doc)))
      ∧ ∀ line ∈ laterLines doc, ¬ Text.IsBoundary line (commonMargin (laterLines doc)) →
        dedentLine (commonMargin (laterLines doc)) line = [] := by
  refine ⟨?_, fun line _ => dedentLine_eq_nil⟩
  rw [laterLines, ← ink_cleanLines_iff, clean, String.toList_ofList, Text.ink_joinLines,
    Text.ink_lines, ink_expandTabs]

open Docstring in
/-- The margin is one byte, and the third line begins with a character of white space that has three
    bytes. -/
theorem wide_space_loses_line : ¬ ∀ doc : String,
    Text.ink (clean doc).toList = Text.ink doc.toList := by
  intro hall
  have hdoc := hall "x\n a\n\u3000b"
  revert hdoc
  decide +kernel

end PyAtlas
