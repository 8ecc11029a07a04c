import Mathlib.Data.List.Induction
import PyAtlas.Proofs.Token.Arrangement
import PyAtlas.Proofs.Token.HeldLines
import PyAtlas.Proofs.Token.Stream

/-!
# Newlines behind words

A newline ends a line, and a line without words is none: it makes no token. So a newline stands
directly behind a word, unless its line is held open by a backslash and no word comes before it.

The line of a newline begins behind the newline before it, or where the text begins. From there the
lexer reads on with no block to settle but those that were open, and outside of brackets; so whether
it yields a token before the newline is told by the text alone.

## Key definitions
- `lineStart`: where the line begins that goes on behind some tokens.

## Key results
- `Lexer.Steps.exists_lineStart`: the state in which a line begins.
- `Lexer.exists_newline`: where a newline is read.
- `newline_behind_word_iff`: which newlines stand directly behind a word.
-/

namespace PyAtlas

/-! ### The line of a newline -/

/-- Where the line begins that goes on behind some tokens: behind the last newline among them. -/
def lineStart (before : List Token) : Nat :=
  ((before.filter (·.kind == .newline)).getLast?.map (·.span.stop)).getD 0

/-- Some tokens end with those of the last line. -/
theorem exists_lastLine (ts : List Token) :
    ∃ earlier line, ts = earlier ++ line ∧ (∀ t ∈ line, t.kind ≠ .newline)
      ∧ (earlier = [] ∧ lineStart ts = 0
        ∨ ∃ lines n, earlier = lines ++ [n] ∧ n.kind = .newline ∧ lineStart ts = n.span.stop) := by
  induction ts using List.reverseRecOn with
  | nil => exact ⟨[], [], rfl, List.forall_mem_nil _, .inl ⟨rfl, rfl⟩⟩
  | append_singleton ts t ih =>
    by_cases ht : t.kind = .newline
    · refine ⟨ts ++ [t], [], (List.append_nil _).symm, List.forall_mem_nil _,
        .inr ⟨ts, t, rfl, ht, ?_⟩⟩
      simp [lineStart, List.filter_append, ht]
    · obtain ⟨earlier, line, rfl, hline, hearlier⟩ := ih
      have hstart : lineStart (earlier ++ line ++ [t]) = lineStart (earlier ++ line) := by
        have hnone : [t].filter (·.kind == .newline) = [] := by simp [ht]
        rw [lineStart, List.filter_append, hnone, List.append_nil, lineStart]
      refine ⟨earlier, line ++ [t], List.append_assoc _ _ _, ?_, by rwa [hstart]⟩
      exact List.forall_mem_append.2 ⟨hline, List.forall_mem_singleton.2 ht⟩

namespace Lexer

variable {v : Version} {s s' : State} {ts : List Token}

/-- The state in which a line begins, with the steps to the place where a token is read in it. -/
theorem Steps.exists_lineStart {source : String} {before : List Token}
    (h : Steps v (.start source) before s) : ∃ earlier line l i, before = earlier ++ line
      ∧ (∀ t ∈ line, t.kind ≠ .newline)
      ∧ (∀ t ∈ earlier.getLast?, t.kind = .newline)
      ∧ Steps v ⟨l, true, i⟩ line s ∧ l.lineOpen = false ∧ l.depth = 0
      ∧ i.offset = lineStart before ∧ i.LeftOf source := by
  have houtside : (State.start source).LineOutside := fun _ => rfl
  have hleft : (State.start source).input.LeftOf source := .ofChars source
  obtain ⟨earlier, line, rfl, hline, ⟨rfl, hstart⟩ | ⟨lines, n, rfl, hn, hstart⟩⟩ :=
    exists_lastLine before
  · exact ⟨[], line, _, _, rfl, hline, nofun, h, rfl, rfl, hstart.symm, hleft⟩
  · rw [List.append_assoc, List.singleton_append] at h
    obtain ⟨l, i, first, cs, more, hbefore, hrest, hfront, hread, hsteps⟩ :=
      h.readsAt (by rw [hn]; rfl)
    rw [hn] at hfront hread hsteps
    have hnewline : Step v ⟨l, false, i⟩ [i.token .newline (more + 1)]
        ⟨l.after .newline, true, i.advance (more + 1)⟩ := .token hrest hfront
    refine ⟨lines ++ [n], line, l.after .newline, i.advance (more + 1), rfl, hline, ?_, hsteps, rfl,
      hnewline.lineOutside rfl, ?_, (hbefore.leftOf hleft).advance _⟩
    · simpa using hn
    · rw [hstart, hread]
      rfl

/-- Among the tokens that end a stream a newline comes first, and ends an open line. -/
theorem newline_of_finish {l : Layout} {size : Nat} {before after : List Token} {t : Token}
    (h : finish l size = before ++ t :: after) (ht : t.kind = .newline) :
    before = [] ∧ l.lineOpen = true ∧ t.span.start = size := by
  obtain ⟨rest, hrest, hnone⟩ : ∃ rest, finish l size
      = (if l.lineOpen then [⟨.newline, ⟨size, size⟩, ""⟩] else []) ++ rest
      ∧ ∀ u ∈ rest, u.kind ≠ .newline := by
    refine ⟨_, List.append_assoc _ _ _, List.forall_mem_append.2
      ⟨fun u hu => ?_, List.forall_mem_singleton.2 nofun⟩⟩
    obtain ⟨_, -, rfl⟩ := List.mem_map.1 hu
    nofun
  have hmem : ∀ more, rest = more ++ t :: after → False := by
    rintro more rfl
    exact hnone t (by simp) ht
  rw [hrest] at h
  split at h
  · rename_i hopen
    cases before with
    | nil =>
      obtain ⟨rfl, -⟩ := List.cons.inj h
      exact ⟨rfl, hopen, rfl⟩
    | cons u before => exact (hmem before (List.cons.inj h).2).elim
  · exact (hmem before h).elim

/-- Where a newline is read: in front of a line feed, or at the end of the text behind a line that
    is open. -/
theorem exists_newline {source : String} {before after : List Token} {t : Token}
    (h : tokenize v source = before ++ t :: after) (ht : t.kind = .newline) :
    ∃ l i, Steps v (.start source) before ⟨l, false, i⟩ ∧ i.offset = t.span.start
      ∧ (i.rest.head? = some '\n' ∨ i.rest = [] ∧ l.lineOpen = true) := by
  rcases readsAt_or_finish h (by rw [ht]; rfl) with
    ⟨more, s, l, i, first, cs, n, hbefore, hrest, hfront, hread, -⟩
    | ⟨body, more, ⟨l, fresh, i⟩, hsteps, hend, rfl, hfinish⟩
  · rw [ht] at hfront
    obtain ⟨rfl, -, -⟩ := front_eq_newline hfront
    exact ⟨l, i, hbefore, by rw [hread]; rfl, .inl (by rw [hrest]; rfl)⟩
  · obtain ⟨rfl, hnil⟩ : fresh = false ∧ i.rest = [] := hend
    obtain ⟨rfl, hopen, hstart⟩ := newline_of_finish hfinish ht
    rw [List.append_nil]
    refine ⟨l, i, hsteps, ?_, .inr ⟨hnil, hopen⟩⟩
    rw [hstart, Input.stop, hnil]
    rfl

/-- Where no word is next, some tokens end with a word unless they end with a newline. -/
theorem Steps.exists_word (h : Steps v s ts s') (hts : ∀ t ∈ ts, t.kind ≠ .newline)
    (hnot : ¬ s'.AtWord) (hne : ts ≠ []) :
    ∃ lines u, ts = lines ++ [u] ∧ u.kind.isLayout = false := by
  obtain ⟨lines, u, rfl⟩ := (List.eq_nil_or_concat ts).resolve_left hne
  rw [List.concat_eq_append] at h hts ⊢
  refine ⟨lines, u, rfl, ?_⟩
  by_cases hindent : u.kind.isIndentation = true
  · exact absurd (h.atWord_of_isIndentation List.getLast?_concat hindent) hnot
  · have hread : ReadsAt v s lines u [] s' := h.readsAt (Bool.eq_false_iff.2 hindent)
    rcases hread.isWord_or with hword | hnewline
    · exact (TokenKind.isWord_iff.1 hword).1
    · exact absurd hnewline (hts u (by simp))

section Line

variable {l l' : Layout} {i i' : Input} {line : List Token} {text : List Char}

/-- Up to a newline a line has no token just where it is held open. -/
theorem Steps.line_eq_nil_iff (h : Steps v ⟨l, true, i⟩ line ⟨l', false, i'⟩)
    (hline : ∀ t ∈ line, t.kind ≠ .newline) (hdepth : l.depth = 0) (hopen : l.lineOpen = false)
    (hnext : i'.rest.head? = some '\n' ∨ i'.rest = [] ∧ l'.lineOpen = true)
    (hrest : i.rest = text ++ i'.rest) (hsize : i'.offset = i.offset + Text.byteSize text) :
    line = [] ↔ HeldLine text := by
  constructor
  · rintro rfl
    rcases hnext with hfeed | ⟨-, hlined⟩
    · obtain ⟨text', hrest', -, hheld⟩ := h.heldLine hdepth rfl hfeed
      rwa [List.append_cancel_right (hrest.symm.trans hrest')]
    · have hlayout := h.layout_of_nil
      dsimp only at hlayout
      rw [hlayout, hopen] at hlined
      cases hlined
  · intro hheld
    have hend : ∀ c ∈ i'.rest.head?, c = '\n' := by
      intro c hc
      rcases hnext with hfeed | ⟨hnil, -⟩
      · exact Option.some.inj (hc.symm.trans hfeed)
      · rw [hnil] at hc
        cases hc
    have hpassed : Lexer.run v l true i = Lexer.run v l false i' := by
      rw [show i = ⟨i.offset, text ++ i'.rest⟩ by rw [← hrest], run_heldLine hheld hend, ← hsize]
    have hrun : Lexer.run v l false i' = line ++ Lexer.run v l' false i' := hpassed ▸ h.run
    rcases hnext with hfeed | ⟨hnil, hlined⟩
    · -- The line feed is the next token, so none of the line comes before it.
      obtain ⟨cs, hcs⟩ := List.head?_eq_some_iff.1 hfeed
      obtain ⟨w, hw, hfirst⟩ := run_newline v hdepth i'.offset cs
      rw [← hcs] at hfirst
      cases line with
      | nil => rfl
      | cons u line =>
        obtain ⟨rfl, -⟩ := List.cons.inj (hfirst.symm.trans hrun)
        exact absurd (congrArg Word.kind hw) (hline w List.mem_cons_self)
    · -- At the end of the text the line would not be open.
      rw [run_nil v l hnil, run_nil v l' hnil] at hrun
      have hlast : finish l' i'.offset = ⟨.newline, ⟨i'.offset, i'.offset⟩, ""⟩
          :: (finish { l' with lineOpen := false } i'.offset) := by
        rw [finish, if_pos hlined]
        rfl
      rw [hlast] at hrun
      rw [(newline_of_finish hrun rfl).2.1] at hopen
      cases hopen

end Line

end Lexer

open Lexer in
/-- A newline stands directly behind a word, but for that of a line that a backslash holds open and
    on which there is no word. -/
theorem newline_behind_word_iff {v : Version} {source : String} {before after : List Token}
    {t : Token} (h : tokenize v source = before ++ t :: after) (ht : t.kind = .newline) :
    (∃ lines u, before = lines ++ [u] ∧ u.kind.isLayout = false)
      ↔ ¬ HeldLine ((Span.mk (lineStart before) t.span.start).text source).toList := by
  obtain ⟨l', i', hbefore, hoffset, hnext⟩ := exists_newline h ht
  obtain ⟨earlier, line, l, i, rfl, hline, hearlier, hsteps, hopen, hdepth, hstart, hleft⟩ :=
    hbefore.exists_lineStart
  -- The text of the line is what is read from its beginning on.
  obtain ⟨text, hrest, hsize⟩ : ∃ text, i.rest = text ++ i'.rest
      ∧ i'.offset = i.offset + Text.byteSize text := by
    obtain ⟨n, hn⟩ := hsteps.advances
    obtain rfl : i' = i.advance n := hn
    exact ⟨i.rest.take n, (List.take_append_drop n i.rest).symm, rfl⟩
  have htext :
      ((Span.mk (lineStart (earlier ++ line)) t.span.start).text source).toList = text := by
    obtain ⟨front, hsource, hfront⟩ := hleft
    rw [Span.text_eq front text i'.rest (by rw [hsource, hrest, List.append_assoc])
      (hfront.trans hstart) (by rw [Text.byteSize_append, hfront, ← hsize, hoffset]),
      String.toList_ofList]
  rw [htext, ← hsteps.line_eq_nil_iff hline hdepth hopen hnext hrest hsize]
  constructor
  · rintro ⟨lines, u, heq, hu⟩ rfl
    rw [List.append_nil] at heq
    have hnewline := hearlier u (by rw [heq, List.getLast?_concat]; rfl)
    rw [hnewline] at hu
    cases hu
  · intro hne
    have hnot : ¬ State.AtWord ⟨l', false, i'⟩ := by
      rintro ⟨-, first, cs, hfirst, hstarts⟩
      dsimp only at hfirst
      rw [hfirst] at hnext
      rcases hnext with hfeed | ⟨hnil, -⟩
      · cases hfeed
        cases hstarts
      · cases hnil
    obtain ⟨lines, u, rfl, hu⟩ := hsteps.exists_word hline hnot hne
    exact ⟨earlier ++ lines, u, (List.append_assoc _ _ _).symm, hu⟩

/-- Behind a line with a word, a line that a backslash holds open. -/
theorem newline_behind_word_iff_of_held :
    let before : List Token := [⟨.identifier, ⟨0, 1⟩, "x"⟩, ⟨.newline, ⟨1, 2⟩, "\n"⟩]
    let t : Token := ⟨.newline, ⟨4, 5⟩, "\n"⟩
    tokenize .v37 "x\n\\\n\n" = before ++ t :: [Token.endOfInput 5] ∧ t.kind = .newline
      ∧ HeldLine ((Span.mk (lineStart before) t.span.start).text "x\n\\\n\n").toList := by
  intro before t
  have htokens : tokenize .v37 "x\n\\\n\n" = before ++ t :: [Token.endOfInput 5] := by
    decide +kernel
  refine ⟨htokens, rfl, Classical.not_not.1 fun hnot => ?_⟩
  obtain ⟨lines, u, heq, hu⟩ := (newline_behind_word_iff htokens rfl).2 hnot
  have hlast := congrArg List.getLast? heq
  rw [List.getLast?_concat] at hlast
  cases hlast
  cases hu

/-- A line that holds only a backslash, and a blank one: a newline with nothing before it. -/
theorem newline_behind_nothing : ¬ ∀ before t after,
    tokenize .v37 "\\\n\n" = before ++ t :: after → t.kind = .newline →
      ∃ lines u, before = lines ++ [u]
        ∧ u.kind ≠ .newline ∧ u.kind ≠ .indent ∧ u.kind ≠ .dedent := by
  intro hall
  obtain ⟨lines, u, heq, -⟩ := hall [] ⟨.newline, ⟨2, 3⟩, "\n"⟩ [Token.endOfInput 3]
    (by decide +kernel) rfl
  cases lines <;> cases heq

end PyAtlas
