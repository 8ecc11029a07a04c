import PyAtlas.Proofs.Token.Steps

/-!
# Where tokens stand

Tokens are ranges of the text that cut no character, and they follow each other: each of them ends
before the next one begins. Only the dedents of a line do not fit in, since they stand behind the
margin that is shown after them when it matches no block. What a word has as its text stands under
its span.

## Key definitions
- `Text.IsBoundary`, `Span.InText`: offsets and ranges of a text.
- `Arranged`: tokens that follow each other in a text.

## Key results
- `Span.text_prefix`: a range that begins like another and is longer has a longer text.
- `arranged_tokenize`: the tokens of a text are arranged in it.
-/

namespace PyAtlas

/-! ### Ranges of a text -/

/-- At the offset a character of the text begins, or the text ends. -/
def Text.IsBoundary (cs : List Char) (offset : Nat) : Prop :=
  ∃ front back, cs = front ++ back ∧ byteSize front = offset

/-- The span is a range of the text that cuts no character. -/
structure Span.InText (s : Span) (source : String) : Prop where
  ordered : s.start ≤ s.stop
  start : Text.IsBoundary source.toList s.start
  stop : Text.IsBoundary source.toList s.stop

namespace Text

theorem IsBoundary.le_byteSize {cs : List Char} {offset : Nat} (h : IsBoundary cs offset) :
    offset ≤ byteSize cs := by
  obtain ⟨front, back, rfl, rfl⟩ := h
  rw [byteSize_append]
  omega

/-- A text without bytes is empty. -/
theorem eq_nil_of_byteSize {cs : List Char} (h : byteSize cs = 0) : cs = [] := by
  have hlength := length_le_byteSize cs
  exact List.eq_nil_of_length_eq_zero (by omega)

/-- Of two beginnings of a text the shorter one begins the longer one. -/
theorem isPrefix_of_byteSize_le {as bs as' bs' : List Char} (heq : as ++ bs = as' ++ bs')
    (hle : byteSize as ≤ byteSize as') : as <+: as' := by
  rcases List.append_eq_append_iff.1 heq with ⟨more, rfl, -⟩ | ⟨more, rfl, -⟩
  · exact List.prefix_append as more
  · rw [byteSize_append] at hle
    obtain rfl : more = [] := eq_nil_of_byteSize (by omega)
    exact ⟨[], by rw [List.append_nil, List.append_nil]⟩

theorem slice?_append (front mid back : List Char) :
    slice? (front ++ mid ++ back) (byteSize front) (byteSize (front ++ mid)) = some mid := by
  rw [slice?, if_pos (by rw [byteSize_append]; omega), List.append_assoc,
    dropBytes_byteSize_append, Option.bind_some, byteSize_append, Nat.add_sub_cancel_left,
    takeBytes_byteSize_append]

end Text

namespace Span

open Text

variable {source : String} {a b : Span}

theorem InText.stop_le (h : a.InText source) : a.stop ≤ source.utf8ByteSize :=
  byteSize_toList source ▸ h.stop.le_byteSize

/-- A range of a text has a part of it before it, one under it, and one behind it. -/
theorem InText.exists_parts (h : a.InText source) : ∃ front mid back,
    source.toList = front ++ mid ++ back ∧ byteSize front = a.start
      ∧ byteSize (front ++ mid) = a.stop := by
  obtain ⟨front, behind, hfront, hstart⟩ := h.start
  obtain ⟨ahead, back, hahead, hstop⟩ := h.stop
  obtain ⟨mid, rfl⟩ := isPrefix_of_byteSize_le (hfront.symm.trans hahead)
    (by rw [hstart, hstop]; exact h.ordered)
  exact ⟨front, mid, back, hahead, hstart, hstop⟩

theorem text_eq (front mid back : List Char) (h : source.toList = front ++ mid ++ back)
    (hstart : byteSize front = a.start) (hstop : byteSize (front ++ mid) = a.stop) :
    a.text source = String.ofList mid := by
  rw [text, h, ← hstart, ← hstop, slice?_append]

/-- A range that begins where another does and ends behind it has a longer text. -/
theorem text_prefix (ha : a.InText source) (hb : b.InText source) (hstart : b.start = a.start)
    (hstop : a.stop ≤ b.stop) : (a.text source).toList <+: (b.text source).toList := by
  obtain ⟨front, mid, back, hsource, hfront, hmid⟩ := ha.exists_parts
  obtain ⟨front', mid', back', hsource', hfront', hmid'⟩ := hb.exists_parts
  obtain rfl : front = front' := by
    rw [List.append_assoc] at hsource hsource'
    obtain ⟨more, rfl⟩ := isPrefix_of_byteSize_le (hsource.symm.trans hsource')
      (Nat.le_of_eq (by rw [hfront, hfront', hstart]))
    rw [byteSize_append] at hfront'
    obtain rfl : more = [] := eq_nil_of_byteSize (by omega)
    rw [List.append_nil]
  rw [text_eq _ _ _ hsource hfront hmid, text_eq _ _ _ hsource' hfront' hmid', String.toList_ofList,
    String.toList_ofList]
  exact (List.prefix_append_right_inj front).1
    (isPrefix_of_byteSize_le (hsource.symm.trans hsource') (by rw [hmid, hmid']; exact hstop))

/-- Two ranges together. -/
theorem InText.merge (ha : a.InText source) (hb : b.InText source) :
    (a.merge b).InText source := by
  refine ⟨Nat.le_trans ha.ordered (Nat.le_max_right _ _), ha.start, ?_⟩
  rw [merge_stop]
  rcases Nat.le_total b.stop a.stop with hle | hle
  · rw [Nat.max_eq_right hle]
    exact ha.stop
  · rw [Nat.max_eq_left hle]
    exact hb.stop

theorem InText.empty {offset : Nat} (h : IsBoundary source.toList offset) :
    InText ⟨offset, offset⟩ source :=
  ⟨Nat.le_refl _, h, h⟩

end Span

/-! ### Arranged tokens -/

/-- The token is not empty, and its text stands under its span. -/
structure Token.IsWritten (t : Token) (source : String) : Prop where
  nonempty : t.span.start < t.span.stop
  text : t.span.text source = t.text

/-- The tokens stand in the text, one after the other, from an offset on. -/
structure Arranged (source : String) (lo : Nat) (ts : List Token) : Prop where
  inText : ∀ t ∈ ts, t.span.InText source
  written : ∀ t ∈ ts, t.kind.isWord = true → t.IsWritten source
  le_start : ∀ t ∈ ts, t.kind ≠ .dedent → lo ≤ t.span.start
  apart : ts.Pairwise fun t u => t.kind ≠ .dedent → u.kind ≠ .dedent → t.span.stop ≤ u.span.start

namespace Arranged

variable {source : String} {lo mid : Nat} {t : Token} {ts ts' : List Token}

theorem mono (h : Arranged source mid ts) (hle : lo ≤ mid) : Arranged source lo ts :=
  ⟨h.inText, h.written, fun t ht hk => Nat.le_trans hle (h.le_start t ht hk), h.apart⟩

theorem append (h : Arranged source lo ts) (h' : Arranged source mid ts') (hle : lo ≤ mid)
    (hstop : ∀ t ∈ ts, t.kind ≠ .dedent → t.span.stop ≤ mid) : Arranged source lo (ts ++ ts') where
  inText := List.forall_mem_append.2 ⟨h.inText, h'.inText⟩
  written := List.forall_mem_append.2 ⟨h.written, h'.written⟩
  le_start := List.forall_mem_append.2 ⟨h.le_start, (h'.mono hle).le_start⟩
  apart := List.pairwise_append.2 ⟨h.apart, h'.apart, fun t ht u hu hk hk' =>
    Nat.le_trans (hstop t ht hk) (h'.le_start u hu hk')⟩

theorem singleton (hin : t.span.InText source) (hword : t.kind.isWord = true → t.IsWritten source) :
    Arranged source t.span.start [t] where
  inText := List.forall_mem_singleton.2 hin
  written := List.forall_mem_singleton.2 hword
  le_start := List.forall_mem_singleton.2 fun _ => Nat.le_refl _
  apart := List.pairwise_singleton _ _

/-- Dedents may stand anywhere. -/
theorem dedents (hkind : ∀ t ∈ ts, t.kind = .dedent) (hin : ∀ t ∈ ts, t.span.InText source) :
    Arranged source lo ts where
  inText := hin
  written t ht hword := by
    rw [hkind t ht] at hword
    cases hword
  le_start t ht hk := absurd (hkind t ht) hk
  apart := List.pairwise_of_forall_mem_list fun t ht _ _ hk => absurd (hkind t ht) hk

end Arranged

namespace Lexer

/-! ### The lexer -/

/-- The input is what is left of the text. -/
def Input.LeftOf (i : Input) (source : String) : Prop :=
  ∃ front, source.toList = front ++ i.rest ∧ Text.byteSize front = i.offset

namespace Input.LeftOf

variable {source : String} {i : Input}

theorem ofChars (source : String) : LeftOf (.ofChars source.toList) source := ⟨[], rfl, rfl⟩

theorem advance (h : i.LeftOf source) (n : Nat) : (i.advance n).LeftOf source := by
  obtain ⟨front, hsource, hsize⟩ := h
  refine ⟨front ++ i.rest.take n, ?_, ?_⟩
  · rw [hsource, List.append_assoc]
    exact congrArg (front ++ ·) (List.take_append_drop n i.rest).symm
  · rw [Text.byteSize_append, hsize]
    rfl

theorem boundary (h : i.LeftOf source) : Text.IsBoundary source.toList i.offset := by
  obtain ⟨front, hsource, hsize⟩ := h
  exact ⟨front, i.rest, hsource, hsize⟩

theorem offset_le_advance (i : Input) (n : Nat) : i.offset ≤ (i.advance n).offset :=
  Nat.le_add_right _ _

/-- What is read next is a range of the text. -/
theorem inText (h : i.LeftOf source) (n : Nat) :
    Span.InText ⟨i.offset, (i.advance n).offset⟩ source :=
  ⟨offset_le_advance i n, h.boundary, (h.advance n).boundary⟩

/-- The text of what is read next stands there. -/
theorem isWritten (h : i.LeftOf source) (kind : TokenKind) {n : Nat} (hne : i.rest.take n ≠ []) :
    (i.token kind n).IsWritten source := by
  obtain ⟨front, hsource, hsize⟩ := h
  have hlength := Text.length_le_byteSize (i.rest.take n)
  have hpos := List.length_pos_iff.2 hne
  refine ⟨?_, ?_⟩
  · show i.offset < i.offset + Text.byteSize (i.rest.take n)
    omega
  · refine Span.text_eq front _ (i.rest.drop n) ?_ hsize ?_
    · rw [hsource, List.append_assoc, List.take_append_drop]
    · rw [Text.byteSize_append, hsize]
      rfl

end Input.LeftOf

theorem Steps.leftOf {v : Version} {source : String} {s s' : State} {ts : List Token}
    (h : Steps v s ts s') (hs : s.input.LeftOf source) :
    s'.input.LeftOf source := by
  induction h with
  | refl s => exact hs
  | step hstep _ ih =>
    obtain ⟨n, hn⟩ := hstep.advances
    exact ih (hn ▸ hs.advance n)

/-- What shows the indentation of a line: dedents behind the margin, then the margin itself, or
    nothing more. -/
theorem openLine_parts (l : Layout) (i : Input) : ∃ dedents margin,
    (openLine l i).1 = dedents ++ margin
      ∧ (∀ t ∈ dedents, t.kind = .dedent ∧ t.span = ⟨(openLine l i).2.2.offset,
          (openLine l i).2.2.offset⟩)
      ∧ (margin = [] ∨ ∃ t, margin = [t] ∧ t.kind.isWord = false
          ∧ t.span = ⟨i.offset, (openLine l i).2.2.offset⟩) := by
  rw [openLine_input]
  simp only [openLine]
  have hdedents : ∀ columns : List Nat, ∀ t ∈ columns.map fun _ =>
      (i.skipWhile isMargin).token .dedent 0, t.kind = .dedent
        ∧ t.span = ⟨(i.skipWhile isMargin).offset, (i.skipWhile isMargin).offset⟩ := by
    intro columns t ht
    obtain ⟨_, -, rfl⟩ := List.mem_map.1 ht
    exact ⟨rfl, rfl⟩
  split
  · exact ⟨[], [], rfl, List.forall_mem_nil _, .inl rfl⟩
  · split
    · exact ⟨[], [], rfl, List.forall_mem_nil _, .inl rfl⟩
    · split
      · exact ⟨[], _, rfl, List.forall_mem_nil _, .inr ⟨_, rfl, rfl, rfl⟩⟩
      · split
        · exact ⟨_, [], (List.append_nil _).symm, hdedents _, .inl rfl⟩
        · exact ⟨_, _, rfl, hdedents _, .inr ⟨_, rfl, rfl, rfl⟩⟩

variable {source : String} {i : Input}

theorem arranged_openLine (h : i.LeftOf source) (l : Layout) {ts : List Token}
    (hts : Arranged source (openLine l i).2.2.offset ts) :
    Arranged source i.offset ((openLine l i).1 ++ ts) := by
  obtain ⟨dedents, margin, heq, hdedents, hmargin⟩ := openLine_parts l i
  have hle : i.offset ≤ (openLine l i).2.2.offset := by
    rw [openLine_input]
    exact Input.LeftOf.offset_le_advance i _
  have hbehind : (openLine l i).2.2.LeftOf source := by
    rw [openLine_input]
    exact h.advance _
  rw [heq, List.append_assoc]
  refine .append (.dedents (fun t ht => (hdedents t ht).1) fun t ht => ?_) ?_
    (Nat.le_refl i.offset) fun t ht hk => absurd (hdedents t ht).1 hk
  · rw [(hdedents t ht).2]
    exact .empty hbehind.boundary
  -- The margin itself, if it is a token, stands before the line, and the dedents behind it.
  · rcases hmargin with rfl | ⟨t, rfl, hword, hspan⟩
    · exact hts.mono hle
    · refine .append ?_ hts hle ?_
      · have hsingle : Arranged source t.span.start [t] := by
          refine .singleton ?_ fun hk => ?_
          · rw [hspan]
            exact ⟨hle, h.boundary, hbehind.boundary⟩
          · rw [hword] at hk
            cases hk
        rwa [hspan] at hsingle
      · exact List.forall_mem_singleton.2 fun _ => Nat.le_of_eq (by rw [hspan])

theorem arranged_finish {size : Nat} (h : Text.IsBoundary source.toList size) (l : Layout) :
    Arranged source size (finish l size) where
  inText t ht := by
    rw [(mem_finish ht).1]
    exact .empty h
  written t ht hword := by
    rw [TokenKind.isWord, (mem_finish ht).2.1] at hword
    cases hword
  le_start t ht _ := Nat.le_of_eq (by rw [(mem_finish ht).1])
  apart := List.pairwise_of_forall_mem_list fun t ht u hu _ _ =>
    Nat.le_of_eq (by rw [(mem_finish ht).1, (mem_finish hu).1])

/-- The tokens of the unread text are arranged behind what has been read. -/
theorem arranged_run (v : Version) (l : Layout) (fresh : Bool) (h : i.LeftOf source) :
    Arranged source i.offset (run v l fresh i) := by
  fun_induction run v l fresh i with
  | case1 l i opened ih =>
    obtain ⟨n, hn⟩ := skipBlankLines_eq_advance i
    have hline : (skipBlankLines i).LeftOf source := hn ▸ h.advance n
    have hbehind : opened.2.2.LeftOf source := by
      show (openLine l (skipBlankLines i)).2.2.LeftOf source
      rw [openLine_input]
      exact hline.advance _
    refine (arranged_openLine hline l (ih hbehind)).mono ?_
    rw [hn]
    exact Input.LeftOf.offset_le_advance i n
  | case2 l fresh i hfresh hrest => exact arranged_finish h.boundary l
  | case3 l fresh i hfresh first cs hrest more hfront ih =>
    exact (ih (h.advance _)).mono (Input.LeftOf.offset_le_advance i _)
  | case4 l fresh i hfresh first cs hrest kind more hfront ih =>
    have hfirst : Arranged source i.offset [i.token kind (more + 1)] :=
      .singleton (h.inText _) fun _ => h.isWritten kind (by simp [hrest])
    exact hfirst.append (ih (h.advance _)) (Input.LeftOf.offset_le_advance i _)
      (List.forall_mem_singleton.2 fun _ => Nat.le_refl _)

/-! ### Operators -/

/-- The front is no operator. -/
def Front.NoOperator : Front → Prop
  | .token (.operator _) _ => False
  | _ => True

private theorem stringFront_noOperator (marks : StringMarks) (quote : Char) (n : Nat)
    (cs : List Char) : (stringFront marks quote n cs).NoOperator := by
  simp only [stringFront]
  split <;> trivial

private theorem numberFront_noOperator (v : Version) (first : Char) (cs : List Char) :
    (numberFront v first cs).NoOperator := by
  obtain ⟨kind, more, hfront⟩ := exists_numberFront v first cs
  rw [hfront]
  trivial

private theorem wordFront_noOperator (v : Version) (first : Char) (cs : List Char) :
    (wordFront v first cs).NoOperator := by
  rcases wordFront_cases v first cs with ⟨letters, quote, marks, after, rfl, hletters, hmarks⟩
    | ⟨letters, rest, rfl, hletters, hends, hnone⟩
  · rw [wordFront_literal hletters hmarks]
    exact stringFront_noOperator _ _ _ _
  · rw [wordFront_name hletters hends hnone]
    rcases wordKind_cases v (String.ofList (first :: letters)) with hkind | ⟨_, hkind⟩ <;>
      rw [hkind] <;> trivial

/-- Operators are read where the text begins with their spelling. -/
theorem front_noOperator_or (v : Version) (depth : Nat) (first : Char) (cs : List Char) :
    (front v depth first cs).NoOperator ∨ front v depth first cs = operatorFront v first cs := by
  refine front_elim (motive := fun f => (f v).NoOperator ∨ f v = operatorFront v first cs)
    ?margin ?newline ?lineFeed ?comment ?continuation ?number ?string ?word ?operator
  case margin | newline | lineFeed | comment | continuation =>
    intros
    exact .inl trivial
  case number => exact .inl (numberFront_noOperator v first cs)
  case string => exact fun _ => .inl (stringFront_noOperator _ _ _ _)
  case word => exact fun _ => .inl (wordFront_noOperator v first cs)
  case operator => exact .inr rfl

/-- The text of an operator is one of its spellings. -/
theorem take_of_front_operator {v : Version} {depth more : Nat} {first : Char} {cs : List Char}
    {op : Operator} (h : front v depth first cs = .token (.operator op) more) :
    ((first :: cs).take (more + 1), .operator op) ∈ operators := by
  rcases front_noOperator_or v depth first cs with hno | hoperator
  · rw [h] at hno
    cases hno
  · rw [hoperator] at h
    simp only [operatorFront] at h
    split at h
    · rename_i spelling kind hfound
      obtain ⟨rfl, rfl⟩ := Front.token.inj h
      have hmem := List.mem_of_find?_eq_some hfound
      obtain ⟨c, rest, (rfl : spelling = c :: rest), -⟩ := operators_start _ hmem
      have hfits := List.find?_some hfound
      obtain ⟨hbegins, -⟩ := Bool.and_eq_true_iff.1 hfits
      have htake := List.prefix_iff_eq_take.1 (List.isPrefixOf_iff_prefix.1 hbegins)
      rw [List.length_cons, Nat.add_sub_cancel]
      rw [List.length_cons] at htake
      rw [← htake]
      exact hmem
    · cases h

end Lexer

/-- The tokens of a text are arranged in it. -/
theorem arranged_tokenize (v : Version) (source : String) :
    Arranged source 0 (tokenize v source) :=
  Lexer.arranged_run v .initial true (.ofChars source)

open Lexer in
/-- A star is all of the text of its token. -/
theorem text_of_star {v : Version} {source : String} {t : Token} (h : t ∈ tokenize v source)
    (hkind : t.kind = .operator .star) : t.text = "*" := by
  obtain ⟨-, first, cs, depth, more, -, -, hfront, htext⟩ :=
    exists_front_of_mem_tokenize h (by rw [hkind]; rfl)
  rw [hkind] at hfront
  have hspelled : ∀ entry ∈ operators, entry.2 = .operator .star → entry.1 = ['*'] := by decide
  rw [← String.toList_inj, htext]
  exact hspelled _ (take_of_front_operator hfront) rfl

end PyAtlas
