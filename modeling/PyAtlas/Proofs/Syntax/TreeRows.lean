import PyAtlas.Proofs.Syntax.Placing

/-!
# Where the trees of a parser stand

A production reads one part of its tree after the other, and what has been read of it so far is a
row of trees. `Turns w K start B p T` says that `p` makes of the trees `B` those of its result: if
`B` is a row up to the last token read, so is `T a` behind it, wherever the row may begin. Where
there is a `start`, that is the span with which the row begins, and it has been read already. A node
whose span begins there has the whole row under it. What is known of the next token is `K`.

## Key definitions
- `Since`: some trees in a row up to the last token read.
- `Turns`, `Yields`: what a production makes of the trees that have been read.
- `Consumes`: a production reads the next token if it reports nothing.

## Key results
- `Turns.bind`, `Turns.loop`: how productions are put together.
- `Turns.after`: what a production yields stands behind what has been read before.
- `Turns.advance_opens`, `Turns.opens_bind`: a token that has been read or looked at begins a row.
- `Turns.spanFrom_done`, `Turns.merge_done`: a row is put under one node.
-/

namespace PyAtlas

/-! ### Rows of trees that grow -/

/-- The trees stand in a row from the offset `lo` up to the last token read. Where there is a
    `start`, it has been read, and without errors the row begins with it. -/
structure Since (w : Survey) (lo : Nat) (start : Option Span) (ts : List SpanTree)
    (c : Cursor) : Prop where
  past : c.IsPast lo
  row : Row w lo c.reached ts
  start : ∀ s ∈ start, s.InText w.source ∧ (w.quiet → lo = s.start ∧ s.stop ≤ c.reached)

/-- Where `K` is known of the cursor, the parser makes of the trees `B` that have been read those of
    its result. -/
def Turns (w : Survey) (K : Cursor → Prop) (start : Option Span) (B : List SpanTree) {α : Type}
    (p : Parser α) (T : α → List SpanTree) : Prop :=
  ∀ lo, Places w (fun c => K c ∧ Since w lo start B c) p fun a => Since w lo start (T a)

/-- The parser reads the trees of its result. -/
abbrev Yields (w : Survey) {α : Type} (p : Parser α) (T : α → List SpanTree) : Prop :=
  Turns w (fun _ => True) none [] p T

/-- The trees of a loop: those of what it goes round with, and those of its result. -/
def Parser.LoopStep.trees {α β : Type} (S : α → List SpanTree) (T : β → List SpanTree) :
    LoopStep α β → List SpanTree
  | .again a => S a
  | .finished b => T b

namespace Token.Sound

variable {w : Survey} {t : Token}

/-- The token as a span with nothing in it. -/
theorem node (h : t.Sound w.source) : Row w t.span.start t.span.stop [.node t.span []] :=
  .node h.inText (Nat.le_refl _) (Nat.le_refl _)

theorem mention {ident : Identifier} (h : t.Sound w.source)
    (hident : Parser.identifier? t = some ident) :
    Row w t.span.start t.span.stop [ident.spanTree] := by
  have hspan : ident.span = t.span := by
    rw [Parser.identifier?] at hident
    split at hident <;> cases hident <;> rfl
  rw [← hspan]
  exact .mention (h.name ident hident) (Nat.le_refl _) (Nat.le_refl _)

theorem starMention (h : t.Sound w.source) (hstar : t.kind = .operator .star) :
    Row w t.span.start t.span.stop [.mention (.name ⟨"*", t.span⟩)] :=
  .mention (h.star hstar) (Nat.le_refl _) (Nat.le_refl _)

end Token.Sound

namespace Since

variable {w : Survey} {lo : Nat} {start : Option Span} {B B' : List SpanTree} {c : Cursor}

theorem of_row (h : Since w lo start B c) (hrow : Row w lo c.reached B') : Since w lo start B' c :=
  ⟨h.past, hrow, h.start⟩

/-- What is read does not disturb what has been read. -/
theorem advanceBy (h : Since w lo start B c) (hin : c.InText w.source) (n : Nat) :
    Since w lo start B (c.advanceBy n) where
  past := h.past.advanceBy n
  row := h.row.mono (Nat.le_refl _) (hin.reached_le n)
  start s hs := ⟨(h.start s hs).1, fun hq =>
    ⟨((h.start s hs).2 hq).1, Nat.le_trans ((h.start s hs).2 hq).2 (hin.reached_le n)⟩⟩

theorem advance (h : Since w lo start B c) (hin : c.InText w.source) :
    Since w lo start B c.advance :=
  h.advanceBy hin 1

/-- A token is read as one more tree. -/
theorem advance_adding (h : Since w lo start B c) (hin : c.InText w.source)
    (hplain : c.peek.kind.isLayout = false)
    (hrow : Row w c.peek.span.start c.peek.span.stop B') :
    Since w lo start (B ++ B') c.advance := by
  refine (h.advance hin).of_row ?_
  have hreached := Cursor.reached_advance hplain
  rw [hreached]
  exact h.row.append hrow (hin.isPast_reached.le_peek hplain) (h.past.le_peek hplain)
    (hreached ▸ hin.reached_le_advance)

/-- A token that is read begins a row. -/
theorem opening (hin : c.InText w.source) (hplain : c.peek.kind.isLayout = false) :
    Since w c.peek.span.start (some c.peek.span) [] c.advance where
  past := (hin.isPast_peek hplain).advanceBy 1
  row := .nil
  start s hs := by
    obtain rfl := Option.some.inj hs
    exact ⟨hin.peek.inText, fun _ => ⟨rfl, Nat.le_of_eq (Cursor.reached_advance hplain).symm⟩⟩

/-- The row is put under a node that begins with it. -/
theorem close {s : Span} (h : Since w lo (some s) B c) (others : List Span) (hsub : B'.Sublist B)
    (hin : ∀ other ∈ others, other.InText w.source)
    (hothers : w.quiet → ∀ other ∈ others, other.stop ≤ c.reached)
    (hstop : w.quiet → ∀ t ∈ B', t.span.stop ≤ (s.mergeAll others).stop) :
    Since w lo (some s) [.node (s.mergeAll others) B'] c := by
  obtain ⟨hs, hbegun⟩ := h.start s rfl
  refine h.of_row (h.row.wrap hsub (hs.mergeAll hin) fun hq => ⟨?_, ?_, hstop hq⟩)
  · rw [Span.mergeAll_start, (hbegun hq).1]
  · exact Span.mergeAll_stop_le (hbegun hq).2 (hothers hq)

end Since

/-- A row that begins at the offset `lo'` or with `start'`, behind the trees `B`, which are a row
    themselves. -/
structure RowBehind (w : Survey) (lo : Nat) (start : Option Span) (B : List SpanTree) (lo' : Nat)
    (start' : Option Span) (ts : List SpanTree) (c : Cursor) : Prop where
  outer : ∃ mid, Row w lo mid B ∧ mid ≤ lo' ∧ mid ≤ c.reached
  le : lo ≤ lo'
  start : ∀ s ∈ start, s.InText w.source ∧ (w.quiet → lo = s.start ∧ s.stop ≤ c.reached)
  inner : Since w lo' start' ts c

namespace RowBehind

variable {w : Survey} {lo lo' : Nat} {start start' : Option Span} {B ts : List SpanTree}
  {c : Cursor}

/-- A row begins where the next token stands, or behind what has been read. -/
theorem next (h : Since w lo start B c) (hin : c.InText w.source) :
    ∃ lo', RowBehind w lo start B lo' none [] c
      ∧ (c.peek.kind.isLayout = false → lo' = c.peek.span.start) := by
  by_cases hplain : c.peek.kind.isLayout = false
  · refine ⟨c.peek.span.start, ⟨⟨c.reached, h.row, ?_, Nat.le_refl _⟩, ?_, h.start, ?_⟩,
      fun _ => rfl⟩
    · exact hin.isPast_reached.le_peek hplain
    · exact h.past.le_peek hplain
    · exact ⟨hin.isPast_peek hplain, .nil, nofun⟩
  -- Layout may come first, and where it ends is not known yet.
  · refine ⟨max lo c.reached, ⟨⟨c.reached, h.row, Nat.le_max_right _ _, Nat.le_refl _⟩,
      Nat.le_max_left _ _, h.start, ?_⟩, fun hplain' => absurd hplain' hplain⟩
    exact ⟨h.past.max hin.isPast_reached, .nil, nofun⟩

/-- A token that is read begins a row. -/
theorem advance (h : Since w lo start B c) (hin : c.InText w.source)
    (hplain : c.peek.kind.isLayout = false) :
    RowBehind w lo start B c.peek.span.start (some c.peek.span) [] c.advance where
  outer := ⟨c.reached, h.row, hin.isPast_reached.le_peek hplain, hin.reached_le_advance⟩
  le := h.past.le_peek hplain
  start := (h.advance hin).start
  inner := .opening hin hplain

/-- The row turns out to begin with a span that has been read. -/
theorem begun {s : Span} (h : RowBehind w lo start B lo' none ts c) (hs : s.InText w.source)
    (hbegun : w.quiet → lo' = s.start ∧ s.stop ≤ c.reached) :
    RowBehind w lo start B lo' (some s) ts c where
  outer := h.outer
  le := h.le
  start := h.start
  inner := ⟨h.inner.past, h.inner.row, fun t ht => by
    obtain rfl := Option.some.inj ht
    exact ⟨hs, hbegun⟩⟩

/-- Both rows together. -/
theorem join (h : RowBehind w lo start B lo' start' ts c) : Since w lo start (B ++ ts) c := by
  obtain ⟨mid, hrow, hle, hread⟩ := h.outer
  exact ⟨h.inner.past.mono h.le, hrow.append h.inner.row hle h.le hread, h.start⟩

end RowBehind

/-- Where `K` is known of the cursor, the parser reads the next token, which is none of the layout,
    or reports something. -/
def Consumes (w : Survey) (K : Cursor → Prop) {α : Type} (p : Parser α) : Prop :=
  ∀ s, s.cursor.InText w.source → K s.cursor → w.quiet → (p s).2.errors = s.errors →
    s.cursor.peek.kind.isLayout = false ∧ s.cursor.peek.span.stop ≤ (p s).2.cursor.reached

namespace Turns

open PyAtlas.Parser

variable {w : Survey} {K K' : Cursor → Prop} {start start' : Option Span}
  {B B' : List SpanTree} {α β : Type} {S : α → List SpanTree} {T : β → List SpanTree}
  {p : Parser α} {f : α → Parser β}

/-! ### Putting productions together -/

theorem onward (h : Turns w K start B p S) : GoesOn w p := (h 0).onward

/-- The trees that have been read are those of the result, or can be put together so. -/
theorem pure_of {b : β}
    (h : ∀ c lo, K c → Since w lo start B c → Row w lo c.reached (T b)) :
    Turns w K start B (Pure.pure b) T :=
  fun lo => .pure fun c _ ⟨hk, hsince⟩ => hsince.of_row (h c lo hk hsince)

/-- Some of the trees that have been read are those of the result. -/
theorem pure {b : β} (h : (T b).Sublist B) : Turns w K start B (Pure.pure b) T :=
  pure_of fun _ _ _ hsince => hsince.row.sublist h

theorem done {b : β} (h : T b = B) : Turns w K start B (Pure.pure b) T :=
  pure (h ▸ .refl _)

theorem bind (h : Turns w K start B p S)
    (hf : ∀ a, Turns w (fun _ => True) start (S a) (f a) T) : Turns w K start B (p >>= f) T :=
  fun lo => (h lo).bind fun a => (hf a lo).pre fun _ _ hsince => ⟨trivial, hsince⟩

theorem of (h : Turns w K' start B p S) (hK : ∀ c, K c → K' c) : Turns w K start B p S :=
  fun lo => (h lo).pre fun c _ ⟨hk, hsince⟩ => ⟨hK c hk, hsince⟩

theorem anywhere (h : Turns w (fun _ => True) start B p S) : Turns w K start B p S :=
  h.of fun _ _ => trivial

theorem map {g : α → β} (h : Turns w K start B p fun a => T (g a)) :
    Turns w K start B (g <$> p) T :=
  fun lo => .map (L := fun b => Since w lo start (T b)) (h lo)

/-- Some of the trees of the result may be left out. -/
theorem keep {S' : α → List SpanTree} (h : Turns w K start B p S)
    (hsub : ∀ a, (S' a).Sublist (S a)) : Turns w K start B p S' :=
  fun lo => (h lo).post fun a _ _ hsince => hsince.of_row (hsince.row.sublist (hsub a))

theorem ite {c : Prop} [Decidable c] {p q : Parser α} (h : c → Turns w K start B p S)
    (h' : ¬ c → Turns w K start B q S) : Turns w K start B (if c then p else q) S := by
  split
  · exact h ‹_›
  · exact h' ‹_›

theorem look_bind {g : Cursor → α}
    (h : ∀ a, Turns w (fun c => K c ∧ g c = a) start B (f a) T) :
    Turns w K start B (look g >>= f) T :=
  fun lo => .look_bind fun a =>
    (h a lo).pre fun _ _ ⟨⟨hk, hsince⟩, ha⟩ => ⟨⟨hk, ha⟩, hsince⟩

/-- What is seen often does not matter. -/
theorem look_bind_any {g : Cursor → α} (h : ∀ a, Turns w K start B (f a) T) :
    Turns w K start B (look g >>= f) T :=
  look_bind fun a => (h a).of fun _ hk => hk.1

/-- What follows a row that has been read. -/
theorem behind (h : Turns w K start' B' p S) (lo lo' : Nat) : Places w
    (fun c => K c ∧ RowBehind w lo start B lo' start' B' c) p
    fun a c => RowBehind w lo start B lo' start' (S a) c where
  onward := h.onward
  places s hs hk hquiet := by
    obtain ⟨hk, ⟨mid, hrow, hle, hread⟩, hlo, hstart, hinner⟩ := hk
    obtain ⟨n, hon⟩ := h.onward s hs.cursor
    obtain ⟨herrors, hafter⟩ := (h lo').places s hs ⟨hk, hinner⟩ hquiet
    have hreached := hon.reached_le hs.cursor
    refine ⟨herrors, ⟨mid, hrow, hle, Nat.le_trans hread hreached⟩, hlo, fun u hu => ?_, hafter⟩
    obtain ⟨hin, hbegun⟩ := hstart u hu
    exact ⟨hin, fun hq => ⟨(hbegun hq).1, Nat.le_trans (hbegun hq).2 hreached⟩⟩

/-- Both rows make one in the end. -/
theorem joins (h : Turns w (fun _ => True) start' B' p S) (lo : Nat) : Places w
    (fun c => ∃ lo', RowBehind w lo start B lo' start' B' c) p
    fun a c => Since w lo start (B ++ S a) c :=
  .exists_pre fun lo' =>
    (h.behind lo lo').weaken (fun _ _ hbehind => ⟨trivial, hbehind⟩)
      fun _ _ _ hbehind => hbehind.join

/-- What a production yields stands behind what has been read before. -/
theorem after (h : Yields w p S) : Turns w K start B p fun a => B ++ S a :=
  fun lo => (h.joins lo).pre fun _ hin ⟨_, hsince⟩ =>
    have ⟨lo', hbehind, _⟩ := RowBehind.next hsince hin
    ⟨lo', hbehind⟩

/-- What a production yields is left out. -/
theorem passes (h : Turns w K start B p fun a => B ++ S a) : Turns w K start B p fun _ => B :=
  h.keep fun _ => List.sublist_append_left _ _

theorem discard (h : Turns w K start B p fun _ => B) :
    Turns w K start B (Functor.discard p) fun _ => B :=
  .map (T := fun _ => B) h

/-- Where a row begins matters only to what is read with it. -/
theorem rebase (h : Turns w K start' B' p S) (hpre : ∀ c lo, c.InText w.source →
    Since w lo none B c → ∃ lo', lo ≤ lo' ∧ Since w lo' start' B' c) : Turns w K none B p S :=
  fun lo => {
    onward := h.onward
    places := fun s hs ⟨hk, hsince⟩ hquiet => by
      obtain ⟨lo', hle, hsince'⟩ := hpre s.cursor lo hs.cursor hsince
      obtain ⟨herrors, hafter⟩ := (h lo').places s hs ⟨hk, hsince'⟩ hquiet
      exact ⟨herrors, hafter.past.mono hle, hafter.row.mono hle (Nat.le_refl _), nofun⟩ }

/-- A row of one tree begins with it. -/
theorem first_begins {x : SpanTree} {s : Span} (hspan : x.span = s)
    (h : Turns w K (some s) [x] p S) : Turns w K none [x] p S := by
  subst hspan
  refine h.rebase fun c lo hin hsince => ?_
  have hx : x.span.InText w.source :=
    hsince.row.inText x (List.mem_singleton_self x) _ x.span_mem_spans
  -- With errors the tree may stand anywhere, and then the row may begin where it did.
  by_cases hq : w.quiet
  · obtain ⟨hlo, hhi⟩ := (hsince.row.trees hq).bounds _ (List.mem_singleton_self _)
    refine ⟨x.span.start, hlo, ?_, hsince.row.from_start hq, fun t ht => ?_⟩
    · exact hin.isPast_reached.mono (Nat.le_trans hx.ordered hhi)
    · obtain rfl := Option.some.inj ht
      exact ⟨hx, fun _ => ⟨rfl, hhi⟩⟩
  · refine ⟨lo, Nat.le_refl _, hsince.past, hsince.row, fun t ht => ?_⟩
    obtain rfl := Option.some.inj ht
    exact ⟨hx, fun hq' => absurd hq' hq⟩

/-- The trees that have been read can be put together before anything else is read. -/
theorem recount (h : Turns w K start B' p S)
    (hrow : ∀ lo hi, Row w lo hi B → Row w lo hi B') : Turns w K start B p S :=
  fun lo => (h lo).pre fun _ _ ⟨hk, hsince⟩ => ⟨hk, hsince.of_row (hrow _ _ hsince.row)⟩

/-- The trees that have been read are left out of the result. -/
theorem forget (h : Turns w K start [] p S) : Turns w K start B p S :=
  h.recount fun _ _ _ => .nil

/-- A span that has been read is the first of its row. -/
theorem start_counts {s : Span} (h : Turns w K (some s) [.node s []] p S) :
    Turns w K (some s) [] p S :=
  fun lo => (h lo).pre fun _ _ ⟨hk, hsince⟩ =>
    ⟨hk, hsince.close [] (.refl _) nofun (fun _ => nofun) fun _ => nofun⟩

/-- A parser that does in every state what some production does. -/
theorem of_pointwise (h : ∀ s, ∃ q, Turns w K start B q S ∧ p s = q s) :
    Turns w K start B p S := fun lo => {
  onward := fun s hs => by
    obtain ⟨q, hq, heq⟩ := h s
    rw [heq]
    exact hq.onward s hs
  places := fun s hs hi hquiet => by
    obtain ⟨q, hq, heq⟩ := h s
    rw [heq] at hquiet ⊢
    exact (hq lo).places s hs hi hquiet }

/-! ### Reading and reporting -/

theorem move {g : Cursor → Cursor} (hg : ∀ c, ∃ n, g c = c.advanceBy n) :
    Turns w K start B (Parser.move g) fun _ => B :=
  fun _ => .move hg fun c hin ⟨_, hsince⟩ => by
    obtain ⟨n, hn⟩ := hg c
    rw [hn]
    exact hsince.advanceBy hin n

theorem advance : Turns w K start B Parser.advance fun _ => B :=
  move fun _ => ⟨1, rfl⟩

theorem skipNewlines : Turns w K start B Parser.skipNewlines fun _ => B :=
  move fun _ => ⟨_, rfl⟩

theorem skipLine : Turns w K start B Parser.skipLine fun _ => B :=
  move fun _ => ⟨_, rfl⟩

theorem skipToClosing : Turns w K start B Parser.skipToClosing fun _ => B :=
  move fun _ => ⟨_, rfl⟩

/-- What is known of the token behind the next one. -/
theorem advance_to {f : Unit → Parser β} (K' : Cursor → Prop) (hK : ∀ c, K c → K' c.advance)
    (h : Turns w K' start B (f ()) T) : Turns w K start B (Parser.advance >>= f) T :=
  fun lo => Places.bind (J := fun _ c => K' c ∧ Since w lo start B c)
    (.move (fun _ => ⟨1, rfl⟩) fun c hin ⟨hk, hsince⟩ => ⟨hK c hk, hsince.advance hin⟩)
    fun _ => h lo

theorem peek_bind {f : Token → Parser β}
    (h : ∀ token, token.Sound w.source →
      Turns w (fun c => K c ∧ c.peek = token) start B (f token) T) :
    Turns w K start B (peek >>= f) T :=
  fun lo => {
    onward := fun s hs => (h _ hs.peek).onward s hs
    places := fun s hs ⟨hk, hsince⟩ =>
      (h _ hs.cursor.peek lo).places s hs ⟨⟨hk, rfl⟩, hsince⟩ }

/-- The token behind the next one has been looked at. -/
theorem peekNth_bind {f : Token → Parser β}
    (h : ∀ token, token.Sound w.source →
      Turns w (fun c => K c ∧ c.peekNth 1 = token) start B (f token) T) :
    Turns w K start B (look (Cursor.peekNth · 1) >>= f) T :=
  fun lo => {
    onward := fun s hs => (h _ hs.peekNth_one).onward s hs
    places := fun s hs ⟨hk, hsince⟩ =>
      (h _ hs.cursor.peekNth_one lo).places s hs ⟨⟨hk, rfl⟩, hsince⟩ }

/-- A token that has been looked at is read as some more trees. -/
theorem advance_adds {token : Token} {ts : List SpanTree}
    (hK : ∀ c, K c → c.peek = token ∧ c.peek.kind.isLayout = false)
    (hrow : Row w token.span.start token.span.stop ts) :
    Turns w K start B Parser.advance fun _ => B ++ ts :=
  fun _ => .move (fun _ => ⟨1, rfl⟩) fun c hin ⟨hk, hsince⟩ => by
    obtain ⟨rfl, hplain⟩ := hK c hk
    exact hsince.advance_adding hin hplain hrow

/-- A token that has been looked at is read and begins a row. -/
theorem advance_opens {token : Token} {f : Unit → Parser β}
    (hK : ∀ c, K c → c.peek = token ∧ c.peek.kind.isLayout = false)
    (h : Turns w (fun _ => True) (some token.span) [] (f ()) T) :
    Turns w K start B (Parser.advance >>= f) fun b => B ++ T b :=
  fun lo => by
    have hread : Places w (fun c => K c ∧ Since w lo start B c) Parser.advance fun _ c =>
        ∃ lo', RowBehind w lo start B lo' (some token.span) [] c :=
      .move (fun _ => ⟨1, rfl⟩) fun c hin ⟨hk, hsince⟩ => by
        obtain ⟨rfl, hplain⟩ := hK c hk
        exact ⟨_, .advance hsince hin hplain⟩
    exact hread.bind fun _ => h.joins lo

/-- A production that takes the token that has been looked at begins a row with it. -/
theorem opens_bind {token : Token} (hp : Turns w K none [] p S) (htakes : Consumes w K p)
    (hsound : token.Sound w.source)
    (hf : ∀ a, Turns w (fun _ => True) (some token.span) (S a) (f a) T) :
    Turns w (fun c => K c ∧ c.peek = token) start B (p >>= f) fun b => B ++ T b :=
  fun lo => by
    have hread : Places w (fun c => (K c ∧ c.peek = token) ∧ Since w lo start B c) p fun a c =>
        ∃ lo', RowBehind w lo start B lo' (some token.span) (S a) c := by
      refine ⟨hp.onward, fun s hs ⟨⟨hk, hpeek⟩, hsince⟩ hquiet => ?_⟩
      obtain ⟨lo', hbehind, hlo'⟩ := RowBehind.next hsince hs.cursor
      obtain ⟨herrors, hafter⟩ := (hp.behind lo lo').places s hs ⟨hk, hbehind⟩ hquiet
      -- Only now has the token been read, so only now can the row be said to begin with it.
      refine ⟨herrors, lo', hafter.begun hsound.inText fun hq => ?_⟩
      obtain ⟨hplain, hread⟩ := htakes s hs.cursor hk hq (hquiet hq)
      rw [hpeek] at hlo' hplain hread
      exact ⟨hlo' hplain, hread⟩
    exact hread.bind fun a => (hf a).joins lo

/-- What is read behind such a row is no part of it. -/
theorem opens_bind_discard {γ : Type} {q : Parser γ} {token : Token}
    (hp : Turns w K none [] (p >>= fun a => q >>= fun _ => Pure.pure a) S)
    (htakes : Consumes w K (p >>= fun a => q >>= fun _ => Pure.pure a))
    (hsound : token.Sound w.source)
    (hf : ∀ a, Turns w (fun _ => True) (some token.span) (S a) (f a) T) :
    Turns w (fun c => K c ∧ c.peek = token) start B (p >>= fun a => q >>= fun _ => f a)
      fun b => B ++ T b := by
  have hopens : Turns w _ start B _ _ := opens_bind hp htakes hsound hf
  simp only [bind_assoc, pure_bind] at hopens
  exact hopens

/-- Reading a token is looking at it and moving on. -/
theorem next_bind {f : Token → Parser β}
    (h : ∀ token, token.Sound w.source →
      Turns w (fun c => K c ∧ c.peek = token) start B (Parser.advance >>= fun _ => f token) T) :
    Turns w K start B (Parser.next >>= f) T :=
  peek_bind (f := fun token => Parser.advance >>= fun _ => f token) h

/-- The token that is read begins a row. -/
theorem next_opens {f : Token → Parser β} (hplain : ∀ c, K c → c.peek.kind.isLayout = false)
    (h : ∀ token, token.Sound w.source → Turns w (fun _ => True) (some token.span) [] (f token) T) :
    Turns w K start B (Parser.next >>= f) fun b => B ++ T b :=
  next_bind fun token hsound =>
    advance_opens (fun c hc => ⟨hc.2, hplain c hc.1⟩) (h token hsound)

/-- The token that is read begins the row, unless that has begun already. -/
theorem next_begins {f : Token → Parser β} (hplain : ∀ c, K c → c.peek.kind.isLayout = false)
    (hB : start = none → B = [])
    (h : ∀ token, token.Sound w.source →
      Turns w (fun _ => True) (some (start.getD token.span)) B (f token) T) :
    Turns w K start B (Parser.next >>= f) T := by
  cases start with
  | none =>
    obtain rfl := hB rfl
    exact next_opens hplain h
  | some s => exact next_bind fun token hsound => advance.bind fun _ => h token hsound

theorem eat_bind {k : TokenKind} {f : Option Token → Parser β}
    (hsome : ∀ token, token.Sound w.source → token.kind = k →
      Turns w (fun _ => True) start B (f (some token)) T)
    (hnone : Turns w K start B (f none) T) : Turns w K start B (Parser.eat k >>= f) T := by
  rw [eat_bind_eq]
  refine peek_bind fun token hsound => .ite (fun hk => ?_) fun _ => hnone.of fun _ hc => hc.1
  exact advance.bind fun _ => hsome token hsound hk

/-- A token of the given kind is read as some more trees. -/
theorem eat_adds {k : TokenKind} {f : Option Token → Parser β} {trees : Token → List SpanTree}
    (hplain : k.isLayout = false)
    (hrow : ∀ token, token.Sound w.source → token.kind = k →
      Row w token.span.start token.span.stop (trees token))
    (hsome : ∀ token, Turns w (fun _ => True) start (B ++ trees token) (f (some token)) T)
    (hnone : Turns w K start B (f none) T) : Turns w K start B (Parser.eat k >>= f) T := by
  rw [eat_bind_eq]
  refine peek_bind fun token hsound => .ite (fun hk => ?_) fun _ => hnone.of fun _ hc => hc.1
  refine (advance_adds (fun c hc => ⟨hc.2, ?_⟩) (hrow token hsound hk)).bind fun _ => hsome token
  rw [hc.2, hk, hplain]

theorem eats_bind {k : TokenKind} {f : Bool → Parser β}
    (htrue : Turns w (fun _ => True) start B (f true) T)
    (hfalse : Turns w K start B (f false) T) : Turns w K start B (Parser.eats k >>= f) T :=
  eat_bind (f := fun token => f token.isSome) (fun _ _ _ => htrue) hfalse

/-- A token that has been looked at is read as some more trees if it is of the given kind. -/
theorem eats_adds {k : TokenKind} {f : Bool → Parser β} {token : Token} (ts : List SpanTree)
    (hK : ∀ c, K c → c.peek = token) (hplain : k.isLayout = false)
    (hrow : Row w token.span.start token.span.stop ts)
    (htrue : Turns w (fun _ => True) start (B ++ ts) (f true) T)
    (hfalse : Turns w K start B (f false) T) : Turns w K start B (Parser.eats k >>= f) T := by
  show Turns w K start B (Parser.eat k >>= fun token => f token.isSome) T
  rw [eat_bind_eq]
  refine look_bind fun token' => .ite (fun hk => ?_) fun _ => hfalse.of fun _ hc => hc.1
  refine (advance_adds (fun c hc => ⟨hK c hc.1, ?_⟩) hrow).bind fun _ => htrue
  rw [hc.2, hk, hplain]

theorem eat {k : TokenKind} : Turns w K start B (Parser.eat k) fun _ => B :=
  eat_bind (f := Pure.pure) (fun _ _ _ => done rfl) (done rfl)

theorem report_bind {fault : SyntaxFault} {span : Span} {f : Unit → Parser β}
    (hin : span.InText w.source) (h : Turns w (fun _ => ¬ w.quiet) start B (f ()) T) :
    Turns w K start B (Parser.report fault span >>= f) T :=
  fun lo => .report_bind hin ((h lo).pre fun _ _ ⟨⟨_, hsince⟩, hreported⟩ => ⟨hreported, hsince⟩)

theorem expected_bind {expectation : Expectation} {token : Token} {f : Unit → Parser β}
    (hsound : token.Sound w.source) (h : Turns w (fun _ => ¬ w.quiet) start B (f ()) T) :
    Turns w K start B (Parser.expected expectation token >>= f) T :=
  report_bind hsound.inText h

theorem report {fault : SyntaxFault} {span : Span} (hin : span.InText w.source) :
    Turns w K start B (Parser.report fault span) fun _ => B :=
  report_bind (f := Pure.pure) hin (done rfl)

theorem expected {expectation : Expectation} {token : Token} (hsound : token.Sound w.source) :
    Turns w K start B (Parser.expected expectation token) fun _ => B :=
  report hsound.inText

/-- A name is read, or it is reported that there is none. -/
theorem expectIdentifier_bind {f : Option Identifier → Parser β}
    (hsome : ∀ ident, Turns w (fun _ => True) start (B ++ [ident.spanTree]) (f (some ident)) T)
    (hnone : Turns w (fun _ => ¬ w.quiet) start B (f none) T) :
    Turns w K start B (expectIdentifier >>= f) T := by
  rw [expectIdentifier_bind_eq]
  refine peek_bind fun token hsound => ?_
  split
  · rename_i ident hident
    refine (advance_adds (fun c hc => ⟨hc.2, ?_⟩) (hsound.mention hident)).bind fun _ => hsome ident
    rw [hc.2, isLayout_of_identifier? hident]
  · exact expected_bind hsound hnone

/-! ### Going round -/

theorem loop {S : α → List SpanTree} {giveUp : α → β} {step : α → Parser (LoopStep α β)}
    (hstep : ∀ a, Turns w (fun _ => True) start (S a) (step a) fun r => r.trees S T)
    (hgive : ∀ a, T (giveUp a) = S a) (a : α) :
    Turns w K start (S a) (Parser.loop giveUp step a) T :=
  fun lo =>
    (Places.loop (R := fun r c => Since w lo start (r.trees S T) c)
      (fun a => (hstep a lo).pre fun _ _ hsince => ⟨trivial, hsince⟩)
      (fun a c hsince => by
        show Since w lo start (T (giveUp a)) c
        rw [hgive a]
        exact hsince) a).pre fun _ _ ⟨_, hsince⟩ => hsince

theorem loop_id {S : α → List SpanTree} {step : α → Parser (LoopStep α α)}
    (hstep : ∀ a, Turns w (fun _ => True) start (S a) (step a) fun r => r.trees S S) (a : α) :
    Turns w K start (S a) (Parser.loop id step a) S :=
  loop hstep (fun _ => rfl) a

/-- A loop that reads no trees. -/
theorem loop_passes {giveUp : α → β} {step : α → Parser (LoopStep α β)}
    (hstep : ∀ a, Turns w (fun _ => True) start B (step a) fun _ => B) (a : α) :
    Turns w K start B (Parser.loop giveUp step a) fun _ => B :=
  loop (S := fun _ => B) (T := fun _ => B)
    (fun a => (hstep a).keep fun r => by cases r <;> exact .refl B) (fun _ => rfl) a

/-! ### Nodes -/

/-- The row is put under a node that reaches from its start over some of its trees. -/
theorem merge_done {s : Span} {b : β} (others : List SpanTree) {kept : List SpanTree}
    (hT : T b = [.node (s.mergeAll (others.map SpanTree.span)) kept]) (hsub : kept.Sublist B)
    (hothers : others ⊆ B) (hkept : ∀ t ∈ kept, t ∈ others ∨ t.span = s) :
    Turns w K (some s) B (Pure.pure b) T :=
  fun lo => .pure fun c hin ⟨_, hsince⟩ => by
    rw [hT]
    refine hsince.close _ hsub ?_ ?_ fun _ t ht => ?_
    · exact List.forall_mem_map.2 fun t ht =>
        hsince.row.inText t (hothers ht) _ t.span_mem_spans
    · exact fun hq => List.forall_mem_map.2 fun t ht =>
        ((hsince.row.trees hq).bounds _ (List.mem_map_of_mem (hothers ht))).2
    · rcases hkept t ht with ht | rfl
      · exact Span.stop_le_mergeAll_of_mem (List.mem_map_of_mem ht)
      · exact Span.stop_le_mergeAll _ _

/-- The row is put under a node that reaches from its start up to the last token read. -/
theorem spanFrom_done {s : Span} {g : Span → β} {kept : List SpanTree}
    (hT : ∀ span, T (g span) = [.node span kept]) (hsub : kept.Sublist B) :
    Turns w K (some s) B (spanFrom s >>= fun span => Pure.pure (g span)) T :=
  fun lo => .look_bind fun span => .pure fun c hin ⟨⟨_, hsince⟩, hspan⟩ => by
    subst hspan
    rw [hT]
    refine hsince.close [c.lastSpan] hsub ?_ ?_ fun hq t ht => ?_
    · exact List.forall_mem_singleton.2 hin.lastSpan
    · exact fun _ => List.forall_mem_singleton.2 (Nat.le_refl _)
    · refine Nat.le_trans ?_ (Span.stop_le_mergeAll_of_mem (List.mem_singleton_self _))
      exact ((hsince.row.trees hq).bounds _ (List.mem_map_of_mem (hsub.subset ht))).2

/-- A node with nothing in it reaches from the start of the row up to the last token read. -/
theorem spanFrom_bare {s : Span} {g : Span → β} (hT : ∀ span, T (g span) = [.node span []]) :
    Turns w K (some s) B (spanFrom s >>= fun span => Pure.pure (g span)) T :=
  spanFrom_done hT (List.nil_sublist B)

/-- What begins the row is all of it. -/
theorem start_done {s : Span} {b : β} (hT : T b = [.node s []]) :
    Turns w K (some s) B (Pure.pure b) T :=
  merge_done [] hT (List.nil_sublist B) (List.nil_subset B) nofun

/-- Where something has been reported, a node may stand anywhere. -/
theorem node_done {span : Span} {b : β} (hK : ∀ c, K c → ¬ w.quiet)
    (hin : span.InText w.source) (hT : T b = [.node span []]) :
    Turns w K start B (Pure.pure b) T :=
  pure_of fun c _ hk _ => hT ▸ Row.nil.with_node (hK c hk) hin

/-- So may one that begins where the row does. -/
theorem merged_node_done {s other : Span} {b : β} (hK : ∀ c, K c → ¬ w.quiet)
    (hin : other.InText w.source) (hT : T b = [.node (s.merge other) []]) :
    Turns w K (some s) B (Pure.pure b) T :=
  pure_of fun c _ hk hsince =>
    hT ▸ Row.nil.with_node (hK c hk) ((hsince.start s rfl).1.merge hin)

end Turns

/-! ### Reading the next token -/

namespace Consumes

open PyAtlas.Parser

variable {w : Survey} {K K' : Cursor → Prop} {α β : Type} {p : Parser α} {f : α → Parser β}

theorem of (h : Consumes w K' p) (hK : ∀ c, K c → K' c) : Consumes w K p :=
  fun s hs hk => h s hs (hK _ hk)

/-- A production that reads nothing yet. -/
theorem bind_stay {a : α} (hp : ∀ s, K s.cursor → p s = (a, s)) (h : Consumes w K (f a)) :
    Consumes w K (p >>= f) := by
  intro s hs hk
  have hrun : (p >>= f) s = f a s := by
    show f (p s).1 (p s).2 = f a s
    rw [hp s hk]
  rw [hrun]
  exact h s hs hk

/-- What comes behind a production that has read the token goes on from there. -/
theorem bind (h : Consumes w K p) (hp : GoesOn w p) (hf : ∀ a, GoesOn w (f a)) :
    Consumes w K (p >>= f) := by
  intro s hs hk hq hsame
  obtain ⟨m, hfirst⟩ := hp s hs
  obtain ⟨n, hrest⟩ := hf (p s).1 (p s).2 (hfirst.cursor_inText hs)
  obtain ⟨hquiet, -⟩ := hfirst.quiet_both hrest fun _ : w.quiet => hsame
  obtain ⟨hplain, hread⟩ := h s hs hk hq (hquiet hq)
  exact ⟨hplain, Nat.le_trans hread (hrest.reached_le (hfirst.cursor_inText hs))⟩

theorem ite {c : Prop} [Decidable c] {p q : Parser α} (h : c → Consumes w K p)
    (h' : ¬ c → Consumes w K q) : Consumes w K (if c then p else q) := by
  split
  · exact h ‹_›
  · exact h' ‹_›

theorem look_bind {g : Cursor → α} (h : ∀ a, Consumes w (fun c => K c ∧ g c = a) (f a)) :
    Consumes w K (look g >>= f) :=
  fun s hs hk => h (g s.cursor) s hs ⟨hk, rfl⟩

theorem peek_bind {f : Token → Parser β}
    (h : ∀ token, token.Sound w.source → Consumes w (fun c => K c ∧ c.peek = token) (f token)) :
    Consumes w K (peek >>= f) :=
  fun s hs hk => h _ hs.peek s hs ⟨hk, rfl⟩

theorem advance (hplain : ∀ c, K c → c.peek.kind.isLayout = false) :
    Consumes w K Parser.advance := by
  intro s _ hk _ _
  exact ⟨hplain _ hk, Nat.le_of_eq (Cursor.reached_advance (hplain _ hk)).symm⟩

/-- Reading a token before anything else. -/
theorem advance_bind {f : Unit → Parser β} (hplain : ∀ c, K c → c.peek.kind.isLayout = false)
    (hf : GoesOn w (f ())) : Consumes w K (Parser.advance >>= f) :=
  (advance hplain).bind GoesOn.advance fun _ => hf

theorem next_bind {f : Token → Parser β} (hplain : ∀ c, K c → c.peek.kind.isLayout = false)
    (hf : ∀ token, GoesOn w (f token)) : Consumes w K (Parser.next >>= f) :=
  peek_bind (f := fun token => Parser.advance >>= fun _ => f token) fun token _ =>
    advance_bind (fun c hc => hplain c hc.1) (hf token)

/-- A production that reports something. -/
theorem report_bind {fault : SyntaxFault} {span : Span} {f : Unit → Parser β}
    (hf : GoesOn w (f ())) : Consumes w K (Parser.report fault span >>= f) :=
  fun s hs _ _ hsame =>
    have ⟨_, hread⟩ := hf (report fault span s).2 hs
    absurd hsame hread.ne_of_report

theorem eats_bind {k : TokenKind} {f : Bool → Parser β} (hk : k.isLayout = false)
    (htrue : GoesOn w (f true)) (hfalse : Consumes w (fun c => K c ∧ c.kind ≠ k) (f false)) :
    Consumes w K (eats k >>= f) := by
  show Consumes w K (eat k >>= fun token => f token.isSome)
  rw [eat_bind_eq]
  refine look_bind fun token => .ite (fun hkind => ?_) fun hkind => ?_
  · refine advance_bind (fun c hc => ?_) htrue
    rw [hc.2, hkind, hk]
  · refine hfalse.of fun c hc => ⟨hc.1, ?_⟩
    rw [Cursor.kind_eq, hc.2]
    exact hkind

/-- The first step of a loop reads the token. -/
theorem loop {giveUp : α → β} {step : α → Parser (LoopStep α β)} {a : α} (h : Consumes w K (step a))
    (hstep : GoesOn w (step a)) (hloop : ∀ a, GoesOn w (Parser.loop giveUp step a)) :
    Consumes w K (Parser.loop giveUp step a) := by
  intro s hs hk hq hsame
  obtain ⟨m, hfirst⟩ := hstep s hs
  have htakes := h s hs hk hq
  rw [loop_eq] at hsame ⊢
  cases hr : step a s with
  | mk r t =>
    rw [hr] at hfirst htakes hsame
    cases r with
    | finished b => exact htakes hsame
    | again a' =>
      dsimp only at hfirst htakes hsame ⊢
      split at hsame
      · rename_i hlt
        rw [if_pos hlt]
        have hin := hfirst.cursor_inText hs
        obtain ⟨n, hrest⟩ := hloop a' t hin
        obtain ⟨hquiet, -⟩ := hfirst.quiet_both hrest fun _ : w.quiet => hsame
        obtain ⟨hplain, hread⟩ := htakes (hquiet hq)
        exact ⟨hplain, Nat.le_trans hread (hrest.reached_le hin)⟩
      · rename_i hlt
        rw [if_neg hlt]
        exact htakes hsame

end Consumes

end PyAtlas
