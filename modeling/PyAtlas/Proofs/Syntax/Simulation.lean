import PyAtlas.Proofs.Syntax.Seam

/-!
# Parsers that run in step

`Sim E I J φ p q` says what it takes for a production `p` on a whole text and the same
production `q` on a part of it to run in step: from states related by `I` both come to states
related by `J`, and what `p` yields is what `q` yields, moved by `φ`. There is one way out of
this, `E`: a part in front that is found faulty need not be followed any further. For that,
`q` never takes back what it has reported.

The rules of this module follow the ways in which parsers are put together, one rule for each.

## Key results
- `Sim.bind`, `Sim.loop`, `Sim.nested`: how runs in step are put together.
- `Sim.peek`, `Sim.eats`, `Sim.report` and their companions: the primitives.
-/

namespace PyAtlas

/-! ### What no parser takes back -/

/-- What a parser does to its state: tokens are read, and errors are added. -/
structure Onward (t t' : ParserState) : Prop where
  before : t.cursor.before <:+ t'.cursor.before
  after : t'.cursor.after <:+ t.cursor.after
  size : t'.cursor.size = t.cursor.size
  errors : t.errors <+: t'.errors

namespace Onward

theorem refl (t : ParserState) : Onward t t :=
  ⟨List.suffix_rfl, List.suffix_rfl, rfl, List.prefix_rfl⟩

theorem trans {t t' t'' : ParserState} (h : Onward t t') (h' : Onward t' t'') :
    Onward t t'' :=
  ⟨h.before.trans h'.before, h'.after.trans h.after, h'.size.trans h.size,
    h.errors.trans h'.errors⟩

theorem remaining_le {t t' : ParserState} (h : Onward t t') : t'.remaining ≤ t.remaining :=
  h.after.length_le

theorem begun {t t' : ParserState} (h : Onward t t') (ht : t.begun = true) :
    t'.begun = true := by
  obtain ⟨u, hu, hk⟩ := List.any_eq_true.1 ht
  exact List.any_eq_true.2 ⟨u, h.before.subset hu, hk⟩

/-- No error is taken back. -/
theorem errors_eq_nil {t t' : ParserState} (h : Onward t t') (ht : t'.errors = []) :
    t.errors = [] := by
  have herrors := h.errors
  rw [ht] at herrors
  exact List.prefix_nil.1 herrors

theorem advance (t : ParserState) : Onward t (t.move Cursor.advance) := by
  cases ht : t.cursor.after with
  | nil =>
    rw [ParserState.move, Cursor.advance_of_nil ht]
    exact refl t
  | cons u ts =>
    rw [ParserState.move, Cursor.advance_of_after ht]
    refine ⟨List.suffix_cons u _, ?_, rfl, List.prefix_rfl⟩
    rw [ht]
    exact List.suffix_cons u ts

theorem advanceBy (t : ParserState) (m : Nat) : Onward t (t.move (Cursor.advanceBy m)) := by
  induction m generalizing t with
  | zero => exact refl t
  | succ m ih => exact (advance t).trans (ih (t.move Cursor.advance))

theorem skipToClosing (t : ParserState) : Onward t (t.move Cursor.skipToClosing) :=
  advanceBy t _

theorem skipLine (t : ParserState) : Onward t (t.move Cursor.skipLine) :=
  advanceBy t _

theorem skipNewlines (t : ParserState) : Onward t (t.move Cursor.skipNewlines) :=
  advanceBy t _

theorem eat (t : ParserState) (k : TokenKind) :
    Onward t { t with cursor := (t.cursor.eat k).2 } := by
  rw [Cursor.eat]
  split
  · exact advance t
  · exact refl t

/-- A loop takes back nothing that its steps do not. -/
theorem loop {α γ : Type} {giveUp : α → γ} {step : α → Parser (Parser.LoopStep α γ)}
    (hstep : ∀ a t, Onward t (step a t).2) (a : α) (t : ParserState) :
    Onward t (Parser.loop giveUp step a t).2 := by
  -- Induction on the number of tokens left: the loop goes round only where that has fallen.
  suffices ∀ m, ∀ a t, t.remaining = m → Onward t (Parser.loop giveUp step a t).2 by
    exact this _ a t rfl
  intro m
  induction m using Nat.strongRecOn with
  | ind m ih =>
    intro a t hm
    have honward := hstep a t
    rw [Parser.loop_eq]
    cases hr : step a t with
    | mk r t' =>
      rw [hr] at honward
      cases r with
      | finished b => exact honward
      | again a' =>
        simp only
        split
        · rename_i hlt
          exact honward.trans (ih _ (hm ▸ hlt) a' t' rfl)
        · exact honward

end Onward

/-- A reason to follow two runs no further, which a fault in the part in front is. -/
structure Escape (σ : Seam) where
  holds : ParserState → Prop
  onward : ∀ {t t' : ParserState}, Onward t t' → holds t → holds t'
  fault : ∀ {rest : List Token} {h : NewStatement rest} {t : ParserState},
    σ = .front rest h → t.errors ≠ [] → holds t

/-- The relation, where fewer than `m` tokens of the part are left. -/
def Within (m : Nat) (R : Rel) : Rel := fun s t => R s t ∧ t.remaining < m

/-! ### Runs in step -/

/-- The parser `p` on the whole text runs in step with the parser `q` on the part. -/
structure Sim {σ : Seam} (E : Escape σ) {α β : Type} (I : Rel) (J : α → Rel) (φ : α → β)
    (p : Parser β) (q : Parser α) : Prop where
  onward : ∀ t, Onward t (q t).2
  run : ∀ s t, I s t →
    E.holds (q t).2 ∨ ((p s).1 = φ (q t).1 ∧ J (q t).1 (p s).2 (q t).2)

namespace Sim

open PyAtlas.Parser

variable {σ : Seam} {E : Escape σ} {α β γ δ : Type} {I I' : Rel} {J J' : α → Rel} {K : γ → Rel}
  {φ : α → β} {ψ : γ → δ}

/-! ### Putting runs together -/

theorem pure {a : α} {x : β} (hx : x = φ a) (h : ∀ s t, I s t → J a s t) :
    Sim E I J φ (Pure.pure x) (Pure.pure a) where
  onward t := Onward.refl t
  run s t hI := .inr ⟨hx, h s t hI⟩

theorem bind {p : Parser β} {q : Parser α} {f : β → Parser δ} {g : α → Parser γ}
    (h : Sim E I J φ p q) (hf : ∀ a, Sim E (J a) K ψ (f (φ a)) (g a)) :
    Sim E I K ψ (p >>= f) (q >>= g) where
  onward t := (h.onward t).trans ((hf (q t).1).onward (q t).2)
  run s t hI := by
    rcases h.run s t hI with hE | ⟨hval, hJ⟩
    · exact .inl (E.onward ((hf (q t).1).onward (q t).2) hE)
    · have := (hf (q t).1).run (p s).2 (q t).2 hJ
      rw [← hval] at this
      exact this

theorem map {p : Parser β} {q : Parser α} {f : β → δ} {g : α → γ} (h : Sim E I J φ p q)
    (hf : ∀ a, f (φ a) = ψ (g a)) (hJ : ∀ a s t, J a s t → K (g a) s t) :
    Sim E I K ψ (f <$> p) (g <$> q) where
  onward t := h.onward t
  run s t hI := by
    rcases h.run s t hI with hE | ⟨hval, hj⟩
    · exact .inl hE
    · refine .inr ⟨?_, hJ _ _ _ hj⟩
      show f (p s).1 = ψ (g (q t).1)
      rw [hval, hf]

theorem discard {p : Parser β} {q : Parser α} {R : Rel} (h : Sim E I (fun _ => R) φ p q) :
    Sim E I (fun _ => R) id (Functor.discard p) (Functor.discard q) :=
  h.map (fun _ => rfl) (fun _ _ _ hj => hj)

/-- Less is known before, or less is asked for afterwards. -/
theorem weaken {p : Parser β} {q : Parser α} (h : Sim E I J φ p q)
    (hI : ∀ s t, I' s t → I s t) (hJ : ∀ a s t, J a s t → J' a s t) : Sim E I' J' φ p q where
  onward := h.onward
  run s t hi := (h.run s t (hI s t hi)).imp_right fun ⟨hval, hj⟩ => ⟨hval, hJ _ _ _ hj⟩

theorem pre {p : Parser β} {q : Parser α} (h : Sim E I J φ p q)
    (hI : ∀ s t, I' s t → I s t) : Sim E I' J φ p q :=
  h.weaken hI fun _ _ _ hj => hj

theorem post {p : Parser β} {q : Parser α} (h : Sim E I J φ p q)
    (hJ : ∀ a s t, J a s t → J' a s t) : Sim E I J' φ p q :=
  h.weaken (fun _ _ hi => hi) hJ

/-- What reading on does not change is kept. -/
theorem keep {P : ParserState → Prop} (hP : ∀ {t t'}, Onward t t' → P t → P t')
    {p : Parser β} {q : Parser α} (h : Sim E I J φ p q) :
    Sim E (fun s t => I s t ∧ P t) (fun a s t => J a s t ∧ P t) φ p q where
  onward := h.onward
  run s t hI := (h.run s t hI.1).imp_right fun ⟨hval, hj⟩ =>
    ⟨hval, hj, hP (h.onward t) hI.2⟩

/-- What has been begun stays begun. -/
theorem begun {p : Parser β} {q : Parser α} (h : Sim E I J φ p q) :
    Sim E (Begun I) (fun a => Begun (J a)) φ p q :=
  h.keep (P := fun t => t.begun = true) Onward.begun

/-- No token comes back. -/
theorem within {m : Nat} {p : Parser β} {q : Parser α} (h : Sim E I J φ p q) :
    Sim E (Within m I) (fun a => Within m (J a)) φ p q :=
  h.keep (P := fun t => t.remaining < m) fun h hlt => Nat.lt_of_le_of_lt h.remaining_le hlt

theorem ite {c : Prop} [Decidable c] {p p' : Parser β} {q q' : Parser α}
    (h : c → Sim E I J φ p q) (h' : ¬ c → Sim E I J φ p' q') :
    Sim E I J φ (if c then p else p') (if c then q else q') := by
  split
  · exact h ‹_›
  · exact h' ‹_›

/-- One relation for each outcome of a question. -/
def Either (P Q : Rel) : Bool → Rel
  | true => P
  | false => Q

/-- A question and what depends on it. -/
theorem cond {P Q : Rel} {p q : Parser Bool} {f f' : Parser δ} {g g' : Parser γ}
    (h : Sim E I (Either P Q) id p q) (ht : Sim E P K ψ f g) (hf : Sim E Q K ψ f' g') :
    Sim E I K ψ (p >>= fun c => if c = true then f else f')
      (q >>= fun c => if c = true then g else g') := by
  refine h.bind fun c => ?_
  cases c with
  | true => exact ht
  | false => exact hf

theorem cond_not {P Q : Rel} {p q : Parser Bool} {f f' : Parser δ} {g g' : Parser γ}
    (h : Sim E I (Either P Q) id p q) (ht : Sim E P K ψ f' g') (hf : Sim E Q K ψ f g) :
    Sim E I K ψ (p >>= fun c => if (!c) = true then f else f')
      (q >>= fun c => if (!c) = true then g else g') := by
  refine h.bind fun c => ?_
  cases c with
  | true => exact ht
  | false => exact hf

/-! ### Going round -/

/-- The outcome of a step, moved. -/
def mapStep (φ : α → β) (ψ : γ → δ) : LoopStep α γ → LoopStep β δ
  | .again a => .again (φ a)
  | .finished b => .finished (ψ b)

/-- What holds after a step: of what is left to do, or of the result. -/
def AfterStep (I : α → Rel) (J : γ → Rel) : LoopStep α γ → Rel
  | .again a => I a
  | .finished b => J b

/-- The invariant `I` of a loop is kept by each step. A step that reads nothing ends the loop;
    then the invariant has to be as good as the result. -/
theorem loop_of_left {I : α → Rel} {giveUp : β → δ} {giveUp' : α → γ}
    {step : β → Parser (LoopStep β δ)} {step' : α → Parser (LoopStep α γ)}
    (hstep : ∀ m a, Sim E (fun s t => I a s t ∧ t.remaining = m)
      (AfterStep (fun a' s t => I a' s t ∧ (t.remaining < m ∨ K (giveUp' a') s t)) K)
      (mapStep φ ψ) (step (φ a)) (step' a))
    (hmeets : ∀ a s t, I a s t → ∃ k, Meets σ .anywhere k s t)
    (hgive : ∀ a, giveUp (φ a) = ψ (giveUp' a)) (a : α) :
    Sim E (I a) K ψ (Parser.loop giveUp step (φ a)) (Parser.loop giveUp' step' a) where
  onward t := Onward.loop (fun a t => (hstep 0 a).onward t) a t
  run s t hI := by
    have honward : ∀ a t, Onward t (Parser.loop giveUp' step' a t).2 :=
      Onward.loop fun a t => (hstep 0 a).onward t
    -- Both loops have to go round equally often. Induction on the number of tokens left.
    suffices ∀ m, ∀ a s t, t.remaining = m → I a s t →
        E.holds (Parser.loop giveUp' step' a t).2
          ∨ ((Parser.loop giveUp step (φ a) s).1 = ψ (Parser.loop giveUp' step' a t).1
            ∧ K (Parser.loop giveUp' step' a t).1 (Parser.loop giveUp step (φ a) s).2
              (Parser.loop giveUp' step' a t).2) by
      exact this _ a s t rfl hI
    intro m
    induction m using Nat.strongRecOn with
    | ind m ih =>
      intro a s t hm hI
      have hrun := (hstep t.remaining a).run s t ⟨hI, rfl⟩
      rw [loop_eq giveUp, loop_eq giveUp']
      cases hq : step' a t with
      | mk r t' =>
        cases hp : step (φ a) s with
        | mk r' s' =>
          rw [hq, hp] at hrun
          cases r with
          | finished b =>
            rcases hrun with hE | ⟨hval, hK⟩
            · exact .inl hE
            · simp only at hval
              subst hval
              exact .inr ⟨rfl, hK⟩
          | again a' =>
            simp only
            rcases hrun with hE | ⟨hval, hI', hleft⟩
            · -- The fault has been found already; the rest of the loop keeps it.
              refine .inl ?_
              split
              · exact E.onward (honward a' t') hE
              · exact hE
            · simp only at hval
              subst hval
              obtain ⟨k, hk⟩ := hmeets a s t hI
              obtain ⟨k', hk'⟩ := hmeets a' s' t' hI'
              -- Both steps have read something, or neither has.
              have hpace := hk.remaining_lt_iff hk'
              by_cases hlt : t'.remaining < t.remaining
              · simp only [mapStep, if_pos hlt, if_pos (hpace.2 hlt)]
                exact ih _ (hm ▸ hlt) a' s' t' rfl hI'
              · simp only [mapStep, if_neg hlt, if_neg (fun h => hlt (hpace.1 h))]
                exact .inr ⟨hgive a', hleft.resolve_left hlt⟩

/-- The rule for loops whose invariant is as good as their result. -/
theorem loop {I : α → Rel} {giveUp : β → δ} {giveUp' : α → γ}
    {step : β → Parser (LoopStep β δ)} {step' : α → Parser (LoopStep α γ)}
    (hstep : ∀ a, Sim E (I a) (AfterStep I K) (mapStep φ ψ) (step (φ a)) (step' a))
    (hmeets : ∀ a s t, I a s t → ∃ k, Meets σ .anywhere k s t)
    (hgive : ∀ a, giveUp (φ a) = ψ (giveUp' a))
    (hresult : ∀ a s t, I a s t → K (giveUp' a) s t) (a : α) :
    Sim E (I a) K ψ (Parser.loop giveUp step (φ a)) (Parser.loop giveUp' step' a) := by
  refine loop_of_left (fun m a => ?_) hmeets hgive a
  refine (hstep a).weaken (fun _ _ h => h.1) fun r s t h => ?_
  cases r with
  | again a' => exact ⟨h, .inr (hresult a' s t h)⟩
  | finished b => exact h

/-- The rule for loops each of whose steps reads a token before it goes round. -/
theorem loop_within {I : α → Rel} {giveUp : β → δ} {giveUp' : α → γ}
    {step : β → Parser (LoopStep β δ)} {step' : α → Parser (LoopStep α γ)}
    (hstep : ∀ m a, Sim E (fun s t => I a s t ∧ t.remaining ≤ m)
      (AfterStep (fun a' => Within m (I a')) K) (mapStep φ ψ) (step (φ a)) (step' a))
    (hmeets : ∀ a s t, I a s t → ∃ k, Meets σ .anywhere k s t)
    (hgive : ∀ a, giveUp (φ a) = ψ (giveUp' a)) (a : α) :
    Sim E (I a) K ψ (Parser.loop giveUp step (φ a)) (Parser.loop giveUp' step' a) := by
  refine loop_of_left (fun m a => ?_) hmeets hgive a
  refine (hstep m a).weaken (fun _ _ h => ⟨h.1, Nat.le_of_eq h.2⟩) fun r s t h => ?_
  cases r with
  | again a' => exact ⟨h.1, .inl h.2⟩
  | finished b => exact h

/-- The rule for parsers of what is left after some tokens have been read. -/
theorem nested {limit limit' : Nat} {giveUp : β} {giveUp' : α}
    {parser : (s : ParserState) → s.remaining < limit → β × ParserState}
    {parser' : (t : ParserState) → t.remaining < limit' → α × ParserState}
    (hlimit : ∀ s t, I s t → (s.remaining < limit ↔ t.remaining < limit'))
    (hgive : giveUp = φ giveUp')
    (hleft : ∀ s t, I s t → ¬ t.remaining < limit' → J giveUp' s t)
    (honward : ∀ t h, Onward t (parser' t h).2)
    (hrun : ∀ s t h h', I s t → E.holds (parser' t h').2
      ∨ ((parser s h).1 = φ (parser' t h').1
        ∧ J (parser' t h').1 (parser s h).2 (parser' t h').2)) :
    Sim E I J φ (Parser.nested limit giveUp parser) (Parser.nested limit' giveUp' parser') where
  onward t := by
    rw [Parser.nested]
    split
    · exact honward t _
    · exact Onward.refl t
  run s t hI := by
    -- Both parsers are run or neither is, since the limits are met at the same time.
    by_cases ht : t.remaining < limit'
    · rw [nested_of_lt ht, nested_of_lt ((hlimit s t hI).2 ht)]
      exact hrun s t _ ht hI
    · have hs : ¬ s.remaining < limit := fun h => ht ((hlimit s t hI).1 h)
      rw [Parser.nested, Parser.nested, dif_neg ht, dif_neg hs]
      exact .inr ⟨hgive, hleft s t hI ht⟩

/-! ### Looking -/

variable {k : Nat} {stage : Stage}

/-- What is seen from both places, and is the same up to the place, is known afterwards. -/
theorem look {f : Cursor → β} {g : Cursor → α}
    (h : ∀ s t, I s t → f s.cursor = φ (g t.cursor)) :
    Sim E I (fun a s t => I s t ∧ g t.cursor = a) φ (Parser.look f) (Parser.look g) where
  onward t := Onward.refl t
  run s t hI := .inr ⟨h s t hI, hI, rfl⟩

theorem peek (h : ∀ s t, I s t → Meets σ .ahead k s t) :
    Sim E I (fun token s t => I s t ∧ t.cursor.peek = token) (Token.shift σ.offset)
      Parser.peek Parser.peek :=
  look fun s t hI => (h s t hI).peek

/-- What is the same at both places is known afterwards. -/
theorem inspect {f : Cursor → α} (h : ∀ s t, I s t → f s.cursor = f t.cursor) :
    Sim E I (fun a s t => I s t ∧ f t.cursor = a) id (Parser.look f) (Parser.look f) :=
  look h

theorem kind (h : ∀ s t, I s t → Meets σ .ahead k s t) :
    Sim E I (fun next s t => I s t ∧ t.cursor.kind = next) id Parser.kind Parser.kind :=
  inspect fun s t hI => (h s t hI).kind

/-- A question about the tokens ahead. -/
theorem ask {f : Cursor → Bool} (h : ∀ s t, I s t → f s.cursor = f t.cursor) :
    Sim E I (Either (fun s t => I s t ∧ f t.cursor = true) fun s t => I s t ∧ f t.cursor = false)
      id (Parser.look f) (Parser.look f) :=
  (inspect h).post fun a s t ⟨hI, ha⟩ => by
    cases a with
    | true => exact ⟨hI, ha⟩
    | false => exact ⟨hI, ha⟩

theorem at? (next : TokenKind) (h : ∀ s t, I s t → Meets σ .ahead k s t) :
    Sim E I (Either (fun s t => I s t ∧ t.cursor.kind = next)
      fun s t => I s t ∧ t.cursor.kind ≠ next) id (Parser.at? next) (Parser.at? next) := by
  refine (ask fun s t hI => ?_).post fun a s t ha => ?_
  · rw [(h s t hI).kind]
  · cases a with
    | true => exact ⟨ha.1, by simpa using ha.2⟩
    | false => exact ⟨ha.1, by simpa using ha.2⟩

/-- The span of what has been read since some place. -/
theorem spanFrom {start start' : Span} (hstart : start = start'.shift σ.offset)
    (h : ∀ s t, I s t → Begun (Meets σ stage k) s t) :
    Sim E I (fun _ => I) (Span.shift σ.offset) (Parser.spanFrom start)
      (Parser.spanFrom start') := by
  refine (look fun s t hI => ?_).post fun _ s t hI => hI.1
  rw [hstart, (h s t hI).1.lastSpan (h s t hI).2, Span.shift_merge]

/-! ### Reading and reporting -/

theorem move {f : Cursor → Cursor} (honward : ∀ t : ParserState, Onward t (t.move f))
    {R : Rel} (h : ∀ s t, I s t → R (s.move f) (t.move f)) :
    Sim E I (fun _ => R) id (Parser.move f) (Parser.move f) where
  onward := honward
  run s t hI := .inr ⟨rfl, h s t hI⟩

/-- Reading a token of a line. -/
theorem advance (h : ∀ s t, I s t → Meets σ stage k s t ∧ t.cursor.kind.isLayout = false) :
    Sim E I (fun _ => Live σ k) id Parser.advance Parser.advance :=
  move Onward.advance fun s t hI => (h s t hI).1.advance_plain (h s t hI).2

/-- Reading a token of a line, where something is known of what comes after it. -/
theorem advance_to {P : Cursor → Prop}
    (h : ∀ s t, I s t → Meets σ stage k s t ∧ t.cursor.kind.isLayout = false)
    (hP : ∀ s t, I s t → P t.cursor.advance) :
    Sim E I (fun _ s t => Live σ k s t ∧ P t.cursor) id Parser.advance Parser.advance :=
  move Onward.advance fun s t hI => ⟨(h s t hI).1.advance_plain (h s t hI).2, hP s t hI⟩

/-- Reading a token of a line that has been looked at. -/
theorem advance_peeked {token : Token} (hplain : token.kind.isLayout = false)
    (h : ∀ s t, I s t → Meets σ stage k s t) :
    Sim E (fun s t => I s t ∧ t.cursor.peek = token) (fun _ => Live σ k) id Parser.advance
      Parser.advance :=
  advance fun s t hI => ⟨h s t hI.1, by rw [Cursor.kind_eq, hI.2]; exact hplain⟩

/-- Reading a token that has been looked at and does not end the line. -/
theorem advance_lined {token : Token} (hline : token.kind.isLineEnd = false) :
    Sim E (fun s t => Live σ k s t ∧ t.cursor.peek = token) (fun _ => Live σ k) id Parser.advance
      Parser.advance := by
  refine (move (I := fun s t => Meets σ .lined k s t ∧ t.cursor.peek = token) Onward.advance
    fun s t h => ?_).begun.pre fun s t h => ⟨⟨h.1.1, h.2⟩, h.1.2⟩
  exact h.1.advance_lined (by rw [Cursor.kind_eq, h.2]; exact hline)

/-- Reading and yielding a token of a line, where something is known of what comes after it. -/
theorem next_to {P : Cursor → Prop}
    (h : ∀ s t, I s t → Meets σ .ahead k s t ∧ t.cursor.kind.isLayout = false)
    (hP : ∀ s t, I s t → P t.cursor.advance) :
    Sim E I (fun _ s t => Live σ k s t ∧ P t.cursor) (Token.shift σ.offset) Parser.next
      Parser.next where
  onward := Onward.advance
  run s t hI :=
    .inr ⟨(h s t hI).1.peek, (h s t hI).1.advance_plain (h s t hI).2, hP s t hI⟩

/-- What reads a token leaves fewer of them. -/
theorem reads {m : Nat} {p : Parser β} {q : Parser α} (h : Sim E I J φ p q)
    (hq : ∀ t, (q t).2 = t.move Cursor.advance)
    (hI : ∀ s t, I s t → t.cursor.kind ≠ .eof ∧ t.remaining ≤ m) :
    Sim E I (fun a => Within m (J a)) φ p q where
  onward := h.onward
  run s t hi := by
    obtain ⟨hk, hle⟩ := hI s t hi
    have hlt : (q t).2.remaining < m := by
      rw [hq]
      exact Nat.lt_of_lt_of_le (Cursor.remaining_advance_lt hk) hle
    exact (h.run s t hi).imp_right fun ⟨hval, hj⟩ => ⟨hval, hj, hlt⟩

theorem next (h : ∀ s t, I s t → Meets σ .ahead k s t ∧ t.cursor.kind.isLayout = false) :
    Sim E I (fun _ => Live σ k) (Token.shift σ.offset) Parser.next Parser.next :=
  (next_to (P := fun _ => True) h fun _ _ _ => trivial).post fun _ _ _ h => h.1

/-- What holds after an attempt to read a token. -/
def AfterEat {ε : Type} (P Q : Rel) : Option ε → Rel
  | some _ => P
  | none => Q

/-- Reading a token of a line, if it is of a certain kind. -/
theorem eat (next : TokenKind) (hnext : next.isLayout = false)
    (h : ∀ s t, I s t → Meets σ .ahead k s t) :
    Sim E I (AfterEat (Live σ k) fun s t => I s t ∧ t.cursor.kind ≠ next)
      (Option.map (Token.shift σ.offset)) (Parser.eat next) (Parser.eat next) where
  onward t := Onward.eat t next
  run s t hI := by
    have hmeets := h s t hI
    refine .inr ?_
    by_cases hk : t.cursor.kind = next
    · simp only [Parser.eat, Cursor.eat, hmeets.kind, if_pos hk, hmeets.peek]
      refine ⟨rfl, hmeets.advance_plain ?_⟩
      rw [hk]
      exact hnext
    · simp only [Parser.eat, Cursor.eat, hmeets.kind, if_neg hk]
      exact ⟨rfl, hI, hk⟩

theorem eats (next : TokenKind) (hnext : next.isLayout = false)
    (h : ∀ s t, I s t → Meets σ .ahead k s t) :
    Sim E I (Either (Live σ k) fun s t => I s t ∧ t.cursor.kind ≠ next) id (Parser.eats next)
      (Parser.eats next) := by
  unfold Parser.eats
  refine (eat next hnext h).bind fun token => ?_
  cases token with
  | some token => exact .pure rfl fun s t hlive => hlive
  | none => exact .pure rfl fun s t hI => hI

private theorem eats_eq (next : TokenKind) (t : ParserState) :
    Parser.eats next t
      = if t.cursor.kind = next then (true, t.move Cursor.advance) else (false, t) := by
  show ((t.cursor.eat next).1.isSome, { t with cursor := (t.cursor.eat next).2 }) = _
  rw [Cursor.eat]
  split <;> rfl

/-- Where the token is read, fewer of them are left. -/
theorem eats_within {m : Nat} (next : TokenKind) (hnext : next.isLayout = false)
    (h : ∀ s t, I s t → Meets σ .ahead k s t)
    (hm : ∀ s t, I s t → t.cursor.kind = next → t.remaining ≤ m) :
    Sim E I (Either (Within m (Live σ k)) fun s t => I s t ∧ t.cursor.kind ≠ next) id
      (Parser.eats next) (Parser.eats next) where
  onward := (eats (E := E) next hnext h).onward
  run s t hI := by
    have hrun := (eats (E := E) next hnext h).run s t hI
    rw [eats_eq next t] at hrun ⊢
    split at hrun
    · rename_i hk
      have hne : t.cursor.kind ≠ .eof := by
        intro heq
        rw [← hk, heq] at hnext
        cases hnext
      rw [if_pos hk]
      exact hrun.imp_right fun ⟨hval, hj⟩ =>
        ⟨hval, hj, Nat.lt_of_lt_of_le (Cursor.remaining_advance_lt hne) (hm s t hI hk)⟩
    · rename_i hk
      rw [if_neg hk]
      exact hrun

theorem eat_lost (next : TokenKind) :
    Sim E (Meets σ .lost k) (fun _ => Meets σ .lost k) (Option.map (Token.shift σ.offset))
      (Parser.eat next) (Parser.eat next) where
  onward t := Onward.eat t next
  run s t h := by
    have hahead := h.of_lost .ahead k
    refine .inr ?_
    by_cases hk : t.cursor.kind = next
    · simp only [Parser.eat, Cursor.eat, hahead.kind, if_pos hk, hahead.peek]
      exact ⟨rfl, h.advance_lost⟩
    · simp only [Parser.eat, Cursor.eat, hahead.kind, if_neg hk]
      exact ⟨rfl, h⟩

theorem advance_lost :
    Sim E (Meets σ .lost k) (fun _ => Meets σ .lost k) id Parser.advance Parser.advance :=
  move Onward.advance fun _ _ => Meets.advance_lost

/-- Passing over the rest of a bracket. -/
theorem skipToClosing :
    Sim E (Meets σ .lined k) (fun _ => Meets σ .lined k) id Parser.skipToClosing
      Parser.skipToClosing :=
  move Onward.skipToClosing fun _ _ => Meets.skipToClosing

theorem skipToClosing_lost :
    Sim E (Meets σ .lost k) (fun _ => Meets σ .lost k) id Parser.skipToClosing
      Parser.skipToClosing :=
  move Onward.skipToClosing fun _ _ => Meets.skipToClosing_lost

theorem skipLine_lost :
    Sim E (Meets σ .lost k) (fun _ => Meets σ .lost k) id Parser.skipLine Parser.skipLine :=
  move Onward.skipLine fun _ _ => Meets.skipLine_lost

/-- Passing over newlines; something else comes next. -/
theorem skipNewlines :
    Sim E (Meets σ .anywhere k) (fun _ s t => Meets σ .anywhere k s t ∧ t.cursor.kind ≠ .newline)
      id Parser.skipNewlines Parser.skipNewlines :=
  move Onward.skipNewlines fun _ t h => ⟨Meets.skipNewlines h, Cursor.kind_skipNewlines t.cursor⟩

/-- A fault in the part in front ends all. What is known of the tokens ahead stays known. -/
theorem report_at {fault : SyntaxFault} {span span' : Span} {P : Cursor → Prop}
    (hspan : span = span'.shift σ.offset) (h : ∀ s t, I s t → Meets σ stage k s t)
    (hP : ∀ s t, I s t → P t.cursor) :
    Sim E I (fun _ s t => Meets σ .lost k s t ∧ P t.cursor) id (Parser.report fault span)
      (Parser.report fault span') where
  onward t := ⟨List.suffix_rfl, List.suffix_rfl, rfl, List.prefix_append _ _⟩
  run s t hI := by
    subst hspan
    rcases (h s t hI).report fault span' with ⟨rest, hrest, hσ⟩ | hlost
    · exact .inl (E.fault hσ (List.append_ne_nil_of_right_ne_nil _ (List.cons_ne_nil _ _)))
    · exact .inr ⟨rfl, hlost, hP s t hI⟩

theorem report {fault : SyntaxFault} {span span' : Span} (hspan : span = span'.shift σ.offset)
    (h : ∀ s t, I s t → Meets σ stage k s t) :
    Sim E I (fun _ => Meets σ .lost k) id (Parser.report fault span)
      (Parser.report fault span') :=
  (report_at (P := fun _ => True) hspan h fun _ _ _ => trivial).post fun _ _ _ h => h.1

theorem expected {expectation : Expectation} {token token' : Token}
    (htoken : token = token'.shift σ.offset) (h : ∀ s t, I s t → Meets σ stage k s t) :
    Sim E I (fun _ => Meets σ .lost k) id (Parser.expected expectation token)
      (Parser.expected expectation token') := by
  subst htoken
  exact report rfl h

/-! ### Where the part in front is used up -/

theorem look_bind {f : Cursor → α} {g : α → Parser γ} (t : ParserState) :
    (Parser.look f >>= g) t = g (f t.cursor) t := rfl

theorem peek_bind {g : Token → Parser γ} (t : ParserState) :
    (Parser.peek >>= g) t = g t.cursor.peek t := rfl

/-- Nothing is left but the end of input. -/
def AtEnd (t : ParserState) : Prop := ∃ size, t.cursor.after <:+ [Token.endOfInput size]

theorem AtEnd.kind {t : ParserState} (h : AtEnd t) : t.cursor.kind = .eof := by
  obtain ⟨size, hafter⟩ := h
  rw [Cursor.kind_eq, Cursor.peek, Cursor.peekNth]
  rcases List.suffix_cons_iff.1 hafter with heq | hnil
  · rw [heq]
    rfl
  · rw [List.suffix_nil.1 hnil]
    rfl

/-- Where no token of the part in front is left, it is used up. -/
theorem ahead_or_atEnd {s t : ParserState} (h : Meets σ .anywhere k s t) :
    Meets σ .ahead k s t ∨ ((∃ rest hrest, σ = .front rest hrest) ∧ AtEnd t) := by
  cases σ with
  | back past n => exact .inl h
  | front rest hrest =>
    by_cases hk : t.cursor.kind = .eof
    · obtain ⟨ts, size, ht, -, hlaid⟩ := h.2.1.after
      cases ts with
      | nil => exact .inr ⟨⟨rest, hrest, rfl⟩, size, by rw [ht]; exact List.suffix_rfl⟩
      | cons u us =>
        rw [Cursor.kind_eq, Cursor.peek_of_after ht] at hk
        exact absurd hk hlaid.kind_ne_eof
    · exact .inl (h.ahead_of_ne hk)

/-- What reports a fault at the end of input need be followed only where a token is left. -/
theorem of_ahead {p : Parser β} {q : Parser α}
    (h : Sim E (fun s t => I s t ∧ Meets σ .ahead k s t) J φ p q)
    (hI : ∀ s t, I s t → Meets σ .anywhere k s t)
    (hend : ∀ t, AtEnd t → (q t).2.errors ≠ []) : Sim E I J φ p q where
  onward := h.onward
  run s t hi := by
    rcases ahead_or_atEnd (hI s t hi) with hahead | ⟨⟨rest, hrest, hσ⟩, hatEnd⟩
    · exact h.run s t ⟨hi, hahead⟩
    · exact .inl (E.fault hσ (hend t hatEnd))

/-- The way out `E`, or else the part in front is used up. -/
def orEnd (E : Escape σ) : Escape σ where
  holds t := E.holds t ∨ ((∃ rest hrest, σ = .front rest hrest) ∧ AtEnd t)
  onward h ht := ht.imp (E.onward h) fun ⟨hσ, size, hafter⟩ => ⟨hσ, size, h.after.trans hafter⟩
  fault hσ herrors := .inl (E.fault hσ herrors)

/-- With that way out some token may be taken to be left. -/
theorem ahead_of_orEnd {p : Parser β} {q : Parser α}
    (h : Sim (orEnd E) I (fun _ => Begun (Meets σ .anywhere k)) φ p q) :
    Sim (orEnd E) I (fun _ => Begun (Meets σ .ahead k)) φ p q where
  onward := h.onward
  run s t hi := by
    rcases h.run s t hi with hE | ⟨hval, hmeets, hbegun⟩
    · exact .inl hE
    · rcases ahead_or_atEnd hmeets with hahead | hend
      · exact .inr ⟨hval, hahead, hbegun⟩
      · exact .inl (.inr hend)

/-- Where the part in front is used up, what comes next has to report a fault. -/
theorem bind_of_orEnd {p : Parser β} {q : Parser α} {f : β → Parser δ} {g : α → Parser γ}
    (h : Sim (orEnd E) I J φ p q) (hf : ∀ a, Sim E (J a) K ψ (f (φ a)) (g a))
    (hend : ∀ a t, AtEnd t → (g a t).2.errors ≠ []) :
    Sim E I K ψ (p >>= f) (q >>= g) where
  onward t := (h.onward t).trans ((hf (q t).1).onward (q t).2)
  run s t hI := by
    rcases h.run s t hI with (hE | ⟨⟨rest, hrest, hσ⟩, hatEnd⟩) | ⟨hval, hJ⟩
    · exact .inl (E.onward ((hf (q t).1).onward (q t).2) hE)
    · exact .inl (E.fault hσ (hend _ _ hatEnd))
    · have := (hf (q t).1).run (p s).2 (q t).2 hJ
      rw [← hval] at this
      exact this

end Sim

end PyAtlas
