import PyAtlas.Proofs.Syntax.Outside

/-!
# Words with matching brackets

The lexer and the parser both count brackets: the one to know where a line ends, the other to
know which commas and colons stand on their own. Words whose brackets match leave every such
count as it was.

## Key results
- `Balanced`: brackets match, and commas and colons stand outside of them only if allowed.
- `Balanced.depth`: a line of such words ends where it ends.
- `Balanced.nested`, `Balanced.outside`: what the parser's counts need to know of such words.
-/

namespace PyAtlas

/-- Kinds of words that neither open nor close anything, and end no line. -/
def TokenKind.isPlain : TokenKind → Bool
  | .operator op => !(op.isOpening || op.isClosing || op == .comma || op == .colon)
  | .keyword .lambda | .keyword .for | .error _ => false
  | k => !k.isLayout

theorem TokenKind.isInline_of_isPlain {k : TokenKind} (h : k.isPlain = true) :
    k.isInline = true := by
  cases k with
  | operator op => cases op <;> first | rfl | cases h
  | keyword word => rfl
  | _ => exact h

/-- Brackets match. Outside of them commas and colons stand only if that is allowed; what goes
    for commas goes for the word `for`, behind which no colon is looked for either. -/
inductive Balanced : (commas colons : Bool) → List Word → Prop
  | nil {commas colons : Bool} : Balanced commas colons []
  | append {commas colons : Bool} {words words' : List Word} :
    Balanced commas colons words → Balanced commas colons words' →
    Balanced commas colons (words ++ words')
  | plain {commas colons : Bool} {w : Word} : w.kind.isPlain = true → Balanced commas colons [w]
  | comma {colons : Bool} {text : String} : Balanced true colons [⟨.operator .comma, text⟩]
  | forWord {colons : Bool} {text : String} : Balanced true colons [⟨.keyword .for, text⟩]
  | colon {commas : Bool} {text : String} : Balanced commas true [⟨.operator .colon, text⟩]
  | bracket {commas colons : Bool} {opening closing : Operator} {text text' : String}
    {words : List Word} :
    opening.isOpening = true → closing.isClosing = true → Balanced true true words →
    Balanced commas colons
      (⟨.operator opening, text⟩ :: words ++ [⟨.operator closing, text'⟩])

section Depth

open Lexer

variable {l : Layout}

theorem depth_after_plain {k : TokenKind} (h : k.isPlain = true) (l : Layout) :
    (l.after k).depth = l.depth := by
  cases k with
  | operator op => cases op <;> first | rfl | cases h
  | _ => rfl

theorem depth_after_opening {op : Operator} (h : op.isOpening = true) :
    (l.after (.operator op)).depth = l.depth + 1 := by
  cases op <;> first | rfl | cases h

theorem depth_after_closing {op : Operator} (h : op.isClosing = true) :
    (l.after (.operator op)).depth = l.depth - 1 := by
  cases op <;> first | rfl | cases h

end Depth

namespace Balanced

variable {commas colons : Bool} {w : Word} {words words' : List Word}

theorem mono {commas' colons' : Bool} (h : Balanced commas colons words)
    (hcommas : commas = true → commas' = true) (hcolons : colons = true → colons' = true) :
    Balanced commas' colons' words := by
  induction h with
  | nil => exact .nil
  | append _ _ ih ih' => exact .append (ih hcommas hcolons) (ih' hcommas hcolons)
  | plain h => exact .plain h
  | comma =>
    obtain rfl := hcommas rfl
    exact .comma
  | forWord =>
    obtain rfl := hcommas rfl
    exact .forWord
  | colon =>
    obtain rfl := hcolons rfl
    exact .colon
  | bracket ho hc h _ => exact .bracket ho hc h

/-- In brackets commas and colons are allowed. -/
theorem inward (h : Balanced commas colons words) : Balanced true true words :=
  h.mono (fun _ => rfl) fun _ => rfl

theorem cons (hw : Balanced commas colons [w]) (h : Balanced commas colons words) :
    Balanced commas colons (w :: words) :=
  .append hw h

theorem nested (h : Balanced commas colons words) : Nested (kindsOf words) := by
  induction h with
  | nil => exact .nil
  | append _ _ ih ih' =>
    rw [kindsOf_append]
    exact .append ih ih'
  | plain h => exact .one (TokenKind.isInline_of_isPlain h)
  | comma => exact .one rfl
  | forWord => exact .one rfl
  | colon => exact .one rfl
  | bracket ho hc _ ih =>
    rw [kindsOf_append]
    exact .bracket ho hc ih

/-- What is not allowed does not stand outside of brackets, and no lambda does. -/
theorem outside (h : Balanced commas colons words) :
    ∀ k ∈ PyAtlas.outside (kindsOf words), (commas = false → k.endsKey = false)
      ∧ (colons = false → k ≠ .operator .colon) ∧ k ≠ .keyword .lambda := by
  induction h with
  | nil => exact nofun
  | append h _ ih ih' =>
    rw [kindsOf_append, h.nested.outside_append]
    exact fun k hk => (List.mem_append.1 hk).elim (ih k) (ih' k)
  | @plain _ _ w h =>
    rw [show kindsOf [w] = [w.kind] from rfl, outside_one (TokenKind.isInline_of_isPlain h)]
    refine List.forall_mem_singleton.2 ?_
    generalize w.kind = k at h
    refine ⟨fun _ => ?_, fun _ heq => ?_, fun heq => ?_⟩
    · cases k with
      | operator op => cases op <;> first | rfl | cases h
      | keyword word => cases word <;> first | rfl | cases h
      | _ => rfl
    all_goals
      subst heq
      cases h
  | comma => exact List.forall_mem_singleton.2 ⟨nofun, fun _ => nofun, nofun⟩
  | forWord => exact List.forall_mem_singleton.2 ⟨nofun, fun _ => nofun, nofun⟩
  | colon => exact List.forall_mem_singleton.2 ⟨fun _ => rfl, nofun, nofun⟩
  | bracket ho hc h _ =>
    rw [kindsOf_append]
    exact (outside_bracket ho hc h.nested []) ▸ nofun

theorem pendingLambdas (h : Balanced commas false words) (lambdas : Nat) :
    PyAtlas.pendingLambdas lambdas (PyAtlas.outside (kindsOf words)) = some lambdas :=
  pendingLambdas_of_forall (fun k hk => ⟨(h.outside k hk).2.2, (h.outside k hk).2.1 rfl⟩) lambdas

/-- The lexer counts as many open brackets behind balanced words as before them. -/
theorem depth (h : Balanced commas colons words) (l : Lexer.Layout) :
    (l.through words).depth = l.depth := by
  induction h generalizing l with
  | nil => rfl
  | append _ _ ih ih' => rw [Lexer.Layout.through_append, ih', ih]
  | plain h => exact depth_after_plain h l
  | comma => rfl
  | forWord => rfl
  | colon => rfl
  | bracket ho hc _ ih =>
    rw [Lexer.Layout.through_append, Lexer.Layout.through_cons, Lexer.Layout.through_cons,
      Lexer.Layout.through_nil]
    dsimp only
    rw [depth_after_closing hc, ih, depth_after_opening ho]
    rfl

end Balanced

end PyAtlas
