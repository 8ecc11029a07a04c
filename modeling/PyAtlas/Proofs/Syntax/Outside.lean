import PyAtlas.Proofs.Token.Words
import PyAtlas.Syntax.Lookahead

/-!
# What stands outside of brackets

Which colon ends a header, and whether a display is a dictionary, is decided by the tokens that
stand outside of brackets: a colon there belongs to the last lambda before it that has none yet.
`Nested` says that brackets match, `outside` leaves out what they hold, and `pendingLambdas`
counts the lambdas that still lack their colon.

## Key results
- `Nested.outside_append`: rows with matching brackets are looked at one by one.
- `pendingLambdas_append`: so are the lambdas that lack their colon.
- `Nested.colonFollows`: whether a colon follows is decided by what stands outside of brackets.
- `Nested.closingDistance`: the bracket that closes is found behind matching brackets.
-/

namespace PyAtlas

/-! ### Matching brackets -/

/-- The kinds of some words. -/
def kindsOf (words : List Word) : List TokenKind := words.map Word.kind

@[simp] theorem kindsOf_nil : kindsOf [] = [] := rfl

@[simp] theorem kindsOf_cons (w : Word) (words : List Word) :
    kindsOf (w :: words) = w.kind :: kindsOf words := rfl

@[simp] theorem kindsOf_append (words words' : List Word) :
    kindsOf (words ++ words') = kindsOf words ++ kindsOf words' := List.map_append

/-- Kinds of tokens that are no brackets, end no line and are no error. -/
def TokenKind.isInline : TokenKind → Bool
  | .operator op => !(op.isOpening || op.isClosing)
  | .error _ => false
  | k => !k.isLayout

/-- Brackets match. -/
inductive Nested : List TokenKind → Prop
  | nil : Nested []
  | append {ks ks' : List TokenKind} : Nested ks → Nested ks' → Nested (ks ++ ks')
  | one {k : TokenKind} : k.isInline = true → Nested [k]
  | bracket {opening closing : Operator} {ks : List TokenKind} :
    opening.isOpening = true → closing.isClosing = true → Nested ks →
    Nested (.operator opening :: ks ++ [.operator closing])

theorem Nested.cons {k : TokenKind} {ks : List TokenKind} (hk : k.isInline = true)
    (h : Nested ks) : Nested (k :: ks) :=
  .append (.one hk) h

/-- Kinds of tokens that neither end a line nor are an error. -/
def TokenKind.goesOn : TokenKind → Bool
  | .error _ => false
  | k => !k.isLayout

theorem TokenKind.goesOn_of_isInline {k : TokenKind} (h : k.isInline = true) :
    k.goesOn = true := by
  cases k <;> first | rfl | exact h

theorem Nested.goesOn {ks : List TokenKind} (h : Nested ks) : ∀ k ∈ ks, k.goesOn = true := by
  induction h with
  | nil => exact nofun
  | append _ _ ih ih' => exact fun k hk => (List.mem_append.1 hk).elim (ih k) (ih' k)
  | one hk => exact List.forall_mem_singleton.2 (TokenKind.goesOn_of_isInline hk)
  | bracket _ _ _ ih =>
    refine fun k hk => (List.mem_append.1 hk).elim (fun hk => ?_) fun hk => ?_
    · exact (List.mem_cons.1 hk).elim (fun heq => heq ▸ rfl) (ih k)
    · exact List.mem_singleton.1 hk ▸ rfl

/-- The number of open brackets behind a token. A bracket that closes nothing is not counted. -/
def depthBehind (depth : Nat) : TokenKind → Nat
  | .operator op =>
    if op.isOpening then depth + 1 else if op.isClosing then depth - 1 else depth
  | _ => depth

/-! ### Outside of brackets -/

/-- The kinds that stand outside of brackets, with some brackets open. -/
def outsideFrom : (depth : Nat) → List TokenKind → List TokenKind
  | _, [] => []
  | depth, .operator op :: ks =>
    if op.isOpening then outsideFrom (depth + 1) ks
    else if op.isClosing then outsideFrom (depth - 1) ks
    else if depth = 0 then .operator op :: outsideFrom depth ks
    else outsideFrom depth ks
  | depth, k :: ks => if depth = 0 then k :: outsideFrom depth ks else outsideFrom depth ks

/-- The kinds that stand outside of brackets. -/
def outside (ks : List TokenKind) : List TokenKind := outsideFrom 0 ks

/-- A word of the given kind stands outside of brackets. -/
def StandsOutside (words : List Word) (k : TokenKind) : Prop := k ∈ outside (kindsOf words)

instance (words : List Word) (k : TokenKind) : Decidable (StandsOutside words k) :=
  inferInstanceAs (Decidable (k ∈ outside (kindsOf words)))

section Outside

variable {k : TokenKind} {ks : List TokenKind} {depth : Nat} {op : Operator}

theorem outsideFrom_opening (h : op.isOpening = true) (ks : List TokenKind) :
    outsideFrom depth (.operator op :: ks) = outsideFrom (depth + 1) ks := by
  rw [outsideFrom, if_pos h]

theorem Operator.not_isOpening (h : op.isClosing = true) : op.isOpening = false := by
  cases op <;> first | rfl | cases h

theorem outsideFrom_closing (h : op.isClosing = true) (ks : List TokenKind) :
    outsideFrom (depth + 1) (.operator op :: ks) = outsideFrom depth ks := by
  rw [outsideFrom, if_neg (by simp [Operator.not_isOpening h]), if_pos h, Nat.add_sub_cancel]

/-- Each token counts by the brackets that are open where it stands. -/
theorem outsideFrom_cons (depth : Nat) (k : TokenKind) (ks : List TokenKind) :
    outsideFrom depth (k :: ks) = outsideFrom depth [k] ++ outsideFrom (depthBehind depth k) ks := by
  cases k with
  | operator op =>
    simp only [outsideFrom, depthBehind]
    split
    · rfl
    · split
      · rfl
      · split <;> rfl
  | _ =>
    simp only [outsideFrom, depthBehind]
    split <;> rfl

theorem outsideFrom_zero (hk : k.isInline = true) (ks : List TokenKind) :
    outsideFrom 0 (k :: ks) = k :: outsideFrom 0 ks := by
  cases k with
  | operator op =>
    rw [TokenKind.isInline, Bool.not_eq_true', Bool.or_eq_false_iff] at hk
    simp [outsideFrom, hk.1, hk.2]
  | _ => rfl

theorem outsideFrom_succ (hk : k.isInline = true) (ks : List TokenKind) :
    outsideFrom (depth + 1) (k :: ks) = outsideFrom (depth + 1) ks := by
  cases k with
  | operator op =>
    rw [TokenKind.isInline, Bool.not_eq_true', Bool.or_eq_false_iff] at hk
    simp [outsideFrom, hk.1, hk.2]
  | _ => rfl

theorem Nested.outsideFrom_succ (h : Nested ks) (rest : List TokenKind) :
    outsideFrom (depth + 1) (ks ++ rest) = outsideFrom (depth + 1) rest := by
  induction h generalizing depth rest with
  | nil => rfl
  | append _ _ ih ih' => rw [List.append_assoc, ih, ih']
  | one hk => exact PyAtlas.outsideFrom_succ hk rest
  | bracket ho hc _ ih =>
    rw [List.append_assoc, List.cons_append, outsideFrom_opening ho, ih, List.singleton_append,
      outsideFrom_closing hc]

/-- Matching brackets leave none open. -/
theorem Nested.foldl_depthBehind (h : Nested ks) (depth : Nat) :
    ks.foldl depthBehind depth = depth := by
  induction h generalizing depth with
  | nil => rfl
  | append _ _ ih ih' => rw [List.foldl_append, ih, ih']
  | @one k hk =>
    cases k with
    | operator op =>
      rw [TokenKind.isInline, Bool.not_eq_true', Bool.or_eq_false_iff] at hk
      simp [depthBehind, hk.1, hk.2]
    | _ => rfl
  | bracket ho hc _ ih =>
    rw [List.cons_append, List.foldl_cons, List.foldl_append, ih]
    simp [depthBehind, ho, hc, Operator.not_isOpening hc]

/-- What brackets hold does not stand outside of them. -/
theorem outside_bracket {opening closing : Operator} (ho : opening.isOpening = true)
    (hc : closing.isClosing = true) (h : Nested ks) (rest : List TokenKind) :
    outside (.operator opening :: ks ++ .operator closing :: rest) = outside rest := by
  rw [outside, List.cons_append, outsideFrom_opening ho, h.outsideFrom_succ, outsideFrom_closing hc]
  rfl

theorem Nested.outside_append (h : Nested ks) (rest : List TokenKind) :
    outside (ks ++ rest) = outside ks ++ outside rest := by
  induction h generalizing rest with
  | nil => rfl
  | append _ _ ih ih' => rw [List.append_assoc, ih, ih', ih, List.append_assoc]
  | one hk =>
    rw [List.singleton_append, outside, outsideFrom_zero hk, outside, outsideFrom_zero hk]
    rfl
  | bracket ho hc h _ =>
    rw [List.append_assoc, List.singleton_append, outside_bracket ho hc h, outside_bracket ho hc h]
    rfl

theorem outside_one (hk : k.isInline = true) : outside [k] = [k] := outsideFrom_zero hk []

end Outside

/-! ### Lambdas -/

/-- How many lambdas lack their colon behind some kinds of tokens; `none` if a colon stands where
    no lambda lacks one. -/
def pendingLambdas : (lambdas : Nat) → List TokenKind → Option Nat
  | lambdas, [] => some lambdas
  | lambdas, .keyword .lambda :: ks => pendingLambdas (lambdas + 1) ks
  | 0, .operator .colon :: _ => none
  | lambdas + 1, .operator .colon :: ks => pendingLambdas lambdas ks
  | lambdas, _ :: ks => pendingLambdas lambdas ks

theorem pendingLambdas_append (ks ks' : List TokenKind) (lambdas : Nat) :
    pendingLambdas lambdas (ks ++ ks')
      = (pendingLambdas lambdas ks).bind (pendingLambdas · ks') := by
  fun_induction pendingLambdas lambdas ks with
  | case1 => rfl
  | case2 lambdas ks ih => rw [List.cons_append, pendingLambdas, ih]
  | case3 => rfl
  | case4 lambdas ks ih => rw [List.cons_append, pendingLambdas, ih]
  | case5 lambdas k ks hlambda hcolon hcolon' ih =>
    rw [List.cons_append, pendingLambdas.eq_5 lambdas k _ hlambda hcolon hcolon', ih]

theorem pendingLambdas_of_forall {ks : List TokenKind}
    (h : ∀ k ∈ ks, k ≠ .keyword .lambda ∧ k ≠ .operator .colon) (lambdas : Nat) :
    pendingLambdas lambdas ks = some lambdas := by
  fun_induction pendingLambdas lambdas ks with
  | case1 => rfl
  | case2 => exact absurd rfl (h _ List.mem_cons_self).1
  | case3 => exact absurd rfl (h _ List.mem_cons_self).2
  | case4 => exact absurd rfl (h _ List.mem_cons_self).2
  | case5 lambdas k ks _ _ _ ih => exact ih fun k hk => h k (List.mem_cons_of_mem _ hk)

/-- Without lambdas no colon belongs to one. -/
theorem colon_notMem_of_pendingLambdas {ks : List TokenKind} {lambdas : Nat}
    (hlambda : .keyword .lambda ∉ ks) (h : pendingLambdas 0 ks = some lambdas) :
    .operator .colon ∉ ks := by
  induction ks with
  | nil => exact List.not_mem_nil
  | cons k ks ih =>
    rw [List.mem_cons, not_or] at hlambda ⊢
    have hcolon : .operator .colon ≠ k := by
      rintro rfl
      cases h
    rw [pendingLambdas.eq_5 0 k ks (fun heq => hlambda.1 heq.symm) (fun _ heq => hcolon heq.symm)
      (fun _ heq => absurd heq (by simp))] at h
    exact ⟨hcolon, ih hlambda.2 h⟩

/-! ### Where a colon follows -/

/-- Kinds of tokens behind which no colon of an entry is looked for. -/
def TokenKind.endsKey : TokenKind → Bool
  | .operator .comma | .keyword .for => true
  | _ => false

section ColonFollows

variable {t : Token} {depth lambdas : Nat}

theorem colonFollows_inside (h : t.kind.isInline = true) (rest : List Token) :
    colonFollows (depth + 1) lambdas (t :: rest) = colonFollows (depth + 1) lambdas rest := by
  rw [colonFollows.eq_def]
  dsimp only
  generalize t.kind = k at h
  cases k
  case keyword word => cases word <;> rfl
  case operator op => cases op <;> first | rfl | cases h
  all_goals first | rfl | cases h

theorem colonFollows_opening {op : Operator} (h : t.kind = .operator op)
    (hop : op.isOpening = true) (rest : List Token) :
    colonFollows depth lambdas (t :: rest) = colonFollows (depth + 1) lambdas rest := by
  rw [colonFollows.eq_def]
  dsimp only
  rw [h]
  cases op <;> first | rfl | cases hop

theorem colonFollows_closing {op : Operator} (h : t.kind = .operator op)
    (hop : op.isClosing = true) (rest : List Token) :
    colonFollows (depth + 1) lambdas (t :: rest) = colonFollows depth lambdas rest := by
  rw [colonFollows.eq_def]
  dsimp only
  rw [h]
  cases op <;> first | rfl | cases hop

/-- Outside of brackets a token counts by what it does to the lambdas, unless it ends a key. -/
theorem colonFollows_outside {lambdas' : Nat} (h : t.kind.isInline = true)
    (hlambdas : pendingLambdas lambdas [t.kind] = some lambdas') (rest : List Token) :
    colonFollows 0 lambdas (t :: rest) = (!t.kind.endsKey && colonFollows 0 lambdas' rest) := by
  rw [colonFollows.eq_def]
  dsimp only
  generalize t.kind = k at h hlambdas
  cases k
  case keyword word => cases word <;> cases hlambdas <;> rfl
  case operator op =>
    cases op
    case colon => cases lambdas <;> cases hlambdas; rfl
    all_goals first | (cases h; done) | (cases hlambdas; rfl)
  all_goals first | (cases h; done) | (cases hlambdas; rfl)

theorem Nested.colonFollows_inside {ks : List TokenKind} (h : Nested ks) {ts : List Token}
    (hts : ts.map Token.kind = ks) (rest : List Token) :
    colonFollows (depth + 1) lambdas (ts ++ rest) = colonFollows (depth + 1) lambdas rest := by
  induction h generalizing depth ts rest with
  | nil => rw [List.map_eq_nil_iff.1 hts, List.nil_append]
  | append _ _ ih ih' =>
    obtain ⟨us, us', rfl, hus, hus'⟩ := List.map_eq_append_iff.1 hts
    rw [List.append_assoc, ih hus, ih' hus']
  | one hk =>
    obtain ⟨t, rfl, rfl⟩ := List.map_eq_singleton_iff.1 hts
    exact PyAtlas.colonFollows_inside hk rest
  | bracket ho hc _ ih =>
    obtain ⟨us, closing, rfl, hus, hclosing⟩ := List.map_eq_append_iff.1 hts
    obtain ⟨t, us, rfl, ht, hus⟩ := List.map_eq_cons_iff.1 hus
    obtain ⟨t', rfl, ht'⟩ := List.map_eq_singleton_iff.1 hclosing
    rw [List.append_assoc, List.cons_append, colonFollows_opening ht ho, ih hus,
      List.singleton_append, colonFollows_closing ht' hc]

/-- Whether a colon follows is decided by what stands outside of brackets. -/
theorem Nested.colonFollows {ks : List TokenKind} (h : Nested ks) {lambdas' : Nat}
    (hlambdas : pendingLambdas lambdas (outside ks) = some lambdas') {ts : List Token}
    (hts : ts.map Token.kind = ks) (rest : List Token) :
    PyAtlas.colonFollows 0 lambdas (ts ++ rest)
      = (!(outside ks).any TokenKind.endsKey && PyAtlas.colonFollows 0 lambdas' rest) := by
  induction h generalizing lambdas lambdas' ts rest with
  | nil =>
    cases hlambdas
    rw [List.map_eq_nil_iff.1 hts]
    rfl
  | append hks _ ih ih' =>
    obtain ⟨us, us', rfl, hus, hus'⟩ := List.map_eq_append_iff.1 hts
    rw [hks.outside_append, pendingLambdas_append, Option.bind_eq_some_iff] at hlambdas
    obtain ⟨middle, hmiddle, hlambdas⟩ := hlambdas
    rw [List.append_assoc, ih hmiddle hus, ih' hlambdas hus', hks.outside_append, List.any_append,
      Bool.not_or, Bool.and_assoc]
  | one hk =>
    obtain ⟨t, rfl, rfl⟩ := List.map_eq_singleton_iff.1 hts
    rw [outside_one hk] at hlambdas ⊢
    rw [List.singleton_append, colonFollows_outside hk hlambdas, List.any_cons, List.any_nil,
      Bool.or_false]
  | bracket ho hc hks =>
    obtain ⟨us, closing, rfl, hus, hclosing⟩ := List.map_eq_append_iff.1 hts
    obtain ⟨t, us, rfl, ht, hus⟩ := List.map_eq_cons_iff.1 hus
    obtain ⟨t', rfl, ht'⟩ := List.map_eq_singleton_iff.1 hclosing
    rw [outside_bracket ho hc hks] at hlambdas ⊢
    cases hlambdas
    rw [List.append_assoc, List.cons_append, colonFollows_opening ht ho,
      hks.colonFollows_inside hus, List.singleton_append, colonFollows_closing ht' hc]
    rfl

end ColonFollows

/-! ### Where a bracket closes -/

section ClosingDistance

variable {t : Token} {op : Operator}

theorem closingDistance_inline (h : t.kind.isInline = true) (depth : Nat) (rest : List Token) :
    Cursor.closingDistance depth (t :: rest) = Cursor.closingDistance depth rest + 1 := by
  rw [Cursor.closingDistance.eq_def]
  dsimp only
  generalize t.kind = k at h
  cases k
  case operator op => cases op <;> first | rfl | cases h
  all_goals first | rfl | cases h

theorem closingDistance_opening (h : t.kind = .operator op) (hop : op.isOpening = true)
    (depth : Nat) (rest : List Token) :
    Cursor.closingDistance depth (t :: rest) = Cursor.closingDistance (depth + 1) rest + 1 := by
  rw [Cursor.closingDistance.eq_def]
  dsimp only
  rw [h]
  exact if_pos hop

theorem closingDistance_closing (h : t.kind = .operator op) (hop : op.isClosing = true)
    (depth : Nat) (rest : List Token) :
    Cursor.closingDistance (depth + 1) (t :: rest) = Cursor.closingDistance depth rest + 1 := by
  rw [Cursor.closingDistance.eq_def]
  dsimp only
  rw [h]
  exact (if_neg (by simp [Operator.not_isOpening hop])).trans (if_pos hop)

/-- The bracket that closes is found behind matching brackets. -/
theorem Nested.closingDistance {ks : List TokenKind} (h : Nested ks) {ts : List Token}
    (hts : ts.map Token.kind = ks) (depth : Nat) (rest : List Token) :
    Cursor.closingDistance depth (ts ++ rest)
      = ts.length + Cursor.closingDistance depth rest := by
  induction h generalizing depth ts rest with
  | nil =>
    rw [List.map_eq_nil_iff.1 hts]
    simp
  | append _ _ ih ih' =>
    obtain ⟨us, us', rfl, hus, hus'⟩ := List.map_eq_append_iff.1 hts
    rw [List.append_assoc, ih hus, ih' hus', List.length_append]
    omega
  | one hk =>
    obtain ⟨t, rfl, rfl⟩ := List.map_eq_singleton_iff.1 hts
    rw [List.singleton_append, closingDistance_inline hk, List.length_singleton, Nat.add_comm]
  | bracket ho hc _ ih =>
    obtain ⟨us, closing, rfl, hus, hclosing⟩ := List.map_eq_append_iff.1 hts
    obtain ⟨t, us, rfl, ht, hus⟩ := List.map_eq_cons_iff.1 hus
    obtain ⟨t', rfl, ht'⟩ := List.map_eq_singleton_iff.1 hclosing
    rw [List.append_assoc, List.cons_append, closingDistance_opening ht ho, ih hus,
      List.singleton_append, closingDistance_closing ht' hc]
    simp only [List.length_append, List.length_cons, List.length_nil]
    omega

end ClosingDistance

end PyAtlas
