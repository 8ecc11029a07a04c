import PyAtlas.Declaration.Basic

/-!
# The marks between parameters

A signature shows the kinds of its parameters by a star and a slash between them. The printer
looks at the kinds of neighbours to know where a mark belongs; whoever reads the parameters back
has to go the other way: behind a star parameters are given by keyword only, and a slash changes
all parameters before it. `signatureItems` is what is printed, and `SignatureItem.read` is how it
is read. They undo each other where the kinds come in their order.

## Key results
- `marked_eq`: the printed parameters and marks, one by one.
- `read_signatureItems`: reading the items of ordered parameters gives back the parameters.
-/

namespace PyAtlas

/-! ### The order of parameters -/

/-- Where a kind stands among the parameters of a function. -/
def ParameterKind.rank : ParameterKind → Nat
  | .positionalOnly => 0
  | .positionalOrKeyword => 1
  | .varPositional => 2
  | .keywordOnly => 3
  | .varKeyword => 4

/-- Whether a parameter of the first kind may stand before one of the second. There is at most
    one parameter that takes the other positional arguments, and one for the other keywords. -/
def ParameterKind.mayPrecede (k k' : ParameterKind) : Bool :=
  k.rank < k'.rank || (k == k' && k != .varPositional && k != .varKeyword)

/-- The kinds of the parameters come in their order. -/
def KindsInOrder (ps : List ParameterShape) : Prop :=
  ps.Pairwise fun p q => p.kind.mayPrecede q.kind = true

instance (ps : List ParameterShape) : Decidable (KindsInOrder ps) :=
  inferInstanceAs (Decidable (ps.Pairwise _))

theorem ParameterKind.rank_le_of_mayPrecede {k k' : ParameterKind}
    (h : k.mayPrecede k' = true) : k.rank ≤ k'.rank := by
  revert h
  cases k <;> cases k' <;> decide

/-! ### Parameters and marks -/

/-- What stands between two commas of a signature. -/
inductive SignatureItem
  | parameter (shape : ParameterShape)
  | star
  | slash
deriving Repr, DecidableEq

namespace SignatureItem

/-- The written form of a parameter or a mark. -/
def render : SignatureItem → String
  | .parameter shape => shape.render
  | .star => "*"
  | .slash => "/"

/-- The kind of a parameter whose own marks show `kind`, behind a star or not. -/
def kindBehind (keywordOnly : Bool) (kind : ParameterKind) : ParameterKind :=
  match kind with
  | .varPositional | .varKeyword => kind
  | _ => if keywordOnly then .keywordOnly else .positionalOrKeyword

/-- A slash behind a parameter takes its name away from callers. -/
def beforeSlash (shape : ParameterShape) : ParameterShape :=
  if shape.kind = .positionalOrKeyword then { shape with kind := .positionalOnly } else shape

/-- Reads one item behind some parameters. The flag says whether a star has been read. -/
def read (before : List ParameterShape × Bool) : SignatureItem → List ParameterShape × Bool
  | .parameter shape =>
    (before.1 ++ [{ shape with kind := kindBehind before.2 shape.kind }],
      before.2 || shape.kind == .varPositional)
  | .star => (before.1, true)
  | .slash => (before.1.map beforeSlash, before.2)

end SignatureItem

/-- The parameters of a signature with the marks between them. -/
def signatureItems (starred : Bool) :
    (previous : Option ParameterKind) → List ParameterShape → List SignatureItem
  | _, [] => []
  | previous, p :: rest =>
    let star := p.kind == .keywordOnly && !starred && previous != some .keywordOnly
    let slash := p.kind == .positionalOnly && (rest.head?.map (·.kind)) != some .positionalOnly
    (if star then [.star] else []) ++ [.parameter p] ++ (if slash then [.slash] else [])
      ++ signatureItems starred (some p.kind) rest

/-- What is printed between the commas of a signature. -/
theorem marked_eq (starred : Bool) (previous : Option ParameterKind) (ps : List ParameterShape) :
    Signature.marked starred previous ps
      = (signatureItems starred previous ps).map SignatureItem.render := by
  induction ps generalizing previous with
  | nil => rfl
  | cons p ps ih =>
    rw [Signature.marked, signatureItems, ih]
    simp only [List.map_append, apply_ite (List.map SignatureItem.render), List.map_cons,
      List.map_nil, SignatureItem.render]

/-- Every item is a mark or one of the parameters. -/
theorem mem_of_mem_signatureItems {starred : Bool} {previous : Option ParameterKind}
    {ps : List ParameterShape} {p : ParameterShape}
    (h : .parameter p ∈ signatureItems starred previous ps) : p ∈ ps := by
  induction ps generalizing previous with
  | nil => cases h
  | cons q ps ih =>
    simp only [signatureItems, List.mem_append, List.mem_singleton, List.mem_ite_nil_right,
      SignatureItem.parameter.injEq, reduceCtorEq, and_false, false_or, or_false] at h
    rcases h with rfl | h
    · exact List.mem_cons_self
    · exact List.mem_cons_of_mem _ (ih h)

/-! ### Reading them back -/

section ReadBack

variable {starred : Bool} {previous : Option ParameterKind} {p : ParameterShape}
  {ps done : List ParameterShape} {keywordOnly : Bool}

theorem read_parameter (h : SignatureItem.kindBehind keywordOnly p.kind = p.kind) :
    SignatureItem.read (done, keywordOnly) (.parameter p)
      = (done ++ [p], keywordOnly || p.kind == .varPositional) := by
  rw [SignatureItem.read, h]

theorem exists_behind (h : ∃ q ∈ p :: ps, q.kind = .varPositional)
    (hp : p.kind ≠ .varPositional) : ∃ q ∈ ps, q.kind = .varPositional := by
  obtain ⟨q, hq, hvar⟩ := h
  rcases List.mem_cons.1 hq with rfl | hq
  · exact absurd hvar hp
  · exact ⟨q, hq, hvar⟩

/-- Parameters that no slash follows. Unless a star has been read, none of those that are given
    by keyword only has come, and if one parameter has a star of its own it is still to come. -/
theorem read_behindSlash (done : List ParameterShape) (horder : KindsInOrder ps)
    (hslash : ∀ p ∈ ps, p.kind ≠ .positionalOnly)
    (hbehind : keywordOnly = true → ∀ p ∈ ps, p.kind ≠ .positionalOrKeyword)
    (hbefore : keywordOnly = false → previous ≠ some .keywordOnly
      ∧ (starred = true → ∃ p ∈ ps, p.kind = .varPositional)) :
    ((signatureItems starred previous ps).foldl SignatureItem.read (done, keywordOnly)).1
      = done ++ ps := by
  induction ps generalizing previous done keywordOnly with
  | nil => exact (List.append_nil _).symm
  | cons p ps ih =>
    obtain ⟨hp, horder⟩ := List.pairwise_cons.1 horder
    obtain ⟨hnot, hslash⟩ := List.forall_mem_cons.1 hslash
    -- Behind a star or a parameter with a star, only ranks that are no less can follow.
    have hlater : 2 ≤ p.kind.rank → ∀ q ∈ ps, q.kind ≠ .positionalOrKeyword := by
      intro hrank q hq heq
      have hle := ParameterKind.rank_le_of_mayPrecede (hp q hq)
      rw [heq, show ParameterKind.rank .positionalOrKeyword = 1 from rfl] at hle
      omega
    have hahead : p.kind ≠ .varPositional → keywordOnly = false → starred = true →
        ∃ q ∈ ps, q.kind = .varPositional :=
      fun hplain hflag hstarred => exists_behind ((hbefore hflag).2 hstarred) hplain
    rw [signatureItems, List.append_cons done p ps]
    cases hkind : p.kind with
    | positionalOnly => exact absurd hkind hnot
    | positionalOrKeyword =>
      have hflag : keywordOnly = false := by
        cases keywordOnly with
        | false => rfl
        | true => exact absurd hkind (hbehind rfl p List.mem_cons_self)
      subst hflag
      show (List.foldl _ (SignatureItem.read (done, false) (.parameter p)) _).1 = _
      rw [read_parameter (by rw [hkind]; rfl), hkind]
      exact ih _ horder hslash nofun fun _ => ⟨nofun, hahead (by rw [hkind]; decide) rfl⟩
    | varPositional =>
      show (List.foldl _ (SignatureItem.read (done, keywordOnly) (.parameter p)) _).1 = _
      rw [read_parameter (by rw [hkind]; rfl), hkind, beq_self_eq_true, Bool.or_true]
      exact ih _ horder hslash (fun _ => hlater (by rw [hkind]; decide)) nofun
    | keywordOnly =>
      have hread : ((signatureItems starred (some .keywordOnly) ps).foldl SignatureItem.read
          (SignatureItem.read (done, true) (.parameter p))).1 = done ++ [p] ++ ps := by
        rw [read_parameter (by rw [hkind]; rfl)]
        exact ih _ horder hslash (fun _ => hlater (by rw [hkind]; decide)) nofun
      -- Either the star is printed here, or it has been read before.
      cases hstar : (!starred && previous != some .keywordOnly) with
      | true =>
        simp only [beq_self_eq_true, Bool.true_and, hstar, if_true]
        exact hread
      | false =>
        have hflag : keywordOnly = true := by
          cases keywordOnly with
          | true => rfl
          | false =>
            have hstarred : starred = true := by simpa [(hbefore rfl).1] using hstar
            obtain ⟨q, hq, hvar⟩ := hahead (by rw [hkind]; decide) rfl hstarred
            have hle := ParameterKind.rank_le_of_mayPrecede (hp q hq)
            rw [hkind, hvar] at hle
            exact absurd hle (by decide)
        subst hflag
        simp only [beq_self_eq_true, Bool.true_and, hstar]
        exact hread
    | varKeyword =>
      have hsame : (keywordOnly || ParameterKind.varKeyword == .varPositional) = keywordOnly :=
        Bool.or_false _
      show (List.foldl _ (SignatureItem.read (done, keywordOnly) (.parameter p)) _).1 = _
      rw [read_parameter (by rw [hkind]; rfl), hkind, hsame]
      exact ih _ horder hslash (fun _ => hlater (by rw [hkind]; decide))
        fun hflag => ⟨nofun, hahead (by rw [hkind]; decide) hflag⟩

/-- Parameters given by position only come first. -/
theorem not_positionalOnly_of_head (horder : KindsInOrder (p :: ps))
    (hp : p.kind ≠ .positionalOnly) : ∀ q ∈ p :: ps, q.kind ≠ .positionalOnly := by
  refine List.forall_mem_cons.2 ⟨hp, fun q hq heq => ?_⟩
  have hle := (List.pairwise_cons.1 horder).1 q hq
  rw [heq] at hle
  revert hp hle
  cases p.kind <;> decide

/-- As what a parameter in front of a slash is read before the slash has come. -/
def ParameterShape.unmarked (p : ParameterShape) : ParameterShape :=
  { p with kind := .positionalOrKeyword }

theorem beforeSlash_unmarked (h : p.kind = .positionalOnly) :
    SignatureItem.beforeSlash p.unmarked = p := by
  obtain ⟨name, kind, hasDefault, hint⟩ := p
  cases h
  rfl

theorem read_unmarked (hp : p.kind = .positionalOnly) :
    SignatureItem.read (done.map ParameterShape.unmarked, false) (.parameter p)
      = ((done ++ [p]).map ParameterShape.unmarked, false) := by
  rw [SignatureItem.read, hp, List.map_append]
  rfl

/-- The last parameter given by position only and the slash behind it. -/
theorem read_slash (horder : KindsInOrder (p :: ps)) (hp : p.kind = .positionalOnly)
    (hnone : ∀ q ∈ ps, q.kind ≠ .positionalOnly) (hdone : ∀ q ∈ done, q.kind = .positionalOnly)
    (hstarred : starred = true → ∃ q ∈ ps, q.kind = .varPositional) :
    ((signatureItems starred previous (p :: ps)).foldl SignatureItem.read
      (done.map ParameterShape.unmarked, false)).1 = done ++ p :: ps := by
  have hhead : (ps.head?.map (·.kind) != some .positionalOnly) = true := by
    cases ps with
    | nil => rfl
    | cons q ps => simpa using hnone q List.mem_cons_self
  have hall : ∀ q ∈ done ++ [p], q.kind = .positionalOnly :=
    List.forall_mem_append.2 ⟨hdone, List.forall_mem_singleton.2 hp⟩
  have hback : ((done ++ [p]).map ParameterShape.unmarked).map SignatureItem.beforeSlash
      = done ++ [p] := by
    rw [List.map_map]
    exact (List.map_congr_left fun q hq => beforeSlash_unmarked (hall q hq)).trans (List.map_id _)
  rw [signatureItems, hp, hhead]
  show (List.foldl _ (SignatureItem.read (SignatureItem.read _ (.parameter p)) .slash) _).1 = _
  rw [read_unmarked hp, SignatureItem.read, hback, List.append_cons done p ps]
  exact read_behindSlash _ (List.pairwise_cons.1 horder).2 hnone nofun fun _ => ⟨nofun, hstarred⟩

/-- Parameters of which the first is given by position only. They are read as ordinary ones up
    to the slash, which makes all of them what they are. -/
theorem read_beforeSlash (done : List ParameterShape) (horder : KindsInOrder (p :: ps))
    (hp : p.kind = .positionalOnly) (hdone : ∀ q ∈ done, q.kind = .positionalOnly)
    (hstarred : starred = true → ∃ q ∈ p :: ps, q.kind = .varPositional) :
    ((signatureItems starred previous (p :: ps)).foldl SignatureItem.read
      (done.map ParameterShape.unmarked, false)).1 = done ++ p :: ps := by
  have hplain : p.kind ≠ .varPositional := by rw [hp]; decide
  induction ps generalizing previous done p with
  | nil => exact read_slash horder hp nofun hdone fun h => exists_behind (hstarred h) hplain
  | cons q ps ih =>
    have htail : KindsInOrder (q :: ps) := (List.pairwise_cons.1 horder).2
    by_cases hq : q.kind = .positionalOnly
    · have hitems : signatureItems starred previous (p :: q :: ps)
          = .parameter p :: signatureItems starred (some p.kind) (q :: ps) := by
        rw [signatureItems, hp, List.head?_cons, Option.map_some, hq]
        rfl
      have hall : ∀ q ∈ done ++ [p], q.kind = .positionalOnly :=
        List.forall_mem_append.2 ⟨hdone, List.forall_mem_singleton.2 hp⟩
      rw [hitems, List.foldl_cons, read_unmarked hp, List.append_cons done p (q :: ps)]
      exact ih _ htail hq hall (fun h => exists_behind (hstarred h) hplain) (by rw [hq]; decide)
    · exact read_slash horder hp (not_positionalOnly_of_head htail hq) hdone
        fun h => exists_behind (hstarred h) hplain

/-- Reading the printed items of ordered parameters gives back the parameters. -/
theorem read_signatureItems (horder : KindsInOrder ps) :
    ((signatureItems (ps.any (·.kind == .varPositional)) none ps).foldl SignatureItem.read
      ([], false)).1 = ps := by
  have hstarred : ps.any (·.kind == .varPositional) = true →
      ∃ p ∈ ps, p.kind = .varPositional := by simp
  cases ps with
  | nil => rfl
  | cons p ps =>
    by_cases hp : p.kind = .positionalOnly
    · exact read_beforeSlash [] horder hp nofun hstarred
    · exact read_behindSlash [] horder (not_positionalOnly_of_head horder hp) nofun
        fun _ => ⟨nofun, hstarred⟩

end ReadBack

end PyAtlas
