import PyAtlas.Declaration.Outline
import PyAtlas.Proofs.Declaration.Markers
import PyAtlas.Proofs.Syntax.Sketch

/-!
# The words of a signature

A printed signature is a row of words, some of which touch each other. Parameters and marks stand
between commas, a default is shown by an ellipsis, and an annotation that is a dotted name is a
name with further names behind points. Where it is read, such an annotation is a chain of
attributes, and it is shown by the same dotted name.

## Key results
- `hintText_dottedTerm`: an annotation that is a dotted name is shown as that name.
- `Signature.Printable.renders`: the printed signature is its words.
-/

namespace PyAtlas

open Lexer

variable {v : Version} {rest : List Char}

/-! ### Names -/

/-- Names with points between them, none of which is reserved. -/
def IsDotted (v : Version) (text : String) : Prop :=
  ∀ part ∈ DottedName.segments text, Unreserved v part

instance (v : Version) (text : String) : Decidable (IsDotted v text) :=
  inferInstanceAs (Decidable (∀ part ∈ DottedName.segments text, Unreserved v part))

/-- The expression that a dotted name is. -/
def dottedTerm (text : String) : Term :=
  (DottedName.segments text).tail.foldl .member (.name (DottedName.head text))

theorem head_cons_segments (text : String) :
    DottedName.head text :: (DottedName.segments text).tail = DottedName.segments text := by
  obtain ⟨first, more, hsegments⟩ := List.exists_cons_of_ne_nil (DottedName.segments_ne_nil text)
  rw [DottedName.head, hsegments]
  rfl

theorem valid_members {t : Term} (h : t.Valid v) {names : List String}
    (hnames : ∀ name ∈ names, FreeName v name) : (names.foldl Term.member t).Valid v := by
  induction names generalizing t with
  | nil => exact h
  | cons name names ih =>
    obtain ⟨hname, hnames⟩ := List.forall_mem_cons.1 hnames
    exact ih (.member h hname) hnames

theorem IsDotted.valid {text : String} (h : IsDotted v text) (hv : v.atLeast 3 7 = true) :
    (dottedTerm text).Valid v := by
  rw [IsDotted, ← head_cons_segments, List.forall_mem_cons] at h
  exact valid_members (.name (h.1.free hv)) fun name hname => (h.2 name hname).free hv

/-- An attribute needs no parentheses around a name or another attribute. -/
theorem words_members {t : Term} (h : trailerStrength ≤ t.strength) (names : List String) :
    (names.foldl Term.member t).words = t.words ++ segmentWords names := by
  induction names generalizing t with
  | nil => exact (List.append_nil _).symm
  | cons name names ih =>
    have hnone : t.needsParens trailerStrength true = false := by simpa [Term.needsParens] using h
    have hmember : trailerStrength ≤ (Term.member t name).strength := Nat.le_refl _
    rw [List.foldl_cons, ih hmember, Term.words, hnone, segmentWords]
    simp [parenthesize]

theorem words_dottedTerm (text : String) :
    (dottedTerm text).words
      = .name (DottedName.head text) :: segmentWords (DottedName.segments text).tail :=
  words_members (t := .name _) (Nat.le_succ trailerStrength) _

/-! ### What is read for a name -/

theorem Expr.path?_unplaced : (e : Expr) → e.unplaced.path? = e.path?
  | .name _ => rfl
  | .attribute value attr _ => by
    rw [Expr.unplaced, Expr.path?, Expr.path?, path?_unplaced value]
    rfl
  | .call .. | .subscript .. | .literal .. | .str .. | .list .. | .tuple .. | .set .. | .dict ..
  | .unary .. | .binary .. | .starred .. | .other .. | .error .. => rfl

theorem path?_members {t : Term} {path : List String} (h : t.expr.path? = some path)
    (names : List String) : (names.foldl Term.member t).expr.path? = some (path ++ names) := by
  induction names generalizing t path with
  | nil => rw [List.append_nil]; exact h
  | cons name names ih =>
    have hmember : (Term.member t name).expr.path? = some (path ++ [name]) := by
      rw [Term.expr, Expr.path?, h]
      rfl
    rw [List.foldl_cons, ih hmember, List.append_assoc]
    rfl

/-- A name or a chain of attributes is shown as it is written. -/
theorem hintText_of_path? {e : Expr} {path : List String} (h : e.path? = some path) :
    e.hintText = DottedName.join path := by
  cases e with
  | name ident =>
    cases h
    rfl
  | «attribute» value attr span =>
    rw [Expr.hintText, Expr.dottedName?, h]
    rfl
  | _ => cases h

/-- An annotation that is a dotted name is shown as that name. -/
theorem hintText_dottedTerm {e : Expr} {text : String} (h : e.unplaced = (dottedTerm text).expr) :
    e.hintText = text := by
  have hpath : e.path? = some (DottedName.segments text) := by
    rw [← Expr.path?_unplaced, h, dottedTerm,
      path?_members rfl, List.singleton_append, head_cons_segments]
  rw [hintText_of_path? hpath, DottedName.join_segments]

theorem map_hintText {e : Option Expr} {text : Option String}
    (h : e.map Expr.unplaced = (text.map dottedTerm).map Term.expr) :
    e.map Expr.hintText = text := by
  cases e with
  | none => cases text <;> first | rfl | cases h
  | some e =>
    cases text with
    | none => cases h
    | some text => rw [Option.map_some, hintText_dottedTerm (Option.some.inj h)]

/-! ### Words -/

namespace Word

def slash : Word := ⟨.operator .slash, "/"⟩
def ellipsis : Word := ⟨.operator .ellipsis, "..."⟩

end Word

/-- The star or the stars of a parameter. -/
def ParameterKind.starWords : ParameterKind → List Word
  | .varPositional => [.star]
  | .varKeyword => [.doubleStar]
  | _ => []

/-- The words that show that there is a default. -/
def defaultWords (hasDefault : Bool) : List Word :=
  if hasDefault then [.equals, .ellipsis] else []

/-- The words of a parameter or a mark. -/
def SignatureItem.words : SignatureItem → List Word
  | .parameter p => p.kind.starWords ++ .name p.name ::
      (optionWords .colon (p.hint.map dottedTerm) ++ defaultWords p.hasDefault)
  | .star => [.star]
  | .slash => [.slash]

/-- The words of some parameters and marks. -/
def itemListWords (items : List SignatureItem) : List Word :=
  (behindCommas (items.map SignatureItem.words)).tail

/-- The parameters and marks of a signature. -/
def Signature.items (s : Signature) : List SignatureItem :=
  signatureItems (s.parameters.any (·.kind == .varPositional)) none s.parameters

/-- The words of a signature. -/
def Signature.words (s : Signature) : List Word :=
  .lParen :: (itemListWords s.items ++ .rParen :: optionWords .arrow (s.returns.map dottedTerm))

/-! ### The printed text -/

/-- What follows a parameter or mark in a printed signature. -/
def EndsItem (rest : List Char) : Prop := ∃ c cs, rest = c :: cs ∧ (c = ',' ∨ c = ')')

theorem EndsItem.endsLetters (h : EndsItem rest) : endsLetters rest = true := by
  obtain ⟨c, cs, rfl, rfl | rfl⟩ := h <;> rfl

/-- Names behind a point each. -/
theorem renders_segments {names : List String} (h : ∀ name ∈ names, FreeName v name)
    (hrest : endsLetters rest = true) :
    Renders v rest (segmentWords names) (names.flatMap fun name => '.' :: name.toList)
      ∧ endsLetters ((names.flatMap fun name => '.' :: name.toList) ++ rest) = true := by
  induction names with
  | nil => exact ⟨.nil, hrest⟩
  | cons name names ih =>
    obtain ⟨hname, hnames⟩ := List.forall_mem_cons.1 h
    obtain ⟨hrenders, hends⟩ := ih hnames
    have hnext := endsOperator_identifier hname.identifier Word.dot.text.toList
      ((names.flatMap fun name => '.' :: name.toList) ++ rest)
    rw [← List.append_assoc] at hnext
    exact ⟨renders_sign (by decide) hnext (.append (hname.renders hends) hrenders), rfl⟩

/-- Texts with a separator between them: the first one, then the others behind a separator. -/
theorem toList_intercalate_cons (separator first : String) (more : List String) :
    (separator.intercalate (first :: more)).toList
      = first.toList ++ more.flatMap fun text => separator.toList ++ text.toList := by
  rw [String.toList_intercalate]
  induction more generalizing first with
  | nil => simp [List.intercalate]
  | cons next more ih =>
    have htail := ih next
    simp only [List.intercalate, List.map_cons] at htail
    simp [List.intercalate, htail]

/-- A dotted name is printed as it is written. -/
theorem renders_dotted {text : String} (h : IsDotted v text) (hv : v.atLeast 3 7 = true)
    (hrest : endsLetters rest = true) : Renders v rest (dottedTerm text).words text.toList := by
  have htext : text.toList = (DottedName.head text).toList
      ++ (DottedName.segments text).tail.flatMap fun name => '.' :: name.toList := by
    have hjoin := DottedName.join_segments text
    rw [← head_cons_segments, DottedName.join] at hjoin
    exact (congrArg String.toList hjoin).symm.trans (toList_intercalate_cons _ _ _)
  rw [IsDotted, ← head_cons_segments, List.forall_mem_cons] at h
  obtain ⟨hmore, hends⟩ := renders_segments (fun name hname => (h.2 name hname).free hv) hrest
  rw [words_dottedTerm, htext]
  exact .append ((h.1.free hv).renders hends) hmore

/-- What a signature shows of a default. -/
def defaultText (hasDefault : Bool) (hint : Option String) : String :=
  match hasDefault, hint with
  | false, _ => ""
  | true, some _ => " = ..."
  | true, none => "=..."

/-- What a signature shows of an annotation. -/
def annotationText : Option String → String
  | some hint => ": " ++ hint
  | none => ""

/-- How a parameter with the kind is set off from others. -/
def ParameterKind.starText : ParameterKind → String
  | .varPositional => "*"
  | .varKeyword => "**"
  | _ => ""

theorem ParameterShape.render_eq (p : ParameterShape) :
    p.render = p.kind.starText ++ p.name ++ annotationText p.hint
      ++ defaultText p.hasDefault p.hint := by
  obtain ⟨name, kind, hasDefault, hint⟩ := p
  cases kind <;> cases hasDefault <;> cases hint <;> rfl

theorem renders_default (hrest : EndsItem rest) (hasDefault : Bool) (hint : Option String) :
    Renders v rest (defaultWords hasDefault) (defaultText hasDefault hint).toList
      ∧ endsLetters ((defaultText hasDefault hint).toList ++ rest) = true := by
  have hellipsis : Renders v rest [.ellipsis] "...".toList := by
    refine .single (standsBefore_sign (by decide) ?_)
    obtain ⟨c, cs, rfl, rfl | rfl⟩ := hrest <;> rfl
  cases hasDefault with
  | false => exact ⟨.nil, hrest.endsLetters⟩
  | true =>
    cases hint with
    | none => exact ⟨renders_sign (w := .equals) (by decide) rfl hellipsis, rfl⟩
    | some hint =>
      have htext : (defaultText true (some hint)).toList
          = ' ' :: ("=".toList ++ ' ' :: "...".toList) := by
        rw [defaultText]
        decide
      rw [htext]
      exact ⟨.space (renders_sign (w := .equals) (by decide) rfl hellipsis.space), rfl⟩

/-- An annotation in front of what shows the default. -/
theorem renders_annotation {hint : Option String} (h : ∀ text ∈ hint, IsDotted v text)
    (hv : v.atLeast 3 7 = true) {words : List Word} {cs : List Char}
    (hwords : Renders v rest words cs) (hends : endsLetters (cs ++ rest) = true) :
    Renders v rest (optionWords .colon (hint.map dottedTerm) ++ words)
        ((annotationText hint).toList ++ cs)
      ∧ endsLetters ((annotationText hint).toList ++ cs ++ rest) = true := by
  cases hint with
  | none => exact ⟨hwords, hends⟩
  | some hint =>
    have hdotted := (renders_dotted (h hint rfl) hv hends).append hwords
    have hsign := renders_sign (w := .colon) (by decide) rfl hdotted.space
    rw [annotationText, String.toList_append]
    exact ⟨hsign, rfl⟩

/-- The stars of a parameter in front of its name. -/
theorem renders_stars (kind : ParameterKind) {words : List Word} {name : String} {cs : List Char}
    (h : Renders v rest words (name.toList ++ cs)) (hname : Text.isIdentifier name = true) :
    Renders v rest (kind.starWords ++ words) (kind.starText.toList ++ (name.toList ++ cs)) := by
  have hends : ∀ spelling, endsOperator spelling (name.toList ++ cs ++ rest) = true := by
    intro spelling
    rw [List.append_assoc]
    exact endsOperator_identifier hname _ _
  cases kind with
  | varPositional => exact renders_sign (w := .star) (by decide) (hends _) h
  | varKeyword => exact renders_sign (w := .doubleStar) (by decide) (hends _) h
  | _ => exact h

/-- An item may be printed where the version knows the names in it. -/
def SignatureItem.Printable (v : Version) : SignatureItem → Prop
  | .parameter p => Unreserved v p.name ∧ ∀ hint ∈ p.hint, IsDotted v hint
  | .star | .slash => True

/-- A parameter or mark is printed as its words. -/
theorem renders_item (hv : v.atLeast 3 7 = true) {item : SignatureItem} (h : item.Printable v)
    (hrest : EndsItem rest) : Renders v rest item.words item.render.toList := by
  have hmark : ∀ w : Word, w.isSign = true → goesOn w.text.toList ',' = false →
      goesOn w.text.toList ')' = false → Renders v rest [w] w.text.toList := by
    intro w hw hcomma hparen
    refine .single (standsBefore_sign hw ?_)
    obtain ⟨c, cs, rfl, rfl | rfl⟩ := hrest
    · simp [endsOperator, hcomma]
    · simp [endsOperator, hparen]
  cases item with
  | star => exact hmark .star (by decide) (by decide) (by decide)
  | slash => exact hmark .slash (by decide) (by decide) (by decide)
  | parameter p =>
    obtain ⟨hname, hhint⟩ := h
    obtain ⟨hdefault, hbehind⟩ := renders_default (v := v) hrest p.hasDefault p.hint
    obtain ⟨hshown, hends⟩ := renders_annotation hhint hv hdefault hbehind
    have hnamed := ((hname.free hv).renders hends).append hshown
    have hstars := renders_stars p.kind hnamed hname.identifier
    rw [SignatureItem.render, ParameterShape.render_eq]
    simp only [String.toList_append, List.append_assoc]
    exact hstars

/-- Items behind a comma and a space each. -/
theorem renders_moreItems (hv : v.atLeast 3 7 = true) {items : List SignatureItem}
    (h : ∀ item ∈ items, item.Printable v) (hrest : EndsItem rest) :
    Renders v rest (behindCommas (items.map SignatureItem.words))
        (items.flatMap fun item => ", ".toList ++ item.render.toList)
      ∧ EndsItem ((items.flatMap fun item => ", ".toList ++ item.render.toList) ++ rest) := by
  induction items with
  | nil => exact ⟨.nil, hrest⟩
  | cons item items ih =>
    obtain ⟨hitem, hitems⟩ := List.forall_mem_cons.1 h
    obtain ⟨hrenders, hends⟩ := ih hitems
    have hrow := (renders_item hv hitem hends).append hrenders
    have hsign := renders_sign (w := .comma) (by decide) rfl hrow.space
    refine ⟨?_, ',', _, rfl, .inl rfl⟩
    simp only [List.flatMap_cons, List.append_assoc]
    exact hsign

/-- Items with a comma and a space between them. -/
theorem renders_items (hv : v.atLeast 3 7 = true) {items : List SignatureItem}
    (h : ∀ item ∈ items, item.Printable v) (hrest : EndsItem rest) :
    Renders v rest (itemListWords items)
      (", ".intercalate (items.map SignatureItem.render)).toList := by
  cases items with
  | nil => exact .nil
  | cons item items =>
    obtain ⟨hitem, hitems⟩ := List.forall_mem_cons.1 h
    obtain ⟨hrenders, hends⟩ := renders_moreItems hv hitems hrest
    rw [List.map_cons, toList_intercalate_cons, List.flatMap_map]
    exact (renders_item hv hitem hends).append hrenders

/-- What a signature shows of what is returned. -/
def returnsText : Option String → String
  | some returns => " -> " ++ returns
  | none => ""

theorem renders_returns {returns : Option String} (h : ∀ text ∈ returns, IsDotted v text)
    (hv : v.atLeast 3 7 = true) (hrest : endsLetters rest = true) :
    Renders v rest (optionWords .arrow (returns.map dottedTerm)) (returnsText returns).toList := by
  cases returns with
  | none => exact .nil
  | some returns =>
    have hdotted := renders_dotted (h returns rfl) hv hrest
    have hsign := renders_sign (w := .arrow) (by decide) rfl hdotted.space
    have htext : (returnsText (some returns)).toList
        = ' ' :: ("->".toList ++ ' ' :: returns.toList) := by
      rw [returnsText, String.toList_append]
      rfl
    rw [htext]
    exact hsign.space

theorem Signature.render_eq (s : Signature) :
    s.render = "(" ++ (", ".intercalate (s.items.map SignatureItem.render)
      ++ (")" ++ returnsText s.returns)) := by
  rw [Signature.render, marked_eq, items]
  cases s.returns <;> simp [returnsText, String.append_assoc]

/-! ### Signatures that can be printed -/

/-- The parameters come in the order of their kinds, all names are free, and annotations are
    dotted names. -/
structure Signature.Printable (v : Version) (s : Signature) : Prop where
  inOrder : KindsInOrder s.parameters
  names : ∀ p ∈ s.parameters, Unreserved v p.name
  hints : ∀ p ∈ s.parameters, ∀ hint ∈ p.hint, IsDotted v hint
  returns : ∀ hint ∈ s.returns, IsDotted v hint

instance (v : Version) (s : Signature) : Decidable (s.Printable v) :=
  decidable_of_iff (KindsInOrder s.parameters ∧ (∀ p ∈ s.parameters, Unreserved v p.name)
      ∧ (∀ p ∈ s.parameters, ∀ hint ∈ p.hint, IsDotted v hint)
      ∧ ∀ hint ∈ s.returns, IsDotted v hint)
    ⟨fun h => ⟨h.1, h.2.1, h.2.2.1, h.2.2.2⟩, fun h => ⟨h.inOrder, h.names, h.hints, h.returns⟩⟩

theorem Signature.Printable.items {s : Signature} (h : s.Printable v) :
    ∀ item ∈ s.items, item.Printable v := by
  intro item hitem
  cases item with
  | parameter p =>
    have hp := mem_of_mem_signatureItems hitem
    exact ⟨h.names p hp, h.hints p hp⟩
  | _ => trivial

/-- A printed signature is its words. -/
theorem Signature.Printable.renders {s : Signature} (h : s.Printable v)
    (hv : v.atLeast 3 7 = true) (hrest : endsLetters rest = true) :
    Renders v rest s.words s.render.toList := by
  have hclosing := renders_sign (w := .rParen) (by decide)
    (endsOperator_of_standsAlone (by decide) _) (renders_returns h.returns hv hrest)
  have hitems : Renders v (")".toList ++ (returnsText s.returns).toList ++ rest)
      (itemListWords s.items) (", ".intercalate (s.items.map SignatureItem.render)).toList :=
    renders_items hv h.items ⟨')', _, rfl, .inr rfl⟩
  have hopening := renders_sign (w := .lParen) (by decide)
    (endsOperator_of_standsAlone (by decide) _) (hitems.append hclosing)
  rw [s.render_eq]
  simp only [String.toList_append]
  exact hopening

end PyAtlas
