import PyAtlas.Syntax.Lookahead
import PyAtlas.Syntax.Tree

/-!
# Moving a tree to another place of a text

A text that is put behind another one begins at a later offset. `shift n` moves everything that
says where it stands by `n` bytes and leaves the rest alone: spans, tokens, errors, and whole
syntax trees.

## Key results
- `Span.shift_merge`: merging spans commutes with moving them.
- `Expr.span_shift`: a moved expression stands where the moved span says.
- `shift_zero` for each type: moving by nothing changes nothing.
-/

namespace PyAtlas

/-! ### Spans, names and tokens -/

/-- The span `n` bytes later. -/
def Span.shift (n : Nat) (s : Span) : Span := ⟨s.start + n, s.stop + n⟩

/-- The name, standing `n` bytes later. -/
def Identifier.shift (n : Nat) (ident : Identifier) : Identifier :=
  ⟨ident.name, ident.span.shift n⟩

/-- The token, standing `n` bytes later. -/
def Token.shift (n : Nat) (t : Token) : Token := ⟨t.kind, t.span.shift n, t.text⟩

/-- The error, reported `n` bytes later. -/
def SyntaxError.shift (n : Nat) (e : SyntaxError) : SyntaxError := ⟨e.fault, e.span.shift n⟩

theorem Span.shift_merge (n : Nat) (a b : Span) :
    (a.merge b).shift n = (a.shift n).merge (b.shift n) := by
  simp only [Span.shift, Span.merge, Span.mk.injEq, true_and]
  omega

@[simp] theorem Span.shift_zero (s : Span) : s.shift 0 = s := rfl

@[simp] theorem Identifier.shift_zero (ident : Identifier) : ident.shift 0 = ident := rfl

@[simp] theorem Token.shift_zero (t : Token) : t.shift 0 = t := rfl

@[simp] theorem SyntaxError.shift_zero (e : SyntaxError) : e.shift 0 = e := rfl

@[simp] theorem Identifier.shift_name (n : Nat) (ident : Identifier) :
    (ident.shift n).name = ident.name := rfl

@[simp] theorem Identifier.shift_span (n : Nat) (ident : Identifier) :
    (ident.shift n).span = ident.span.shift n := rfl

@[simp] theorem Token.shift_kind (n : Nat) (t : Token) : (t.shift n).kind = t.kind := rfl

@[simp] theorem Token.shift_span (n : Nat) (t : Token) : (t.shift n).span = t.span.shift n := rfl

@[simp] theorem Token.shift_text (n : Nat) (t : Token) : (t.shift n).text = t.text := rfl

@[simp] theorem Token.describe_shift (n : Nat) (t : Token) :
    (t.shift n).describe = t.describe := rfl

@[simp] theorem Token.isWord_shift (n : Nat) (t : Token) (word : String) :
    (t.shift n).isWord word = t.isWord word := rfl

theorem Token.shift_endOfInput (n size : Nat) :
    (Token.endOfInput size).shift n = Token.endOfInput (size + n) := rfl

/-! ### Expressions -/

mutual

/-- The expression, standing `n` bytes later. -/
def Expr.shift (n : Nat) : Expr → Expr
  | .name ident => .name (ident.shift n)
  | .attribute value attr span => .attribute (value.shift n) (attr.shift n) (span.shift n)
  | .call func arguments span => .call (func.shift n) (shiftArguments n arguments) (span.shift n)
  | .subscript value index span => .subscript (value.shift n) (index.shift n) (span.shift n)
  | .literal kind span => .literal kind (span.shift n)
  | .str value marks span => .str value marks (span.shift n)
  | .list items span => .list (shiftExprs n items) (span.shift n)
  | .tuple items span => .tuple (shiftExprs n items) (span.shift n)
  | .set items span => .set (shiftExprs n items) (span.shift n)
  | .dict items span => .dict (shiftEntries n items) (span.shift n)
  | .unary op operand span => .unary op (operand.shift n) (span.shift n)
  | .binary op lhs rhs span => .binary op (lhs.shift n) (rhs.shift n) (span.shift n)
  | .starred value span => .starred (value.shift n) (span.shift n)
  | .other span => .other (span.shift n)
  | .error span => .error (span.shift n)

/-- The argument, standing `n` bytes later. -/
def Argument.shift (n : Nat) : Argument → Argument
  | .positional value => .positional (value.shift n)
  | .keyword name value => .keyword (name.shift n) (value.shift n)
  | .star value => .star (value.shift n)
  | .doubleStar value => .doubleStar (value.shift n)

/-- The expressions, each standing `n` bytes later. -/
def shiftExprs (n : Nat) : List Expr → List Expr
  | [] => []
  | e :: es => e.shift n :: shiftExprs n es

/-- The arguments, each standing `n` bytes later. -/
def shiftArguments (n : Nat) : List Argument → List Argument
  | [] => []
  | a :: as => a.shift n :: shiftArguments n as

/-- The entries of a dictionary, each standing `n` bytes later. -/
def shiftEntries (n : Nat) : List (Expr × Expr) → List (Expr × Expr)
  | [] => []
  | (key, value) :: es => (key.shift n, value.shift n) :: shiftEntries n es

end

/-- An entry of a dictionary, standing `n` bytes later. -/
def shiftEntry (n : Nat) (entry : Expr × Expr) : Expr × Expr :=
  (entry.1.shift n, entry.2.shift n)

theorem shiftExprs_eq_map (n : Nat) (es : List Expr) : shiftExprs n es = es.map (Expr.shift n) := by
  induction es with
  | nil => rfl
  | cons e es ih => rw [shiftExprs, ih, List.map_cons]

theorem shiftArguments_eq_map (n : Nat) (as : List Argument) :
    shiftArguments n as = as.map (Argument.shift n) := by
  induction as with
  | nil => rfl
  | cons a as ih => rw [shiftArguments, ih, List.map_cons]

theorem shiftEntries_eq_map (n : Nat) (es : List (Expr × Expr)) :
    shiftEntries n es = es.map (shiftEntry n) := by
  induction es with
  | nil => rfl
  | cons e es ih => rw [shiftEntries, ih, List.map_cons, shiftEntry]

/-- A moved expression stands where the moved span says. -/
@[simp] theorem Expr.span_shift (n : Nat) (e : Expr) : (e.shift n).span = e.span.shift n := by
  cases e <;> simp [Expr.shift, Expr.span]

mutual

/-- Moving an expression by nothing changes nothing. -/
theorem Expr.shift_zero : (e : Expr) → e.shift 0 = e
  | .name _ | .literal _ _ | .str _ _ _ | .other _ | .error _ => rfl
  | .attribute value _ _ => by simp [Expr.shift, Expr.shift_zero value]
  | .call func arguments _ => by
    simp [Expr.shift, Expr.shift_zero func, shiftArguments_zero arguments]
  | .subscript value index _ => by
    simp [Expr.shift, Expr.shift_zero value, Expr.shift_zero index]
  | .list items _ | .tuple items _ | .set items _ => by
    simp [Expr.shift, shiftExprs_zero items]
  | .dict items _ => by simp [Expr.shift, shiftEntries_zero items]
  | .unary _ operand _ => by simp [Expr.shift, Expr.shift_zero operand]
  | .binary _ lhs rhs _ => by simp [Expr.shift, Expr.shift_zero lhs, Expr.shift_zero rhs]
  | .starred value _ => by simp [Expr.shift, Expr.shift_zero value]

theorem Argument.shift_zero : (a : Argument) → a.shift 0 = a
  | .positional value | .star value | .doubleStar value => by
    simp [Argument.shift, Expr.shift_zero value]
  | .keyword _ value => by simp [Argument.shift, Expr.shift_zero value]

theorem shiftExprs_zero : (es : List Expr) → shiftExprs 0 es = es
  | [] => rfl
  | e :: es => by rw [shiftExprs, Expr.shift_zero e, shiftExprs_zero es]

theorem shiftArguments_zero : (as : List Argument) → shiftArguments 0 as = as
  | [] => rfl
  | a :: as => by rw [shiftArguments, Argument.shift_zero a, shiftArguments_zero as]

theorem shiftEntries_zero : (es : List (Expr × Expr)) → shiftEntries 0 es = es
  | [] => rfl
  | (key, value) :: es => by
    rw [shiftEntries, Expr.shift_zero key, Expr.shift_zero value, shiftEntries_zero es]

end

/-! ### Statements -/

/-- The parameter, standing `n` bytes later. -/
def Parameter.shift (n : Nat) (p : Parameter) : Parameter :=
  ⟨p.name.shift n, p.kind, p.hint.map (Expr.shift n), p.default.map (Expr.shift n),
    p.span.shift n⟩

/-- The imported name, standing `n` bytes later. -/
def Alias.shift (n : Nat) (a : Alias) : Alias :=
  ⟨a.name, a.asname.map (Identifier.shift n), a.span.shift n⟩

/-- The imported names, standing `n` bytes later. -/
def ImportNames.shift (n : Nat) : ImportNames → ImportNames
  | .star span => .star (span.shift n)
  | .names aliases => .names (aliases.map (Alias.shift n))

/-- The header of a class, standing `n` bytes later. -/
def ClassHeader.shift (n : Nat) (h : ClassHeader) : ClassHeader :=
  ⟨h.name.shift n, h.arguments.map (Argument.shift n), h.decorators.map (Expr.shift n)⟩

/-- The header of a function, standing `n` bytes later. -/
def FunctionHeader.shift (n : Nat) (h : FunctionHeader) : FunctionHeader :=
  ⟨h.name.shift n, h.parameters.map (Parameter.shift n), h.returns.map (Expr.shift n),
    h.decorators.map (Expr.shift n), h.isAsync⟩

mutual

/-- The statement, standing `n` bytes later. -/
def Stmt.shift (n : Nat) : Stmt → Stmt
  | .classDef header body span => .classDef (header.shift n) (shiftBody n body) (span.shift n)
  | .functionDef header body span =>
    .functionDef (header.shift n) (shiftBody n body) (span.shift n)
  | .assign targets value span =>
    .assign (targets.map (Expr.shift n)) (value.shift n) (span.shift n)
  | .annAssign target hint value span =>
    .annAssign (target.shift n) (hint.shift n) (value.map (Expr.shift n)) (span.shift n)
  | .augAssign target op value span =>
    .augAssign (target.shift n) op (value.shift n) (span.shift n)
  | .importModules names span => .importModules (names.map (Alias.shift n)) (span.shift n)
  | .importFrom module level names span =>
    .importFrom module level (names.shift n) (span.shift n)
  | .expr value => .expr (value.shift n)
  | .compound kind isAsync clauses span =>
    .compound kind isAsync (shiftClauses n clauses) (span.shift n)
  | .simple kind span => .simple kind (span.shift n)
  | .error span => .error (span.shift n)

/-- The clause, standing `n` bytes later. -/
def Clause.shift (n : Nat) : Clause → Clause
  | .mk kind body span => .mk kind (shiftBody n body) (span.shift n)

/-- The clauses, each standing `n` bytes later. -/
def shiftClauses (n : Nat) : List Clause → List Clause
  | [] => []
  | c :: cs => c.shift n :: shiftClauses n cs

/-- The statements, each standing `n` bytes later. -/
def shiftBody (n : Nat) : List Stmt → List Stmt
  | [] => []
  | s :: ss => s.shift n :: shiftBody n ss

end

theorem shiftBody_eq_map (n : Nat) (body : List Stmt) :
    shiftBody n body = body.map (Stmt.shift n) := by
  induction body with
  | nil => rfl
  | cons s ss ih => rw [shiftBody, ih, List.map_cons]

theorem shiftClauses_eq_map (n : Nat) (clauses : List Clause) :
    shiftClauses n clauses = clauses.map (Clause.shift n) := by
  induction clauses with
  | nil => rfl
  | cons c cs ih => rw [shiftClauses, ih, List.map_cons]

@[simp] theorem shiftBody_append (n : Nat) (as bs : List Stmt) :
    shiftBody n (as ++ bs) = shiftBody n as ++ shiftBody n bs := by
  simp [shiftBody_eq_map]

/-! Moving the parts of a statement by nothing changes nothing either. -/

private theorem map_shift_zero (es : List Expr) : es.map (Expr.shift 0) = es := by
  rw [← shiftExprs_eq_map, shiftExprs_zero]

private theorem option_map_shift_zero (e : Option Expr) : e.map (Expr.shift 0) = e := by
  cases e <;> simp [Expr.shift_zero]

private theorem Parameter.shift_zero (p : Parameter) : p.shift 0 = p := by
  simp [Parameter.shift, option_map_shift_zero]

private theorem Alias.shift_zero (a : Alias) : a.shift 0 = a := by
  rcases a with ⟨name, asname, span⟩
  cases asname <;> simp [Alias.shift]

private theorem ImportNames.shift_zero (names : ImportNames) : names.shift 0 = names := by
  cases names with
  | star span => rfl
  | names aliases => simp [ImportNames.shift, funext Alias.shift_zero]

private theorem ClassHeader.shift_zero (h : ClassHeader) : h.shift 0 = h := by
  simp [ClassHeader.shift, map_shift_zero, funext Argument.shift_zero]

private theorem FunctionHeader.shift_zero (h : FunctionHeader) : h.shift 0 = h := by
  simp [FunctionHeader.shift, map_shift_zero, option_map_shift_zero,
    funext Parameter.shift_zero]

mutual

/-- Moving a statement by nothing changes nothing. -/
theorem Stmt.shift_zero : (s : Stmt) → s.shift 0 = s
  | .classDef header body _ => by
    simp [Stmt.shift, ClassHeader.shift_zero header, shiftBody_zero body]
  | .functionDef header body _ => by
    simp [Stmt.shift, FunctionHeader.shift_zero header, shiftBody_zero body]
  | .assign targets value _ => by
    simp [Stmt.shift, map_shift_zero targets, Expr.shift_zero value]
  | .annAssign target hint value _ => by
    simp [Stmt.shift, Expr.shift_zero target, Expr.shift_zero hint, option_map_shift_zero]
  | .augAssign target _ value _ => by
    simp [Stmt.shift, Expr.shift_zero target, Expr.shift_zero value]
  | .importModules names _ => by simp [Stmt.shift, funext Alias.shift_zero]
  | .importFrom _ _ names _ => by simp [Stmt.shift, ImportNames.shift_zero names]
  | .expr value => by simp [Stmt.shift, Expr.shift_zero value]
  | .compound _ _ clauses _ => by simp [Stmt.shift, shiftClauses_zero clauses]
  | .simple _ _ | .error _ => rfl

theorem Clause.shift_zero : (c : Clause) → c.shift 0 = c
  | .mk _ body _ => by simp [Clause.shift, shiftBody_zero body]

theorem shiftClauses_zero : (cs : List Clause) → shiftClauses 0 cs = cs
  | [] => rfl
  | c :: cs => by rw [shiftClauses, Clause.shift_zero c, shiftClauses_zero cs]

theorem shiftBody_zero : (ss : List Stmt) → shiftBody 0 ss = ss
  | [] => rfl
  | s :: ss => by rw [shiftBody, Stmt.shift_zero s, shiftBody_zero ss]

end

end PyAtlas
