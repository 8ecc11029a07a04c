import PyAtlas.Text.Measure

/-!
# Spans

A span is a half-open range of byte offsets into a source text. Everything that the readers
of this library produce says where it stands by a span.
-/

namespace PyAtlas

/-- The bytes from `start` up to, not including, `stop`. -/
structure Span where
  start : Nat
  stop : Nat
deriving Repr, DecidableEq, Inhabited, Hashable

namespace Span

/-- From the start of the first span to the later of the two ends. -/
def merge (a b : Span) : Span :=
  ⟨a.start, max b.stop a.stop⟩

/-- Order of occurrence: by the start, then by the end. -/
def precedes (a b : Span) : Bool :=
  a.start < b.start || (a.start == b.start && a.stop < b.stop)

/-- The part of `content` under the span; empty when the span is not a range of the content
    or cuts a character. -/
def text (s : Span) (content : String) : String :=
  match Text.slice? content.toList s.start s.stop with
  | some cs => String.ofList cs
  | none => ""

@[simp] theorem merge_start (a b : Span) : (a.merge b).start = a.start := rfl

@[simp] theorem merge_stop (a b : Span) : (a.merge b).stop = max b.stop a.stop := rfl

end Span

end PyAtlas
