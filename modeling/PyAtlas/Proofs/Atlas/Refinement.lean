import PyAtlas.Proofs.Atlas.Dependency

/-!
# Lookups refine the meaning of names

What an atlas answers depends on the modules that there are, and on nothing else, as long as a
question leads to no circle: not on what it was asked before, nor on what it remembers. Where
modules take over names from each other this ends, because a task at which a circle was cut is
remembered all the same once nothing is under way around it.

## Key results
- `Atlas.ask_refines_meaning`: what is answered is what names mean.
- `Atlas.ask_order_irrelevant`: it does not matter what was asked before.
- `Atlas.order_matters_in_starCircle`: it does where star imports go round.
-/

namespace PyAtlas

namespace Atlas

/-- The answer that an evaluation of the lookup finds. -/
theorem ask_of_run_map {a : Atlas} {q : Question} {answer : q.Answer} (depth : Nat)
    (h : (q.lookup.run a depth).map (·.1) = some answer) : (ask q a).1 = answer := by
  obtain ⟨found, hfound, rfl⟩ := Option.map_eq_some_iff.1 h
  rw [ask_of_run hfound]

/-- The answer that an evaluation of the lookup finds after another question was evaluated. -/
theorem ask_after_of_run {a : Atlas} {q q' : Question} {answer : q'.Answer} (depth : Nat)
    (h : ((q.lookup.run a depth).bind fun found => q'.lookup.run found.2.atlas depth).map (·.1)
      = some answer) : (ask q' (a.after [.ask q])).1 = answer := by
  obtain ⟨found', hfound', rfl⟩ := Option.map_eq_some_iff.1 h
  obtain ⟨found, hfound, hfound'⟩ := Option.bind_eq_some_iff.1 hfound'
  show (ask q' (ask q a).2).1 = found'.1
  rw [ask_of_run hfound, ask_of_run hfound']

theorem after_append (a : Atlas) (ops ops' : List Operation) :
    a.after (ops ++ ops') = (a.after ops).after ops' :=
  List.foldl_append

/-- No questions change what the modules are. -/
theorem world_after_ask (a : Atlas) (qs : List Question) :
    (a.after (qs.map .ask)).world = a.world := by
  induction qs generalizing a with
  | nil => rfl
  | cons q qs ih => exact (ih _).trans (a.world_ask q)

/-- Nothing is remembered that could be wrong. -/
theorem exact_forget (a : Atlas) : a.forget.Exact := by
  intro t answer hknown
  cases t <;> cases hknown

/-! ### Answers and meaning -/

/-- It does not matter to a question that leads to no circle what was asked before: the answer is
    that of an atlas of the same modules that was not asked anything. -/
theorem ask_order_irrelevant (version : Version) (files : FileSystem) (libraries : SearchPath)
    (ops : List Operation) {q : Question}
    (h : q.Acyclic ((empty version files libraries).after ops).world) (qs qs' : List Question) :
    let a := (empty version files libraries).after ops
    (ask q (a.after (qs.map .ask))).1 = (ask q (a.after (qs'.map .ask))).1
      ∧ (ask q (a.after (qs.map .ask))).1 = (ask q a.forget).1 := by
  intro a
  obtain ⟨depth, answer, hanswer⟩ := h.recursive
  -- Each of these atlases has the same modules and remembers nothing that could be wrong.
  have hafter : ∀ qs : List Question, (ask q (a.after (qs.map .ask))).1 = answer := by
    intro qs
    have hexact := (exact_after version files libraries ops).after (qs.map .ask)
    exact ask_of_recursive hexact (by rw [world_after_ask]; exact hanswer)
  have hfresh : (ask q a.forget).1 = answer := ask_of_recursive a.exact_forget hanswer
  exact ⟨(hafter qs).trans (hafter qs').symm, (hafter qs).trans hfresh.symm⟩

/-- A member of a class from another module, with and without its bases being asked for before. -/
theorem ask_order_irrelevant_of_member :
    let sources : List Operation := [
      .addSource "m" "from n import *\nclass A(B):\n x = 2\n",
      .addSource "n" "class B:\n z = 4\n"]
    let q := Question.member ⟨⟨"m", .v37⟩, .declared 0⟩ .onClass "z"
    let bases := Question.bases ⟨⟨"m", .v37⟩, .declared 0⟩
    let a := (empty .v37 ⟨[]⟩ []).after sources
    q.Acyclic a.world
      ∧ (ask q (a.after ([bases].map .ask))).1 = (ask q (a.after (([] : List Question).map .ask))).1
      ∧ (ask q (a.after ([bases].map .ask))).1 = (ask q a.forget).1 := by
  intro sources q bases a
  have hfound : (q.lookup.interpret (recursive a.world 20)).isSome = true := by decide +kernel
  obtain ⟨answer, hanswer⟩ := Option.isSome_iff_exists.1 hfound
  have hacyclic := Question.acyclic_of_recursive hanswer
  exact ⟨hacyclic, ask_order_irrelevant .v37 ⟨[]⟩ [] sources hacyclic [bases] []⟩

/-- Two modules that take over the names of each other, and different names `x` from others. -/
def starCircle : Atlas :=
  (empty .v37 ⟨[]⟩ []).after [
    .addSource "a" "from b import *\nfrom c import *\n",
    .addSource "b" "from a import *\nfrom d import *\n",
    .addSource "c" "x = 1\n",
    .addSource "d" "x = 2\n"]

/-- The member `x` of the one module is another once that of the other module was asked for. -/
theorem order_matters_in_starCircle :
    let ofA := Question.member (ModuleKey.mk "a" .v37).ref .unqualified "x"
    let ofB := Question.member (ModuleKey.mk "b" .v37).ref .unqualified "x"
    (ask ofB (starCircle.after [.ask ofA])).1 = some ⟨⟨"d", .v37⟩, .declared 0⟩
      ∧ (ask ofB starCircle).1 = some ⟨⟨"c", .v37⟩, .declared 0⟩ := by
  exact ⟨ask_after_of_run 20 (by decide +kernel), ask_of_run_map 20 (by decide +kernel)⟩

end Atlas

end PyAtlas
