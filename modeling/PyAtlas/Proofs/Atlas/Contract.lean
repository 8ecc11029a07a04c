import PyAtlas.Atlas.Query
import Mathlib.Data.List.Basic

/-!
# Contracts

A `Contract` says what lookups may ask for and what they can count on in the answers. A lookup
that keeps to a contract can be reasoned about without knowing how its questions are answered:
the answers of its parts are enough. A handler that honors the contract then makes good what
was promised.

## Key definitions
- `Contract`, `Lookup.Meets`: contracts, and lookups that keep to them and promise something.
- `Judgement`, `Handler.Honors`: handlers that honor them.

## Key results
- `Lookup.Meets.bind`, `Lookup.Meets.foldlM_steps`, `Lookup.Meets.mapM_steps`: promises of
  composed lookups.
- `Lookup.Meets.interpret`: a promise is kept by any handler that honors the contract.
-/

namespace PyAtlas

/-- What lookups may ask for, and what holds of the answers. -/
structure Contract where
  world : World
  mayRequest : ModuleKey → Prop
  /-- What holds of modules that have been requested. -/
  present : ModuleKey → Prop := fun _ => True
  mayAttend : Task → Prop
  answer : (t : Task) → t.Answer → Prop
  mayVisit : List EntityRef → EntityRef → Prop
  order : List EntityRef → EntityRef → List EntityRef → Prop

namespace Lookup

/-- The lookup asks only for what it may. If all answers are as agreed, what it yields has the
    property `Q`. -/
def Meets (c : Contract) {α : Type} : Lookup α → (α → Prop) → Prop
  | done x, Q => Q x
  | request key next, Q =>
    c.mayRequest key ∧ (c.present key → (next (c.world key)).Meets c Q)
  | task t next, Q => c.mayAttend t ∧ ∀ answer, c.answer t answer → (next answer).Meets c Q
  | visit order ref next, Q =>
    c.mayVisit order ref ∧ ∀ order', c.order order ref order' → (next order').Meets c Q

namespace Meets

variable {c : Contract} {α β γ : Type} {x : Lookup α} {f : α → Lookup β} {Q : α → Prop}
  {R : β → Prop}

theorem pure {a : α} (h : Q a) : (Pure.pure a : Lookup α).Meets c Q := h

theorem bind (hx : x.Meets c Q) (hf : ∀ a, Q a → (f a).Meets c R) : (x >>= f).Meets c R := by
  -- Induction on the lookup: what is bound is pushed into the answers that it goes on with.
  show (x.bind f).Meets c R
  induction x with
  | done a => exact hf a hx
  | request key next ih => exact ⟨hx.1, fun h => ih _ (hx.2 h)⟩
  | task t next ih => exact ⟨hx.1, fun answer h => ih answer (hx.2 answer h)⟩
  | visit order ref next ih => exact ⟨hx.1, fun order' h => ih order' (hx.2 order' h)⟩

theorem weaken {Q' : α → Prop} (hx : x.Meets c Q) (hQ : ∀ a, Q a → Q' a) : x.Meets c Q' := by
  -- Going on by giving back the answer changes nothing.
  have h := hx.bind (f := Pure.pure) fun a ha => hQ a ha
  rwa [bind_pure] at h

theorem map {g : α → β} (hx : x.Meets c Q) (hg : ∀ a, Q a → R (g a)) : (g <$> x).Meets c R := by
  rw [map_eq_pure_bind]
  exact hx.bind fun a ha => hg a ha

/-- Going through a list keeps what every step keeps. -/
theorem foldlM {g : α → γ → Lookup α} {items : List γ} {a : α} (ha : Q a)
    (hg : ∀ a, Q a → ∀ item ∈ items, (g a item).Meets c Q) : (items.foldlM g a).Meets c Q := by
  induction items generalizing a with
  | nil => exact ha
  | cons item items ih =>
    rw [List.foldlM_cons]
    refine (hg a ha item List.mem_cons_self).bind fun b hb => ih hb ?_
    exact fun b hb other hother => hg b hb other (List.mem_cons_of_mem _ hother)

/-- Going through a list, with a relation that is told step by step. -/
theorem foldlM_steps {g : α → γ → Lookup α} {S : α → List γ → α → Prop} (hnil : ∀ a, S a [] a)
    (hcons : ∀ a item items,
      (g a item).Meets c fun b => ∀ result, S b items result → S a (item :: items) result)
    (items : List γ) (a : α) : (items.foldlM g a).Meets c (S a items) := by
  induction items generalizing a with
  | nil => exact hnil a
  | cons item items ih =>
    rw [List.foldlM_cons]
    exact (hcons a item items).bind fun b hb => (ih b).weaken hb

/-- Working out something for each item of a list. -/
theorem mapM {g : γ → Lookup β} {items : List γ} (hg : ∀ item ∈ items, (g item).Meets c R) :
    (items.mapM g).Meets c fun results => ∀ result ∈ results, R result := by
  induction items with
  | nil => exact fun _ h => nomatch h
  | cons item items ih =>
    rw [List.mapM_cons]
    refine (hg item List.mem_cons_self).bind fun b hb => ?_
    refine (ih fun other hother => hg other (List.mem_cons_of_mem _ hother)).bind
      fun results hresults => ?_
    exact List.forall_mem_cons.2 ⟨hb, hresults⟩

/-- The same, with a relation that is told item by item. -/
theorem mapM_steps {g : γ → Lookup β} {S : List γ → List β → Prop} (hnil : S [] [])
    (hcons : ∀ item items,
      (g item).Meets c fun b => ∀ results, S items results → S (item :: items) (b :: results))
    (items : List γ) : (items.mapM g).Meets c (S items) := by
  induction items with
  | nil => exact hnil
  | cons item items ih =>
    rw [List.mapM_cons]
    refine (hcons item items).bind fun b hb => ?_
    exact ih.bind fun results hresults => hb results hresults

end Meets

end Lookup

/-! ### Contracts that are honored -/

/-- A way to say that what a computation yields has a property. -/
structure Judgement (m : Type → Type) [Monad m] where
  Holds : {α : Type} → m α → (α → Prop) → Prop
  pure : ∀ {α : Type} {a : α} {Q : α → Prop}, Q a → Holds (Pure.pure a) Q
  bind : ∀ {α β : Type} {p : m α} {f : α → m β} {Q : α → Prop} {R : β → Prop},
    Holds p Q → (∀ a, Q a → Holds (f a) R) → Holds (p >>= f) R

/-- The handler answers as agreed, as long as it is asked for what may be asked for. -/
structure Handler.Honors {m : Type → Type} [Monad m] (j : Judgement m) (c : Contract)
    (h : Handler m) : Prop where
  request : ∀ key, c.mayRequest key →
    j.Holds (h.request key) fun slot => slot = c.world key ∧ c.present key
  task : ∀ t, c.mayAttend t → j.Holds (h.task t) (c.answer t)
  visit : ∀ order ref, c.mayVisit order ref → j.Holds (h.visit order ref) (c.order order ref)

/-- A promise is kept by any handler that honors the contract. -/
theorem Lookup.Meets.interpret {m : Type → Type} [Monad m] {j : Judgement m} {c : Contract}
    {h : Handler m} (hh : h.Honors j c) {α : Type} {x : Lookup α} {Q : α → Prop}
    (hx : x.Meets c Q) : j.Holds (x.interpret h) Q := by
  induction x with
  | done a => exact j.pure hx
  | request key next ih =>
    -- There is one answer to a request, the module of the contract's world.
    refine j.bind (hh.request key hx.1) ?_
    rintro _ ⟨rfl, hpresent⟩
    exact ih _ (hx.2 hpresent)
  | task t next ih => exact j.bind (hh.task t hx.1) fun answer h => ih answer (hx.2 answer h)
  | visit order ref next ih =>
    exact j.bind (hh.visit order ref hx.1) fun order' h => ih order' (hx.2 order' h)

end PyAtlas
