import PyAtlas.Atlas.Query

/-!
# What an atlas remembers

How the modules and the memos of an atlas change. Requests, and the other ways for a module to
enter, add one module at most and leave the memos alone. Noting an answer adds one answer and
leaves the modules alone. Attending to a task does one of three things.

## Key results
- `Task.known_note`, `Task.known_settle`: what is known of a task afterwards.
- `Atlas.lookup_settle`: what was answered to a request stays.
- `attend_cases`: the ways in which a task comes to its answer.
-/

namespace PyAtlas

/-! ### Association lists -/

theorem mem_of_lookup {κ ν : Type} [BEq κ] [LawfulBEq κ] {k : κ} {v : ν} {entries : List (κ × ν)}
    (h : entries.lookup k = some v) : (k, v) ∈ entries := by
  obtain ⟨front, back, rfl, -⟩ := List.lookup_eq_some_iff.1 h
  exact List.mem_append_right _ List.mem_cons_self

/-- A key that is there is found. -/
theorem exists_lookup_of_mem_keys {κ ν : Type} [BEq κ] [LawfulBEq κ] {k : κ}
    {entries : List (κ × ν)} (h : k ∈ entries.map Prod.fst) : ∃ v, entries.lookup k = some v := by
  obtain ⟨entry, hentry, rfl⟩ := List.mem_map.1 h
  cases hlookup : entries.lookup entry.1 with
  | some v => exact ⟨v, rfl⟩
  | none =>
    have hne := List.lookup_eq_none_iff.1 hlookup entry hentry
    simp at hne

theorem mem_keys_of_lookup {κ ν : Type} [BEq κ] [LawfulBEq κ] {k : κ} {v : ν}
    {entries : List (κ × ν)} (h : entries.lookup k = some v) : k ∈ entries.map Prod.fst :=
  List.mem_map.2 ⟨(k, v), mem_of_lookup h, rfl⟩

theorem lookup_of_lookup_cons {κ ν : Type} [BEq κ] [LawfulBEq κ] {k k' : κ} {v v' : ν}
    {entries : List (κ × ν)} (h : ((k, v) :: entries).lookup k' = some v') :
    (k' = k ∧ v' = v) ∨ entries.lookup k' = some v' := by
  rw [List.lookup_cons] at h
  cases heq : k' == k with
  | true =>
    rw [heq] at h
    exact .inl ⟨eq_of_beq heq, (Option.some_inj.1 h).symm⟩
  | false =>
    rw [heq] at h
    exact .inr h

/-! ### Modules -/

section Settle

variable {a : Atlas} {key : ModuleKey} {answer : Unit → ModuleSlot}

theorem mem_modules_settle {entry : ModuleKey × ModuleSlot}
    (h : entry ∈ (a.settle key answer).2.modules) : entry ∈ a.modules ∨ entry.1 = key := by
  rw [Atlas.settle] at h
  split at h
  -- The module was there already, or it is put in front of the others.
  · exact .inl h
  · refine (List.mem_cons.1 h).symm.imp_right fun heq => ?_
    rw [heq]

/-- What was answered to a request stays. -/
theorem Atlas.lookup_settle {other : ModuleKey} {slot : ModuleSlot}
    (h : a.modules.lookup other = some slot) :
    (a.settle key answer).2.modules.lookup other = some slot := by
  rw [settle]
  split
  · exact h
  · next hnone =>
    have hne : other ≠ key := by
      rintro rfl
      rw [hnone] at h
      cases h
    rw [List.lookup_cons, beq_eq_false_iff_ne.2 hne]
    exact h

/-- What is settled is not settled anew. -/
theorem Atlas.settle_of_lookup {slot : ModuleSlot} (h : a.modules.lookup key = some slot)
    (answer : Unit → ModuleSlot) : a.settle key answer = (slot, a) := by
  rw [settle, h]

/-- What is asked for is settled. -/
theorem Atlas.lookup_settle_self (a : Atlas) (key : ModuleKey) (answer : Unit → ModuleSlot) :
    (a.settle key answer).2.modules.lookup key = some (a.settle key answer).1 := by
  rw [settle]
  split
  · next hslot => exact hslot
  · exact List.lookup_cons_self

theorem Task.known_settle (t : Task) : t.known (a.settle key answer).2 = t.known a := by
  rw [Atlas.settle]
  split
  · rfl
  · cases t <;> rfl

end Settle

/-! ### Memos -/

theorem Task.modules_note (a : Atlas) (t : Task) (answer : t.Answer) :
    (t.note a answer).modules = a.modules := by
  cases t <;> rfl

/-- What is remembered of a task after the answer of a task was noted. -/
theorem Task.known_note {a : Atlas} {t t' : Task} {answer : t.Answer} {answer' : t'.Answer}
    (h : t'.known (t.note a answer) = some answer') :
    (⟨t', answer'⟩ : (t : Task) × t.Answer) = ⟨t, answer⟩ ∨ t'.known a = some answer' := by
  -- Each kind of task has a memo of its own, so only a task of the same kind can be affected.
  cases t with
  | members ref access =>
    cases t' with
    | members ref' access' =>
      have h : (((ref, access), answer) :: a.membersMemo).lookup (ref', access') = some answer' := h
      refine (lookup_of_lookup_cons h).imp_left ?_
      rintro ⟨heq, rfl⟩
      cases heq
      rfl
    | bases ref' => exact .inr h
    | follow ref' => exact .inr h
  | bases ref =>
    cases t' with
    | bases ref' =>
      refine (lookup_of_lookup_cons h).imp_left ?_
      rintro ⟨rfl, rfl⟩
      rfl
    | members ref' access' => exact .inr h
    | follow ref' => exact .inr h
  | follow ref =>
    cases t' with
    | follow ref' =>
      refine (lookup_of_lookup_cons h).imp_left ?_
      rintro ⟨rfl, rfl⟩
      rfl
    | members ref' access' => exact .inr h
    | bases ref' => exact .inr h

/-- A task comes to its answer because that is known, because the task is cut, or by the
    answer being computed. -/
theorem attend_cases {active : CallStack} {t : Task} {compute : t ∉ active.tasks → Run t.Answer}
    {s s' : LookupState} {answer : t.Answer} (h : attend active t compute s = some (answer, s')) :
    (t.known s.atlas = some answer ∧ s' = s)
      ∨ (t ∈ active.tasks ∧ answer = t.cut ∧ s' = { s with cuts := s.cuts + 1 })
      ∨ ∃ fresh s₁, compute fresh s = some (answer, s₁)
          ∧ s' = conclude active t s.cuts answer s₁ := by
  rw [attend] at h
  cases hknown : t.known s.atlas with
  | some known =>
    rw [hknown] at h
    cases h
    exact .inl ⟨rfl, rfl⟩
  | none =>
    rw [hknown] at h
    dsimp only at h
    by_cases hactive : t ∈ active.tasks
    · rw [dif_pos hactive] at h
      cases h
      exact .inr (.inl ⟨hactive, rfl, rfl⟩)
    · rw [dif_neg hactive] at h
      obtain ⟨⟨found, s₁⟩, hcompute, heq⟩ := Option.map_eq_some_iff.1 h
      cases heq
      exact .inr (.inr ⟨hactive, s₁, hcompute, rfl⟩)

end PyAtlas
