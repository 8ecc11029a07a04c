/-!
# Name tables

A `NameTable` gives each of its names one value and remembers the order in which the names
came in. There are two ways to put a name in: `insert` replaces the value of a name that is
there and leaves the name in its place, `insertNew` leaves such a name alone.

## Key results
- `get?_insert`, `names_insert`: what `insert` does to the two views of a table.
- `get?_insertNew`, `names_insertNew`: the same for `insertNew`.
- `mem_names_iff`: a name is listed exactly when it has a value.
-/

namespace PyAtlas

/-- Names in the order of their first insertion, each with its value. -/
structure NameTable (α : Type) where
  entries : List (String × α)
  nodup : (entries.map Prod.fst).Nodup
deriving Repr, DecidableEq

namespace NameTable

variable {α : Type}

/-- The table without names. -/
def empty : NameTable α := ⟨[], List.nodup_nil⟩

instance : Inhabited (NameTable α) := ⟨empty⟩

/-- The names, in order. -/
def names (t : NameTable α) : List String :=
  t.entries.map Prod.fst

/-- The value of a name. -/
def get? (t : NameTable α) (name : String) : Option α :=
  (t.entries.find? fun entry => entry.1 == name).map Prod.snd

/-- Whether a name is in the table. -/
def contains (t : NameTable α) (name : String) : Bool :=
  t.entries.any fun entry => entry.1 == name

/-- A name is in the table when it is one of the names. -/
theorem contains_iff {t : NameTable α} {name : String} :
    t.contains name = true ↔ name ∈ t.names := by
  simp [contains, names]

theorem contains_eq_false {t : NameTable α} {name : String} :
    t.contains name = false ↔ name ∉ t.names := by
  rw [← contains_iff, Bool.not_eq_true]

/-- The entries with another value for a name. -/
def replace (name : String) (x : α) (entries : List (String × α)) : List (String × α) :=
  entries.map fun entry => if entry.1 = name then (name, x) else entry

@[simp] theorem map_fst_replace (name : String) (x : α) (entries : List (String × α)) :
    (replace name x entries).map Prod.fst = entries.map Prod.fst := by
  simp only [replace, List.map_map]
  refine List.map_congr_left fun entry _ => ?_
  by_cases h : entry.1 = name <;> simp [h]

private theorem nodup_append_entry {t : NameTable α} {name : String} (x : α)
    (h : name ∉ t.names) : ((t.entries ++ [(name, x)]).map Prod.fst).Nodup := by
  rw [List.map_append, List.nodup_append]
  refine ⟨t.nodup, by simp, ?_⟩
  intro a ha b hb
  simp only [List.map_cons, List.map_nil, List.mem_singleton] at hb
  exact fun hab => h (by rw [← hb, ← hab]; exact ha)

/-- Gives a name a value: in place if the name is there, after all others if not. -/
def insert (t : NameTable α) (name : String) (x : α) : NameTable α :=
  match h : t.contains name with
  | true => ⟨replace name x t.entries, by rw [map_fst_replace]; exact t.nodup⟩
  | false => ⟨t.entries ++ [(name, x)], nodup_append_entry x (contains_eq_false.mp h)⟩

/-- Gives a name a value after all others, unless the name is there. -/
def insertNew (t : NameTable α) (name : String) (x : α) : NameTable α :=
  match h : t.contains name with
  | true => t
  | false => ⟨t.entries ++ [(name, x)], nodup_append_entry x (contains_eq_false.mp h)⟩

/-- Puts in the entries of a list whose names are not there, in order. -/
def insertAllNew (t : NameTable α) (entries : List (String × α)) : NameTable α :=
  entries.foldl (fun t entry => t.insertNew entry.1 entry.2) t

/-- The table with the same names and other values. -/
def map {β : Type} (f : α → β) (t : NameTable α) : NameTable β :=
  ⟨t.entries.map fun entry => (entry.1, f entry.2), by
    have h : (t.entries.map fun entry => (entry.1, f entry.2)).map Prod.fst
        = t.entries.map Prod.fst := by simp
    rw [h]
    exact t.nodup⟩

/-! ### The views of a table -/

@[simp] theorem names_empty : (empty : NameTable α).names = [] := rfl

@[simp] theorem get?_empty (name : String) : (empty : NameTable α).get? name = none := rfl

/-- A name is listed exactly when it has a value. -/
theorem mem_names_iff {t : NameTable α} {name : String} :
    name ∈ t.names ↔ (t.get? name).isSome = true := by
  simp [names, get?]

theorem get?_eq_none {t : NameTable α} {name : String} :
    t.get? name = none ↔ name ∉ t.names := by
  rw [mem_names_iff, Bool.not_eq_true, Option.isSome_eq_false_iff, Option.isNone_iff_eq_none]

theorem names_insert (t : NameTable α) (name : String) (x : α) :
    (t.insert name x).names = if name ∈ t.names then t.names else t.names ++ [name] := by
  unfold insert
  split
  next h =>
    rw [if_pos (contains_iff.mp h)]
    exact map_fst_replace name x t.entries
  next h =>
    rw [if_neg (contains_eq_false.mp h)]
    simp [names]

theorem names_insertNew (t : NameTable α) (name : String) (x : α) :
    (t.insertNew name x).names = if name ∈ t.names then t.names else t.names ++ [name] := by
  unfold insertNew
  split
  next h => rw [if_pos (contains_iff.mp h)]
  next h =>
    rw [if_neg (contains_eq_false.mp h)]
    simp [names]

private theorem find_replace (name : String) (x : α) (entries : List (String × α)) (m : String) :
    (replace name x entries).find? (fun entry => entry.1 == m)
      = (entries.find? fun entry => entry.1 == m).map
          fun entry => if entry.1 = name then (name, x) else entry := by
  rw [replace, List.find?_map]
  congr 2
  funext entry
  by_cases h : entry.1 = name <;> simp [h]

theorem get?_insert (t : NameTable α) (name : String) (x : α) (m : String) :
    (t.insert name x).get? m = if m = name then some x else t.get? m := by
  unfold insert
  split
  next h =>
    simp only [get?, find_replace]
    by_cases hm : m = name
    · subst hm
      have hs := mem_names_iff.mp (contains_iff.mp h)
      simp only [get?, Option.isSome_map] at hs
      obtain ⟨entry, he⟩ := Option.isSome_iff_exists.mp hs
      have hkey := List.find?_some he
      simp only [beq_iff_eq] at hkey
      simp [he, hkey]
    · rw [if_neg hm]
      cases he : t.entries.find? fun entry => entry.1 == m with
      | none => rfl
      | some entry =>
        have hkey := List.find?_some he
        simp only [beq_iff_eq] at hkey
        simp only [Option.map_some]
        rw [if_neg (by rw [hkey]; exact hm)]
  next h =>
    have hn := contains_eq_false.mp h
    simp only [get?, List.find?_append]
    by_cases hm : m = name
    · subst hm
      have hs := get?_eq_none.mpr hn
      simp only [get?, Option.map_eq_none_iff] at hs
      simp [hs]
    · have : (name == m) = false := by simpa using fun h => hm h.symm
      rw [if_neg hm]
      simp [this]

theorem get?_insertNew (t : NameTable α) (name : String) (x : α) (m : String) :
    (t.insertNew name x).get? m =
      if m = name then some ((t.get? name).getD x) else t.get? m := by
  unfold insertNew
  split
  next h =>
    by_cases hm : m = name
    · subst hm
      obtain ⟨y, hy⟩ := Option.isSome_iff_exists.mp (mem_names_iff.mp (contains_iff.mp h))
      simp [hy]
    · simp [hm]
  next h =>
    have hs := get?_eq_none.mpr (contains_eq_false.mp h)
    have hf := hs
    simp only [get?, Option.map_eq_none_iff] at hf
    simp only [get?, List.find?_append]
    by_cases hm : m = name
    · subst hm
      simp [hf]
    · have : (name == m) = false := by simpa using fun h => hm h.symm
      simp [hm, this]

/-- Putting in a name that is there changes nothing. -/
theorem insertNew_of_contains {t : NameTable α} {name : String} (h : t.contains name = true)
    (x : α) : t.insertNew name x = t := by
  unfold insertNew
  split
  next => rfl
  next hnot =>
    rw [h] at hnot
    cases hnot

@[simp] theorem get?_map {β : Type} (f : α → β) (t : NameTable α) (name : String) :
    (t.map f).get? name = (t.get? name).map f := by
  rw [get?, map, List.find?_map, Option.map_map, get?, Option.map_map]
  rfl

end NameTable

end PyAtlas
