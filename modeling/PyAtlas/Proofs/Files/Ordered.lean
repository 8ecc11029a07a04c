import PyAtlas.Files.Tree

/-!
# Directories in order

The entries of a directory stand in the order of their names, so that no two have one name and
a name is enough to find an entry. This is what makes a value of `FileTree` a tree of files; it
holds at the start and is kept by whatever changes the files.

## Key results
- `FileTree.child?_eq_some_iff`: the entry of a name is the one that is listed under it.
- `FileTree.Ordered.put`, `FileSystem.Ordered.write`: changes keep the order.
- `FileSystem.Ordered.find`: what is at a path of ordered files is ordered.
-/

namespace PyAtlas

namespace FileTree

/-- The names of some entries stand in order. -/
abbrev NamesInOrder (entries : List (String × FileTree)) : Prop :=
  entries.Pairwise fun a b => a.1 < b.1

mutual

/-- The entries of every directory stand in the order of their names. -/
def Ordered : FileTree → Prop
  | .file _ => True
  | .directory entries => NamesInOrder entries ∧ OrderedBelow entries

/-- The same for what is below some entries. -/
def OrderedBelow : List (String × FileTree) → Prop
  | [] => True
  | (_, tree) :: rest => tree.Ordered ∧ OrderedBelow rest

end

variable {name : String} {tree : FileTree} {entries : List (String × FileTree)}

theorem orderedBelow_iff : OrderedBelow entries ↔ ∀ entry ∈ entries, entry.2.Ordered := by
  induction entries with
  | nil => simp [OrderedBelow]
  | cons entry rest ih => simp [OrderedBelow, ih]

theorem ordered_directory :
    (directory entries).Ordered ↔ NamesInOrder entries ∧ ∀ entry ∈ entries, entry.2.Ordered := by
  rw [Ordered, orderedBelow_iff]

theorem Ordered.empty : (directory []).Ordered := by
  simp [ordered_directory]

/-! ### Looking up -/

/-- An entry is found under its name. -/
theorem child?_eq_some_iff (h : NamesInOrder entries) :
    child? entries name = some tree ↔ (name, tree) ∈ entries := by
  refine ⟨mem_of_child?, fun hmem => ?_⟩
  obtain ⟨front, back, rfl⟩ := List.mem_iff_append.1 hmem
  refine List.lookup_eq_some_iff.2 ⟨front, back, rfl, fun entry hentry => ?_⟩
  have hlt : entry.1 < name := (List.pairwise_append.1 h).2.2 entry hentry _ List.mem_cons_self
  rw [bne_iff_ne]
  rintro rfl
  exact String.lt_irrefl _ hlt

theorem Ordered.child (h : ∀ entry ∈ entries, entry.2.Ordered)
    (hchild : child? entries name = some tree) : tree.Ordered :=
  h _ (mem_of_child? hchild)

theorem Ordered.inner (h : tree.Ordered) :
    NamesInOrder tree.entries ∧ ∀ entry ∈ tree.entries, entry.2.Ordered := by
  cases tree with
  | file content => exact ⟨List.Pairwise.nil, by simp [FileTree.entries]⟩
  | directory entries => exact ordered_directory.1 h

/-! ### Changing files -/

theorem mem_setEntry {entry : String × FileTree} (h : entry ∈ setEntry name tree entries) :
    entry = (name, tree) ∨ entry ∈ entries := by
  induction entries with
  | nil => exact .inl (List.mem_singleton.1 h)
  | cons other rest ih =>
    rw [setEntry] at h
    split at h
    · exact (List.mem_cons.1 h).imp_right (List.mem_cons_of_mem _)
    · split at h
      · exact List.mem_cons.1 h
      · rcases List.mem_cons.1 h with rfl | h
        · exact .inr List.mem_cons_self
        · exact (ih h).imp_right (List.mem_cons_of_mem _)

theorem NamesInOrder.setEntry (h : NamesInOrder entries) :
    NamesInOrder (setEntry name tree entries) := by
  induction entries with
  | nil => simp [NamesInOrder, FileTree.setEntry]
  | cons other rest ih =>
    obtain ⟨hother, hrest⟩ := List.pairwise_cons.1 h
    rw [FileTree.setEntry]
    split
    · rename_i hname
      exact List.pairwise_cons.2 ⟨fun entry hentry => hname ▸ hother entry hentry, hrest⟩
    · rename_i hname
      split
      -- The new entry comes before the first one that is greater.
      · rename_i hlt
        refine List.pairwise_cons.2 ⟨fun entry hentry => ?_, h⟩
        rcases List.mem_cons.1 hentry with rfl | hentry
        · exact hlt
        · exact String.lt_trans hlt (hother entry hentry)
      · rename_i hlt
        refine List.pairwise_cons.2 ⟨fun entry hentry => ?_, ih hrest⟩
        rcases mem_setEntry hentry with rfl | hentry
        -- Names that are neither equal nor greater are smaller.
        · show other.1 < name
          grind
        · exact hother entry hentry

/-- A file or directory is put in its place among the others. -/
theorem Ordered.put {present : FileTree} (names : List String) (htree : tree.Ordered)
    (h : present.Ordered) : (put names tree present).Ordered := by
  induction names generalizing present with
  | nil =>
    cases tree with
    | file content => exact htree
    | directory entries =>
      cases present with
      | file content => exact htree
      | directory entries => exact h
  | cons name rest ih =>
    obtain ⟨horder, hbelow⟩ := h.inner
    have hinner : ((child? present.entries name).getD (.directory [])).Ordered := by
      cases hchild : child? present.entries name with
      | none => exact .empty
      | some inner => exact .child hbelow hchild
    refine ordered_directory.2 ⟨horder.setEntry, fun entry hentry => ?_⟩
    rcases mem_setEntry hentry with rfl | hentry
    · exact ih hinner
    · exact hbelow entry hentry

end FileTree

namespace FileSystem

/-- All trees of a file system are in order. -/
def Ordered (fs : FileSystem) : Prop :=
  ∀ mount ∈ fs.mounts, mount.2.Ordered

theorem follow_ordered {pieces : List String} {above : List FileTree} {tree found : FileTree}
    (h : follow pieces above tree = .ok found) (habove : ∀ outer ∈ above, outer.Ordered)
    (htree : tree.Ordered) : found.Ordered := by
  induction pieces generalizing above tree with
  | nil =>
    rw [follow] at h
    cases h
    exact htree
  | cons piece rest ih =>
    cases tree with
    | file content => cases h
    | directory entries =>
      rw [follow.eq_def] at h
      simp only at h
      split at h
      -- A point stays where it is, two points lead to the directory above.
      · exact ih h habove htree
      · split at h
        · cases above with
          | nil => exact ih h habove .empty
          | cons outer above =>
            exact ih h (fun tree htree => habove tree (List.mem_cons_of_mem _ htree))
              (habove outer List.mem_cons_self)
        · split at h
          · rename_i inner hchild
            have hordered := FileTree.ordered_directory.1 htree
            refine ih h (fun outer houter => ?_) (.child hordered.2 hchild)
            rcases List.mem_cons.1 houter with rfl | houter
            · exact htree
            · exact habove outer houter
          · cases h

/-- What is at a path of ordered files is ordered. -/
theorem Ordered.find {fs : FileSystem} {path : String} {found : FileTree} (h : fs.Ordered)
    (hfind : fs.find path = .ok found) : found.Ordered := by
  rw [FileSystem.find] at hfind
  split at hfind
  · rename_i rest tree hmount
    obtain ⟨mount, hmem, hrest⟩ := List.exists_of_findSome?_eq_some hmount
    obtain ⟨_, _, heq⟩ := Option.map_eq_some_iff.1 hrest
    obtain ⟨rfl, rfl⟩ := Prod.mk.inj heq
    split at hfind
    · cases hfind
      exact h mount hmem
    · exact follow_ordered hfind (fun _ houter => nomatch houter) (h mount hmem)
  · cases hfind

/-- Writing a file keeps the order. -/
theorem Ordered.write {fs after : FileSystem} {dir name : String} {content : ByteArray}
    (h : fs.Ordered) (hwrite : fs.write dir name content = .ok after) : after.Ordered := by
  rw [FileSystem.write] at hwrite
  split at hwrite
  · cases hwrite
  · cases hwrite
  · cases hwrite
    intro mount hmem
    obtain ⟨⟨path, tree⟩, hold, rfl⟩ := List.mem_map.1 hmem
    have htree : tree.Ordered := h _ hold
    cases hbelow : below? path dir with
    | some rest =>
      simp only [hbelow]
      exact .put _ (by simp [FileTree.Ordered]) htree
    | none =>
      simp only [hbelow]
      exact htree

end FileSystem

end PyAtlas
