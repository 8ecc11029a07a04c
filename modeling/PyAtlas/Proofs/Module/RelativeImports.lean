import PyAtlas.Proofs.Module.Growth
import PyAtlas.Syntax.ParseStmt

/-!
# Relative imports

An import that begins with points is relative to the package of the module: one point stands for
the package itself, and each further one for the package around it. How many segments of the name
of the module are left is one subtraction, `packageDepth`. As long as a segment is left the import
leads into the package of these segments; otherwise it leads nowhere. So it never leads out of the
outermost package.

What one import means holds of all imports of a module, since a graph has no target but those of its
declarations.

## Key definitions
- `packageDepth`: the number of segments that a relative import keeps.
- `ModuleGraph.LeadsTo`: the targets of the imports and the star imports of a graph.
- `Cursor.pointsAhead`: the points before the module of a from-import.

## Key results
- `absoluteModule_of_pos`, `absoluteModule_of_nonpos`: the module that a relative import means.
- `Assembly.Imports.place`, `Assembly.Imports.build`: each target is that of a declaration.
- `Parser.importLevel_eq`: the level of an import is the number of its points.
- `relative_imports_resolve`: where the imports of a module lead.
-/

namespace PyAtlas

/-! ### The module that is meant -/

/-- The number of segments that an import with `level` points keeps of the name of a module. It is
    not positive where the import climbs out of the outermost package. -/
def packageDepth (name : String) (isPackage : Bool) (level : Nat) : Int :=
  (DottedName.segments name).length - (if isPackage then 0 else 1) - ((level : Int) - 1)

section AbsoluteModule

variable {name : String} {isPackage : Bool} {module : Option String} {level : Nat}

/-- The package of a module has all segments of its name, or all but the last. -/
private theorem package_eq_take (segments : List String) (isPackage : Bool) :
    (if isPackage then segments else segments.dropLast)
      = segments.take (segments.length - if isPackage then 0 else 1) := by
  cases isPackage with
  | true => exact (List.take_length).symm
  | false => exact List.dropLast_eq_take

/-- As long as a segment is left, the module is named from there. -/
theorem absoluteModule_of_pos (hlevel : 1 ≤ level) (h : 1 ≤ packageDepth name isPackage level) :
    absoluteModule name isPackage module level = some (DottedName.join
      ((DottedName.segments name).take (packageDepth name isPackage level).toNat
        ++ module.toList)) := by
  obtain ⟨up, rfl⟩ : ∃ up, level = up + 1 := ⟨level - 1, by omega⟩
  rw [packageDepth] at h ⊢
  rw [absoluteModule]
  generalize DottedName.segments name = segments at h ⊢
  have hpackage : (segments.take (segments.length - if isPackage then 0 else 1)).length
      = segments.length - if isPackage then 0 else 1 := by
    rw [List.length_take, Nat.min_eq_left (Nat.sub_le _ _)]
  simp only [package_eq_take, hpackage]
  -- The subtractions do not reach zero, so they are the same in the natural numbers.
  have hkept : (segments.length - (if isPackage then 0 else 1) - (((up + 1 : Nat) : Int) - 1)).toNat
      = segments.length - (if isPackage then 0 else 1) - up := by
    cases isPackage <;> simp
  have hleft : ¬ segments.length - (if isPackage then 0 else 1) ≤ up := by
    cases isPackage <;> simp at h ⊢ <;> omega
  rw [if_neg hleft, List.take_take, Nat.min_eq_left (Nat.sub_le _ _), hkept]

/-- Where no segment is left there is no module. -/
theorem absoluteModule_of_nonpos (hlevel : 1 ≤ level) (h : packageDepth name isPackage level ≤ 0) :
    absoluteModule name isPackage module level = none := by
  obtain ⟨up, rfl⟩ : ∃ up, level = up + 1 := ⟨level - 1, by omega⟩
  rw [packageDepth] at h
  rw [absoluteModule]
  generalize DottedName.segments name = segments at h ⊢
  refine if_pos ?_
  rw [package_eq_take, List.length_take]
  cases isPackage <;> simp at h ⊢ <;> omega

theorem DottedName.join_cons_cons (part next : String) (parts : List String) :
    join (part :: next :: parts) = part ++ "." ++ join (next :: parts) := by
  simp [join, String.intercalate_cons_cons]

/-- A name that begins with a part begins with the first part of that. -/
theorem DottedName.head_join (part : String) (parts : List String) :
    head (join (part :: parts)) = head part := by
  cases parts with
  | nil => rw [join, String.intercalate_singleton]
  | cons next parts => rw [join_cons_cons, head_append]

/-- A relative import that leads anywhere leads into the outermost package. -/
theorem head_absoluteModule (hlevel : 1 ≤ level) {target : String}
    (h : absoluteModule name isPackage module level = some target) :
    DottedName.head target = DottedName.head name := by
  by_cases hdepth : 1 ≤ packageDepth name isPackage level
  · rw [absoluteModule_of_pos hlevel hdepth] at h
    obtain rfl := Option.some.inj h
    obtain ⟨kept, hkept⟩ : ∃ kept, (packageDepth name isPackage level).toNat = kept + 1 :=
      ⟨(packageDepth name isPackage level).toNat - 1, by omega⟩
    obtain ⟨first, others, hname⟩ := List.exists_cons_of_ne_nil (DottedName.segments_ne_nil name)
    have hhead : DottedName.head name = DottedName.head first := by
      rw [← DottedName.head_join first others, ← hname, DottedName.join_segments]
    rw [hkept, hname, List.take_succ_cons, List.cons_append, DottedName.head_join, hhead]
  · rw [absoluteModule_of_nonpos hlevel (by omega)] at h
    cases h

end AbsoluteModule

/-! ### The targets of imports -/

/-- The module and the level that an import of members or a star import is written with. -/
def ImportRef.base? : ImportRef → Option (Option String × Nat)
  | .module _ => none
  | .member base level _ | .star base level => some (base, level)

/-- The module that a target is, or is a member of. -/
def ImportTarget.module? : ImportTarget → Option String
  | .module name | .member name _ => some name
  | .unresolved => none

/-- An import of members and a star import lead to the module that they name. -/
theorem ImportTarget.module?_ofRef (name : String) (isPackage : Bool) {ref : ImportRef}
    {base : Option String} {level : Nat} (h : ref.base? = some (base, level)) :
    (ofRef name isPackage ref).module? = absoluteModule name isPackage base level := by
  cases ref with
  | module target => cases h
  | member base' level' taken =>
    obtain ⟨rfl, rfl⟩ := Prod.mk.inj (Option.some.inj h)
    rw [ofRef]
    cases absoluteModule name isPackage base' level' <;> rfl
  | star base' level' =>
    obtain ⟨rfl, rfl⟩ := Prod.mk.inj (Option.some.inj h)
    rw [ofRef]
    cases absoluteModule name isPackage base' level' <;> rfl

/-- What an entity of some kind leads to, if it is an import. -/
def EntityKind.target? : EntityKind → Option ImportTarget
  | .imported target => some target
  | _ => none

namespace ModuleGraph

variable {g : ModuleGraph} {target : ImportTarget}

/-- An import or a star import of the graph has the target. -/
def LeadsTo (g : ModuleGraph) (target : ImportTarget) : Prop :=
  target ∈ g.starImports ∨ ∃ id, g.import? id = some target

theorem import?_eq (g : ModuleGraph) (id : EntityId) :
    g.import? id = (g.entity? id).bind (·.kind.target?) := by
  rw [import?, kind?]
  cases g.entity? id with
  | none => rfl
  | some e => cases h : e.kind <;> simp [h, EntityKind.target?]

/-- Adding an entity adds its target only. -/
theorem LeadsTo.of_push {e : Entity} (h : (g.push e).LeadsTo target) :
    g.LeadsTo target ∨ e.kind.target? = some target := by
  rcases h with hstar | ⟨id, hid⟩
  · exact .inl (.inl hstar)
  · rw [import?_eq, entity?_push] at hid
    split at hid
    · exact .inr hid
    · exact .inl (.inr ⟨id, by rw [import?_eq, hid]⟩)

/-- A change that concerns no import adds no target. -/
theorem LeadsTo.of_update {f : EntityKind → EntityKind} {owner : EntityId}
    (hf : ∀ kind, (f kind).target? = kind.target?) (h : (g.update owner f).LeadsTo target) :
    g.LeadsTo target := by
  rcases h with hstar | ⟨id, hid⟩
  · have hsame : (g.update owner f).starImports = g.starImports := by cases owner <;> rfl
    exact .inl (hsame ▸ hstar)
  · rw [import?_eq, entity?_update] at hid
    refine .inr ⟨id, ?_⟩
    rw [import?_eq]
    split at hid
    · cases he : g.entity? id with
      | none => rw [he] at hid; cases hid
      | some e =>
        rw [he] at hid
        exact (hf e.kind).symm.trans hid
    · exact hid

theorem LeadsTo.of_bind {owner id : EntityId} {name : String}
    (h : (g.bind owner name id).LeadsTo target) : g.LeadsTo target := by
  have hbind : ∀ kind : EntityKind, (kind.bind name id).target? = kind.target? := by
    intro kind
    cases kind <;> rfl
  cases owner with
  | module => exact h
  | unknown => exact of_update hbind h
  | declared index => exact of_update hbind h

theorem LeadsTo.of_declare {e : Entity} (h : (g.declare e).LeadsTo target) :
    g.LeadsTo target ∨ e.kind.target? = some target :=
  of_push (of_bind h)

end ModuleGraph

/-! ### The imports of a module -/

namespace Assembly

variable {a : Assembly} {name : String} {isPackage : Bool} {ds : List Declaration}

/-- The graph in the making is that of a module of the given name, and its imports lead where those
    of the declarations do. -/
structure Imports (name : String) (isPackage : Bool) (a : Assembly) (ds : List Declaration) :
    Prop where
  named : a.graph.name = name
  packaged : a.graph.isPackage = isPackage
  targets : ∀ target, a.graph.LeadsTo target →
    ∃ d ∈ ds, ∃ ref, d.kind = .imported ref ∧ target = .ofRef name isPackage ref

section Place

variable {d : Declaration} {kind : EntityKind} {target : ImportTarget}

theorem leadsTo_placeNew (h : (a.placeNew d kind).graph.LeadsTo target) :
    a.graph.LeadsTo target ∨ kind.target? = some target :=
  ModuleGraph.LeadsTo.of_declare h

/-- An entity that is no import adds no target. -/
theorem leadsTo_placeNew_of_none (hnone : kind.target? = none)
    (h : (a.placeNew d kind).graph.LeadsTo target) : a.graph.LeadsTo target := by
  rcases leadsTo_placeNew h with hleads | hsome
  · exact hleads
  · rw [hnone] at hsome
    cases hsome

theorem leadsTo_placeFunction {signature : Signature}
    (h : (a.placeFunction d signature).graph.LeadsTo target) : a.graph.LeadsTo target := by
  have hjoin : ∀ kind : EntityKind,
      (kind.addOverload ⟨signature, d.span⟩).target? = kind.target? := by
    intro kind
    cases kind <;> rfl
  simp only [placeFunction] at h
  split at h
  · exact .of_update hjoin h
  · exact leadsTo_placeNew_of_none rfl h

theorem leadsTo_placeAttribute {value : ValueKind}
    (h : (a.placeAttribute d value).graph.LeadsTo target) : a.graph.LeadsTo target := by
  have hattribute : ∀ kind : EntityKind,
      (kind.bindAttribute d.name a.graph.nextId).target? = kind.target? := by
    intro kind
    cases kind <;> rfl
  simp only [placeAttribute] at h
  split at h
  · rcases ModuleGraph.LeadsTo.of_push (.of_update hattribute h) with hleads | hsome
    · exact hleads
    · cases hsome
  · exact h

theorem leadsTo_placeStar {starred : ImportTarget}
    (h : (a.placeStar d starred).graph.LeadsTo target) :
    a.graph.LeadsTo target ∨ target = starred := by
  simp only [placeStar] at h
  split at h
  · rcases h with hstar | hentity
    · rcases List.mem_append.1 hstar with hstar | hstar
      · exact .inl (.inl hstar)
      · exact .inr (List.mem_singleton.1 hstar)
    · exact .inl (.inr hentity)
  · exact .inl h

/-- A target that a placed declaration adds is its own. -/
theorem leadsTo_place (h : (a.place d).graph.LeadsTo target) :
    a.graph.LeadsTo target ∨ ∃ ref, d.kind = .imported ref
      ∧ target = .ofRef a.graph.name a.graph.isPackage ref := by
  have hown : ∀ {made}, EntityKind.target? (.imported made) = some target → target = made :=
    fun hmade => (Option.some.inj hmade).symm
  rw [place] at h
  cases hkind : d.kind with
  | «class» shape =>
    rw [hkind] at h
    exact .inl (leadsTo_placeNew_of_none rfl h)
  | function signature =>
    rw [hkind] at h
    exact .inl (leadsTo_placeFunction h)
  | «variable» value onInstance =>
    rw [hkind] at h
    cases onInstance with
    | false => exact .inl (leadsTo_placeNew_of_none rfl h)
    | true => exact .inl (leadsTo_placeAttribute h)
  | imported ref =>
    rw [hkind] at h
    cases ref with
    | module _ => exact (leadsTo_placeNew h).imp_right fun hmade => ⟨_, rfl, hown hmade⟩
    | member _ _ _ => exact (leadsTo_placeNew h).imp_right fun hmade => ⟨_, rfl, hown hmade⟩
    | star _ _ => exact (leadsTo_placeStar h).imp_right fun hmade => ⟨_, rfl, hmade⟩

end Place

theorem Imports.place (h : a.Imports name isPackage ds) (d : Declaration) :
    (a.place d).Imports name isPackage (ds ++ [d]) := by
  have hextends := ModuleGraph.Extends.place a d
  refine ⟨hextends.name.trans h.named, hextends.isPackage.trans h.packaged, fun target hleads => ?_⟩
  rcases leadsTo_place hleads with hleads | ⟨ref, hkind, rfl⟩
  · obtain ⟨d', hd', hmade⟩ := h.targets target hleads
    exact ⟨d', List.mem_append_left _ hd', hmade⟩
  · rw [h.named, h.packaged]
    exact ⟨d, List.mem_append_right _ (List.mem_singleton.2 rfl), ref, hkind, rfl⟩

theorem Imports.build {graph : ModuleGraph} (hdeclared : graph.declared = #[])
    (hstars : graph.starImports = []) (ds : List Declaration) :
    (build graph ds).Imports graph.name graph.isPackage ds := by
  induction ds using List.reverseRecOn with
  | nil =>
    refine ⟨rfl, rfl, fun target hleads => ?_⟩
    rcases hleads with hstar | ⟨id, hid⟩
    · rw [build_nil, hstars] at hstar
      cases hstar
    · rw [build_nil, ModuleGraph.import?_eq] at hid
      cases id <;> simp [ModuleGraph.entity?, hdeclared] at hid
  | append_singleton ds d ih =>
    rw [build_concat]
    exact ih.place d

theorem Imports.ofTree (name : String) (path : Option String) (isPackage : Bool)
    (tree : SyntaxTree) {target : ImportTarget}
    (h : (ModuleGraph.ofTree name path isPackage tree).LeadsTo target) :
    ∃ d ∈ (Outline.ofTree tree).declarations, ∃ ref, d.kind = .imported ref
      ∧ target = .ofRef name isPackage ref := by
  rw [← graph_upTo_length, upTo, List.take_length] at h
  exact (build rfl rfl (Outline.ofTree tree).declarations).targets target h

end Assembly

/-! ### The points of an import -/

/-- The number of points that a token is written with. -/
def TokenKind.points : TokenKind → Nat
  | .operator .dot => 1
  | .operator .ellipsis => 3
  | _ => 0

/-- The number of points that come next. -/
def Cursor.pointsAhead (c : Cursor) : Nat :=
  (c.after.takeWhile (0 < ·.kind.points)).foldr (fun t n => t.kind.points + n) 0

/-- Each round reads a token of points, if one is next. -/
theorem Parser.pointStep_eq (level : Nat) (s : ParserState) :
    pointStep level s = if 0 < s.cursor.kind.points
      then (.again (level + s.cursor.kind.points), { s with cursor := s.cursor.advance })
      else (.finished level, s) := by
  show (match s.cursor.kind with
    | .operator .dot => _
    | .operator .ellipsis => _
    | _ => _ : Parser (LoopStep Nat Nat)) s = _
  generalize s.cursor.kind = kind
  split
  · rfl
  · rfl
  · rename_i hdot hellipsis
    have hnone : kind.points = 0 := by
      unfold TokenKind.points
      split
      · exact absurd rfl hdot
      · exact absurd rfl hellipsis
      · rfl
    rw [hnone]
    rfl

theorem Parser.morePoints_eq (level : Nat) (s : ParserState) :
    (morePoints level s).1 = level + s.cursor.pointsAhead := by
  obtain ⟨⟨before, after, size⟩, errors⟩ := s
  induction after generalizing before level with
  | nil =>
    rw [morePoints, loop_eq, pointStep_eq]
    rfl
  | cons t after ih =>
    have hkind : Cursor.kind ⟨before, t :: after, size⟩ = t.kind := rfl
    rw [morePoints, loop_eq, pointStep_eq]
    dsimp only
    rw [hkind]
    by_cases hpoints : 0 < t.kind.points
    · have hahead : Cursor.pointsAhead ⟨before, t :: after, size⟩
          = t.kind.points + Cursor.pointsAhead ⟨t :: before, after, size⟩ := by
        simp [Cursor.pointsAhead, hpoints]
      rw [if_pos hpoints, hahead, ← Nat.add_assoc, ← ih]
      exact congrArg Prod.fst (if_pos (Nat.lt_succ_self after.length))
    · have hahead : Cursor.pointsAhead ⟨before, t :: after, size⟩ = 0 := by
        simp [Cursor.pointsAhead, hpoints]
      rw [if_neg hpoints, hahead]
      rfl

/-- The level of an import is the number of its points, three of which may be one token. -/
theorem Parser.importLevel_eq (s : ParserState) : (importLevel s).1 = s.cursor.pointsAhead := by
  rw [importLevel, morePoints_eq, Nat.zero_add]

/-- An import with `level` points in front of a module keeps as many segments of the name of its
    module as the points leave, and is named from there; where they leave none, it leads nowhere.
    Without points it leads to the module that it names. So no import of members and no star import
    of a module leads out of the outermost package. The level of an import is the number of its
    points. -/
theorem relative_imports_resolve (name : String) (isPackage : Bool) :
    (∀ (module : Option String) (level : Nat), 1 ≤ level →
      let n := packageDepth name isPackage level
      (1 ≤ n → absoluteModule name isPackage module level
          = some (DottedName.join ((DottedName.segments name).take n.toNat ++ module.toList)))
        ∧ (n ≤ 0 → absoluteModule name isPackage module level = none))
      ∧ (∀ module, absoluteModule name isPackage module 0 = module)
      ∧ (∀ path tree target, (ModuleGraph.ofTree name path isPackage tree).LeadsTo target →
        ∃ d ∈ (Outline.ofTree tree).declarations, ∃ ref, d.kind = .imported ref
          ∧ target = .ofRef name isPackage ref
          ∧ ∀ base level, ref.base? = some (base, level) →
            target.module? = absoluteModule name isPackage base level
              ∧ (1 ≤ level → ∀ module, target.module? = some module →
                DottedName.head module = DottedName.head name))
      ∧ ∀ s, (Parser.importLevel s).1 = s.cursor.pointsAhead := by
  refine ⟨fun module level hlevel => ⟨absoluteModule_of_pos hlevel, absoluteModule_of_nonpos hlevel⟩,
    fun module => rfl, fun path tree target hleads => ?_, Parser.importLevel_eq⟩
  obtain ⟨d, hd, ref, hkind, htarget⟩ := Assembly.Imports.ofTree name path isPackage tree hleads
  refine ⟨d, hd, ref, hkind, htarget, fun base level hbase => ?_⟩
  have hmodule : target.module? = absoluteModule name isPackage base level := by
    rw [htarget, ImportTarget.module?_ofRef name isPackage hbase]
  exact ⟨hmodule, fun hlevel module hsome => head_absoluteModule hlevel (hmodule ▸ hsome)⟩

end PyAtlas
