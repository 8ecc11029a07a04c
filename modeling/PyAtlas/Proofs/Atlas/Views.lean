import PyAtlas.Proofs.Atlas.Refinement

/-!
# The views of a class

The names of a class are meant to be those of the classes that it derives from. Both are worked
out from the bases of these classes, but not in the same surroundings: the names are a task, and
where a base is looked up among the names of the very class, that task is under way already and is
cut. So they agree for a class whose ancestry leads to no circle. They agree as well, whatever
circles there are, once the ancestry was found out before the names, because then all bases are
remembered and nothing is cut.

## Key definitions
- `World.namesOf`: the names in a table of a class.
- `Atlas.AncestryFirst`: the ancestry of a class was asked for before its names were.

## Key results
- `World.mem_names_namesAlong`: the names of a class with the classes to look them up in.
- `corresponds_recalls`: a task whose answer could be recalled gets no other answer.
- `Atlas.class_views_agree`: the names of a class are those of its ancestry.
- `Atlas.views_differ_in_selfBase`: they are not where a class derives from a class inside it.
-/

namespace PyAtlas

/-! ### Names along classes -/

theorem NameTable.mem_names_insertAllNew {α : Type} {t : NameTable α}
    {entries : List (String × α)} {name : String} :
    name ∈ (t.insertAllNew entries).names ↔ name ∈ t.names ∨ name ∈ entries.map Prod.fst := by
  induction entries generalizing t with
  | nil => simp [insertAllNew]
  | cons entry entries ih =>
    show name ∈ ((t.insertNew entry.1 entry.2).insertAllNew entries).names ↔ _
    rw [ih, names_insertNew, List.map_cons, List.mem_cons]
    by_cases hmem : entry.1 ∈ t.names
    · rw [if_pos hmem]
      grind
    · rw [if_neg hmem, List.mem_append, List.mem_singleton]
      grind

/-- The names in a table of a class. -/
def World.namesOf (w : World) (table : ClassInfo → NameTable EntityId) (cls : EntityRef) :
    List String :=
  match w.class? cls with
  | some info => (table info).names
  | none => []

theorem World.map_fst_entriesOf (w : World) (table : ClassInfo → NameTable EntityId)
    (cls : EntityRef) : (w.entriesOf table cls).map Prod.fst = w.namesOf table cls := by
  rw [entriesOf, namesOf]
  cases w.class? cls with
  | some info => exact List.map_map
  | none => rfl

theorem World.mem_flatMap_entriesOf {w : World} {table : ClassInfo → NameTable EntityId}
    {order : List EntityRef} {name : String} :
    name ∈ (order.flatMap (w.entriesOf table)).map Prod.fst
      ↔ ∃ cls ∈ order, name ∈ w.namesOf table cls := by
  simp only [List.map_flatMap, w.map_fst_entriesOf, List.mem_flatMap]

/-- The names of a class are those in the tables of the classes to look them up in. -/
theorem World.mem_names_namesAlong {w : World} {access : Access} {order : List EntityRef}
    {name : String} : name ∈ (w.namesAlong access order).names
      ↔ (access = .onInstance ∧ ∃ cls ∈ order, name ∈ w.namesOf ClassInfo.attributes cls)
        ∨ ∃ cls ∈ order, name ∈ w.namesOf ClassInfo.members cls := by
  rw [namesAlong, NameTable.mem_names_insertAllNew, NameTable.names_empty, List.map_append,
    List.mem_append, mem_flatMap_entriesOf]
  by_cases haccess : access = .onInstance
  · rw [if_pos haccess, mem_flatMap_entriesOf]
    simp [haccess]
  · rw [if_neg haccess]
    simp [haccess]

/-! ### What a handler finds -/

/-- Something is found, and it has the property. -/
def Judgement.found : Judgement Option where
  Holds x Q := ∃ a, x = some a ∧ Q a
  pure h := ⟨_, rfl, h⟩
  bind hp hf := by
    obtain ⟨a, ha, hQ⟩ := hp
    obtain ⟨b, hb, hR⟩ := hf a hQ
    exact ⟨b, Option.bind_eq_some_iff.2 ⟨a, ha, hb⟩, hR⟩

/-- May be asked for what the handler finds, and gets it. -/
def Contract.ofFound (w : World) (h : Handler Option) : Contract where
  world := w
  mayRequest key := h.request key = some (w key)
  mayAttend t := (h.task t).isSome = true
  answer t answer := h.task t = some answer
  mayVisit order ref := (h.visit order ref).isSome = true
  order order ref order' := h.visit order ref = some order'

theorem honors_ofFound (w : World) (h : Handler Option) : h.Honors .found (.ofFound w h) := by
  refine ⟨fun key hkey => ⟨w key, hkey, rfl, trivial⟩, fun t ht => ?_, fun order ref hvisit => ?_⟩
  · obtain ⟨answer, hanswer⟩ := Option.isSome_iff_exists.1 ht
    exact ⟨answer, hanswer, hanswer⟩
  · obtain ⟨order', horder⟩ := Option.isSome_iff_exists.1 hvisit
    exact ⟨order', horder, horder⟩

theorem ModuleGraph.import?_of_type {g : ModuleGraph} {id : EntityId}
    (h : g.category id = .type) : g.import? id = none := by
  have hclass := class?_isSome_of_type h
  rw [class?] at hclass
  rw [import?]
  cases hkind : g.kind? id with
  | none => rfl
  | some kind =>
    rw [hkind] at hclass
    cases kind with
    | «class» info => rfl
    | _ => exact absurd rfl hclass

section Class

variable {w : World} {h : Handler Option} {t : EntityRef} {order : List EntityRef}

/-- The names of a class are found where the classes to look them up in are found. -/
theorem collectMembers_found (htype : w.category t = .type) (hvisit : h.visit [] t = some order)
    (hself : h.request t.module = some (w t.module))
    (hrequest : ∀ cls ∈ order, h.request cls.module = some (w cls.module)) (access : Access) :
    (Task.members t access).body.interpret h = some (w.namesAlong access order) := by
  have hmeets : (Lookup.collectMembers t access).Meets (.ofFound w h) fun table =>
      ∃ order, h.visit [] t = some order ∧ table = w.namesAlong access order := by
    refine ⟨hself, fun _ => ?_⟩
    dsimp only [Lookup.bind]
    rw [show ((Contract.ofFound w h).world t.module).graph.category t.id = .type from htype]
    refine Lookup.meets_classMembers (Option.isSome_iff_exists.2 ⟨order, hvisit⟩) ?_
    intro order' (horder' : h.visit [] t = some order')
    rw [hvisit] at horder'
    cases horder'
    exact hrequest
  obtain ⟨table, htable, order', horder', rfl⟩ := hmeets.interpret (honors_ofFound w h)
  rw [hvisit] at horder'
  cases horder'
  exact htable

/-- The names of a class are listed where they are found. -/
theorem memberNames_found (htype : w.category t = .type)
    (hself : h.request t.module = some (w t.module)) {access : Access}
    {table : NameTable EntityRef} (htable : h.task (.members t access) = some table) :
    (Question.memberNames t access).lookup.interpret h = some table.names := by
  have hmeets : (Question.memberNames t access).lookup.Meets (.ofFound w h)
      (· = table.names) := by
    refine Lookup.Meets.bind (Q := (· = t)) ⟨hself, fun _ => ?_⟩ ?_
    · show Lookup.Meets _ (if (w.import? t).isSome then Lookup.task (.follow t) Lookup.done
        else pure t) _
      rw [World.import?, ModuleGraph.import?_of_type htype]
      exact .pure rfl
    · rintro _ rfl
      refine ⟨Option.isSome_iff_exists.2 ⟨table, htable⟩, fun answer hanswer => ?_⟩
      rw [show h.task _ = some answer from hanswer] at htable
      cases htable
      rfl
  obtain ⟨names, hnames, rfl⟩ := hmeets.interpret (honors_ofFound w h)
  exact hnames

end Class

/-! ### Ancestries that can be recalled -/

/-- Of the task nothing but this answer is remembered. -/
def Atlas.RemembersOnly (a : Atlas) (u : Task) (answer : u.Answer) : Prop :=
  ∀ other, u.known a = some other → other = answer

/-- From an atlas on in which the answer to a task could be recalled: what can be recalled is
    found, and no other answer to the task is remembered. -/
def Correspondence.recalls (active : CallStack) (b : Atlas) (u : Task) (answer : u.Answer) :
    Correspondence Run Option where
  Rel p q := ∀ s r, b.GrowsTo s.atlas → s.atlas.RemembersOnly u answer → p s = some r →
    Advances active s r.2 ∧ r.2.atlas.RemembersOnly u answer ∧ ∀ found, q = some found → found = r.1
  pure := by
    rintro _ _ s _ - honly ⟨⟩
    exact ⟨.refl _ s, honly, fun found hfound => (Option.some_inj.1 hfound).symm⟩
  bind hp hf s r hb honly hr := by
    obtain ⟨a, s', ha, hr⟩ := Run.bind_eq_some_iff.1 hr
    obtain ⟨hadvances, honly', hsame⟩ := hp s _ hb honly ha
    obtain ⟨hadvances', honly'', hsame'⟩ := hf a s' r (hb.trans hadvances.grows) honly' hr
    refine ⟨hadvances.trans hadvances', honly'', fun found hfound => ?_⟩
    obtain ⟨first, hfirst, hfound⟩ := Option.bind_eq_some_iff.1 hfound
    rw [hsame first hfirst] at hfound
    exact hsame' found hfound

section Recalls

variable {active : CallStack} {b : Atlas} {u : Task} {answer : u.Answer}

theorem recalls_request (key : ModuleKey) :
    (Correspondence.recalls active b u answer).Rel (Run.request key) (b.modules.lookup key) := by
  intro s r hb honly hr
  have hadvances : Advances active s r.2 := .request hr
  rw [Run.request_eq_some_iff.1 hr] at hadvances ⊢
  refine ⟨hadvances, fun other hknown => honly other ?_, fun found hfound => ?_⟩
  · rwa [Atlas.request, u.known_settle] at hknown
  · rw [Atlas.request_of_lookup (hb.modules hfound)]

theorem Atlas.RemembersOnly.note {a : Atlas} {v : Task} {found : v.Answer}
    (ha : a.RemembersOnly u answer)
    (h : (⟨u, answer⟩ : (t : Task) × t.Answer) = ⟨v, found⟩ ∨ u ≠ v) :
    (v.note a found).RemembersOnly u answer := by
  intro other hknown
  rcases h with heq | hne
  · cases heq
    rw [u.known_note_self] at hknown
    exact (Option.some_inj.1 hknown).symm
  · rw [Task.known_note_of_ne hne] at hknown
    exact ha other hknown

theorem recalls_attend {v : Task} {compute : v ∉ active.tasks → Run v.Answer} {depth : Nat}
    (hrecall : u.body.interpret (recalling b depth) = some answer)
    (h : ∀ fresh depth, (Correspondence.recalls (active.push v fresh) b u answer).Rel
      (compute fresh) (v.body.interpret (recalling b depth))) :
    (Correspondence.recalls active b u answer).Rel (attend active v compute) (v.known b) := by
  rintro s ⟨found, s'⟩ hb honly hr
  have hadvances : Advances active s s' :=
    .attend (r := (found, s')) (fun fresh r hr => (h fresh 0 s r hb honly hr).1) hr
  refine ⟨hadvances, ?_, fun before hbefore => ?_⟩
  · rcases attend_cases hr with ⟨-, rfl⟩ | ⟨-, -, rfl⟩ | ⟨fresh, s₁, hcompute, rfl⟩
    · exact honly
    · exact honly
    · obtain ⟨-, honly₁, hsame⟩ := h fresh depth s _ hb honly hcompute
      rw [conclude]
      split
      -- The task is the one whose answer could be recalled, and has this answer, or it is another.
      · refine honly₁.note ?_
        by_cases heq : u = v
        · subst heq
          exact .inl (by rw [hsame answer hrecall])
        · exact .inr heq
      · exact honly₁
  · rw [attend, hb.known hbefore] at hr
    exact (Prod.mk.inj (Option.some_inj.1 hr)).1

/-- A task whose answer could be recalled gets no other answer later. -/
theorem corresponds_recalls {depth : Nat}
    (hrecall : u.body.interpret (recalling b depth) = some answer) (limit depth' : Nat)
    (active : CallStack) :
    Handler.Corresponds (.recalls active b u answer) (remembering limit active)
      (recalling b depth') := by
  induction limit generalizing active depth' with
  | zero =>
    refine ⟨fun key => ?_, fun _ _ r _ _ hr => (Option.some_ne_none r hr.symm).elim,
      fun _ _ _ r _ _ hr => (Option.some_ne_none r hr.symm).elim⟩
    cases depth' <;> exact recalls_request key
  | succ limit ih =>
    have hattend : ∀ v, (Correspondence.recalls active b u answer).Rel
        ((remembering (limit + 1) active).task v) (v.known b) := by
      intro v
      rw [remembering_task]
      exact recalls_attend hrecall fun fresh depth =>
        (ih depth (active.push v fresh)).interpret v.body
    cases depth' with
    | zero =>
      refine ⟨recalls_request, hattend, fun order ref s r hb honly hr => ?_⟩
      obtain ⟨hadvances, honly', -⟩ :=
        (ih 0 active).interpret (Lookup.visitBody order ref) s r hb honly hr
      exact ⟨hadvances, honly', nofun⟩
    | succ depth' =>
      exact ⟨recalls_request, hattend, fun order ref =>
        (ih depth' active).interpret (Lookup.visitBody order ref)⟩

theorem Atlas.RemembersOnly.ask {a : Atlas} {depth : Nat} (honly : a.RemembersOnly u answer)
    (hb : b.GrowsTo a) (hrecall : u.body.interpret (recalling b depth) = some answer)
    (q : Question) : (Atlas.ask q a).2.RemembersOnly u answer := by
  obtain ⟨s, hrun, hatlas⟩ := run_of_callDepth q (Nat.le_refl a.callDepth)
  rw [hatlas]
  exact ((corresponds_recalls hrecall a.callDepth 0 .empty).interpret q.lookup ⟨a, 0⟩ _ hb honly
    hrun).2.1

theorem Atlas.RemembersOnly.perform {a : Atlas} {depth : Nat} (honly : a.RemembersOnly u answer)
    (hb : b.GrowsTo a) (hrecall : u.body.interpret (recalling b depth) = some answer)
    (op : Operation) : (op.perform a).RemembersOnly u answer := by
  rcases op.asks_or_settles a with ⟨q, rfl⟩ | ⟨key, slot, -, -, heq⟩
  · exact honly.ask hb hrecall q
  · rw [heq]
    intro other hknown
    rw [u.known_settle] at hknown
    exact honly other hknown

theorem Atlas.RemembersOnly.after {a : Atlas} {depth : Nat} (honly : a.RemembersOnly u answer)
    (hb : b.GrowsTo a) (hrecall : u.body.interpret (recalling b depth) = some answer)
    (ops : List Operation) : (a.after ops).RemembersOnly u answer := by
  induction ops generalizing a with
  | nil => exact honly
  | cons op ops ih => exact ih (honly.perform hb hrecall op) (hb.trans (.perform a op))

end Recalls

/-- The module of a class whose visit is recalled is there. -/
theorem settled_of_recalled_self {a : Atlas} {depth : Nat} {order order' : List EntityRef}
    {ref : EntityRef} (h : (recalling a depth).visit order ref = some order') :
    (a.modules.lookup ref.module).isSome = true := by
  cases depth with
  | zero => cases h
  | succ depth =>
    obtain ⟨slot, hslot, -⟩ := Option.bind_eq_some_iff.1 h
    rw [recalling_request] at hslot
    exact Option.isSome_iff_exists.2 ⟨slot, hslot⟩

/-- So are the modules of all classes that the visit comes to. -/
theorem settled_of_recalled {a : Atlas} {depth : Nat} {order order' : List EntityRef}
    {ref : EntityRef} (h : (recalling a depth).visit order ref = some order')
    (horder : ∀ cls ∈ order, (a.modules.lookup cls.module).isSome = true) :
    ∀ cls ∈ order', (a.modules.lookup cls.module).isSome = true := by
  induction depth generalizing order order' ref with
  | zero => cases h
  | succ depth ih =>
    -- Induction on the bases inside the induction on the depth.
    have hvisits : ∀ (bases order order' : List EntityRef),
        (bases.foldlM (fun order base => Lookup.visit order base .done) order).interpret
          (recalling a depth) = some order' →
        (∀ cls ∈ order, (a.modules.lookup cls.module).isSome = true) →
        ∀ cls ∈ order', (a.modules.lookup cls.module).isSome = true := by
      intro bases
      induction bases with
      | nil =>
        rintro order _ ⟨⟩ horder
        exact horder
      | cons base bases ihbases =>
        intro order order' h horder
        rw [List.foldlM_cons, Lookup.interpret_bind] at h
        obtain ⟨more, hmore, h⟩ := Option.bind_eq_some_iff.1 h
        obtain ⟨_, hvisit, ⟨⟩⟩ := Option.bind_eq_some_iff.1 hmore
        exact ihbases more order' h (ih hvisit horder)
    have hself := settled_of_recalled_self h
    -- The class is added to the order itself, before its bases are visited.
    obtain ⟨slot, -, h⟩ := Option.bind_eq_some_iff.1 h
    change Lookup.interpret _ (if slot.graph.category ref.id = .type ∧ ref ∉ order then
      Lookup.bases ref >>= fun bases =>
        bases.foldlM (fun order base => Lookup.visit order base .done) (order ++ [ref])
      else pure order) = some order' at h
    split at h
    · rw [Lookup.interpret_bind] at h
      obtain ⟨bases, -, h⟩ := Option.bind_eq_some_iff.1 h
      exact hvisits bases _ _ h
        (List.forall_mem_append.2 ⟨horder, List.forall_mem_singleton.2 hself⟩)
    · cases h
      exact horder

/-! ### The names of a class and its ancestry -/

namespace Atlas

/-- The ancestry of a class was asked for, and then nothing was remembered about its names. -/
def AncestryFirst (start : Atlas) (ops : List Operation) (t : EntityRef) : Prop :=
  ∃ earlier later, ops = earlier ++ later ∧ .ask (.linearize t) ∈ earlier
    ∧ ∀ access, (Task.members t access).known (start.after earlier) = none

/-- An answer that was found before can be recalled, and stays. -/
theorem recalling_of_mem_ask {start : Atlas} {ops : List Operation} {q : Question}
    (h : .ask q ∈ ops) : ∃ depth answer,
      q.lookup.interpret (recalling (start.after ops) depth) = some answer
      ∧ ∀ a, (start.after ops).GrowsTo a → (ask q a).1 = answer := by
  obtain ⟨front, back, rfl⟩ := List.append_of_mem h
  have hgrows : (ask q (start.after front)).2.GrowsTo (start.after (front ++ .ask q :: back)) := by
    rw [after_append]
    exact .after _ back
  obtain ⟨s, hrun, hatlas⟩ := run_of_callDepth q (Nat.le_refl (start.after front).callDepth)
  have hrecall := (corresponds_recalling (start.after (front ++ .ask q :: back)) _).interpret
    q.lookup _ _ hrun
  refine ⟨_, _, hrecall.2 (hatlas ▸ hgrows), fun a ha => ?_⟩
  rw [ask_of_growsTo (hgrows.trans ha)]

/-- The names of a class come from what is remembered about it then. -/
theorem ask_memberNames_of_remembersOnly {a : Atlas} {t : EntityRef} {access : Access}
    {table : NameTable EntityRef} (htype : a.world.category t = .type)
    (honly : (ask (.memberNames t access) a).2.RemembersOnly (.members t access) table) :
    (ask (.memberNames t access) a).1 = table.names := by
  -- The answer can be recalled from the atlas that the question leaves, so it is a memo there.
  obtain ⟨s, hrun, hatlas⟩ := run_of_callDepth (.memberNames t access) (Nat.le_refl a.callDepth)
  have hrecall := ((corresponds_recalling s.atlas _).interpret _ _ _ hrun).2 (.refl s.atlas)
  rw [hatlas] at honly
  simp only [Question.lookup, Lookup.interpret_bind] at hrecall
  obtain ⟨target, htarget, hrecall⟩ := Option.bind_eq_some_iff.1 hrecall
  obtain ⟨slot, hslot, htarget⟩ := Option.bind_eq_some_iff.1 htarget
  -- A class stands for itself.
  have hself : target = t := by
    rw [recalling_request] at hslot
    have himport : slot.graph.import? t.id = none := by
      rw [← (agrees_world _) _ _ hslot, ← hatlas, world_ask]
      exact ModuleGraph.import?_of_type htype
    change Lookup.interpret _ (if (slot.graph.import? t.id).isSome then _ else _) = _ at htarget
    rw [himport] at htarget
    cases htarget
    rfl
  subst hself
  obtain ⟨found, hfound, hnames⟩ := Option.bind_eq_some_iff.1 hrecall
  obtain ⟨_, hknown, ⟨⟩⟩ := Option.bind_eq_some_iff.1 hfound
  rw [recalling_task] at hknown
  rw [← Option.some_inj.1 hnames, honly found hknown]

section Views

variable {a : Atlas} {t : EntityRef}

/-- Where the ancestry of a class leads to no circle, its names are found along it. -/
theorem names_along_of_acyclic (ha : a.Exact) (htype : a.world.category t = .type)
    (h : (Question.linearize t).Acyclic a.world) (access : Access) :
    (ask (.memberNames t access) a).1
      = (a.world.namesAlong access (ask (.linearize t) a).1).names := by
  obtain ⟨depth, order, hfound⟩ := h.recursive
  rw [ask_of_recursive ha hfound]
  obtain ⟨_, hvisit, ⟨⟩⟩ := Option.bind_eq_some_iff.1 hfound
  have hrequest : ∀ depth key, (recursive a.world depth).request key = some (a.world key) := by
    intro depth key
    cases depth <;> rfl
  -- The names are found one call deeper than the ancestry.
  have htask : (recursive a.world (depth + 1)).task (.members t access)
      = some (a.world.namesAlong access order) :=
    collectMembers_found htype hvisit (hrequest depth _) (fun cls _ => hrequest depth _) access
  exact ask_of_recursive ha (memberNames_found htype (hrequest (depth + 1) _) htask)

/-- Where the ancestry of a class was found out before its names, these are found along it. -/
theorem names_along_of_ancestryFirst {start : Atlas} {ops : List Operation}
    (htype : (start.after ops).world.category t = .type) (h : start.AncestryFirst ops t)
    (access : Access) :
    (ask (.memberNames t access) (start.after ops)).1
      = ((start.after ops).world.namesAlong access
          (ask (.linearize t) (start.after ops)).1).names := by
  obtain ⟨earlier, later, rfl, hasked, hnone⟩ := h
  rw [after_append] at htype ⊢
  have hgrows : (start.after earlier).GrowsTo ((start.after earlier).after later) := .after _ later
  obtain ⟨depth, order, hrecall, hstays⟩ := recalling_of_mem_ask hasked
  obtain ⟨_, hvisit, ⟨⟩⟩ := Option.bind_eq_some_iff.1 hrecall
  -- The modules of the ancestry are there, and are those of all later atlases.
  have hrequest : ∀ key, ((start.after earlier).modules.lookup key).isSome = true →
      (recalling (start.after earlier) depth).request key
        = some (((start.after earlier).after later).world key) := by
    intro key hkey
    obtain ⟨slot, hslot⟩ := Option.isSome_iff_exists.1 hkey
    rw [recalling_request, hslot, agrees_world _ _ _ (hgrows.modules hslot)]
  have hbody := collectMembers_found htype hvisit (hrequest _ (settled_of_recalled_self hvisit))
    (fun cls hcls => hrequest _ (settled_of_recalled hvisit nofun cls hcls)) access
  have honly : (start.after earlier).RemembersOnly (.members t access)
      (((start.after earlier).after later).world.namesAlong access order) := by
    intro other hother
    rw [hnone] at hother
    cases hother
  rw [hstays _ hgrows]
  refine ask_memberNames_of_remembersOnly htype ?_
  exact (honly.after (.refl _) hbody later).ask hgrows hbody _

end Views

/-- In every atlas, the names of a class are those in the tables of its ancestry, and the names of
    an instance are these and those of the attributes, unless the ancestry leads to a circle and
    names of the class were asked for before it. -/
theorem class_views_agree (version : Version) (files : FileSystem) (libraries : SearchPath)
    (ops : List Operation) {t : EntityRef}
    (htype : ((empty version files libraries).after ops).world.category t = .type)
    (h : (Question.linearize t).Acyclic ((empty version files libraries).after ops).world
      ∨ (empty version files libraries).AncestryFirst ops t) :
    let a := (empty version files libraries).after ops
    (∀ name, name ∈ (ask (.memberNames t .onClass) a).1
      ↔ ∃ cls ∈ (ask (.linearize t) a).1, name ∈ a.world.namesOf ClassInfo.members cls)
    ∧ ∀ name, name ∈ (ask (.memberNames t .onInstance) a).1
      ↔ name ∈ (ask (.memberNames t .onClass) a).1
        ∨ ∃ cls ∈ (ask (.linearize t) a).1, name ∈ a.world.namesOf ClassInfo.attributes cls := by
  intro a
  have halong : ∀ access, (ask (.memberNames t access) a).1
      = (a.world.namesAlong access (ask (.linearize t) a).1).names := by
    intro access
    rcases h with hacyclic | hfirst
    · exact names_along_of_acyclic (exact_after version files libraries ops) htype hacyclic access
    · exact names_along_of_ancestryFirst htype hfirst access
  refine ⟨fun name => ?_, fun name => ?_⟩
  · rw [halong, World.mem_names_namesAlong]
    exact ⟨fun hname => hname.resolve_left fun hinstance => (nomatch hinstance.1), .inr⟩
  · rw [halong, halong, World.mem_names_namesAlong, World.mem_names_namesAlong]
    simp [or_comm]

/-- A module with a class that derives from a class inside it. -/
def selfBase : List Operation :=
  [.addSource "m" "class T(T.Inner):\n class Inner:\n  x = 1\n"]

/-- The class that derives from a class inside it. -/
def selfBaseClass : EntityRef := ⟨⟨"m", .v37⟩, .declared 0⟩

/-- A task of which nothing is remembered once a question was evaluated. -/
theorem known_after_of_run {a : Atlas} {q : Question} {u : Task} (depth : Nat)
    (h : (q.lookup.run a depth).map (fun found => (u.known found.2.atlas).isNone) = some true) :
    u.known (a.after [.ask q]) = none := by
  obtain ⟨found, hfound, hnone⟩ := Option.map_eq_some_iff.1 h
  show u.known (ask q a).2 = none
  rw [ask_of_run hfound]
  exact Option.isNone_iff_eq_none.1 hnone

/-- The names of this class agree with its ancestry if that is asked for first. -/
theorem class_views_agree_of_selfBase :
    let ops := selfBase ++ [.ask (.linearize selfBaseClass)]
    let a := (empty .v37 ⟨[]⟩ []).after ops
    (a.world.category selfBaseClass = .type ∧ (empty .v37 ⟨[]⟩ []).AncestryFirst ops selfBaseClass)
    ∧ (∀ name, name ∈ (ask (.memberNames selfBaseClass .onClass) a).1
      ↔ ∃ cls ∈ (ask (.linearize selfBaseClass) a).1,
        name ∈ a.world.namesOf ClassInfo.members cls)
    ∧ ∀ name, name ∈ (ask (.memberNames selfBaseClass .onInstance) a).1
      ↔ name ∈ (ask (.memberNames selfBaseClass .onClass) a).1
        ∨ ∃ cls ∈ (ask (.linearize selfBaseClass) a).1,
          name ∈ a.world.namesOf ClassInfo.attributes cls := by
  intro ops a
  -- The question does not change the modules, so they are looked at before it.
  have htype : a.world.category selfBaseClass = .type := by
    have hworld : a.world = ((empty .v37 ⟨[]⟩ []).after selfBase).world := by
      rw [show a = _ from after_append _ selfBase [.ask (.linearize selfBaseClass)]]
      exact world_after_ask _ [.linearize selfBaseClass]
    rw [hworld]
    decide +kernel
  have hnone : ∀ access, (Task.members selfBaseClass access).known a = none := by
    intro access
    rw [show a = _ from after_append _ selfBase [.ask (.linearize selfBaseClass)]]
    cases access <;> exact known_after_of_run 20 (by decide +kernel)
  have hfirst : (empty .v37 ⟨[]⟩ []).AncestryFirst ops selfBaseClass :=
    ⟨ops, [], (List.append_nil ops).symm, List.mem_append_right _ List.mem_cons_self, hnone⟩
  exact ⟨⟨htype, hfirst⟩, class_views_agree .v37 ⟨[]⟩ [] ops htype (.inr hfirst)⟩

/-- The names of this class lack one of its ancestry if they are asked for first. -/
theorem views_differ_in_selfBase :
    let a := (empty .v37 ⟨[]⟩ []).after selfBase
    ¬ ∀ name, name ∈ (ask (.memberNames selfBaseClass .onClass) a).1
      ↔ ∃ cls ∈ (ask (.linearize selfBaseClass) a).1,
        name ∈ a.world.namesOf ClassInfo.members cls := by
  intro a hagree
  have hnames : (ask (.memberNames selfBaseClass .onClass) a).1 = ["__class__", "Inner"] :=
    ask_of_run_map 20 (by decide +kernel)
  have horder : (ask (.linearize selfBaseClass) a).1
      = [selfBaseClass, ⟨⟨"m", .v37⟩, .declared 1⟩] := ask_of_run_map 20 (by decide +kernel)
  rw [hnames, horder] at hagree
  have hx : "x" ∈ a.world.namesOf ClassInfo.members ⟨⟨"m", .v37⟩, .declared 1⟩ := by
    decide +kernel
  have hnot := (hagree "x").2 ⟨_, List.mem_cons_of_mem _ List.mem_cons_self, hx⟩
  simp at hnot

end Atlas

end PyAtlas
