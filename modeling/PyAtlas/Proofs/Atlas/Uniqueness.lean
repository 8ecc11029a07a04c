import PyAtlas.Proofs.Atlas.Meaning

/-!
# Names mean one thing

The relations that say what names mean have one answer at most. Each rule has a condition that
sets it apart from the other rules of its relation, so two derivations end with the same rule, and
what the rule leads to is the same because its premises have one answer at most.

## Key results
- `Task.Means.unique`, `Question.Means.unique`: no task and no question has two answers that mean
  what they have to.
-/

namespace PyAtlas

variable {w : World}

mutual

/-- An entity stands for one thing. -/
theorem StandsFor.unique {ref a b : EntityRef} (h : StandsFor w ref a) (h' : StandsFor w ref b) :
    a = b := by
  -- The rules are told apart by what the entity is an import of, the last two by the member found.
  match h, h' with
  | .itself himport, h' => cases h' <;> simp_all
  | .unresolved himport, h' => cases h' <;> simp_all
  | .module himport, h' => cases h' <;> simp_all
  | .unreadable himport hreadable, h' => cases h' <;> simp_all
  | .member himport hreadable hmember hknown, h' =>
    cases h' with
    | member himport' _ hmember' _ =>
      cases himport.symm.trans himport'
      exact Option.some_inj.1 (hmember.unique hmember')
    | inside himport' _ hmember' hunknown =>
      cases himport.symm.trans himport'
      exact absurd (hunknown _ (hmember.unique hmember').symm) hknown
    | _ => simp_all
  | .inside himport hreadable hmember hunknown, h' =>
    cases h' with
    | member himport' _ hmember' hknown =>
      cases himport.symm.trans himport'
      exact absurd (hunknown _ (hmember.unique hmember')) hknown
    | inside himport' _ hmember' _ =>
      cases himport.symm.trans himport'
      rfl
    | _ => simp_all
termination_by structural h

/-- An entity has one member of a name, or none. -/
theorem HasMember.unique {ref : EntityRef} {access : Access} {name : String}
    {a b : Option EntityRef}
    (h : HasMember w ref access name a) (h' : HasMember w ref access name b) : a = b := by
  match h, h' with
  | .some htarget htable hentry hfound, h' =>
    cases h' with
    | some htarget' htable' hentry' hfound' =>
      cases htarget.unique htarget'
      cases htable.unique htable'
      cases hentry.symm.trans hentry'
      rw [hfound.unique hfound']
    | none htarget' htable' hentry' =>
      cases htarget.unique htarget'
      cases htable.unique htable'
      cases hentry.symm.trans hentry'
  | .none htarget htable hentry, h' =>
    cases h' with
    | some htarget' htable' hentry' hfound' =>
      cases htarget.unique htarget'
      cases htable.unique htable'
      cases hentry.symm.trans hentry'
    | none htarget' htable' hentry' => rfl
termination_by structural h

/-- An entity has one table of names. -/
theorem HasNames.unique {ref : EntityRef} {access : Access} {a b : NameTable EntityRef}
    (h : HasNames w ref access a) (h' : HasNames w ref access b) : a = b := by
  match h, h' with
  | .module hcategory hall, h' =>
    cases h' with
    | module hcategory' hall' => exact hall.unique hall'
    | _ => simp_all
  | .type hcategory hvisits, h' =>
    cases h' with
    | type hcategory' hvisits' => rw [hvisits.unique hvisits']
    | _ => simp_all
  | .inFunction hcategory, h' => cases h' <;> simp_all
  | .onFunction hcategory haccess, h' => cases h' <;> simp_all
  | .other hmodule htype hfunction, h' => cases h' <;> simp_all
termination_by structural h

/-- Star imports lead to one table. -/
theorem TakesAllOver.unique {version : Version} {table a b : NameTable EntityRef}
    {targets : List ImportTarget} (h : TakesAllOver w version table targets a)
    (h' : TakesAllOver w version table targets b) : a = b := by
  match h, h' with
  | .nil, h' =>
    cases h'
    rfl
  | .cons htakes hall, h' =>
    cases h' with
    | cons htakes' hall' =>
      cases htakes.unique htakes'
      exact hall.unique hall'
termination_by structural h

/-- So does a single star import. -/
theorem TakesOver.unique {version : Version} {table a b : NameTable EntityRef}
    {target : ImportTarget} (h : TakesOver w version table target a)
    (h' : TakesOver w version table target b) : a = b := by
  match h, h' with
  | .notModule hnot, h' => cases h' <;> simp_all
  | .unreadable hreadable, h' => cases h' <;> simp_all
  | .listed hreadable hmembers hexports, h' =>
    cases h' with
    | listed _ hmembers' hexports' =>
      cases hmembers.unique hmembers'
      cases hexports.symm.trans hexports'
      rfl
    | _ => simp_all
  | .unlisted hreadable hmembers hexports, h' =>
    cases h' with
    | unlisted _ hmembers' hexports' =>
      cases hmembers.unique hmembers'
      rfl
    | _ => simp_all
termination_by structural h

/-- A class is visited in one way. -/
theorem Visits.unique {order a b : List EntityRef} {ref : EntityRef} (h : Visits w order ref a)
    (h' : Visits w order ref b) : a = b := by
  match h, h' with
  | .noClass hcategory, h' => cases h' <;> simp_all
  | .again hagain, h' => cases h' <;> simp_all
  | .new hcategory hnew hbases hall, h' =>
    cases h' with
    | new _ _ hbases' hall' =>
      cases hbases.unique hbases'
      exact hall.unique hall'
    | _ => simp_all
termination_by structural h

/-- So are several classes. -/
theorem VisitsAll.unique {order a b bases : List EntityRef} (h : VisitsAll w order bases a)
    (h' : VisitsAll w order bases b) : a = b := by
  match h, h' with
  | .nil, h' =>
    cases h'
    rfl
  | .cons hvisits hall, h' =>
    cases h' with
    | cons hvisits' hall' =>
      cases hvisits.unique hvisits'
      exact hall.unique hall'
termination_by structural h

/-- A class has one list of bases. -/
theorem HasBases.unique {ref : EntityRef} {a b : List EntityRef} (h : HasBases w ref a)
    (h' : HasBases w ref b) : a = b := by
  match h, h' with
  | .declared hclass hbases, h' =>
    cases h' with
    | declared hclass' hbases' =>
      cases hclass.symm.trans hclass'
      exact hbases.unique hbases'
    | none hclass' => cases hclass.symm.trans hclass'
  | .none hclass, h' => cases h' <;> simp_all
termination_by structural h

/-- Bases are the same, one by one. -/
theorem BasesAre.unique {ref : EntityRef} {bases : List BaseRef} {a b : List EntityRef}
    (h : BasesAre w ref bases a) (h' : BasesAre w ref bases b) : a = b := by
  match h, h' with
  | .nil, h' =>
    cases h'
    rfl
  | .cons hbase hbases, h' =>
    cases h' with
    | cons hbase' hbases' => rw [hbase.unique hbase', hbases.unique hbases']
termination_by structural h

/-- A base of a class is one entity. -/
theorem BaseIs.unique {ref a b : EntityRef} {base : BaseRef} (h : BaseIs w ref base a)
    (h' : BaseIs w ref base b) : a = b := by
  match h, h' with
  | .noPath hnot, h' => cases h' <;> simp_all
  | .noHead hhead, h' =>
    cases h' with
    | noPath hnot => exact absurd rfl (hnot _ _)
    | noHead hhead' => rfl
    | path hhead' hpath' => cases hhead.unique hhead'
  | .path hhead hpath, h' =>
    cases h' with
    | noPath hnot => exact absurd rfl (hnot _ _)
    | noHead hhead' => cases hhead.unique hhead'
    | path hhead' hpath' =>
      cases hhead.unique hhead'
      rw [hpath.unique hpath']
termination_by structural h

/-- The first name of a base means one thing. -/
theorem HeadIs.unique {ref : EntityRef} {name : String} {a b : Option EntityRef}
    (h : HeadIs w ref name a) (h' : HeadIs w ref name b) : a = b := by
  match h, h' with
  | .bound hbound htarget, h' =>
    cases h' with
    | bound hbound' htarget' =>
      cases hbound.symm.trans hbound'
      rw [htarget.unique htarget']
    | around hnone hscopes => cases hbound.symm.trans hnone
  | .around hnone hscopes, h' =>
    cases h' with
    | bound hbound htarget => cases hnone.symm.trans hbound
    | around hnone' hscopes' => exact hscopes.unique hscopes'
termination_by structural h

/-- A name means one thing in some scopes. -/
theorem InScopes.unique {version : Version} {name : String} {innermost : Bool}
    {scopes : List EntityRef} {a b : Option EntityRef}
    (h : InScopes w version name innermost scopes a)
    (h' : InScopes w version name innermost scopes b) : a = b := by
  match h, h' with
  | .builtin hreadable hmember, h' =>
    cases h' with
    | builtin _ hmember' => exact hmember.unique hmember'
    | noBuiltins hreadable' => cases hreadable.symm.trans hreadable'
  | .noBuiltins hreadable, h' =>
    cases h' with
    | builtin hreadable' _ => cases hreadable.symm.trans hreadable'
    | noBuiltins _ => rfl
  | .here hscope, h' =>
    cases h' with
    | here hscope' => exact hscope.unique hscope'
    | outside hscope' _ => cases hscope.unique hscope'
  | .outside hscope houter, h' =>
    cases h' with
    | here hscope' => cases hscope.unique hscope'
    | outside _ houter' => exact houter.unique houter'
termination_by structural h

/-- A name means one thing in a scope. -/
theorem InScope.unique {name : String} {innermost : Bool} {scope : EntityRef}
    {a b : Option EntityRef} (h : InScope w name innermost scope a)
    (h' : InScope w name innermost scope b) : a = b := by
  match h, h' with
  | .outerClass hcategory, h' => cases h' <;> simp_all
  | .module hcounts hmodule hmember, h' =>
    cases h' with
    | module _ _ hmember' => exact hmember.unique hmember'
    | _ => simp_all
  | .declared hcounts hmodule hentry htarget, h' =>
    cases h' with
    | declared _ _ hentry' htarget' =>
      cases hentry.symm.trans hentry'
      rw [htarget.unique htarget']
    | _ => simp_all
  | .absent hcounts hmodule hentry, h' => cases h' <;> simp_all
termination_by structural h

/-- Names lead to one place. -/
theorem LeadsTo.unique {ref : EntityRef} {path : List String} {a b : Option EntityRef}
    (h : LeadsTo w ref path a) (h' : LeadsTo w ref path b) : a = b := by
  match h, h' with
  | .here, h' =>
    cases h'
    rfl
  | .onwards hmember hpath, h' =>
    cases h' with
    | onwards hmember' hpath' =>
      cases hmember.unique hmember'
      exact hpath.unique hpath'
    | nowhere hmember' => cases hmember.unique hmember'
  | .nowhere hmember, h' =>
    cases h' with
    | onwards hmember' _ => cases hmember.unique hmember'
    | nowhere _ => rfl
termination_by structural h

end

/-- No task has two answers that mean what they have to. -/
theorem Task.Means.unique {t : Task} {a b : t.Answer} (h : t.Means w a) (h' : t.Means w b) :
    a = b := by
  cases t with
  | members ref access => exact HasNames.unique h h'
  | bases ref => exact HasBases.unique h h'
  | follow ref => exact StandsFor.unique h h'

/-- No question has two answers that mean what they have to. -/
theorem Question.Means.unique {q : Question} {a b : q.Answer} (h : q.Means w a)
    (h' : q.Means w b) : a = b := by
  cases q with
  | member ref access name => exact HasMember.unique h h'
  | memberNames ref access =>
    obtain ⟨target, table, htarget, htable, rfl⟩ := h
    obtain ⟨target', table', htarget', htable', rfl⟩ := h'
    cases htarget.unique htarget'
    rw [htable.unique htable']
  | linearize ref => exact Visits.unique h h'
  | bases ref => exact HasBases.unique h h'
  | metaclass ref =>
    simp only [Question.Means] at h h'
    split at h
    · next base hbase =>
      simp only [hbase] at h'
      obtain ⟨result, hresult, rfl⟩ := h
      obtain ⟨result', hresult', rfl⟩ := h'
      rw [hresult.unique hresult']
    · next hbase =>
      simp only [hbase] at h'
      rw [h, h']

end PyAtlas
