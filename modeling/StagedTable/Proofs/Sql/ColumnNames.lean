import StagedTable.Proofs.Sql.EditedState

/-!
# Column names along the way

The names of the columns while the statements of an altered table are replayed. Every statement
finds the column that it addresses, also where names are passed on from dropped columns, and the
names end as they were edited (`alterTable_names`). One thing can go wrong: columns that stay are
renamed one after the other in the edited order, and a column that takes the name of one whose turn
comes later finds that name in use. So names can be handed on up the list, but neither down the list
nor in a circle (`RenamesInOrder`).

The state is looked at up to the order of the columns, so that the columns that stay can be gone
through in the order in which they are changed.
-/

namespace StagedTable.Sql

open Text

/-! ### Replay on names -/

/-- A column as far as its name goes, with the id of the definition that it was made from. -/
structure NamedColumn where
  id : String
  name : String
deriving DecidableEq

/-- The name of a definition. -/
def Definition.named (d : Definition) : NamedColumn := ⟨d.id, d.name⟩

namespace Alteration

/-- The column that a change addresses by its name. -/
def column? : Alteration → Option String
  | .renameTable _ | .dropConstraint _ | .addColumn _ => none
  | .dropColumn column | .renameColumn column _ | .setType column _ | .dropNotNull column
  | .setNotNull column | .setDefault column _ | .dropDefault column | .addPrimaryKey column
  | .addUnique column | .addForeignKey column _ => some column

/-- What a change makes of the names. -/
def rename : Alteration → List NamedColumn → List NamedColumn
  | .dropColumn column, cs => cs.filter (·.name ≠ column)
  | .renameColumn column name, cs =>
    cs.map fun c => if c.name = column then { c with name := name } else c
  | .addColumn d, cs => cs ++ [d.named]
  | _, cs => cs

/-- Whether a change finds the column that it addresses, and the name that it takes is free. -/
structure Fits (a : Alteration) (cs : List NamedColumn) : Prop where
  finds : ∀ column ∈ a.column?, column ∈ cs.map (·.name)
  free : ∀ name ∈ a.newName?, name ∉ cs.map (·.name)

instance (a : Alteration) (cs : List NamedColumn) : Decidable (a.Fits cs) :=
  decidable_of_iff ((∀ column ∈ a.column?, column ∈ cs.map (·.name))
      ∧ ∀ name ∈ a.newName?, name ∉ cs.map (·.name))
    ⟨fun ⟨hfinds, hfree⟩ => ⟨hfinds, hfree⟩, fun h => ⟨h.finds, h.free⟩⟩

/-- Whether a change leaves all names as they are and addresses no column but one. -/
structure KeepsNames (a : Alteration) (column : String) : Prop where
  column? : ∀ other ∈ a.column?, other = column
  newName? : a.newName? = none
  rename : a.rename = id

end Alteration

/-- The names after several changes, or the first change that cannot be made. -/
def replayNames : List Alteration → List NamedColumn → Except Alteration (List NamedColumn)
  | [], cs => .ok cs
  | a :: rest, cs => if a.Fits cs then replayNames rest (a.rename cs) else .error a

variable {a : Alteration} {as bs : List Alteration} {cs ds : List NamedColumn}

theorem replayNames_append (as bs : List Alteration) (cs : List NamedColumn) :
    replayNames (as ++ bs) cs = (replayNames as cs).bind (replayNames bs) := by
  induction as generalizing cs with
  | nil => rfl
  | cons a rest ih =>
    rw [List.cons_append, replayNames, replayNames]
    split
    · exact ih _
    · rfl

theorem Alteration.Fits.perm (h : a.Fits cs) (hperm : cs.Perm ds) : a.Fits ds where
  finds column hcolumn := (hperm.map _).mem_iff.1 (h.finds column hcolumn)
  free name hname := fun hmem => h.free name hname ((hperm.map _).mem_iff.2 hmem)

theorem Alteration.rename_perm (a : Alteration) (h : cs.Perm ds) :
    (a.rename cs).Perm (a.rename ds) := by
  cases a with
  | dropColumn column => exact h.filter _
  | renameColumn column name => exact h.map _
  | addColumn d => exact h.append_right _
  | _ => exact h

/-- Whether two results are the same up to the order of the columns. -/
inductive SameNames : Except Alteration (List NamedColumn) →
    Except Alteration (List NamedColumn) → Prop
  | ok {cs ds : List NamedColumn} : cs.Perm ds → SameNames (.ok cs) (.ok ds)
  | error (a : Alteration) : SameNames (.error a) (.error a)

/-- The order of the columns does not matter. -/
theorem sameNames_replayNames (as : List Alteration) (h : cs.Perm ds) :
    SameNames (replayNames as cs) (replayNames as ds) := by
  induction as generalizing cs ds with
  | nil => exact .ok h
  | cons a rest ih =>
    rw [replayNames, replayNames]
    by_cases hfits : a.Fits cs
    · rw [if_pos hfits, if_pos (hfits.perm h)]
      exact ih (a.rename_perm h)
    · rw [if_neg hfits, if_neg fun hfits' => hfits (hfits'.perm h.symm)]
      exact .error a

/-- Changes of a column that is there and keeps its name can be made. -/
theorem replayNames_keepsNames {column : String} (h : ∀ a ∈ as, a.KeepsNames column)
    (hcolumn : column ∈ cs.map (·.name)) : replayNames as cs = .ok cs := by
  induction as with
  | nil => rfl
  | cons a rest ih =>
    rw [List.forall_mem_cons] at h
    have hfits : a.Fits cs := by
      refine ⟨fun other hother => h.1.column? other hother ▸ hcolumn, fun name hname => ?_⟩
      rw [h.1.newName?] at hname
      cases hname
    rw [replayNames, if_pos hfits, h.1.rename]
    exact ih h.2

/-! ### The changes of one column -/

namespace Alteration

variable {before after : List NamedColumn} {c : NamedColumn} {name : String}

/-- A column that is there can take any name that no other one has. -/
theorem fits_renameColumn (hdiffer : name ≠ c.name) :
    (renameColumn c.name name).Fits (before ++ c :: after)
      ↔ ∀ b ∈ before ++ after, b.name ≠ name := by
  constructor
  · intro h b hb hname
    refine h.free name rfl (List.mem_map.2 ⟨b, ?_, hname⟩)
    exact List.perm_middle.mem_iff.2 (.tail _ hb)
  · intro h
    refine ⟨fun column hcolumn => ?_, fun other hother hmem => ?_⟩
    · cases hcolumn
      exact List.mem_map.2 ⟨c, List.mem_append_right _ (.head _), rfl⟩
    · cases hother
      obtain ⟨b, hb, hname⟩ := List.mem_map.1 hmem
      rcases List.mem_cons.1 (List.perm_middle.mem_iff.1 hb) with rfl | hb
      · exact hdiffer hname.symm
      · exact h b hb hname

theorem rename_renameColumn (hother : ∀ b ∈ before ++ after, b.name ≠ c.name) :
    (renameColumn c.name name).rename (before ++ c :: after)
      = before ++ { c with name := name } :: after := by
  have hkept : ∀ cs : List NamedColumn, (∀ b ∈ cs, b.name ≠ c.name) →
      cs.map (fun b => if b.name = c.name then { b with name := name } else b) = cs := by
    intro cs h
    rw [List.map_congr_left fun b hb => if_neg (h b hb), List.map_id']
  rw [List.forall_mem_append] at hother
  rw [rename, List.map_append, List.map_cons, hkept before hother.1, hkept after hother.2,
    if_pos rfl]

end Alteration

namespace Definition

variable {table : String} {old edited : Definition}

/-- The change of the name of a column, if it has another one. -/
def nameChange (old edited : Definition) : List Alteration :=
  if edited.name = old.name then [] else [.renameColumn old.name edited.name]

/-- All but the change of the name addresses the column by its new name. -/
theorem changes_eq_nameChange (table : String) (old edited : Definition) :
    ∃ rest, old.changes table edited = old.nameChange edited ++ rest
      ∧ ∀ a ∈ rest, a.KeepsNames edited.name := by
  have hsome : ∀ a : Alteration, a.column? = some edited.name → a.newName? = none →
      (∀ cs, a.rename cs = cs) → ∀ b ∈ [a], b.KeepsNames edited.name := by
    intro a hcolumn hnew hrename
    refine List.forall_mem_singleton.2 ⟨fun other hother => ?_, hnew, funext hrename⟩
    exact (Option.some.inj (hcolumn.symm.trans hother)).symm
  have hnone : ∀ constraint, ∀ b ∈ [Alteration.dropConstraint constraint],
      b.KeepsNames edited.name := fun constraint =>
    List.forall_mem_singleton.2 ⟨fun other hother => (nomatch hother), rfl, rfl⟩
  refine ⟨_, by simp only [changes, attributeChanges, nameChange, List.append_assoc]; rfl, ?_⟩
  unfold keyChanges foreignChanges
  simp only [List.forall_mem_append]
  refine ⟨?_, ?_, ?_, ⟨?_, ?_⟩, ?_⟩
  iterate 5
    · split_ifs <;> first
        | exact List.forall_mem_nil _
        | exact hnone _
        | exact hsome _ rfl rfl fun _ => rfl
  · split
    · exact List.forall_mem_nil _
    · refine List.forall_mem_append.2 ⟨?_, ?_⟩
      · split_ifs
        · exact hnone _
        · exact List.forall_mem_nil _
      · cases edited.target? with
        | none => exact List.forall_mem_nil _
        | some target => exact hsome _ rfl rfl fun _ => rfl

/-- The changes of a column bring it from its old name to the edited one, unless another column has
that name. -/
theorem replayNames_changes (table : String) (hid : old.id = edited.id)
    {before after : List NamedColumn} (hother : ∀ c ∈ before ++ after, c.name ≠ old.name) :
    replayNames (old.changes table edited) (before ++ old.named :: after)
      = if ∀ c ∈ before ++ after, c.name ≠ edited.name
        then .ok (before ++ edited.named :: after)
        else .error (.renameColumn old.name edited.name) := by
  obtain ⟨rest, hchanges, hrest⟩ := changes_eq_nameChange table old edited
  have hkeep : replayNames rest (before ++ edited.named :: after)
      = .ok (before ++ edited.named :: after) :=
    replayNames_keepsNames hrest (by simp [named])
  rw [hchanges, replayNames_append, nameChange]
  by_cases hsame : edited.name = old.name
  · have hnamed : old.named = edited.named := by rw [named, named, hid, hsame]
    rw [if_pos hsame, hsame, if_pos hother, hnamed]
    exact hkeep
  · have hnamed : edited.named = ⟨old.id, edited.name⟩ := by rw [named, hid]
    have hfits : (Alteration.renameColumn old.name edited.name).Fits (before ++ old.named :: after)
        ↔ ∀ c ∈ before ++ after, c.name ≠ edited.name :=
      Alteration.fits_renameColumn (c := old.named) hsame
    have hrename : (Alteration.renameColumn old.name edited.name).rename
        (before ++ old.named :: after) = before ++ ⟨old.id, edited.name⟩ :: after :=
      Alteration.rename_renameColumn (c := old.named) hother
    rw [if_neg hsame, replayNames]
    by_cases hfree : ∀ c ∈ before ++ after, c.name ≠ edited.name
    · rw [if_pos (hfits.2 hfree), if_pos hfree, hrename, ← hnamed]
      exact hkeep
    · rw [if_neg fun h => hfree (hfits.1 h), if_neg hfree]
      rfl

end Definition

/-! ### The columns that stay -/

/-- Whether no column that stays takes the name of one that stays and whose turn comes later. -/
def RenamesInOrder (old edited : List Definition) : Prop :=
  (rematched old edited).Pairwise fun p q => p.2.name ≠ q.1.name

instance (old edited : List Definition) : Decidable (RenamesInOrder old edited) :=
  inferInstanceAs (Decidable (List.Pairwise _ _))

variable {table : String} {old edited : List Definition}
variable {done todo : List (Definition × Definition)}

/-- Columns take their edited names one after the other, up to the first that takes the name of a
later one. What has been done has the edited names already. -/
theorem replayNames_turns (hids : ∀ p ∈ todo, p.1.id = p.2.id)
    (hedited : ((done ++ todo).map (·.2.name)).Nodup) (hold : (todo.map (·.1.name)).Nodup)
    (hcross : ∀ p ∈ done, ∀ q ∈ todo, p.2.name ≠ q.1.name) :
    (todo.Pairwise (fun p q => p.2.name ≠ q.1.name)
      ∧ replayNames (todo.flatMap fun p => p.1.changes table p.2)
          (done.map (·.2.named) ++ todo.map (·.1.named))
        = .ok ((done ++ todo).map (·.2.named)))
    ∨ ∃ p q, [p, q].Sublist todo ∧ p.2.name = q.1.name
      ∧ replayNames (todo.flatMap fun p => p.1.changes table p.2)
          (done.map (·.2.named) ++ todo.map (·.1.named))
        = .error (.renameColumn p.1.name p.2.name) := by
  induction todo generalizing done with
  | nil => exact .inl ⟨.nil, by rw [List.append_nil, List.map_nil, List.append_nil]; rfl⟩
  | cons p rest ih =>
    rw [List.forall_mem_cons] at hids
    rw [List.map_cons, List.nodup_cons] at hold
    have hother : ∀ c ∈ done.map (·.2.named) ++ rest.map (·.1.named), c.name ≠ p.1.name := by
      rw [List.forall_mem_append, List.forall_mem_map, List.forall_mem_map]
      refine ⟨fun q hq => hcross q hq p (.head _), fun q hq hname => hold.1 ?_⟩
      exact List.mem_map.2 ⟨q, hq, hname⟩
    have hturn := Definition.replayNames_changes table hids.1 hother
    rw [List.flatMap_cons, List.map_cons, replayNames_append, hturn]
    by_cases hlater : ∀ q ∈ rest, p.2.name ≠ q.1.name
    · -- none of those that are done has the name either
      have hfree : ∀ c ∈ done.map (·.2.named) ++ rest.map (·.1.named), c.name ≠ p.2.name := by
        rw [List.forall_mem_append, List.forall_mem_map, List.forall_mem_map]
        refine ⟨fun q hq hname => ?_, fun q hq hname => hlater q hq hname.symm⟩
        rw [List.map_append, List.nodup_append] at hedited
        exact hedited.2.2 _ (List.mem_map_of_mem hq) _ (List.mem_map_of_mem (.head _)) hname
      rw [if_pos hfree]
      rw [List.append_cons done p rest] at hedited
      have hcross' : ∀ q ∈ done ++ [p], ∀ r ∈ rest, q.2.name ≠ r.1.name := by
        rw [List.forall_mem_append]
        exact ⟨fun q hq r hr => hcross q hq r (.tail _ hr),
          List.forall_mem_singleton.2 hlater⟩
      rcases ih hids.2 hedited hold.2 hcross' with ⟨hpairs, hrun⟩ | ⟨q, r, hsub, hname, hrun⟩
      · refine .inl ⟨List.pairwise_cons.2 ⟨hlater, hpairs⟩, ?_⟩
        rw [List.append_cons done p rest, ← hrun, List.map_append]
        simp [Except.bind]
      · refine .inr ⟨q, r, hsub.cons _, hname, ?_⟩
        rw [← hrun, List.map_append]
        simp [Except.bind]
    · push Not at hlater
      obtain ⟨q, hq, hname⟩ := hlater
      have htaken : ¬ ∀ c ∈ done.map (·.2.named) ++ rest.map (·.1.named), c.name ≠ p.2.name := by
        intro h
        exact h q.1.named (List.mem_append_right _ (List.mem_map_of_mem hq)) hname.symm
      rw [if_neg htaken]
      exact .inr ⟨p, q, (List.singleton_sublist.2 hq).cons_cons _, hname, rfl⟩

/-! ### The columns that go and come -/

/-- Columns that are there can be dropped, each once. -/
theorem replayNames_drops {definitions : List Definition} {cs : List NamedColumn}
    (hnames : (definitions.map (·.name)).Nodup)
    (hthere : ∀ d ∈ definitions, d.name ∈ cs.map (·.name)) :
    replayNames (definitions.map (.dropColumn ·.name)) cs
      = .ok (cs.filter fun c => c.name ∉ definitions.map (·.name)) := by
  induction definitions generalizing cs with
  | nil => rw [List.filter_eq_self.2 fun c _ => by simp]; rfl
  | cons d rest ih =>
    rw [List.map_cons, List.nodup_cons] at hnames
    rw [List.forall_mem_cons] at hthere
    have hfits : (Alteration.dropColumn d.name).Fits cs := by
      refine ⟨fun column hcolumn => ?_, fun name hname => nomatch hname⟩
      cases hcolumn
      exact hthere.1
    have hrest : ∀ e ∈ rest, e.name ∈ (cs.filter (·.name ≠ d.name)).map (·.name) := by
      intro e he
      obtain ⟨c, hc, hname⟩ := List.mem_map.1 (hthere.2 e he)
      refine List.mem_map.2 ⟨c, List.mem_filter.2 ⟨hc, decide_eq_true ?_⟩, hname⟩
      intro hsame
      exact hnames.1 (List.mem_map.2 ⟨e, he, hname.symm.trans hsame⟩)
    rw [List.map_cons, replayNames, if_pos hfits, Alteration.rename, ih hnames.2 hrest,
      List.filter_filter]
    congr 2
    funext c
    rw [Bool.eq_iff_iff]
    simp [not_or, and_comm]

/-- Columns can be added whose names are not taken. -/
theorem replayNames_adds {definitions : List Definition} {cs : List NamedColumn}
    (hnames : (definitions.map (·.name)).Nodup)
    (hfree : ∀ c ∈ cs, ∀ d ∈ definitions, c.name ≠ d.name) :
    replayNames (definitions.map .addColumn) cs = .ok (cs ++ definitions.map (·.named)) := by
  induction definitions generalizing cs with
  | nil => rw [List.map_nil, List.map_nil, List.append_nil]; rfl
  | cons d rest ih =>
    rw [List.map_cons, List.nodup_cons] at hnames
    have hfits : (Alteration.addColumn d).Fits cs := by
      refine ⟨fun column hcolumn => (nomatch hcolumn), fun name hname hmem => ?_⟩
      cases hname
      obtain ⟨c, hc, hname⟩ := List.mem_map.1 hmem
      exact hfree c hc d (.head _) hname
    have hnext : ∀ c ∈ cs ++ [d.named], ∀ e ∈ rest, c.name ≠ e.name := by
      rw [List.forall_mem_append, List.forall_mem_singleton]
      refine ⟨fun c hc e he => hfree c hc e (.tail _ he), fun e he hname => ?_⟩
      exact hnames.1 (List.mem_map.2 ⟨e, he, hname.symm⟩)
    rw [List.map_cons, replayNames, if_pos hfits, Alteration.rename, ih hnames.2 hnext,
      List.map_cons, List.append_assoc]
    rfl

/-- The edited definitions are those that stay and the new ones, but for those without a name that
are not made yet. -/
theorem edited_perm (old edited : List Definition) :
    (edited.filter fun e => (Definition.find? e.id old).isSome || !blankString e.name).Perm
      ((rematched old edited).map (·.2) ++ newcomers old edited) := by
  unfold rematched newcomers
  induction edited with
  | nil => exact .nil
  | cons e rest ih =>
    rw [List.filter_cons, List.filterMap_cons, List.filter_cons]
    cases Definition.find? e.id old with
    | some d => exact ih.cons e
    | none =>
      cases blankString e.name with
      | true => exact ih
      | false => exact (ih.cons e).trans List.perm_middle.symm

/-! ### The whole replay -/

/-- Whether ids and names are different in each of two lists of definitions, and every edited one
has a name. -/
structure DistinctNames (old edited : List Definition) : Prop extends DistinctIds old edited where
  oldNames : (old.map (·.name)).Nodup
  editedNames : (edited.map (·.name)).Nodup
  named : ∀ e ∈ edited, blankString e.name = false

namespace DistinctNames

theorem edited_perm (h : DistinctNames old edited) :
    edited.Perm ((rematched old edited).map (·.2) ++ newcomers old edited) := by
  have hall : edited.filter (fun e => (Definition.find? e.id old).isSome || !blankString e.name)
      = edited := List.filter_eq_self.2 fun e he => by rw [h.named e he]; simp
  have hperm := Sql.edited_perm old edited
  rwa [hall] at hperm

theorem nodup_editedNames (h : DistinctNames old edited) :
    ((rematched old edited).map (·.2.name)).Nodup := by
  have hnames := (h.edited_perm.map (·.name)).nodup_iff.1 h.editedNames
  rw [List.map_append, List.map_map, List.nodup_append] at hnames
  exact hnames.1

theorem nodup_oldNames (h : DistinctNames old edited) :
    ((rematched old edited).map (·.1.name)).Nodup := by
  have hsub : ((matched old edited).map (·.1)).Sublist old := by
    rw [map_fst_matched]
    exact List.filter_sublist
  have hnames := (hsub.map (·.name)).nodup h.oldNames
  rw [List.map_map] at hnames
  exact (h.rematched_perm.map _).nodup_iff.2 hnames

/-- Dropping columns leaves the names of those that stay. -/
theorem replayNames_dropouts (h : DistinctNames old edited) :
    replayNames ((dropouts old edited).map (.dropColumn ·.name)) (old.map (·.named))
      = .ok ((matched old edited).map (·.1.named)) := by
  have hsub : (dropouts old edited).Sublist old := List.filter_sublist
  have hthere : ∀ d ∈ dropouts old edited, d.name ∈ (old.map (·.named)).map (·.name) := by
    intro d hd
    rw [List.map_map]
    exact List.mem_map_of_mem (hsub.subset hd)
  rw [replayNames_drops ((hsub.map _).nodup h.oldNames) hthere]
  have hmatched : (matched old edited).map (·.1.named)
      = ((matched old edited).map (·.1)).map (·.named) := by rw [List.map_map]; rfl
  rw [hmatched, map_fst_matched, List.filter_map]
  congr 2
  refine List.filter_congr fun d hd => ?_
  -- a name tells the definition
  have hmem : d.name ∈ (dropouts old edited).map (·.name) ↔ d ∈ dropouts old edited := by
    refine ⟨fun hname => ?_, List.mem_map_of_mem⟩
    obtain ⟨d', hd', hname⟩ := List.mem_map.1 hname
    exact List.inj_on_of_nodup_map h.oldNames (hsub.subset hd') hd hname ▸ hd'
  have hdropout : d ∈ dropouts old edited ↔ (Definition.find? d.id edited).isSome = false := by
    simp [dropouts, hd]
  rw [Bool.eq_iff_iff, Function.comp_apply, decide_eq_true_iff, Bool.not_not]
  show d.name ∉ _ ↔ _
  rw [hmem, hdropout, Bool.not_eq_false]

/-- Adding columns gives them the edited names, if the ones that stay have them. -/
theorem replayNames_newcomers (h : DistinctNames old edited) :
    replayNames ((newcomers old edited).map .addColumn)
        ((rematched old edited).map (·.2.named))
      = .ok (((rematched old edited).map (·.2) ++ newcomers old edited).map (·.named)) := by
  have hnames := (h.edited_perm.map (·.name)).nodup_iff.1 h.editedNames
  rw [List.map_append, List.nodup_append] at hnames
  rw [replayNames_adds hnames.2.1, List.map_append, List.map_map]
  · rfl
  · rw [List.forall_mem_map]
    intro p hp e he
    exact hnames.2.2 _ (List.mem_map_of_mem (List.mem_map_of_mem hp)) _ (List.mem_map_of_mem he)

/-- The columns that stay are renamed in the order of the edited ones, and all is well unless one
takes the name of a later one. -/
theorem replayNames_columnAlterations (h : DistinctNames old edited) (table : String) :
    (RenamesInOrder old edited
      ∧ ∃ final, replayNames (columnAlterations table old edited) (old.map (·.named)) = .ok final
        ∧ final.Perm (edited.map (·.named)))
    ∨ ∃ p q, [p, q].Sublist (rematched old edited) ∧ p.2.name = q.1.name
      ∧ replayNames (columnAlterations table old edited) (old.map (·.named))
        = .error (.renameColumn p.1.name p.2.name) := by
  have hids : ∀ p ∈ rematched old edited, p.1.id = p.2.id := fun p hp =>
    (h.mem_rematched.1 hp).2.2
  have hsame := sameNames_replayNames
    ((rematched old edited).flatMap (fun p => p.1.changes table p.2)
      ++ (newcomers old edited).map .addColumn)
    (h.rematched_perm.symm.map fun p => p.1.named)
  have hsplit : replayNames (columnAlterations table old edited) (old.map (·.named))
      = replayNames ((rematched old edited).flatMap (fun p => p.1.changes table p.2)
          ++ (newcomers old edited).map .addColumn) ((matched old edited).map (·.1.named)) := by
    rw [columnAlterations_eq, List.append_assoc, replayNames_append, h.replayNames_dropouts]
    rfl
  rw [hsplit]
  rw [replayNames_append _ _ ((rematched old edited).map _)] at hsame
  rcases @replayNames_turns table [] _ hids h.nodup_editedNames h.nodup_oldNames
      (fun _ hp => nomatch hp) with
    ⟨horder, hrun⟩ | ⟨p, q, hsub, hname, hrun⟩
  · rw [List.map_nil, List.nil_append] at hrun
    rw [hrun] at hsame
    dsimp only [Except.bind, List.nil_append] at hsame
    rw [h.replayNames_newcomers] at hsame
    generalize replayNames _ ((matched old edited).map _) = result at hsame
    cases hsame with
    | ok hperm => exact .inl ⟨horder, _, rfl, hperm.trans (h.edited_perm.map _).symm⟩
  · rw [List.map_nil, List.nil_append] at hrun
    rw [hrun] at hsame
    generalize replayNames _ ((matched old edited).map _) = result at hsame
    cases hsame with
    | error a => exact .inr ⟨p, q, hsub, hname, rfl⟩

end DistinctNames

/-- The table is renamed before its columns are changed. -/
theorem map_snd_alterSteps (table : TableName) (old edited : List Definition)
    (newName : Option String) :
    (alterSteps table old edited newName).map (·.2)
      = (if finalName table.name newName = table.name then []
          else [.renameTable (finalName table.name newName)])
        ++ columnAlterations table.name old edited := by
  unfold alterSteps
  dsimp only
  rw [List.map_append, List.map_map]
  congr 1
  · split <;> rfl
  · exact List.map_id' _

theorem Alteration.fits_renameTable (name : String) (cs : List NamedColumn) :
    (renameTable name).Fits cs :=
  ⟨fun _ hcolumn => (nomatch hcolumn), fun _ hother => (nomatch hother)⟩

/-- Renaming the table leaves the names of its columns. -/
theorem replayNames_alterSteps (table : TableName) (old edited : List Definition)
    (newName : Option String) (cs : List NamedColumn) :
    replayNames ((alterSteps table old edited newName).map (·.2)) cs
      = replayNames (columnAlterations table.name old edited) cs := by
  rw [map_snd_alterSteps]
  split
  · rfl
  · rw [List.singleton_append, replayNames, if_pos (Alteration.fits_renameTable _ cs)]
    rfl

/-- The statements of an altered table are the texts of steps. As far as column names go, all of
them can be made one by one if and only if columns are renamed in order, and then the names end as
they were edited. The first one that cannot be made is a renaming to a name that a later column
still has. -/
theorem alterTable_names (table : TableName) (old edited : List Definition)
    (newName : Option String) (h : DistinctNames old edited) :
    let steps := alterSteps table old edited newName
    let result := replayNames (steps.map (·.2)) (old.map (·.named))
    alterTable table old edited newName = steps.map (fun (table, a) => a.render table)
    ∧ ((∃ final, result = .ok final) ↔ RenamesInOrder old edited)
    ∧ (∀ final, result = .ok final → final.Perm (edited.map (·.named)))
    ∧ (∀ a, result = .error a → ∃ p q, [p, q].Sublist (rematched old edited)
      ∧ p.2.name = q.1.name ∧ a = .renameColumn p.1.name p.2.name) := by
  intro steps result
  have hresult : result = replayNames (columnAlterations table.name old edited)
      (old.map (·.named)) := replayNames_alterSteps table old edited newName _
  rw [hresult]
  refine ⟨alterTable_eq table old edited newName, ?_⟩
  rcases h.replayNames_columnAlterations table.name with
    ⟨horder, final, hrun, hperm⟩ | ⟨p, q, hsub, hname, hrun⟩ <;> rw [hrun]
  · refine ⟨⟨fun _ => horder, fun _ => ⟨final, rfl⟩⟩, fun final hfinal => ?_,
      fun a ha => nomatch ha⟩
    cases hfinal
    exact hperm
  · refine ⟨⟨fun hfinal => ?_, fun horder => ?_⟩, fun final hfinal => (nomatch hfinal),
      fun a ha => ?_⟩
    · obtain ⟨final, hfinal⟩ := hfinal
      cases hfinal
    · exact absurd hname (List.pairwise_iff_forall_sublist.1 horder hsub)
    · cases ha
      exact ⟨p, q, hsub, hname, rfl⟩

/-- The columns of a table of bookings. -/
def bookings : List Definition :=
  [⟨"c1", "note", "text", true, false, false, "", none, ""⟩,
    ⟨"c2", "code", "text", true, false, false, "", none, ""⟩,
    ⟨"c3", "name", "text", true, false, true, "", none, ""⟩]

/-- The columns of the table of bookings after the names were handed on: the dropped column leaves
its name to the second one, and that one its own to a new column. -/
def editedBookings : List Definition :=
  [⟨"c3", "title", "text", false, false, false, "", none, ""⟩,
    ⟨"c2", "note", "text", true, false, false, "", none, ""⟩,
    ⟨"c4", "code", "text", true, false, false, "", none, ""⟩]

theorem alterTable_names_bookings :
    DistinctNames bookings editedBookings
    ∧ let steps := alterSteps ⟨"public", "bookings"⟩ bookings editedBookings none
      let result := replayNames (steps.map (·.2)) (bookings.map (·.named))
      alterTable ⟨"public", "bookings"⟩ bookings editedBookings none
        = steps.map (fun (table, a) => a.render table)
      ∧ ((∃ final, result = .ok final) ↔ RenamesInOrder bookings editedBookings)
      ∧ (∀ final, result = .ok final → final.Perm (editedBookings.map (·.named)))
      ∧ (∀ a, result = .error a → ∃ p q, [p, q].Sublist (rematched bookings editedBookings)
        ∧ p.2.name = q.1.name ∧ a = .renameColumn p.1.name p.2.name) := by
  have h : DistinctNames bookings editedBookings :=
    ⟨⟨by decide, by decide⟩, by decide, by decide, by decide +kernel⟩
  exact ⟨h, alterTable_names ⟨"public", "bookings"⟩ bookings editedBookings none h⟩

/-- Names are not handed on down the list: the first column takes the name of the second one before
that is renamed, though the other order would do. -/
theorem alterTable_rename_chain :
    let old : List Definition := [⟨"c1", "a", "text", true, false, false, "", none, ""⟩,
      ⟨"c2", "b", "text", true, false, false, "", none, ""⟩]
    let edited : List Definition := [⟨"c1", "b", "text", true, false, false, "", none, ""⟩,
      ⟨"c2", "c", "text", true, false, false, "", none, ""⟩]
    DistinctNames old edited
    ∧ alterTable ⟨"public", "t"⟩ old edited none
      = ["ALTER TABLE \"public\".\"t\" RENAME COLUMN \"a\" TO \"b\"".toList,
        "ALTER TABLE \"public\".\"t\" RENAME COLUMN \"b\" TO \"c\"".toList]
    ∧ replayNames ((alterSteps ⟨"public", "t"⟩ old edited none).map (·.2)) (old.map (·.named))
      = .error (.renameColumn "a" "b")
    ∧ replayNames [.renameColumn "b" "c", .renameColumn "a" "b"] (old.map (·.named))
      = .ok (edited.map (·.named)) :=
  ⟨⟨⟨by decide, by decide⟩, by decide, by decide, by decide +kernel⟩, by decide +kernel,
    by rfl, by rfl⟩

end StagedTable.Sql
