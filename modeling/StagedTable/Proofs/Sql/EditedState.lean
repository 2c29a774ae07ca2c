import StagedTable.Proofs.Sql.Replay
import Mathlib.Data.List.Nodup
import Mathlib.Data.List.Pairwise
import Mathlib.Data.List.Perm.Basic

/-!
# The edited state

Replaying the statements of an altered table on the table of the original definitions makes the
table of the edited ones (`replay_alterSteps`). Columns are dropped, those that stay are changed one
after the other, and new ones are added; what carries the middle part is that no two columns that
stay get in the way of each other (`Apart`), whichever of them have been changed already.
-/

namespace StagedTable.Sql

open Text

namespace Definition

variable {table : String} {old edited : Definition} {definitions : List Definition} {id : String}

theorem mem_of_find? {d : Definition} (h : find? id definitions = some d) :
    d ∈ definitions ∧ d.id = id := by
  induction definitions with
  | nil => cases h
  | cons e rest ih =>
    rw [find?] at h
    split at h
    · next hfound =>
      cases h
      exact ⟨.tail _ (ih hfound).1, (ih hfound).2⟩
    · split at h
      · next he =>
        cases h
        exact ⟨.head _, he⟩
      · cases h

theorem find?_of_mem (hids : (definitions.map (·.id)).Nodup) {d : Definition}
    (h : d ∈ definitions) : find? d.id definitions = some d := by
  have hfound : (find? d.id definitions).isSome := by
    clear hids
    induction definitions with
    | nil => cases h
    | cons e rest ih =>
      rw [find?]
      split
      · rfl
      · next hnone =>
        rcases List.mem_cons.1 h with rfl | hrest
        · rw [if_pos rfl]
          rfl
        · rw [hnone] at ih
          cases ih hrest
  obtain ⟨e, he⟩ := Option.isSome_iff_exists.1 hfound
  obtain ⟨hmem, hid⟩ := mem_of_find? he
  rw [he, List.inj_on_of_nodup_map hids hmem h hid]

theorem mem_constraintNames {constraint : String} : constraint ∈ old.constraintNames table
    ↔ (old.needsUnique = true ∧ constraint = uniqueConstraint table old)
      ∨ (old.target?.isSome = true ∧ constraint = foreignConstraint table old) := by
  rw [constraintNames, List.mem_append]
  refine or_congr ?_ ?_
  · cases old.needsUnique <;> simp
  · cases old.target?.isSome <;> simp

theorem hasConstraint_stored {origin uniqueName foreignName : Option String} {constraint : String} :
    (old.stored origin uniqueName foreignName).hasConstraint constraint = true
      ↔ (old.needsUnique = true ∧ uniqueName = some constraint)
        ∨ (old.target?.isSome = true ∧ foreignName = some constraint) := by
  rw [StoredColumn.hasConstraint, Bool.or_eq_true, stored]
  refine or_congr ?_ ?_
  · cases old.needsUnique <;> simp [eq_comm]
  · cases old.target? <;> simp

theorem mem_constraintNames_of_original {constraint : String}
    (h : (old.original table).hasConstraint constraint = true) :
    constraint ∈ old.constraintNames table := by
  rw [mem_constraintNames]
  rcases hasConstraint_stored.1 h with ⟨hneeds, hname⟩ | ⟨htarget, hname⟩
  · exact .inl ⟨hneeds, (Option.some.inj hname).symm⟩
  · exact .inr ⟨htarget, (Option.some.inj hname).symm⟩

/-- A constraint of a column that has changed has one of the names of the old definition. -/
theorem mem_constraintNames_of_kept {constraint : String}
    (h : (old.kept table edited).hasConstraint constraint = true) :
    constraint ∈ old.constraintNames table := by
  rw [mem_constraintNames]
  rcases hasConstraint_stored.1 h with ⟨-, hname⟩ | ⟨htarget, hname⟩
  · split at hname
    · next hneeds => exact .inl ⟨hneeds, (Option.some.inj hname).symm⟩
    · cases hname
  · split at hname
    · next hsame => exact .inr ⟨hsame ▸ htarget, (Option.some.inj hname).symm⟩
    · cases hname

theorem retitle_of_mem_changes {a : Alteration} (h : a ∈ old.changes table edited)
    (name : TableName) : a.retitle name = name := by
  cases a with
  | renameTable n =>
    refine absurd h ?_
    simp only [changes, attributeChanges, keyChanges, foreignChanges, List.mem_append]
    rintro (((((h | h) | h) | h) | h | h) | h)
    iterate 6 · split_ifs at h <;> simp at h
    cases hedited : edited.target? <;> split_ifs at h <;> simp [hedited] at h
  | _ => rfl

end Definition

/-! ### Columns that stay -/

/-- The definitions that stay, each with its edited one, in the order of the old ones. -/
def matched (old edited : List Definition) : List (Definition × Definition) :=
  old.filterMap fun d => (Definition.find? d.id edited).map fun e => (d, e)

/-- The definitions that stay, each with its edited one, in the order of the edited ones. -/
def rematched (old edited : List Definition) : List (Definition × Definition) :=
  edited.filterMap fun e => (Definition.find? e.id old).map fun d => (d, e)

/-- The definitions that do not stay. -/
def dropouts (old edited : List Definition) : List Definition :=
  old.filter fun d => !(Definition.find? d.id edited).isSome

/-- The definitions that are new; one without a name is not made yet. -/
def newcomers (old edited : List Definition) : List Definition :=
  edited.filter fun e => !((Definition.find? e.id old).isSome || blankString e.name)

/-- Whether the ids in each of two lists of definitions are different. -/
structure DistinctIds (old edited : List Definition) : Prop where
  oldIds : (old.map (·.id)).Nodup
  editedIds : (edited.map (·.id)).Nodup

namespace DistinctIds

variable {old edited : List Definition}

theorem mem_matched (h : DistinctIds old edited) {p : Definition × Definition} :
    p ∈ matched old edited ↔ p.1 ∈ old ∧ p.2 ∈ edited ∧ p.1.id = p.2.id := by
  obtain ⟨d, e⟩ := p
  rw [matched, List.mem_filterMap]
  constructor
  · rintro ⟨d', hd', he⟩
    obtain ⟨e', hfound, he⟩ := Option.map_eq_some_iff.1 he
    cases he
    obtain ⟨hmem, hid⟩ := Definition.mem_of_find? hfound
    exact ⟨hd', hmem, hid.symm⟩
  · rintro ⟨hd, he, hid⟩
    simp only at hid
    exact ⟨d, hd, by rw [hid, Definition.find?_of_mem h.editedIds he]; rfl⟩

theorem mem_rematched (h : DistinctIds old edited) {p : Definition × Definition} :
    p ∈ rematched old edited ↔ p.1 ∈ old ∧ p.2 ∈ edited ∧ p.1.id = p.2.id := by
  obtain ⟨d, e⟩ := p
  rw [rematched, List.mem_filterMap]
  constructor
  · rintro ⟨e', he', hd⟩
    obtain ⟨d', hfound, hd⟩ := Option.map_eq_some_iff.1 hd
    cases hd
    obtain ⟨hmem, hid⟩ := Definition.mem_of_find? hfound
    exact ⟨hmem, he', hid⟩
  · rintro ⟨hd, he, hid⟩
    simp only at hid
    exact ⟨e, he, by rw [← hid, Definition.find?_of_mem h.oldIds hd]; rfl⟩

theorem nodup_matched (h : DistinctIds old edited) : (matched old edited).Nodup := by
  refine List.Nodup.filterMap (fun d d' p hp hp' => ?_) h.oldIds.of_map
  obtain ⟨e, -, rfl⟩ := Option.map_eq_some_iff.1 hp
  obtain ⟨e', -, he⟩ := Option.map_eq_some_iff.1 hp'
  cases he
  rfl

theorem nodup_rematched (h : DistinctIds old edited) : (rematched old edited).Nodup := by
  refine List.Nodup.filterMap (fun e e' p hp hp' => ?_) h.editedIds.of_map
  obtain ⟨d, -, rfl⟩ := Option.map_eq_some_iff.1 hp
  obtain ⟨d', -, he⟩ := Option.map_eq_some_iff.1 hp'
  cases he
  rfl

/-- The definitions that stay are the same ones in either order. -/
theorem rematched_perm (h : DistinctIds old edited) :
    (rematched old edited).Perm (matched old edited) :=
  (List.perm_ext_iff_of_nodup h.nodup_rematched h.nodup_matched).2 fun _ =>
    h.mem_rematched.trans h.mem_matched.symm

end DistinctIds

/-- Whether an edit of definitions can be made one change after the other: ids and names are
different, old constraints have different names, no column that stays takes the old name of another
one that stays, and the primary key is left alone. -/
structure Diffable (table : String) (old edited : List Definition) : Prop where
  oldIds : (old.map (·.id)).Nodup
  editedIds : (edited.map (·.id)).Nodup
  oldNames : (old.map (·.name)).Nodup
  editedNames : ((edited.filter fun e => !blankString e.name).map (·.name)).Nodup
  named : ∀ e ∈ edited, blankString e.name = true → ∀ d ∈ old, d.id ≠ e.id
  constraints : (old.flatMap (·.constraintNames table)).Nodup
  renames : ∀ d ∈ old, ∀ e ∈ edited, d.id = e.id → ∀ d' ∈ old, (∃ e' ∈ edited, d'.id = e'.id) →
    d'.id ≠ d.id → e.name ≠ d'.name
  keys : ∀ d ∈ old, ∀ e ∈ edited, d.id = e.id → d.KeepsKey e

namespace Diffable

variable {table : String} {old edited : List Definition}

theorem distinctIds (h : Diffable table old edited) : DistinctIds old edited :=
  ⟨h.oldIds, h.editedIds⟩

theorem mem_matched (h : Diffable table old edited) {p : Definition × Definition} :
    p ∈ matched old edited ↔ p.1 ∈ old ∧ p.2 ∈ edited ∧ p.1.id = p.2.id :=
  h.distinctIds.mem_matched

theorem keepsKey (h : Diffable table old edited) {p : Definition × Definition}
    (hp : p ∈ matched old edited) : p.1.KeepsKey p.2 := by
  obtain ⟨hp1, hp2, hid⟩ := h.mem_matched.1 hp
  exact h.keys p.1 hp1 p.2 hp2 hid

theorem mem_named (h : Diffable table old edited) {p : Definition × Definition}
    (hp : p ∈ matched old edited) : p.2 ∈ edited.filter fun e => !blankString e.name := by
  obtain ⟨hp1, hp2, hid⟩ := h.mem_matched.1 hp
  refine List.mem_filter.2 ⟨hp2, ?_⟩
  rw [Bool.not_eq_true', ← Bool.not_eq_true]
  intro hblank
  exact h.named p.2 hp2 hblank p.1 hp1 hid

end Diffable

/-- Whether two columns do not get in the way of each other when they are changed. -/
structure Apart (table : String) (p q : Definition × Definition) : Prop where
  oldNames : p.1.name ≠ q.1.name
  editedNames : p.2.name ≠ q.2.name
  crossed : p.2.name ≠ q.1.name
  crossed' : p.1.name ≠ q.2.name
  constraints : List.Disjoint (p.1.constraintNames table) (q.1.constraintNames table)

namespace Diffable

variable {table : String} {old edited : List Definition}

theorem apart (h : Diffable table old edited) {p q : Definition × Definition}
    (hp : p ∈ matched old edited) (hq : q ∈ matched old edited) (hne : p ≠ q) :
    Apart table p q := by
  obtain ⟨hp1, hp2, hpid⟩ := h.mem_matched.1 hp
  obtain ⟨hq1, hq2, hqid⟩ := h.mem_matched.1 hq
  have hids : p.1.id ≠ q.1.id := by
    intro he
    refine hne (Prod.ext (List.inj_on_of_nodup_map h.oldIds hp1 hq1 he) ?_)
    exact List.inj_on_of_nodup_map h.editedIds hp2 hq2 (by rw [← hpid, ← hqid, he])
  constructor
  · intro he
    exact hids (congrArg _ (List.inj_on_of_nodup_map h.oldNames hp1 hq1 he))
  · intro he
    have hedited := List.inj_on_of_nodup_map h.editedNames (h.mem_named hp) (h.mem_named hq) he
    exact hids (by rw [hpid, hqid, hedited])
  · exact h.renames p.1 hp1 p.2 hp2 hpid q.1 hq1 ⟨q.2, hq2, hqid⟩ hids.symm
  · intro he
    exact h.renames q.1 hq1 q.2 hq2 hqid p.1 hp1 ⟨p.2, hp2, hpid⟩ hids he.symm
  · have hdisjoint := (List.nodup_flatMap.1 h.constraints).2
    have hsymm : Std.Symm (Function.onFun List.Disjoint fun d : Definition =>
        d.constraintNames table) := ⟨fun _ _ hd _ ha hb => hd hb ha⟩
    exact hdisjoint.forall hp1 hq1 fun he => hids (congrArg _ he)

end Diffable

/-! ### The three parts of the replay -/

variable {table : String} {old edited : List Definition}

/-- Dropping columns leaves the others, if no two have the same name. -/
theorem applyAll_drops {gone : Definition → Bool} {before : List StoredColumn}
    {definitions : List Definition} (hnames : (definitions.map (·.name)).Nodup)
    (hbefore : ∀ b ∈ before, ∀ d ∈ definitions, b.name ≠ d.name) :
    applyAll ((definitions.filter gone).map (.dropColumn ·.name))
        (before ++ definitions.map (·.original table))
      = some (before ++ (definitions.filter (!gone ·)).map (·.original table)) := by
  induction definitions generalizing before with
  | nil => rfl
  | cons d rest ih =>
    rw [List.map_cons, List.nodup_cons] at hnames
    have hrest : ∀ b ∈ before, ∀ e ∈ rest, b.name ≠ e.name := fun b hb e he =>
      hbefore b hb e (.tail _ he)
    cases hgone : gone d with
    | true =>
      -- no column before it has its name, so it is the first one that the statement finds
      have hdrop : Alteration.applyTo (.dropColumn d.name)
          (before ++ d.original table :: rest.map (·.original table))
          = some (before ++ [] ++ rest.map (·.original table)) := by
        refine replaceFirst?_append (fun b hb => ?_) (beq_self_eq_true _)
        exact beq_eq_false_iff_ne.2 (hbefore b hb d (.head _))
      rw [List.filter_cons_of_pos hgone, List.filter_cons_of_neg (by simp [hgone]),
        List.map_cons, List.map_cons, applyAll, hdrop, List.append_nil]
      exact ih hnames.2 hrest
    | false =>
      have hnext : ∀ b ∈ before ++ [d.original table], ∀ e ∈ rest, b.name ≠ e.name := by
        intro b hb e he hname
        rcases List.mem_append.1 hb with hb | hb
        · exact hrest b hb e he hname
        · cases List.mem_singleton.1 hb
          exact hnames.1 (List.mem_map.2 ⟨e, he, hname.symm⟩)
      rw [List.filter_cons_of_neg (by simp [hgone]),
        List.filter_cons_of_pos (by rw [hgone]; rfl)]
      simpa only [List.map_cons, List.append_assoc, List.singleton_append] using
        ih hnames.2 hnext

/-- Adding columns puts them at the end, if their names are not taken. -/
theorem applyAll_adds {columns : List StoredColumn} {definitions : List Definition}
    (hnames : (definitions.map (·.name)).Nodup)
    (hcolumns : ∀ c ∈ columns, ∀ d ∈ definitions, c.name ≠ d.name) :
    applyAll (definitions.map .addColumn) columns
      = some (columns ++ definitions.map (·.added)) := by
  induction definitions generalizing columns with
  | nil => rw [List.map_nil, List.map_nil, List.append_nil]; rfl
  | cons d rest ih =>
    rw [List.map_cons, List.nodup_cons] at hnames
    have hadd : Alteration.applyTo (.addColumn d) columns = some (columns ++ [d.added]) := by
      apply if_neg
      intro htaken
      obtain ⟨c, hc, hname⟩ := List.any_eq_true.1 htaken
      exact hcolumns c hc d (.head _) (beq_iff_eq.1 hname)
    have hnext : ∀ c ∈ columns ++ [d.added], ∀ e ∈ rest, c.name ≠ e.name := by
      intro c hc e he hname
      rcases List.mem_append.1 hc with hc | hc
      · exact hcolumns c hc e (.tail _ he) hname
      · cases List.mem_singleton.1 hc
        exact hnames.1 (List.mem_map.2 ⟨e, he, hname.symm⟩)
    rw [List.map_cons, applyAll, hadd, Option.bind_some]
    simpa only [List.map_cons, List.append_assoc, List.singleton_append] using ih hnames.2 hnext

/-- A column that stays, once some of them have been changed. -/
def cell (table : String) (done : List (Definition × Definition)) (p : Definition × Definition) :
    StoredColumn :=
  if p ∈ done then p.1.kept table p.2 else p.1.original table

variable {done : List (Definition × Definition)} {p q : Definition × Definition}

theorem cell_append (hne : p ≠ q) : cell table (done ++ [q]) p = cell table done p := by
  simp only [cell, List.mem_append, List.mem_singleton, hne, or_false]

/-- A column leaves the names of another one free that does not get in its way. -/
theorem Apart.name_cell (h : Apart table p q) :
    (cell table done p).name ≠ q.1.name ∧ (cell table done p).name ≠ q.2.name := by
  unfold cell
  split
  · exact ⟨h.crossed, h.editedNames⟩
  · exact ⟨h.oldNames, h.crossed'⟩

theorem Apart.hasConstraint_cell (h : Apart table p q) {constraint : String}
    (hmem : constraint ∈ q.1.constraintNames table) :
    (cell table done p).hasConstraint constraint = false := by
  rw [← Bool.not_eq_true]
  intro hhas
  refine h.constraints ?_ hmem
  unfold cell at hhas
  split at hhas
  · exact Definition.mem_constraintNames_of_kept hhas
  · exact Definition.mem_constraintNames_of_original hhas

/-- The changes of one column that stays turn it from its old definition to the edited one, and leave
the others as they are. -/
theorem applyAll_changes_of_mem {ps : List (Definition × Definition)} (hps : ps.Nodup)
    (hapart : ∀ p ∈ ps, ∀ q ∈ ps, p ≠ q → Apart table p q) (hq : q ∈ ps)
    (hkey : q.1.KeepsKey q.2) (hnames : (q.1.constraintNames table).Nodup) (hdone : q ∉ done) :
    applyAll (q.1.changes table q.2) (ps.map (cell table done))
      = some (ps.map (cell table (done ++ [q]))) := by
  obtain ⟨before, after, rfl⟩ := List.append_of_mem hq
  rw [List.nodup_middle, List.nodup_cons] at hps
  have hothers : ∀ p ∈ before ++ after, p ≠ q ∧ Apart table p q := by
    intro p hp
    have hne : p ≠ q := fun he => hps.1 (he ▸ hp)
    refine ⟨hne, hapart p ?_ q hq hne⟩
    rcases List.mem_append.1 hp with hp | hp
    · exact List.mem_append_left _ hp
    · exact List.mem_append_right _ (.tail _ hp)
  have hfree : Definition.Free table q.1 q.2 (before.map (cell table done))
      (after.map (cell table done)) := by
    constructor
    · rw [← List.map_append, List.forall_mem_map]
      intro p hp
      exact (hothers p hp).2.name_cell.1
    · rw [← List.map_append, List.forall_mem_map]
      intro p hp
      exact (hothers p hp).2.name_cell.2
    · rw [List.forall_mem_map]
      intro p hp constraint
      exact (hothers p (List.mem_append_left _ hp)).2.hasConstraint_cell
  have hhere : cell table done q = q.1.original table := if_neg hdone
  have hthere : cell table (done ++ [q]) q = q.1.kept table q.2 := if_pos (by simp)
  -- the others look the same whether it counts as done or not
  have hbefore : before.map (cell table (done ++ [q])) = before.map (cell table done) :=
    List.map_congr_left fun p hp => cell_append (hothers p (List.mem_append_left _ hp)).1
  have hafter : after.map (cell table (done ++ [q])) = after.map (cell table done) :=
    List.map_congr_left fun p hp => cell_append (hothers p (List.mem_append_right _ hp)).1
  rw [List.map_append, List.map_cons, List.map_append, List.map_cons, hhere, hthere, hbefore,
    hafter]
  exact Definition.turns_changes hkey hnames hfree

/-- The changes of columns that stay turn each from its old definition to the edited one. The
induction is on those that are left, whatever has been done before. -/
theorem applyAll_changes {ps qs : List (Definition × Definition)} (hps : ps.Nodup)
    (hapart : ∀ p ∈ ps, ∀ q ∈ ps, p ≠ q → Apart table p q)
    (hkeys : ∀ p ∈ ps, p.1.KeepsKey p.2) (hnames : ∀ p ∈ ps, (p.1.constraintNames table).Nodup)
    (hqs : ∀ q ∈ qs, q ∈ ps) (hnodup : (done ++ qs).Nodup) :
    applyAll (qs.flatMap fun q => q.1.changes table q.2) (ps.map (cell table done))
      = some (ps.map (cell table (done ++ qs))) := by
  induction qs generalizing done with
  | nil => rw [List.append_nil]; rfl
  | cons q rest ih =>
    rw [List.forall_mem_cons] at hqs
    have hdone : q ∉ done := by
      intro hdone
      exact (List.nodup_append.1 hnodup).2.2 q hdone q (.head _) rfl
    have hstep := applyAll_changes_of_mem hps hapart hqs.1 (hkeys q hqs.1) (hnames q hqs.1) hdone
    rw [List.append_cons] at hnodup ⊢
    rw [List.flatMap_cons, applyAll_append, hstep]
    exact ih hqs.2 hnodup

/-! ### The whole replay -/

/-- The changes of columns by what happens to the definitions: those that do not stay are dropped,
those that stay are changed and the new ones are added. -/
theorem columnAlterations_eq (table : String) (old edited : List Definition) :
    columnAlterations table old edited
      = (dropouts old edited).map (.dropColumn ·.name)
        ++ (rematched old edited).flatMap (fun p => p.1.changes table p.2)
        ++ (newcomers old edited).map .addColumn := by
  have hfilter : ∀ (p : Definition → Bool) (f : Definition → Alteration) (ds : List Definition),
      ds.filterMap (fun d => if p d then none else some (f d)) = (ds.filter (!p ·)).map f := by
    intro p f ds
    induction ds with
    | nil => rfl
    | cons d rest ih =>
      rw [List.filterMap_cons, List.filter_cons, ih]
      cases p d with
      | true => rfl
      | false => rfl
  have hchanges : ∀ f : Definition → List Alteration,
      (∀ e, f e = ((Definition.find? e.id old).map fun d => d.changes table e).getD []) →
      edited.flatMap f = (rematched old edited).flatMap fun p => p.1.changes table p.2 := by
    intro f hf
    unfold rematched
    induction edited with
    | nil => rfl
    | cons e rest ih =>
      rw [List.flatMap_cons, ih, List.filterMap_cons, hf]
      cases Definition.find? e.id old <;> rfl
  unfold columnAlterations
  rw [hfilter, hfilter, hchanges _ fun e => by cases Definition.find? e.id old <;> rfl]
  rfl

theorem map_fst_matched (old edited : List Definition) :
    (matched old edited).map (·.1)
      = old.filter fun d => !!(Definition.find? d.id edited).isSome := by
  unfold matched
  induction old with
  | nil => rfl
  | cons d rest ih =>
    rw [List.filterMap_cons, List.filter_cons]
    cases Definition.find? d.id edited with
    | none => exact ih
    | some e => exact congrArg _ ih

/-- The columns of the edited table: those that stay in their order, then the new ones. -/
def editedColumns (table : String) (old edited : List Definition) : List StoredColumn :=
  (matched old edited).map (fun p => p.1.kept table p.2) ++ (newcomers old edited).map (·.added)

theorem applyAll_columnAlterations (h : Diffable table old edited) :
    applyAll (columnAlterations table old edited) (old.map (·.original table))
      = some (editedColumns table old edited) := by
  have hdrops : applyAll ((dropouts old edited).map (.dropColumn ·.name))
      (old.map (·.original table)) = some ((matched old edited).map (cell table [])) := by
    have hmatched : (matched old edited).map (cell table [])
        = ((matched old edited).map (·.1)).map (·.original table) := by
      rw [List.map_map]
      rfl
    rw [hmatched, map_fst_matched]
    exact @applyAll_drops table _ [] old h.oldNames fun b hb => nomatch hb
  have hchanges : applyAll ((rematched old edited).flatMap fun p => p.1.changes table p.2)
      ((matched old edited).map (cell table []))
      = some ((matched old edited).map (cell table (rematched old edited))) := by
    refine applyAll_changes h.distinctIds.nodup_matched (fun p hp q hq => h.apart hp hq)
      (fun p hp => ?_) (fun p hp => ?_)
      (fun q hq => h.distinctIds.rematched_perm.mem_iff.1 hq) h.distinctIds.nodup_rematched
    · exact h.keepsKey hp
    · exact (List.nodup_flatMap.1 h.constraints).1 p.1 (h.mem_matched.1 hp).1
  have hkept : (matched old edited).map (cell table (rematched old edited))
      = (matched old edited).map fun p => p.1.kept table p.2 :=
    List.map_congr_left fun p hp => if_pos (h.distinctIds.rematched_perm.mem_iff.2 hp)
  have hadds : applyAll ((newcomers old edited).map .addColumn)
      ((matched old edited).map fun p => p.1.kept table p.2)
      = some (editedColumns table old edited) := by
    refine applyAll_adds ?_ ?_
    · refine h.editedNames.sublist (List.Sublist.map _ (List.monotone_filter_right _ fun e he => ?_))
      revert he
      cases blankString e.name <;> simp
    · rw [List.forall_mem_map]
      intro p hp e he hname
      obtain ⟨hp1, -, hid⟩ := h.mem_matched.1 hp
      obtain ⟨he, hnew⟩ := List.mem_filter.1 he
      rw [Bool.not_or, Bool.and_eq_true] at hnew
      -- a new column of the same name would be the one that stays
      have hsame : p.2 = e := List.inj_on_of_nodup_map h.editedNames (h.mem_named hp)
        (List.mem_filter.2 ⟨he, hnew.2⟩) hname
      rw [← hsame, ← hid, Definition.find?_of_mem h.oldIds hp1] at hnew
      cases hnew.1
  rw [columnAlterations_eq, applyAll_append, applyAll_append, hdrops, Option.bind_some, hchanges,
    Option.bind_some, hkept, hadds]

theorem retitle_of_mem_columnAlterations {a : Alteration}
    (h : a ∈ columnAlterations table old edited) (name : TableName) : a.retitle name = name := by
  rw [columnAlterations_eq, List.mem_append, List.mem_append] at h
  rcases h with (h | h) | h
  · obtain ⟨d, -, rfl⟩ := List.mem_map.1 h
    rfl
  · obtain ⟨p, -, h⟩ := List.mem_flatMap.1 h
    exact Definition.retitle_of_mem_changes h name
  · obtain ⟨e, -, rfl⟩ := List.mem_map.1 h
    rfl

/-- The columns that are wanted: those of the edited definitions that stay or have a name. Names of
constraints are left open. -/
def wanted (old edited : List Definition) : List StoredColumn :=
  (edited.filter fun e => (Definition.find? e.id old).isSome || !blankString e.name).map fun e =>
    e.stored ((Definition.find? e.id old).map (·.id)) none none

/-- Whether a table is the edited one, up to the order of its columns and the names of its
constraints. The columns that stay are those that were there from the start. -/
structure StoredTable.IsEdited (table : TableName) (old edited : List Definition)
    (newName : Option String) (t : StoredTable) : Prop where
  name : t.name = { table with name := finalName table.name newName }
  columns : (t.columns.map (·.nameless)).Perm (wanted old edited)

theorem wanted_perm (old edited : List Definition) : (wanted old edited).Perm
    ((rematched old edited).map (fun p => p.2.stored (some p.1.id) none none)
      ++ (newcomers old edited).map (·.added)) := by
  unfold wanted rematched newcomers
  induction edited with
  | nil => exact .nil
  | cons e rest ih =>
    rw [List.filter_cons, List.filterMap_cons, List.filter_cons]
    cases hfound : Definition.find? e.id old with
    | some d =>
      simp only [Option.isSome_some, Bool.true_or, if_true, List.map_cons, hfound]
      exact ih.cons _
    | none =>
      cases blankString e.name with
      | true => exact ih
      | false =>
        -- a new column moves behind those that stay
        simp only [Option.isSome_none, Bool.false_or, Bool.not_false, if_true, List.map_cons, hfound]
        exact (ih.cons _).trans List.perm_middle.symm

/-- The replay ends with the edited columns under the new name. -/
theorem replay_alterSteps {table : TableName} (h : Diffable table.name old edited)
    (newName : Option String) :
    replay (alterSteps table old edited newName) (.original table old)
      = some ⟨{ table with name := finalName table.name newName },
        editedColumns table.name old edited⟩ := by
  have hcolumns : ∀ name : TableName,
      replay ((columnAlterations table.name old edited).map (name, ·))
        ⟨name, old.map (·.original table.name)⟩
        = some ⟨name, editedColumns table.name old edited⟩ := by
    intro name
    rw [replay_map fun a ha => retitle_of_mem_columnAlterations ha name,
      applyAll_columnAlterations h]
    rfl
  unfold alterSteps
  by_cases hname : finalName table.name newName = table.name
  · simp only [hname, if_true, List.nil_append]
    exact hcolumns table
  · have hrename : (StoredTable.original table old).step table
        (.renameTable (finalName table.name newName))
        = some ⟨{ table with name := finalName table.name newName },
          old.map (·.original table.name)⟩ := if_pos rfl
    simp only [hname, if_false, List.singleton_append]
    rw [replay, hrename]
    exact hcolumns _

theorem editedColumns_perm (h : Diffable table old edited) :
    ((editedColumns table old edited).map (·.nameless)).Perm (wanted old edited) := by
  have hkept : ((matched old edited).map fun p => p.1.kept table p.2).map (·.nameless)
      = (matched old edited).map fun p => p.2.stored (some p.1.id) none none := by
    rw [List.map_map]
    exact List.map_congr_left fun p _ => Definition.nameless_stored _ _ _ _
  have hadded : ((newcomers old edited).map (·.added)).map (·.nameless)
      = (newcomers old edited).map (·.added) := by
    rw [List.map_map]
    exact List.map_congr_left fun e _ => Definition.nameless_stored _ _ _ _
  rw [editedColumns, List.map_append, hkept, hadded]
  exact ((h.distinctIds.rematched_perm.map _).symm.append_right _).trans
    (wanted_perm old edited).symm

end StagedTable.Sql
