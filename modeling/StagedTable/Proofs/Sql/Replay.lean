import StagedTable.Sql.Alteration
import Mathlib.Data.List.Basic

/-!
# Replaying alterations

A table as far as its definition goes, and what alterations do to it when they are made one by one.
An alteration fails if it addresses a table, a column or a constraint that is not there, or if it
takes a column name that is in use.

The statements of an altered table are replayed as the data that they are the texts of
(`alterTable_eq`). The changes of one column turn it from its old definition to the edited one, and
leave the other columns alone (`turns_changes`).
-/

namespace StagedTable.Sql

/-! ### Replacing the first that fits -/

section

variable {α : Type} {p : α → Bool} {f : α → List α}

/-- Puts others in place of the first member of a list that satisfies a condition, if any does. -/
def replaceFirst? (p : α → Bool) (f : α → List α) : List α → Option (List α)
  | [] => none
  | x :: rest => if p x then some (f x ++ rest) else (replaceFirst? p f rest).map (x :: ·)

theorem replaceFirst?_append {before after : List α} {x : α} (hbefore : ∀ b ∈ before, p b = false)
    (hx : p x = true) :
    replaceFirst? p f (before ++ x :: after) = some (before ++ f x ++ after) := by
  induction before with
  | nil => exact if_pos hx
  | cons b rest ih =>
    rw [List.forall_mem_cons] at hbefore
    rw [List.cons_append, replaceFirst?, if_neg (by simp [hbefore.1]), ih hbefore.2]
    rfl

/-- What is replaced is a member that satisfies the condition, and the others stay. -/
theorem of_replaceFirst? {xs ys : List α} (h : replaceFirst? p f xs = some ys) :
    ∃ before x after, xs = before ++ x :: after ∧ p x = true ∧ ys = before ++ f x ++ after := by
  induction xs generalizing ys with
  | nil => cases h
  | cons x rest ih =>
    rw [replaceFirst?] at h
    split at h
    · next hx =>
      cases h
      exact ⟨[], x, rest, rfl, hx, rfl⟩
    · obtain ⟨zs, hzs, rfl⟩ := Option.map_eq_some_iff.1 h
      obtain ⟨before, y, after, rfl, hy, rfl⟩ := ih hzs
      exact ⟨x :: before, y, after, rfl, hy, rfl⟩

end

/-! ### Tables as they are stored -/

/-- A column of a stored table. Its origin is the id of the definition that it was made from, if it
was there from the start. A constraint has no name that anyone knows if it was added later. -/
structure StoredColumn where
  origin : Option String
  name : String
  dataType : String
  nullable : Bool
  primaryKey : Bool
  default? : Option String
  uniques : List (Option String)
  targets : List (Option String × Reference)
deriving DecidableEq

/-- A stored table. -/
structure StoredTable where
  name : TableName
  columns : List StoredColumn
deriving DecidableEq

namespace StoredColumn

/-- Whether the column has a constraint of a name. -/
def hasConstraint (constraint : String) (c : StoredColumn) : Bool :=
  c.uniques.contains (some constraint) || c.targets.any (·.1 == some constraint)

/-- The column without its constraint of a name. -/
def dropConstraint (constraint : String) (c : StoredColumn) : StoredColumn :=
  if some constraint ∈ c.uniques then { c with uniques := c.uniques.erase (some constraint) }
  else { c with targets := c.targets.eraseP (·.1 == some constraint) }

/-- The column with the names of its constraints forgotten. -/
def nameless (c : StoredColumn) : StoredColumn :=
  { c with uniques := c.uniques.map fun _ => none, targets := c.targets.map fun t => (none, t.2) }

end StoredColumn

namespace Definition

/-- The default, if one is given. -/
def default? (d : Definition) : Option String :=
  if d.hasDefault then some d.defaultText else none

/-- Whether the column needs a constraint to be unique. -/
def needsUnique (d : Definition) : Bool := d.unique && !d.primaryKey

/-- The column of a definition, with names for its constraints. -/
def stored (origin uniqueName foreignName : Option String) (d : Definition) : StoredColumn where
  origin := origin
  name := d.name
  dataType := d.dataType
  nullable := d.nullable && !d.primaryKey
  primaryKey := d.primaryKey
  default? := d.default?
  uniques := if d.needsUnique then [uniqueName] else []
  targets := d.target?.toList.map fun target => (foreignName, target)

/-- The column that is there from the start. -/
def original (table : String) (d : Definition) : StoredColumn :=
  d.stored (some d.id) (some (uniqueConstraint table d)) (some (foreignConstraint table d))

/-- The column that is added for a definition. -/
def added (d : Definition) : StoredColumn := d.stored none none none

/-- The names of the constraints of a column that is there from the start. -/
def constraintNames (table : String) (d : Definition) : List String :=
  (if d.needsUnique then [uniqueConstraint table d] else [])
    ++ (if d.target?.isSome then [foreignConstraint table d] else [])

theorem nameless_stored (origin uniqueName foreignName : Option String) (d : Definition) :
    (d.stored origin uniqueName foreignName).nameless = d.stored origin none none := by
  unfold stored StoredColumn.nameless
  cases d.needsUnique <;> cases d.target? <;> rfl

end Definition

/-- The table that definitions make. -/
def StoredTable.original (table : TableName) (old : List Definition) : StoredTable :=
  ⟨table, old.map (·.original table.name)⟩

/-! ### Replay -/

namespace Alteration

/-- Whether a column is the one that a change is of. -/
def addresses : Alteration → StoredColumn → Bool
  | .renameTable _, _ | .addColumn _, _ => false
  | .dropConstraint constraint, c => c.hasConstraint constraint
  | .dropColumn column, c | .renameColumn column _, c | .setType column _, c
  | .dropNotNull column, c | .setNotNull column, c | .setDefault column _, c
  | .dropDefault column, c | .addPrimaryKey column, c | .addUnique column, c
  | .addForeignKey column _, c => c.name == column

/-- What a change leaves of the column that it is of. -/
def effect : Alteration → StoredColumn → List StoredColumn
  | .renameTable _, c | .addColumn _, c => [c]
  | .dropColumn _, _ => []
  | .renameColumn _ name, c => [{ c with name := name }]
  | .setType _ dataType, c => [{ c with dataType := dataType }]
  | .dropNotNull _, c => [{ c with nullable := true }]
  | .setNotNull _, c => [{ c with nullable := false }]
  | .setDefault _ expression, c => [{ c with default? := some expression }]
  | .dropDefault _, c => [{ c with default? := none }]
  | .addPrimaryKey _, c => [{ c with primaryKey := true, nullable := false }]
  | .addUnique _, c => [{ c with uniques := c.uniques ++ [none] }]
  | .addForeignKey _ target, c => [{ c with targets := c.targets ++ [(none, target)] }]
  | .dropConstraint constraint, c => [c.dropConstraint constraint]

/-- The column name that a change takes. -/
def newName? : Alteration → Option String
  | .renameColumn _ name => some name
  | .addColumn d => some d.name
  | _ => none

/-- The name of the table after a change. -/
def retitle (table : TableName) : Alteration → TableName
  | .renameTable name => { table with name := name }
  | _ => table

/-- The columns after a change. -/
def applyTo (a : Alteration) (columns : List StoredColumn) : Option (List StoredColumn) :=
  if a.newName?.any fun name => columns.any (·.name == name) then none
  else
    match a with
    | .renameTable _ => some columns
    | .addColumn d => some (columns ++ [d.added])
    | a => replaceFirst? a.addresses a.effect columns

end Alteration

/-- The columns after several changes. -/
def applyAll : List Alteration → List StoredColumn → Option (List StoredColumn)
  | [], columns => some columns
  | a :: rest, columns => (a.applyTo columns).bind (applyAll rest)

/-- The table after a statement, which names the table. -/
def StoredTable.step (t : StoredTable) (table : TableName) (a : Alteration) : Option StoredTable :=
  if t.name = table then (a.applyTo t.columns).map fun columns => ⟨a.retitle table, columns⟩
  else none

/-- The table after several statements. -/
def replay : List (TableName × Alteration) → StoredTable → Option StoredTable
  | [], t => some t
  | (table, a) :: rest, t => (t.step table a).bind (replay rest)

theorem applyAll_append (as bs : List Alteration) (columns : List StoredColumn) :
    applyAll (as ++ bs) columns = (applyAll as columns).bind (applyAll bs) := by
  induction as generalizing columns with
  | nil => rfl
  | cons a rest ih =>
    rw [List.cons_append, applyAll, applyAll, Option.bind_assoc]
    exact congrArg _ (funext ih)

theorem replay_map {table : TableName} {as : List Alteration}
    (h : ∀ a ∈ as, a.retitle table = table) (columns : List StoredColumn) :
    replay (as.map (table, ·)) ⟨table, columns⟩
      = (applyAll as columns).map fun columns => ⟨table, columns⟩ := by
  induction as generalizing columns with
  | nil => rfl
  | cons a rest ih =>
    rw [List.forall_mem_cons] at h
    rw [List.map_cons, replay, applyAll, StoredTable.step, if_pos rfl, h.1]
    cases a.applyTo columns with
    | none => rfl
    | some columns => exact ih h.2 columns

/-! ### Statements as data -/

/-- The statements of an altered table, each with the name of the table that it addresses. -/
def alterSteps (table : TableName) (old edited : List Definition) (newName : Option String) :
    List (TableName × Alteration) :=
  let name := finalName table.name newName
  (if name = table.name then [] else [(table, .renameTable name)])
    ++ (columnAlterations table.name old edited).map ({ table with name := name }, ·)

/-- The statements of an altered table are the texts of the steps. -/
theorem alterTable_eq (table : TableName) (old edited : List Definition)
    (newName : Option String) :
    alterTable table old edited newName
      = (alterSteps table old edited newName).map fun (table, a) => a.render table := by
  unfold alterTable alterSteps
  by_cases hname : finalName table.name newName = table.name
  · simp only [hname, if_true, List.nil_append, List.map_map]
    rfl
  · simp only [hname, if_false, List.map_append, List.map_map]
    rfl

/-! ### The changes of one column -/

/-- Whether changes turn a column into another one between given columns. -/
def Turns (before after : List StoredColumn) (as : List Alteration) (c c' : StoredColumn) : Prop :=
  applyAll as (before ++ c :: after) = some (before ++ c' :: after)

variable {before after : List StoredColumn} {c c' c'' : StoredColumn} {as bs : List Alteration}
variable {a : Alteration}

theorem Turns.refl : Turns before after [] c c := rfl

theorem Turns.append (h : Turns before after as c c') (h' : Turns before after bs c' c'') :
    Turns before after (as ++ bs) c c'' := by
  unfold Turns at h h' ⊢
  rw [applyAll_append, h, Option.bind_some, h']

/-- A change turns the first column that it addresses, if its new name is not taken. -/
theorem turns_single (hbefore : ∀ b ∈ before, a.addresses b = false) (hc : a.addresses c = true)
    (hname : ∀ name, a.newName? = some name → ∀ b ∈ before ++ c :: after, b.name ≠ name)
    (heffect : a.effect c = [c']) : Turns before after [a] c c' := by
  have hfree : ¬ a.newName?.any (fun name => (before ++ c :: after).any (·.name == name)) = true := by
    rw [Option.any_eq_true]
    rintro ⟨name, hnew, htaken⟩
    obtain ⟨b, hb, he⟩ := List.any_eq_true.1 htaken
    exact hname name hnew b hb (beq_iff_eq.1 he)
  have happly : a.applyTo (before ++ c :: after)
      = replaceFirst? a.addresses a.effect (before ++ c :: after) := by
    unfold Alteration.applyTo
    rw [if_neg hfree]
    cases a with
    | renameTable name => cases hc
    | addColumn d => cases hc
    | _ => rfl
  unfold Turns
  rw [applyAll, happly, replaceFirst?_append hbefore hc, heffect, List.append_assoc]
  rfl

theorem turns_named {name : String} (hbefore : ∀ b ∈ before, b.name ≠ name) (hc : c.name = name)
    (haddresses : ∀ b, a.addresses b = (b.name == name)) (hnew : a.newName? = none)
    (heffect : a.effect c = [c']) : Turns before after [a] c c' := by
  refine turns_single (fun b hb => ?_) ?_ (fun n hn => ?_) heffect
  · rw [haddresses, beq_eq_false_iff_ne]
    exact hbefore b hb
  · rw [haddresses, hc, beq_self_eq_true]
  · rw [hnew] at hn
    cases hn

theorem turns_unless {p : Prop} [Decidable p] (hsame : p → c = c')
    (hdiffer : ¬ p → Turns before after [a] c c') :
    Turns before after (if p then [] else [a]) c c' := by
  split
  · next hp => exact hsame hp ▸ .refl
  · next hp => exact hdiffer hp

namespace Definition

variable {table : String} {old edited : Definition}

/-- Whether the primary key stays as it is, and what goes with it. -/
structure KeepsKey (old edited : Definition) : Prop where
  primaryKey : edited.primaryKey = old.primaryKey
  nullable : old.primaryKey = true → edited.nullable = old.nullable
  unique : old.primaryKey = true → edited.unique = old.unique

instance (old edited : Definition) : Decidable (KeepsKey old edited) :=
  decidable_of_iff (edited.primaryKey = old.primaryKey
      ∧ (old.primaryKey = true → edited.nullable = old.nullable)
      ∧ (old.primaryKey = true → edited.unique = old.unique))
    ⟨fun ⟨hprimary, hnullable, hunique⟩ => ⟨hprimary, hnullable, hunique⟩,
      fun h => ⟨h.primaryKey, h.nullable, h.unique⟩⟩

/-- Whether columns around the one of a definition have neither its names nor its constraints. -/
structure Free (table : String) (old edited : Definition) (before after : List StoredColumn) :
    Prop where
  oldName : ∀ b ∈ before ++ after, b.name ≠ old.name
  editedName : ∀ b ∈ before ++ after, b.name ≠ edited.name
  constraints : ∀ b ∈ before, ∀ constraint ∈ old.constraintNames table,
    b.hasConstraint constraint = false

/-- The column after its attributes have changed. -/
def attributed (edited : Definition) (c : StoredColumn) : StoredColumn :=
  { c with
    name := edited.name
    dataType := edited.dataType
    nullable := edited.nullable && !edited.primaryKey
    default? := edited.default? }

/-- The column after all its changes. What has not changed keeps its constraint. -/
def kept (table : String) (old edited : Definition) : StoredColumn :=
  edited.stored (some old.id)
    (if old.needsUnique then some (uniqueConstraint table old) else none)
    (if old.target? = edited.target? then some (foreignConstraint table old) else none)

section Attributes

variable {c : StoredColumn}

theorem turns_name (hfree : Free table old edited before after) (hc : c.name = old.name) :
    Turns before after
      (if edited.name = old.name then [] else [.renameColumn old.name edited.name])
      c { c with name := edited.name } := by
  apply turns_unless (fun hsame => by rw [hsame, ← hc])
  intro hdiffer
  refine turns_single (fun b hb => ?_) ?_ (fun name hname b hb => ?_) rfl
  · exact beq_eq_false_iff_ne.2 (hfree.oldName b (List.mem_append_left _ hb))
  · rw [Alteration.addresses, hc, beq_self_eq_true]
  -- the new name is taken by none of the columns around, nor by the one that gives its own up
  · cases hname
    rcases List.mem_append.1 hb with hb | hb
    · exact hfree.editedName b (List.mem_append_left _ hb)
    · rcases List.mem_cons.1 hb with rfl | hb
      · intro he
        exact hdiffer (he.symm.trans hc)
      · exact hfree.editedName b (List.mem_append_right _ hb)

theorem turns_type (hbefore : ∀ b ∈ before, b.name ≠ edited.name) (hname : c.name = edited.name)
    (hc : c.dataType = old.dataType) :
    Turns before after
      (if edited.dataType = old.dataType then [] else [.setType edited.name edited.dataType])
      c { c with dataType := edited.dataType } := by
  apply turns_unless (fun hsame => by rw [hsame, ← hc])
  intro _
  exact turns_named hbefore hname (fun _ => rfl) rfl rfl

theorem turns_nullable (hkey : old.KeepsKey edited)
    (hbefore : ∀ b ∈ before, b.name ≠ edited.name) (hname : c.name = edited.name)
    (hc : c.nullable = (old.nullable && !old.primaryKey)) :
    Turns before after
      (if edited.nullable = old.nullable then []
        else if edited.nullable then [.dropNotNull edited.name] else [.setNotNull edited.name])
      c { c with nullable := edited.nullable && !edited.primaryKey } := by
  by_cases hsame : edited.nullable = old.nullable
  · rw [if_pos hsame, hsame, hkey.primaryKey, ← hc]
    exact .refl
  · -- no column of the primary key comes here
    have hno : edited.primaryKey = false := by
      rw [hkey.primaryKey, ← Bool.not_eq_true]
      intro hprimary
      exact hsame (hkey.nullable hprimary)
    rw [if_neg hsame, hno]
    cases edited.nullable with
    | true => exact turns_named hbefore hname (fun _ => rfl) rfl rfl
    | false => exact turns_named hbefore hname (fun _ => rfl) rfl rfl

theorem turns_default (hbefore : ∀ b ∈ before, b.name ≠ edited.name) (hname : c.name = edited.name)
    (hc : c.default? = old.default?) :
    Turns before after
      (if edited.defaultText = old.defaultText then []
        else if edited.hasDefault then [.setDefault edited.name edited.defaultText]
        else [.dropDefault edited.name])
      c { c with default? := edited.default? } := by
  by_cases hsame : edited.defaultText = old.defaultText
  · have hdefault : edited.default? = old.default? := by
      rw [default?, default?, hasDefault, hasDefault, hsame]
    rw [if_pos hsame, hdefault, ← hc]
    exact .refl
  · rw [if_neg hsame, default?]
    cases edited.hasDefault with
    | true => exact turns_named hbefore hname (fun _ => rfl) rfl rfl
    | false => exact turns_named hbefore hname (fun _ => rfl) rfl rfl

end Attributes

/-- One attribute after the other; all but the first address the column by its new name. -/
theorem turns_attributeChanges (hkey : old.KeepsKey edited)
    (hfree : Free table old edited before after) :
    Turns before after (old.attributeChanges edited) (old.original table)
      (edited.attributed (old.original table)) := by
  have hbefore : ∀ b ∈ before, b.name ≠ edited.name := fun b hb =>
    hfree.editedName b (List.mem_append_left _ hb)
  exact (((turns_name hfree rfl).append (turns_type hbefore rfl rfl)).append
    (turns_nullable hkey hbefore rfl rfl)).append (turns_default hbefore rfl rfl)

/-- The column after its attributes and its uniqueness have changed. -/
def constrained (table : String) (old edited : Definition) : StoredColumn :=
  { edited.attributed (old.original table) with uniques := (old.kept table edited).uniques }

theorem turns_keyChanges (hkey : old.KeepsKey edited)
    (hfree : Free table old edited before after) :
    Turns before after (old.keyChanges table edited) (edited.attributed (old.original table))
      (old.constrained table edited) := by
  have hbefore : ∀ b ∈ before, b.name ≠ edited.name := fun b hb =>
    hfree.editedName b (List.mem_append_left _ hb)
  unfold keyChanges
  rw [if_pos hkey.primaryKey, List.nil_append]
  by_cases hsame : edited.unique = old.unique
  -- what has not changed keeps the constraint that it has
  · have hneeds : edited.needsUnique = old.needsUnique := by
      rw [needsUnique, needsUnique, hsame, hkey.primaryKey]
    have huniques : (old.kept table edited).uniques = (old.original table).uniques := by
      show (if edited.needsUnique then _ else _) = if old.needsUnique then _ else _
      rw [hneeds]
      cases old.needsUnique <;> rfl
    rw [if_pos hsame, constrained, huniques]
    exact .refl
  · have hno : old.primaryKey = false := by
      rw [← Bool.not_eq_true]
      intro hprimary
      exact hsame (hkey.unique hprimary)
    have hno' : edited.primaryKey = false := by rw [hkey.primaryKey, hno]
    have hold : old.unique = !edited.unique := Bool.eq_not_of_ne (Ne.symm hsame)
    rw [if_neg hsame]
    cases hunique : edited.unique with
    | true =>
      rw [hunique] at hold
      refine turns_named hbefore rfl (fun _ => rfl) rfl ?_
      simp [Alteration.effect, constrained, attributed, kept, original, stored, needsUnique, hold,
        hunique, hno, hno']
    | false =>
      rw [hunique] at hold
      have hneeds : old.needsUnique = true := by rw [needsUnique, hold, hno]; rfl
      refine turns_single (fun b hb => ?_) ?_ (fun name hname => nomatch hname) ?_
      · exact hfree.constraints b hb _ (by simp [constraintNames, hneeds])
      · simp [Alteration.addresses, StoredColumn.hasConstraint, attributed, original, stored, hneeds]
      · simp [Alteration.effect, StoredColumn.dropConstraint, constrained, attributed, kept,
          original, stored, needsUnique, hold, hunique, hno, hno']

/-- Dropping the foreign key of a column takes all its references. The constraint must not go by the
name of a uniqueness constraint, which would be dropped in its place. -/
theorem turns_dropForeign (hnames : (old.constraintNames table).Nodup)
    (hfree : Free table old edited before after) :
    Turns before after
      (if old.target?.isSome then [.dropConstraint (foreignConstraint table old)] else [])
      (old.constrained table edited) { old.constrained table edited with targets := [] } := by
  have htargets : (old.constrained table edited).targets
      = old.target?.toList.map (some (foreignConstraint table old), ·) := rfl
  cases hold : old.target? with
  | none =>
    have hnone : (old.constrained table edited).targets = [] := by rw [htargets, hold]; rfl
    rw [← hnone]
    exact .refl
  | some target =>
    have hunique : some (foreignConstraint table old) ∉ (old.constrained table edited).uniques := by
      intro hmem
      have huniques : (old.constrained table edited).uniques = if edited.needsUnique
          then [if old.needsUnique then some (uniqueConstraint table old) else none]
          else [] := rfl
      cases hneeds : old.needsUnique with
      | true => simp_all [constraintNames]
      | false => simp_all
    refine turns_single (fun b hb => ?_) ?_ (fun name hname => nomatch hname) ?_
    · exact hfree.constraints b hb _ (by simp [constraintNames, hold])
    · simp [Alteration.addresses, StoredColumn.hasConstraint, htargets, hold]
    · simp [Alteration.effect, StoredColumn.dropConstraint, hunique, htargets, hold]

theorem turns_foreignChanges (hkey : old.KeepsKey edited)
    (hnames : (old.constraintNames table).Nodup) (hfree : Free table old edited before after) :
    Turns before after (old.foreignChanges table edited) (old.constrained table edited)
      (old.kept table edited) := by
  have hkept : old.kept table edited
      = { old.constrained table edited with targets := (old.kept table edited).targets } := by
    simp [constrained, attributed, kept, original, stored, hkey.primaryKey]
  have htargets : (old.kept table edited).targets = edited.target?.toList.map
      (if old.target? = edited.target? then some (foreignConstraint table old) else none, ·) := rfl
  unfold foreignChanges
  by_cases hsame : old.target? = edited.target?
  · rw [if_pos hsame, hkept, htargets, if_pos hsame, ← hsame]
    exact .refl
  · rw [if_neg hsame]
    rw [if_neg hsame] at htargets
    refine (turns_dropForeign hnames hfree).append ?_
    rw [hkept, htargets]
    cases edited.target? with
    | none => exact .refl
    | some target =>
      have hbefore : ∀ b ∈ before, b.name ≠ edited.name := fun b hb =>
        hfree.editedName b (List.mem_append_left _ hb)
      exact turns_named hbefore rfl (fun _ => rfl) rfl rfl

/-- The changes of a column turn it from its old definition to the edited one. -/
theorem turns_changes (hkey : old.KeepsKey edited) (hnames : (old.constraintNames table).Nodup)
    (hfree : Free table old edited before after) :
    Turns before after (old.changes table edited) (old.original table) (old.kept table edited) :=
  ((turns_attributeChanges hkey hfree).append (turns_keyChanges hkey hfree)).append
    (turns_foreignChanges hkey hnames hfree)

end Definition

end StagedTable.Sql
