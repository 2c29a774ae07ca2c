import StagedTable.Proofs.Sql.ColumnNames
import StagedTable.Proofs.Sql.KeyTurns

/-!
# The primary key along the way

The primary key of a table while the statements of an alteration are replayed. The key is one
constraint of the whole table: it is dropped with any of its columns, no column of it is made
nullable, and there is no second one. Whether all of the statements can be made and the key ends as
it was edited is a matter of the turns of the columns (`replayKey_columnAlterations`), so that it
comes out only if the key stays as it is or moves from one column to another (`alterTable_key`).
-/

namespace StagedTable.Sql

open Text

/-! ### Replay on the key -/

/-- A table as far as its primary key goes: the columns, and the ids of those in the key. Without a
key there are none. -/
structure KeyedTable where
  columns : List NamedColumn
  key : List String
deriving DecidableEq

namespace KeyedTable

/-- The ids of the columns of a name. -/
def ids (t : KeyedTable) (column : String) : List String :=
  (t.columns.filter (·.name = column)).map (·.id)

/-- The table of definitions, which has a key if one of them is in it. -/
def original (definitions : List Definition) : KeyedTable :=
  ⟨definitions.map (·.named), keyIds definitions⟩

end KeyedTable

/-- What a change makes of the primary key of a table whose key is named after `table`. -/
def Alteration.rekey (table : String) (t : KeyedTable) : Alteration → Option (List String)
  | .dropColumn column => some (if ∃ id ∈ t.ids column, id ∈ t.key then [] else t.key)
  | .dropNotNull column => if ∃ id ∈ t.ids column, id ∈ t.key then none else some t.key
  | .addPrimaryKey column => if t.key = [] then some (t.ids column) else none
  | .dropConstraint constraint =>
    if constraint ≠ Definition.keyConstraint table then some t.key
    else if t.key = [] then none else some []
  | .addColumn d =>
    if d.primaryKey then if t.key = [] then some [d.id] else none else some t.key
  | _ => some t.key

/-- The table after several changes, if all of them can be made. -/
def replayKey (table : String) : List Alteration → KeyedTable → Option KeyedTable
  | [], t => some t
  | a :: rest, t =>
    if a.Fits t.columns then
      (a.rekey table t).bind fun key => replayKey table rest ⟨a.rename t.columns, key⟩
    else none

variable {table column : String} {a : Alteration} {as bs : List Alteration}
variable {cs cs' : List NamedColumn} {key key' : List String}

theorem replayKey_append (as bs : List Alteration) (t : KeyedTable) :
    replayKey table (as ++ bs) t = (replayKey table as t).bind (replayKey table bs) := by
  induction as generalizing t with
  | nil => rfl
  | cons a rest ih =>
    rw [List.cons_append, replayKey, replayKey]
    split
    · rw [Option.bind_assoc]
      congr 1
      funext key
      exact ih _
    · rfl

theorem replayKey_append_of_some {t t' : KeyedTable} (h : replayKey table as t = some t')
    (bs : List Alteration) : replayKey table (as ++ bs) t = replayKey table bs t' := by
  rw [replayKey_append, h, Option.bind_some]

/-- A change that can be made to the names can be made if the key allows it. -/
theorem replayKey_cons (hfits : a.Fits cs) :
    replayKey table (a :: as) ⟨cs, key⟩
      = (a.rekey table ⟨cs, key⟩).bind fun key => replayKey table as ⟨a.rename cs, key⟩ :=
  if_pos hfits

/-- Whether a change has nothing to do with the primary key. -/
def Alteration.SparesKey (table : String) (a : Alteration) : Prop :=
  ∀ t, a.rekey table t = some t.key

theorem of_replayNames_cons (h : replayNames (a :: as) cs = .ok cs') :
    a.Fits cs ∧ replayNames as (a.rename cs) = .ok cs' := by
  rw [replayNames] at h
  split at h
  · next hfits => exact ⟨hfits, h⟩
  · cases h

/-- Changes that have nothing to do with the key can be made if the names allow it. -/
theorem replayKey_sparesKey (hspares : ∀ a ∈ as, a.SparesKey table)
    (hnames : replayNames as cs = .ok cs') :
    replayKey table as ⟨cs, key⟩ = some ⟨cs', key⟩ := by
  induction as generalizing cs with
  | nil =>
    cases hnames
    rfl
  | cons a rest ih =>
    rw [List.forall_mem_cons] at hspares
    obtain ⟨hfits, hrest⟩ := of_replayNames_cons hnames
    rw [replayKey_cons hfits, hspares.1]
    exact ih hspares.2 hrest

/-! ### Names that tell the columns -/

/-- Names that are different stay so. -/
theorem Alteration.nodup_rename (hfits : a.Fits cs) (hnodup : (cs.map (·.name)).Nodup) :
    ((a.rename cs).map (·.name)).Nodup := by
  cases a with
  | dropColumn column => exact (List.filter_sublist.map _).nodup hnodup
  | renameColumn column name =>
    have hfree : name ∉ cs.map (·.name) := hfits.free name rfl
    clear hfits
    rw [rename, List.map_map]
    induction cs with
    | nil => exact .nil
    | cons c rest ih =>
      rw [List.map_cons, List.nodup_cons] at hnodup
      rw [List.map_cons, List.mem_cons, not_or] at hfree
      rw [List.map_cons, List.nodup_cons]
      refine ⟨fun hmem => ?_, ih hnodup.2 hfree.2⟩
      obtain ⟨b, hb, hname⟩ := List.mem_map.1 hmem
      have hbname : b.name ∈ rest.map (·.name) := List.mem_map_of_mem hb
      simp only [Function.comp_apply] at hname
      split at hname <;> split at hname
      · next hbcolumn hccolumn => exact hnodup.1 (hccolumn ▸ hbcolumn ▸ hbname)
      · exact hfree.1 hname
      · simp only at hname
        exact hfree.2 (hname ▸ hbname)
      · exact hnodup.1 (hname ▸ hbname)
  | addColumn d =>
    rw [rename, List.map_append, List.nodup_append]
    refine ⟨hnodup, List.nodup_singleton _, fun name hname other hother hsame => ?_⟩
    rw [List.map_singleton, List.mem_singleton] at hother
    rw [hsame, hother] at hname
    exact hfits.free d.name rfl hname
  | _ => exact hnodup

theorem nodup_replayNames (hnames : replayNames as cs = .ok cs')
    (hnodup : (cs.map (·.name)).Nodup) : (cs'.map (·.name)).Nodup := by
  induction as generalizing cs with
  | nil =>
    cases hnames
    exact hnodup
  | cons a rest ih =>
    obtain ⟨hfits, hrest⟩ := of_replayNames_cons hnames
    exact ih hrest (a.nodup_rename hfits hnodup)

theorem KeyedTable.ids_of_mem (hnodup : (cs.map (·.name)).Nodup) {c : NamedColumn} (hc : c ∈ cs) :
    (⟨cs, key⟩ : KeyedTable).ids c.name = [c.id] := by
  unfold ids
  induction cs with
  | nil => cases hc
  | cons b rest ih =>
    rw [List.map_cons, List.nodup_cons] at hnodup
    rcases List.mem_cons.1 hc with rfl | hrest
    · have hother : rest.filter (·.name = c.name) = [] := by
        refine List.filter_eq_nil_iff.2 fun b hb hname => hnodup.1 ?_
        exact List.mem_map.2 ⟨b, hb, of_decide_eq_true hname⟩
      simp [hother]
    · have hname : b.name ≠ c.name := fun hsame =>
        hnodup.1 (List.mem_map.2 ⟨c, hrest, hsame.symm⟩)
      rw [← ih hnodup.2 hrest]
      simp [hname]

/-! ### The turn of a column -/

namespace Definition

variable {old edited : Definition}

/-- The change of nullability. -/
def nullableChange (old edited : Definition) : List Alteration :=
  if edited.nullable = old.nullable then []
  else if edited.nullable then [.dropNotNull edited.name] else [.setNotNull edited.name]

/-- The change of the part in the primary key. -/
def keyChange (table : String) (old edited : Definition) : List Alteration :=
  if edited.primaryKey = old.primaryKey then []
  else if edited.primaryKey then [.addPrimaryKey edited.name]
  else [.dropConstraint (keyConstraint table)]

theorem uniqueConstraint_ne_keyConstraint (table : String) (d : Definition) :
    uniqueConstraint table d ≠ keyConstraint table := by
  intro h
  have htext := congrArg String.toList h
  simp only [uniqueConstraint, keyConstraint, String.toList_append, List.append_assoc,
    List.append_cancel_left_eq] at htext
  have hlength := congrArg List.length htext
  simp at hlength
  simp [hlength] at htext

theorem foreignConstraint_ne_keyConstraint {d : Definition}
    (h : d.constraintName ≠ keyConstraint table) :
    foreignConstraint table d ≠ keyConstraint table := by
  unfold foreignConstraint
  split
  · intro hname
    have hlength := congrArg (fun name : String => name.toList.length) hname
    simp [keyConstraint, String.toList_append] at hlength
  · exact h

/-- The primary key is touched by the changes of nullability and of the part in the key. -/
theorem changes_eq_keyChange (hconstraint : old.constraintName ≠ keyConstraint table)
    (edited : Definition) :
    ∃ as bs cs, old.changes table edited
        = old.nameChange edited ++ (as ++ (old.nullableChange edited
          ++ (bs ++ (old.keyChange table edited ++ cs))))
      ∧ (∀ a ∈ old.nameChange edited, a.SparesKey table) ∧ (∀ a ∈ as, a.SparesKey table)
      ∧ (∀ a ∈ bs, a.SparesKey table) ∧ ∀ a ∈ cs, a.SparesKey table := by
  have hother : ∀ constraint, constraint ≠ keyConstraint table →
      (Alteration.dropConstraint constraint).SparesKey table := fun constraint hne t => if_pos hne
  refine ⟨_, _, _, by
    simp only [changes, attributeChanges, keyChanges, nameChange, nullableChange, keyChange,
      List.append_assoc]; rfl, ?_, ?_, ?_, ?_⟩
  · unfold nameChange
    split_ifs
    · exact List.forall_mem_nil _
    · exact List.forall_mem_singleton.2 fun _ => rfl
  · split_ifs
    · exact List.forall_mem_nil _
    · exact List.forall_mem_singleton.2 fun _ => rfl
  · split_ifs
    · exact List.forall_mem_nil _
    · exact List.forall_mem_singleton.2 fun _ => rfl
    · exact List.forall_mem_singleton.2 fun _ => rfl
  · unfold foreignChanges
    refine List.forall_mem_append.2 ⟨?_, ?_⟩
    · split_ifs
      · exact List.forall_mem_nil _
      · exact List.forall_mem_singleton.2 fun _ => rfl
      · exact List.forall_mem_singleton.2 (hother _ (uniqueConstraint_ne_keyConstraint table old))
    · split
      · exact List.forall_mem_nil _
      · refine List.forall_mem_append.2 ⟨?_, ?_⟩
        · split_ifs
          · exact List.forall_mem_singleton.2
              (hother _ (foreignConstraint_ne_keyConstraint hconstraint))
          · exact List.forall_mem_nil _
        · cases edited.target? with
          | none => exact List.forall_mem_nil _
          | some target => exact List.forall_mem_singleton.2 fun _ => rfl

/-- The turn of a column gives it its new name and leaves the other columns. -/
theorem of_replayNames_changes (hid : old.id = edited.id) (hmem : old.named ∈ cs)
    (hnames : replayNames (old.changes table edited) cs = .ok cs') :
    replayNames (old.nameChange edited) cs = .ok cs' ∧ edited.named ∈ cs'
      ∧ ∀ c ∈ cs, c.name ≠ old.name → c ∈ cs' := by
  obtain ⟨rest, hchanges, hrest⟩ := changes_eq_nameChange table old edited
  rw [hchanges, replayNames_append] at hnames
  have hkeep : ∀ {ds : List NamedColumn}, edited.named ∈ ds → replayNames rest ds = .ok ds :=
    fun hds => replayNames_keepsNames hrest (List.mem_map_of_mem hds)
  rw [nameChange] at hnames ⊢
  by_cases hsame : edited.name = old.name
  · have hnamed : old.named = edited.named := by rw [named, named, hid, hsame]
    rw [if_pos hsame] at hnames ⊢
    rw [hnamed] at hmem
    cases (hkeep hmem).symm.trans hnames
    exact ⟨rfl, hmem, fun c hc _ => hc⟩
  · rw [if_neg hsame] at hnames ⊢
    by_cases hfits : (Alteration.renameColumn old.name edited.name).Fits cs
    · have hrun : replayNames [.renameColumn old.name edited.name] cs
          = .ok ((Alteration.renameColumn old.name edited.name).rename cs) := if_pos hfits
      have hnew : edited.named ∈ (Alteration.renameColumn old.name edited.name).rename cs :=
        List.mem_map.2 ⟨_, hmem, by simp [named, hid]⟩
      rw [hrun] at hnames ⊢
      cases (hkeep hnew).symm.trans hnames
      exact ⟨rfl, hnew, fun c hc hname => List.mem_map.2 ⟨c, hc, if_neg hname⟩⟩
    · rw [replayNames, if_neg hfits] at hnames
      cases hnames

theorem replayKey_nullableChange (hmem : edited.named ∈ cs)
    (hids : (⟨cs, key⟩ : KeyedTable).ids edited.name = [edited.id]) :
    replayKey table (old.nullableChange edited) ⟨cs, key⟩
      = if edited.nullable = true ∧ old.nullable = false ∧ edited.id ∈ key then none
        else some ⟨cs, key⟩ := by
  have hfits : ∀ a : Alteration, a.column? = some edited.name → a.newName? = none →
      a.Fits cs := by
    intro a hcolumn hnew
    refine ⟨fun column h => ?_, fun name h => by rw [hnew] at h; cases h⟩
    rw [hcolumn] at h
    cases h
    exact List.mem_map_of_mem hmem
  unfold nullableChange
  cases hbefore : old.nullable <;> cases hafter : edited.nullable
  · rfl
  · show replayKey table [.dropNotNull edited.name] _ = _
    rw [replayKey_cons (hfits _ rfl rfl), Alteration.rekey, hids]
    simp only [List.mem_singleton, exists_eq_left, true_and]
    split <;> rfl
  · show replayKey table [.setNotNull edited.name] _ = _
    rw [replayKey_cons (hfits _ rfl rfl)]
    rfl
  · rfl

theorem replayKey_keyChange (hmem : edited.named ∈ cs)
    (hids : (⟨cs, key⟩ : KeyedTable).ids edited.name = [edited.id]) :
    replayKey table (old.keyChange table edited) ⟨cs, key⟩
      = (if old.primaryKey = edited.primaryKey then some key
          else if edited.primaryKey then if key = [] then some [edited.id] else none
          else if key = [] then none else some []).map (KeyedTable.mk cs) := by
  have hfits : (Alteration.addPrimaryKey edited.name).Fits cs := by
    refine ⟨fun column h => ?_, fun name h => nomatch h⟩
    cases h
    exact List.mem_map_of_mem hmem
  have hdrop : (Alteration.dropConstraint (keyConstraint table)).Fits cs :=
    ⟨fun column h => (nomatch h), fun name h => (nomatch h)⟩
  unfold keyChange
  cases hbefore : old.primaryKey <;> cases hafter : edited.primaryKey
  · rfl
  · show replayKey table [.addPrimaryKey edited.name] _ = _
    rw [replayKey_cons hfits, Alteration.rekey, hids]
    simp only [Bool.false_eq_true, if_false, if_true]
    split <;> rfl
  · show replayKey table [.dropConstraint (keyConstraint table)] _ = _
    rw [replayKey_cons hdrop, Alteration.rekey]
    simp only [ne_eq, not_true_eq_false, Bool.true_eq_false, Bool.false_eq_true, if_false]
    split <;> rfl
  · rfl

/-- The turn of a column, if the names allow it, is a turn of the key. -/
theorem replayKey_changes (hconstraint : old.constraintName ≠ keyConstraint table)
    (hid : old.id = edited.id) (hnodup : (cs.map (·.name)).Nodup) (hmem : old.named ∈ cs)
    (hnames : replayNames (old.changes table edited) cs = .ok cs') :
    replayKey table (old.changes table edited) ⟨cs, key⟩
      = (turnKey (old, edited) key).map (KeyedTable.mk cs') := by
  obtain ⟨hname, hmem', -⟩ := of_replayNames_changes hid hmem hnames
  have hids : ∀ key, (⟨cs', key⟩ : KeyedTable).ids edited.name = [edited.id] := fun key =>
    KeyedTable.ids_of_mem (nodup_replayNames hname hnodup) hmem'
  obtain ⟨as, bs, ds, hchanges, hspares, has, hbs, hds⟩ := changes_eq_keyChange hconstraint edited
  obtain ⟨rest, hchanges', hkeeps⟩ := changes_eq_nameChange table old edited
  have hrest := List.append_cancel_left (hchanges'.symm.trans hchanges)
  have hspared : ∀ (as : List Alteration) (key : List String), (∀ a ∈ as, a.SparesKey table) →
      (∀ a ∈ as, a ∈ rest) → replayKey table as ⟨cs', key⟩ = some ⟨cs', key⟩ :=
    fun as key hspares hsub => replayKey_sparesKey hspares
      (replayNames_keepsNames (fun a ha => hkeeps a (hsub a ha)) (List.mem_map_of_mem hmem'))
  rw [hchanges, replayKey_append_of_some (replayKey_sparesKey hspares hname),
    replayKey_append_of_some (hspared as key has (by rw [hrest]; simp +contextual)),
    replayKey_append, replayKey_nullableChange hmem' (hids key), turnKey]
  rw [hid]
  split
  · rfl
  · rw [Option.bind_some,
      replayKey_append_of_some (hspared bs key hbs (by rw [hrest]; simp +contextual)),
      replayKey_append, replayKey_keyChange hmem' (hids key)]
    generalize (if old.primaryKey = edited.primaryKey then some key else _) = after
    cases after with
    | none => rfl
    | some key => exact hspared ds key hds (by rw [hrest]; simp +contextual)

end Definition

/-! ### The turns of all columns -/

variable {old edited : List Definition} {todo : List (Definition × Definition)}
variable {definitions : List Definition}

/-- The turns of columns that stay, if the names allow them, are turns of the key. -/
theorem replayKey_turns
    (hconstraints : ∀ p ∈ todo, p.1.constraintName ≠ Definition.keyConstraint table)
    (hids : ∀ p ∈ todo, p.1.id = p.2.id) (hold : (todo.map (·.1.name)).Nodup)
    (hnodup : (cs.map (·.name)).Nodup) (hthere : ∀ p ∈ todo, p.1.named ∈ cs)
    (hnames : replayNames (todo.flatMap fun p => p.1.changes table p.2) cs = .ok cs') :
    replayKey table (todo.flatMap fun p => p.1.changes table p.2) ⟨cs, key⟩
      = (turnKeys todo key).map (KeyedTable.mk cs') := by
  induction todo generalizing cs key with
  | nil =>
    cases hnames
    rfl
  | cons p rest ih =>
    rw [List.forall_mem_cons] at hconstraints hids hthere
    rw [List.map_cons, List.nodup_cons] at hold
    rw [List.flatMap_cons] at hnames ⊢
    rw [replayNames_append] at hnames
    cases hturn : replayNames (p.1.changes table p.2) cs with
    | error a =>
      rw [hturn] at hnames
      cases hnames
    | ok ds =>
      rw [hturn] at hnames
      have hothers := (Definition.of_replayNames_changes hids.1 hthere.1 hturn).2.2
      have hthere' : ∀ q ∈ rest, q.1.named ∈ ds := fun q hq => hothers _ (hthere.2 q hq)
        fun hname => hold.1 (List.mem_map.2 ⟨q, hq, hname⟩)
      rw [replayKey_append,
        Definition.replayKey_changes hconstraints.1 hids.1 hnodup hthere.1 hturn, turnKeys]
      cases turnKey p key with
      | none => rfl
      | some key =>
        exact ih hconstraints.2 hids.2 hold.2 (nodup_replayNames hturn hnodup) hthere' hnames

/-- Dropping columns drops the key with any of its columns. -/
theorem replayKey_drops (hnodup : (cs.map (·.name)).Nodup)
    (hold : (definitions.map (·.name)).Nodup) (hthere : ∀ d ∈ definitions, d.named ∈ cs)
    (hnames : replayNames (definitions.map (.dropColumn ·.name)) cs = .ok cs') :
    replayKey table (definitions.map (.dropColumn ·.name)) ⟨cs, key⟩
      = some ⟨cs', if ∃ d ∈ definitions, d.id ∈ key then [] else key⟩ := by
  induction definitions generalizing cs key with
  | nil =>
    cases hnames
    simp [replayKey]
  | cons d rest ih =>
    rw [List.forall_mem_cons] at hthere
    rw [List.map_cons, List.nodup_cons] at hold
    obtain ⟨hfits, hrest⟩ := of_replayNames_cons hnames
    have hids : (⟨cs, key⟩ : KeyedTable).ids d.name = [d.id] :=
      KeyedTable.ids_of_mem hnodup hthere.1
    have hthere' : ∀ e ∈ rest, e.named ∈ cs.filter (·.name ≠ d.name) := fun e he =>
      List.mem_filter.2 ⟨hthere.2 e he, decide_eq_true fun hname =>
        hold.1 (List.mem_map.2 ⟨e, he, hname⟩)⟩
    rw [List.map_cons, replayKey_cons hfits, Alteration.rekey, Option.bind_some, hids,
      ih (Alteration.nodup_rename hfits hnodup) hold.2 hthere' hrest]
    congr 2
    by_cases hkey : d.id ∈ key
    · simp [hkey]
    · simp [hkey]

/-- The turn of a new column: it was not in the key before. -/
def Definition.arrival (d : Definition) : Definition × Definition :=
  ({ d with primaryKey := false }, d)

/-- The turns of new columns, if the names allow them, are turns of the key. -/
theorem replayKey_adds (hnames : replayNames (definitions.map .addColumn) cs = .ok cs') :
    replayKey table (definitions.map .addColumn) ⟨cs, key⟩
      = (turnKeys (definitions.map (·.arrival)) key).map (KeyedTable.mk cs') := by
  induction definitions generalizing cs key with
  | nil =>
    cases hnames
    rfl
  | cons d rest ih =>
    obtain ⟨hfits, hrest⟩ := of_replayNames_cons hnames
    have hturn : turnKey d.arrival key = (Alteration.addColumn d).rekey table ⟨cs, key⟩ := by
      rw [turnKey, if_neg fun hnull => Bool.false_ne_true (hnull.2.1.symm.trans hnull.1),
        Alteration.rekey]
      cases h : d.primaryKey <;> simp [Definition.arrival, h]
    rw [List.map_cons, replayKey_cons hfits, List.map_cons, turnKeys, hturn]
    cases (Alteration.addColumn d).rekey table ⟨cs, key⟩ with
    | none => rfl
    | some key => exact ih hrest

/-! ### The whole replay -/

/-- The turns of all columns that stay or come. -/
def keyTurns (old edited : List Definition) : List (Definition × Definition) :=
  rematched old edited ++ (newcomers old edited).map (·.arrival)

/-- The primary key once columns have been dropped. -/
def keyLeft (old edited : List Definition) : List String :=
  if ∃ d ∈ dropouts old edited, d.primaryKey = true then [] else keyIds old

/-- Where the columns can be renamed one after the other, the key is all that is left to see to, and
it is a matter of the turns. -/
theorem replayKey_columnAlterations (h : DistinctNames old edited)
    (horder : RenamesInOrder old edited)
    (hconstraints : ∀ d ∈ old, d.constraintName ≠ Definition.keyConstraint table) :
    ∃ cs, cs.Perm (edited.map (·.named))
      ∧ replayKey table (columnAlterations table old edited) (.original old)
        = (turnKeys (keyTurns old edited) (keyLeft old edited)).map (KeyedTable.mk cs) := by
  rcases h.replayNames_columnAlterations table with ⟨-, cs, hrun, hperm⟩ | ⟨p, q, hsub, hname, -⟩
  · refine ⟨cs, hperm, ?_⟩
    have hsub : (dropouts old edited).Sublist old := List.filter_sublist
    have hnodup : ((old.map (·.named)).map (·.name)).Nodup := by
      rw [List.map_map]
      exact h.oldNames
    have hdrops := h.replayNames_dropouts
    have hleft : (if ∃ d ∈ dropouts old edited, d.id ∈ keyIds old then [] else keyIds old)
        = keyLeft old edited := by
      refine if_congr (exists_congr fun d => and_congr_right fun hd => ?_) rfl rfl
      exact id_mem_keyIds h.oldIds (hsub.subset hd)
    rw [columnAlterations_eq, List.append_assoc, replayNames_append, hdrops] at hrun
    rw [columnAlterations_eq, List.append_assoc, KeyedTable.original, replayKey_append_of_some
      (replayKey_drops hnodup ((hsub.map _).nodup h.oldNames)
        (fun d hd => List.mem_map_of_mem (hsub.subset hd)) hdrops), hleft]
    replace hrun : replayNames ((rematched old edited).flatMap (fun p => p.1.changes table p.2)
        ++ (newcomers old edited).map .addColumn) ((matched old edited).map (·.1.named))
          = .ok cs := hrun
    rw [replayNames_append] at hrun
    cases hturns : replayNames ((rematched old edited).flatMap fun p => p.1.changes table p.2)
        ((matched old edited).map (·.1.named)) with
    | error a =>
      rw [hturns] at hrun
      cases hrun
    | ok ds =>
      rw [hturns] at hrun
      have hthere : ∀ p ∈ rematched old edited,
          p.1.named ∈ (matched old edited).map (·.1.named) := fun p hp =>
        List.mem_map_of_mem (f := fun p => p.1.named) (h.rematched_perm.mem_iff.1 hp)
      rw [replayKey_append, replayKey_turns
        (fun p hp => hconstraints p.1 (h.mem_rematched.1 hp).1)
        (fun p hp => (h.mem_rematched.1 hp).2.2) h.nodup_oldNames
        (nodup_replayNames hdrops hnodup) hthere hturns, keyTurns, turnKeys_append]
      cases turnKeys (rematched old edited) (keyLeft old edited) with
      | none => rfl
      | some key => exact replayKey_adds hrun
  · exact absurd hname (List.pairwise_iff_forall_sublist.1 horder hsub)

/-! ### Turns by the definitions -/

/-- The key that is left is the old one, or none if a column of it is dropped. -/
theorem keyLeft_cases (old edited : List Definition) :
    ((∀ d ∈ dropouts old edited, d.primaryKey = false) ∧ keyLeft old edited = keyIds old)
    ∨ ((∃ d ∈ dropouts old edited, d.primaryKey = true) ∧ keyLeft old edited = []) := by
  by_cases hkeyed : ∃ d ∈ dropouts old edited, d.primaryKey = true
  · exact .inr ⟨hkeyed, if_pos hkeyed⟩
  · refine .inl ⟨fun d hd => ?_, if_neg hkeyed⟩
    rw [← Bool.not_eq_true]
    exact fun hkey => hkeyed ⟨d, hd, hkey⟩

namespace DistinctIds

theorem id_ne_of_dropout (h : DistinctIds old edited) {d e : Definition}
    (hd : d ∈ dropouts old edited) (he : e ∈ edited) : d.id ≠ e.id := by
  intro hid
  have hgone := (List.mem_filter.1 hd).2
  rw [hid, Definition.find?_of_mem h.editedIds he] at hgone
  cases hgone

theorem id_ne_of_newcomer (h : DistinctIds old edited) {d e : Definition}
    (he : e ∈ newcomers old edited) (hd : d ∈ old) : d.id ≠ e.id := by
  intro hid
  have hnew := (List.mem_filter.1 he).2
  rw [← hid, Definition.find?_of_mem h.oldIds hd] at hnew
  cases hnew

/-- The old key is that of the columns that stay and that of the dropped ones. -/
theorem keyIds_old_perm (h : DistinctIds old edited) :
    (keyIds old).Perm
      (keyIds ((rematched old edited).map (·.1)) ++ keyIds (dropouts old edited)) := by
  have hsplit := (List.filter_append_perm
    (fun d => !!(Definition.find? d.id edited).isSome) old).symm
  rw [← map_fst_matched] at hsplit
  simp only [Bool.not_not] at hsplit
  refine (keyIds_perm hsplit).trans ?_
  rw [keyIds_append]
  exact (keyIds_perm (h.rematched_perm.symm.map _)).append_right _

end DistinctIds

namespace DistinctNames

theorem keyIds_arrivals (definitions : List Definition) :
    keyIds ((definitions.map (·.arrival)).map (·.1)) = [] := by
  refine keyIds_eq_nil_iff.2 (List.forall_mem_map.2 (List.forall_mem_map.2 fun d _ => rfl))

theorem keyIds_turns_before (old edited : List Definition) :
    keyIds ((keyTurns old edited).map (·.1)) = keyIds ((rematched old edited).map (·.1)) := by
  rw [keyTurns, List.map_append, keyIds_append, keyIds_arrivals, List.append_nil]

theorem keyIds_turns_after (h : DistinctNames old edited) :
    (keyIds ((keyTurns old edited).map (·.2))).Perm (keyIds edited) := by
  have harrivals : ((newcomers old edited).map (·.arrival)).map (·.2) = newcomers old edited := by
    rw [List.map_map]
    exact List.map_id' _
  rw [keyTurns, List.map_append, harrivals]
  exact keyIds_perm h.edited_perm.symm

theorem turning_keyTurns (h : DistinctNames old edited) : Turning (keyTurns old edited) := by
  have hids : ∀ p ∈ keyTurns old edited, p.1.id = p.2.id := by
    refine List.forall_mem_append.2 ⟨fun p hp => (h.mem_rematched.1 hp).2.2, ?_⟩
    exact List.forall_mem_map.2 fun e _ => rfl
  refine ⟨hids, ?_⟩
  have hnodup := (h.edited_perm.map (·.id)).nodup_iff.1 h.editedIds
  rw [List.map_append, List.map_map] at hnodup
  rw [List.map_congr_left hids, keyTurns, List.map_append, List.map_map]
  exact hnodup

end DistinctNames

/-- Whether the primary key goes to another column: it was on one column, or all its columns are
dropped, it is on one column in the end, and no column takes it before another one gives it up. -/
structure KeyMoves (old edited : List Definition) : Prop where
  apart : (keyIds old).Disjoint (keyIds edited)
  single : (keyIds edited).length ≤ 1
  alone : (keyIds old).length ≤ 1 ∨ ∀ p ∈ rematched old edited, p.1.primaryKey = false
  inOrder : (rematched old edited).Pairwise fun p q => ¬ (GainsKey p ∧ LosesKey q)

/-- Whether the primary key can be changed column by column: it stays on the same columns or goes to
another one, and no column of it is made nullable. -/
structure KeyReplays (old edited : List Definition) : Prop where
  key : (keyIds old).Perm (keyIds edited) ∨ KeyMoves old edited
  nullable : ∀ p ∈ rematched old edited, p.1.primaryKey = true → p.2.nullable = true →
    p.1.nullable = true

namespace DistinctNames

/-- The turns move the key if the definitions do. -/
theorem movesKey_iff (h : DistinctNames old edited) :
    MovesKey (keyTurns old edited) (keyLeft old edited) ↔ KeyMoves old edited := by
  constructor
  · intro hmoves
    have hstays : ∀ p ∈ rematched old edited, p ∈ keyTurns old edited := fun p hp =>
      List.mem_append_left _ hp
    refine ⟨fun id hold hedited => ?_, h.keyIds_turns_after.length_eq ▸ hmoves.single, ?_,
      (List.pairwise_append.1 hmoves.inOrder).1⟩
    · obtain ⟨d, hd, hdkey, hdid⟩ := mem_keyIds.1 hold
      obtain ⟨e, he, hekey, heid⟩ := mem_keyIds.1 hedited
      have hp : (d, e) ∈ rematched old edited := h.mem_rematched.2 ⟨hd, he, hdid.trans heid.symm⟩
      have hout := hmoves.apart _ (hstays _ hp) hdkey
      rw [hekey] at hout
      cases hout
    · by_cases hkeyed : ∀ p ∈ rematched old edited, p.1.primaryKey = false
      · exact .inr hkeyed
      · push Not at hkeyed
        obtain ⟨p, hp, hkey⟩ := hkeyed
        have hleft := hmoves.alone p (hstays p hp) (Bool.of_not_eq_false hkey)
        rcases keyLeft_cases old edited with ⟨-, hsame⟩ | ⟨-, hempty⟩
        · rw [← hsame, hleft]
          exact .inl (Nat.le_refl _)
        · rw [hempty] at hleft
          cases hleft
  · intro hmoves
    have harrivals : ∀ p ∈ (newcomers old edited).map (·.arrival), p.1.primaryKey = false :=
      List.forall_mem_map.2 fun e _ => rfl
    have hold : ∀ p ∈ rematched old edited, p.1.primaryKey = true → p.1.id ∈ keyIds old :=
      fun p hp hkey => mem_keyIds.2 ⟨p.1, (h.mem_rematched.1 hp).1, hkey, rfl⟩
    refine ⟨List.forall_mem_append.2 ⟨fun p hp hkey => ?_, fun p hp hkey => ?_⟩,
      h.keyIds_turns_after.length_eq ▸ hmoves.single,
      List.forall_mem_append.2 ⟨fun p hp hkey => ?_, fun p hp hkey => ?_⟩,
      List.pairwise_append.2 ⟨hmoves.inOrder, ?_, ?_⟩⟩
    · obtain ⟨-, hp2, hid⟩ := h.mem_rematched.1 hp
      rw [← Bool.not_eq_true]
      exact fun hkey' => hmoves.apart (hold p hp hkey) (mem_keyIds.2 ⟨p.2, hp2, hkey', hid.symm⟩)
    · rw [harrivals p hp] at hkey
      cases hkey
    · have hlength : (keyIds old).length ≤ 1 := by
        refine hmoves.alone.resolve_right fun hnone => ?_
        rw [hnone p hp] at hkey
        cases hkey
      have hsingle : keyIds old = [p.1.id] := by
        have hmem := hold p hp hkey
        obtain ⟨id, hid⟩ := List.length_eq_one_iff.1
          (Nat.le_antisymm hlength (List.length_pos_of_mem hmem))
        rw [hid, List.mem_singleton] at hmem
        rw [hid, hmem]
      rcases keyLeft_cases old edited with ⟨-, hsame⟩ | ⟨⟨d, hd, hdkey⟩, -⟩
      · rw [hsame, hsingle]
      · -- it would have been alone in the key
        have hmem : d.id ∈ keyIds old := mem_keyIds.2 ⟨d, (List.mem_filter.1 hd).1, hdkey, rfl⟩
        obtain ⟨-, hp2, hid⟩ := h.mem_rematched.1 hp
        rw [hsingle, List.mem_singleton, hid] at hmem
        exact absurd hmem (h.id_ne_of_dropout hd hp2)
    · rw [harrivals p hp] at hkey
      cases hkey
    · refine List.pairwise_of_forall_mem_list fun p _ q hq hboth => ?_
      exact Bool.false_ne_true ((harrivals q hq).symm.trans hboth.2.1)
    · intro p _ q hq hboth
      exact Bool.false_ne_true ((harrivals q hq).symm.trans hboth.2.1)

/-- The turns leave the key if the definitions do. -/
theorem sameKey_of_perm (h : DistinctNames old edited) (hperm : (keyIds old).Perm (keyIds edited)) :
    (keyLeft old edited).Perm (keyIds ((keyTurns old edited).map (·.1)))
      ∧ ∀ p ∈ keyTurns old edited, p.1.primaryKey = p.2.primaryKey := by
  have hdropouts : ∀ d ∈ dropouts old edited, d.primaryKey = false := by
    intro d hd
    rw [← Bool.not_eq_true]
    intro hkey
    have hmem := hperm.mem_iff.1 (mem_keyIds.2 ⟨d, (List.mem_filter.1 hd).1, hkey, rfl⟩)
    obtain ⟨e, he, -, hid⟩ := mem_keyIds.1 hmem
    exact h.id_ne_of_dropout hd he hid.symm
  constructor
  · have hold := h.keyIds_old_perm
    rw [keyIds_eq_nil_iff.2 hdropouts, List.append_nil] at hold
    rw [keyIds_turns_before]
    rcases keyLeft_cases old edited with ⟨-, hsame⟩ | ⟨⟨d, hd, hkey⟩, -⟩
    · rw [hsame]
      exact hold
    · rw [hdropouts d hd] at hkey
      cases hkey
  · refine List.forall_mem_append.2 ⟨fun p hp => ?_, List.forall_mem_map.2 fun e he => ?_⟩
    · obtain ⟨hp1, hp2, hid⟩ := h.mem_rematched.1 hp
      rw [Bool.eq_iff_iff, ← id_mem_keyIds h.oldIds hp1, ← id_mem_keyIds h.editedIds hp2, hid]
      exact hperm.mem_iff
    · refine (Bool.not_eq_true _ ▸ fun hkey => ?_ : e.primaryKey = false).symm
      have hmem := hperm.mem_iff.2 (mem_keyIds.2 ⟨e, (List.mem_filter.1 he).1, hkey, rfl⟩)
      obtain ⟨d, hd, -, hid⟩ := mem_keyIds.1 hmem
      exact h.id_ne_of_newcomer he hd hid

/-- Where the turns leave the key, it is the old one, or it went with the dropped columns. -/
theorem perm_or_moves_of_same (h : DistinctNames old edited)
    (hperm : (keyLeft old edited).Perm (keyIds ((keyTurns old edited).map (·.1))))
    (hsame : ∀ p ∈ keyTurns old edited, p.1.primaryKey = p.2.primaryKey) :
    (keyIds old).Perm (keyIds edited) ∨ KeyMoves old edited := by
  have hedited : (keyIds ((keyTurns old edited).map (·.1))).Perm (keyIds edited) :=
    h.turning_keyTurns.keyIds_same hsame ▸ h.keyIds_turns_after
  rcases keyLeft_cases old edited with ⟨-, hleft⟩ | ⟨-, hleft⟩
  · exact .inl (hleft ▸ hperm.trans hedited)
  · rw [hleft] at hperm
    have hempty : keyIds edited = [] := (hperm.trans hedited).nil_eq.symm
    have hstays : ∀ p ∈ rematched old edited, p.1.primaryKey = false := by
      have hnone := hperm.nil_eq.symm
      rw [keyIds_turns_before, keyIds_eq_nil_iff, List.forall_mem_map] at hnone
      exact hnone
    have hdisjoint : (keyIds old).Disjoint (keyIds edited) := by
      rw [hempty]
      exact List.disjoint_nil_right _
    have hone : (keyIds edited).length ≤ 1 := by
      rw [hempty]
      exact Nat.zero_le 1
    refine .inr ⟨hdisjoint, hone, .inr hstays,
      List.pairwise_of_forall_mem_list fun p _ q hq hboth => ?_⟩
    exact Bool.false_ne_true ((hstays q hq).symm.trans hboth.2.1)

/-- The key can be turned from the old definitions to the edited ones if it stays or moves. -/
theorem keyReplays_iff (h : DistinctNames old edited) :
    (∃ key, turnKeys (keyTurns old edited) (keyLeft old edited) = some key
      ∧ key.Perm (keyIds edited)) ↔ KeyReplays old edited := by
  have hafter := h.keyIds_turns_after
  have hleft : (keyLeft old edited).Perm (keyIds ((keyTurns old edited).map (·.1)))
      ∨ keyLeft old edited = [] := by
    rcases keyLeft_cases old edited with ⟨hdropouts, hsame⟩ | ⟨-, hempty⟩
    · have hold := h.keyIds_old_perm
      rw [keyIds_eq_nil_iff.2 hdropouts, List.append_nil] at hold
      rw [hsame, keyIds_turns_before]
      exact .inl hold
    · exact .inr hempty
  have hnullable : (∀ p ∈ keyTurns old edited, p.1.primaryKey = true → p.2.nullable = true →
      p.1.nullable = true) ↔ ∀ p ∈ rematched old edited, p.1.primaryKey = true →
        p.2.nullable = true → p.1.nullable = true := by
    rw [keyTurns, List.forall_mem_append, List.forall_mem_map]
    exact and_iff_left fun e _ hkey => nomatch hkey
  have hturns := turnKeys_iff h.turning_keyTurns hleft
  rw [hnullable, h.movesKey_iff] at hturns
  have hfinal : ∀ key : List String, key.Perm (keyIds edited)
      ↔ key.Perm (keyIds ((keyTurns old edited).map (·.2))) := fun key =>
    ⟨fun hkey => hkey.trans hafter.symm, fun hkey => hkey.trans hafter⟩
  simp only [hfinal]
  rw [hturns]
  constructor
  · rintro ⟨hnull, ⟨hperm, hsame⟩ | hmoves⟩
    · exact ⟨h.perm_or_moves_of_same hperm hsame, hnull⟩
    · exact ⟨.inr hmoves, hnull⟩
  · rintro ⟨hperm | hmoves, hnull⟩
    · exact ⟨hnull, .inl (h.sameKey_of_perm hperm)⟩
    · exact ⟨hnull, .inr hmoves⟩

end DistinctNames

/-- Renaming the table leaves its key. -/
theorem replayKey_alterSteps (table : TableName) (old edited : List Definition)
    (newName : Option String) (t : KeyedTable) :
    replayKey table.name ((alterSteps table old edited newName).map (·.2)) t
      = replayKey table.name (columnAlterations table.name old edited) t := by
  rw [map_snd_alterSteps]
  split
  · rfl
  · rw [List.singleton_append, replayKey_cons (Alteration.fits_renameTable _ t.columns)]
    rfl

/-- Where columns are renamed in order and no other constraint has the name of the primary key, the
statements of an altered table can be made one by one, and end with the key on the edited columns,
if and only if the key stays on the same columns or goes to another one, and no column of it is made
nullable. -/
theorem alterTable_key (table : TableName) (old edited : List Definition) (newName : Option String)
    (h : DistinctNames old edited) (horder : RenamesInOrder old edited)
    (hconstraints : ∀ d ∈ old, d.constraintName ≠ Definition.keyConstraint table.name) :
    let steps := alterSteps table old edited newName
    alterTable table old edited newName = steps.map (fun (table, a) => a.render table)
    ∧ ((∃ t, replayKey table.name (steps.map (·.2)) (.original old) = some t
      ∧ t.columns.Perm (edited.map (·.named)) ∧ t.key.Perm (keyIds edited))
      ↔ KeyReplays old edited) := by
  intro steps
  refine ⟨alterTable_eq table old edited newName, ?_⟩
  obtain ⟨cs, hcolumns, hrun⟩ := replayKey_columnAlterations h horder hconstraints
  have hsteps : replayKey table.name (steps.map (·.2)) (.original old)
      = (turnKeys (keyTurns old edited) (keyLeft old edited)).map (KeyedTable.mk cs) :=
    (replayKey_alterSteps table old edited newName _).trans hrun
  rw [hsteps, ← h.keyReplays_iff]
  constructor
  · rintro ⟨t, ht, -, hkey⟩
    obtain ⟨key, hturns, rfl⟩ := Option.map_eq_some_iff.1 ht
    exact ⟨key, hturns, hkey⟩
  · rintro ⟨key, hturns, hkey⟩
    exact ⟨⟨cs, key⟩, by rw [hturns]; rfl, hcolumns, hkey⟩

/-- The columns of a table of orders, with a number of its own as the key. -/
def orders : List Definition :=
  [⟨"c1", "id", "integer", false, true, false, "", none, ""⟩,
    ⟨"c2", "code", "text", false, false, true, "", none, ""⟩,
    ⟨"c3", "note", "text", true, false, false, "", none, ""⟩]

/-- The columns of the table of orders once the key is the code. -/
def editedOrders : List Definition :=
  [⟨"c1", "number", "integer", false, false, true, "", none, ""⟩,
    ⟨"c2", "code", "text", false, true, true, "", none, ""⟩,
    ⟨"c4", "price", "numeric", true, false, false, "0", none, ""⟩]

theorem alterTable_key_orders :
    DistinctNames orders editedOrders ∧ RenamesInOrder orders editedOrders
    ∧ (∀ d ∈ orders, d.constraintName ≠ Definition.keyConstraint "orders")
    ∧ let steps := alterSteps ⟨"public", "orders"⟩ orders editedOrders none
      alterTable ⟨"public", "orders"⟩ orders editedOrders none
        = steps.map (fun (table, a) => a.render table)
      ∧ ((∃ t, replayKey "orders" (steps.map (·.2)) (.original orders) = some t
        ∧ t.columns.Perm (editedOrders.map (·.named)) ∧ t.key.Perm (keyIds editedOrders))
        ↔ KeyReplays orders editedOrders) := by
  have h : DistinctNames orders editedOrders :=
    ⟨⟨by decide, by decide⟩, by decide, by decide, by decide +kernel⟩
  have horder : RenamesInOrder orders editedOrders := by decide
  have hconstraints : ∀ d ∈ orders, d.constraintName ≠ Definition.keyConstraint "orders" := by
    decide
  exact ⟨h, horder, hconstraints,
    alterTable_key ⟨"public", "orders"⟩ orders editedOrders none h horder hconstraints⟩

/-- A key of two columns that leave it is dropped twice, though it is one constraint. -/
theorem alterTable_key_dropped_twice :
    let old : List Definition := [⟨"c1", "a", "integer", false, true, false, "", none, ""⟩,
      ⟨"c2", "b", "integer", false, true, false, "", none, ""⟩]
    let edited : List Definition := [⟨"c1", "a", "integer", false, false, false, "", none, ""⟩,
      ⟨"c2", "b", "integer", false, false, false, "", none, ""⟩]
    DistinctNames old edited ∧ RenamesInOrder old edited
    ∧ alterTable ⟨"public", "t"⟩ old edited none
      = ["ALTER TABLE \"public\".\"t\" DROP CONSTRAINT \"t_pkey\"".toList,
        "ALTER TABLE \"public\".\"t\" DROP CONSTRAINT \"t_pkey\"".toList]
    ∧ replayKey "t" ((alterSteps ⟨"public", "t"⟩ old edited none).map (·.2)) (.original old) = none
    ∧ replayKey "t" [.dropConstraint "t_pkey"] (.original old)
      = some ⟨edited.map (·.named), []⟩ :=
  ⟨⟨⟨by decide, by decide⟩, by decide, by decide, by decide +kernel⟩, by decide, by decide +kernel,
    by decide +kernel, by decide +kernel⟩

end StagedTable.Sql
