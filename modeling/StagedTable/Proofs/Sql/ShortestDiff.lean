import StagedTable.Proofs.Sql.EditedState
import Mathlib.Algebra.BigOperators.Group.List.Basic
import Mathlib.Algebra.Order.Ring.Int

/-!
# The shortest way to the edited state

How many statements a stored table is away from the edited one at least. The `potential` of a table
falls by one at most with each statement (`potential_replay`), and all edited tables have the same
one. The statements of an altered table use it up, all but those that drop a default that is blank
already (`length_alterSteps`), so that there is no shorter way if no blank default is spelled
differently.
-/

namespace StagedTable.Sql

open Text

variable {edited : List Definition} {c c' : StoredColumn} {e : Definition} {a : Alteration}

/-! ### Distances -/

namespace StoredColumn

/-- The number of changes that a column needs to look like a definition. -/
def distance (c : StoredColumn) (e : Definition) : Nat :=
  (c.name != e.name).toNat + (c.dataType != e.dataType).toNat
    + (c.nullable != (e.nullable && !e.primaryKey)).toNat + (c.default? != e.default?).toNat
    + (c.uniques.isEmpty == e.needsUnique).toNat
    + (c.targets.any fun t => some t.2 != e.target?).toNat
    + (e.target?.any fun r => !c.targets.any (·.2 == r)).toNat

theorem distance_le (c : StoredColumn) (e : Definition) : c.distance e ≤ 7 := by
  have hname := Bool.toNat_le (c.name != e.name)
  have htype := Bool.toNat_le (c.dataType != e.dataType)
  have hnullable := Bool.toNat_le (c.nullable != (e.nullable && !e.primaryKey))
  have hdefault := Bool.toNat_le (c.default? != e.default?)
  have hunique := Bool.toNat_le (c.uniques.isEmpty == e.needsUnique)
  have hsurplus := Bool.toNat_le (c.targets.any fun t => some t.2 != e.target?)
  have hmissing := Bool.toNat_le (e.target?.any fun r => !c.targets.any (·.2 == r))
  unfold distance
  omega

theorem distance_nameless (c : StoredColumn) (e : Definition) :
    c.nameless.distance e = c.distance e := by
  unfold distance nameless
  simp only [List.isEmpty_map, List.any_map]
  rfl

/-- A change of a column brings it closer by one at most. -/
theorem distance_effect (h : a.effect c = [c']) : c.distance e ≤ c'.distance e + 1 := by
  have hname := Bool.toNat_le (c.name != e.name)
  have htype := Bool.toNat_le (c.dataType != e.dataType)
  have hnullable := Bool.toNat_le (c.nullable != (e.nullable && !e.primaryKey))
  have hdefault := Bool.toNat_le (c.default? != e.default?)
  have hunique := Bool.toNat_le (c.uniques.isEmpty == e.needsUnique)
  have hsurplus := Bool.toNat_le (c.targets.any fun t => some t.2 != e.target?)
  have hmissing := Bool.toNat_le (e.target?.any fun r => !c.targets.any (·.2 == r))
  cases a with
  | dropColumn => cases h
  | addForeignKey column target =>
    cases h
    -- no key that is there becomes the right one
    have hmore : (c.targets.any fun t => some t.2 != e.target?).toNat
        ≤ ((c.targets ++ [(none, target)]).any fun t => some t.2 != e.target?).toNat := by
      rw [List.any_append]
      cases c.targets.any fun t => some t.2 != e.target? <;> simp
    simp only [distance]
    omega
  | dropConstraint constraint =>
    cases h
    unfold dropConstraint
    split
    · simp only [distance]
      omega
    · -- no key becomes the right one by being dropped
      have hfewer : (e.target?.any fun r => !c.targets.any (·.2 == r)).toNat
          ≤ (e.target?.any fun r =>
            !(c.targets.eraseP (·.1 == some constraint)).any (·.2 == r)).toNat := by
        cases e.target? with
        | none => exact Nat.le_refl _
        | some r =>
          rw [Option.any_some, Option.any_some]
          cases hthere : c.targets.any (·.2 == r) with
          | true => exact Nat.zero_le _
          | false =>
            have hgone : (c.targets.eraseP (·.1 == some constraint)).any (·.2 == r) = false :=
              List.any_eq_false.2 fun t ht =>
                List.any_eq_false.1 hthere t (List.mem_of_mem_eraseP ht)
            rw [hgone]
      simp only [distance]
      omega
  | _ =>
    cases h
    simp only [distance]
    omega

end StoredColumn

/-! ### The potential -/

/-- What a column adds to the potential: its distance if it stays, one if it is to be dropped. A
column that stays is worth more than its distance, so that dropping it does not pay; a new one counts
as done. -/
def weight (edited : List Definition) (c : StoredColumn) : Int :=
  match c.origin with
  | none => -1
  | some id =>
    match Definition.find? id edited with
    | none => 1
    | some e => c.distance e - 7

theorem weight_of_new (h : c.origin = none) : weight edited c = -1 := by
  rw [weight, h]

theorem weight_of_dropout {id : String} (h : c.origin = some id)
    (hfind : Definition.find? id edited = none) : weight edited c = 1 := by
  simp only [weight, h, hfind]

theorem weight_of_staying {id : String} (h : c.origin = some id)
    (hfind : Definition.find? id edited = some e) : weight edited c = c.distance e - 7 := by
  simp only [weight, h, hfind]

theorem weight_le (edited : List Definition) (c : StoredColumn) : weight edited c ≤ 1 := by
  cases horigin : c.origin with
  | none =>
    rw [weight_of_new horigin]
    decide
  | some id =>
    cases hfind : Definition.find? id edited with
    | none => rw [weight_of_dropout horigin hfind]
    | some e =>
      rw [weight_of_staying horigin hfind]
      have := c.distance_le e
      omega

theorem weight_nameless (edited : List Definition) (c : StoredColumn) :
    weight edited c.nameless = weight edited c := by
  have hdistance := c.distance_nameless
  unfold weight
  simp only [hdistance]
  rfl

/-- What columns add to the potential. -/
def totalWeight (edited : List Definition) (columns : List StoredColumn) : Int :=
  (columns.map (weight edited)).sum

/-- The potential of a table on the way to the edited one. -/
def potential (goal : TableName) (edited : List Definition) (t : StoredTable) : Int :=
  (if t.name = goal then 0 else 1) + totalWeight edited t.columns

theorem totalWeight_append (edited : List Definition) (cs cs' : List StoredColumn) :
    totalWeight edited (cs ++ cs') = totalWeight edited cs + totalWeight edited cs' := by
  rw [totalWeight, List.map_append, List.sum_append]
  rfl

theorem totalWeight_cons (edited : List Definition) (c : StoredColumn) (cs : List StoredColumn) :
    totalWeight edited (c :: cs) = weight edited c + totalWeight edited cs := by
  rw [totalWeight, List.map_cons, List.sum_cons]
  rfl

theorem totalWeight_effect (edited : List Definition) (hc : a.addresses c = true) :
    weight edited c ≤ totalWeight edited (a.effect c) + 1 := by
  have hchanged : ∀ c', a.effect c = [c'] → c'.origin = c.origin →
      weight edited c ≤ totalWeight edited (a.effect c) + 1 := by
    intro c' heffect horigin'
    -- the column counts for the same definition as before
    have hweight : weight edited c ≤ weight edited c' + 1 := by
      cases horigin : c.origin with
      | none =>
        rw [horigin] at horigin'
        rw [weight_of_new horigin, weight_of_new horigin']
        decide
      | some id =>
        rw [horigin] at horigin'
        cases hfind : Definition.find? id edited with
        | none =>
          rw [weight_of_dropout horigin hfind, weight_of_dropout horigin' hfind]
          decide
        | some e =>
          have hdistance := StoredColumn.distance_effect (e := e) heffect
          rw [weight_of_staying horigin hfind, weight_of_staying horigin' hfind]
          omega
    have htotal : totalWeight edited [c'] = weight edited c' + 0 := totalWeight_cons edited c' []
    rw [heffect, htotal]
    omega
  cases a with
  | dropColumn column => exact weight_le edited c
  | dropConstraint constraint =>
    refine hchanged _ rfl ?_
    unfold StoredColumn.dropConstraint
    split <;> rfl
  | _ => exact hchanged _ rfl rfl

/-- A change of columns takes one at most from their weight, and one of the table nothing. -/
theorem totalWeight_applyTo (edited : List Definition) {columns columns' : List StoredColumn}
    (h : a.applyTo columns = some columns') :
    columns' = columns ∨ (∀ table, a.retitle table = table)
      ∧ totalWeight edited columns ≤ totalWeight edited columns' + 1 := by
  have hreplaced : ∀ {columns' : List StoredColumn},
      replaceFirst? a.addresses a.effect columns = some columns' →
      totalWeight edited columns ≤ totalWeight edited columns' + 1 := by
    intro columns' h
    obtain ⟨before, c, after, rfl, hc, rfl⟩ := of_replaceFirst? h
    have heffect := totalWeight_effect edited hc
    rw [totalWeight_append, totalWeight_append, totalWeight_append, totalWeight_cons]
    omega
  unfold Alteration.applyTo at h
  split at h
  · cases h
  · cases a with
    | renameTable name =>
      cases h
      exact .inl rfl
    | addColumn d =>
      cases h
      have hadded : totalWeight edited [d.added] = -1 := by
        rw [totalWeight_cons, weight_of_new rfl]
        rfl
      refine .inr ⟨fun _ => rfl, ?_⟩
      rw [totalWeight_append, hadded]
      omega
    | _ => exact .inr ⟨fun _ => rfl, hreplaced h⟩

variable {t t' : StoredTable}

/-- A statement takes one at most from the potential. -/
theorem potential_step (goal : TableName) (edited : List Definition) {table : TableName}
    (h : t.step table a = some t') :
    potential goal edited t ≤ potential goal edited t' + 1 := by
  unfold StoredTable.step at h
  split at h
  · next hname =>
    obtain ⟨columns, hcolumns, rfl⟩ := Option.map_eq_some_iff.1 h
    unfold potential
    rcases totalWeight_applyTo edited hcolumns with rfl | ⟨htable, hweight⟩
    · simp only
      split <;> split <;> omega
    · simp only [htable, hname]
      omega
  · cases h

/-- No replay is shorter than what it takes from the potential. -/
theorem potential_replay (goal : TableName) (edited : List Definition)
    {steps : List (TableName × Alteration)} (h : replay steps t = some t') :
    potential goal edited t ≤ potential goal edited t' + steps.length := by
  induction steps generalizing t with
  | nil =>
    cases h
    simp
  | cons s rest ih =>
    rw [replay] at h
    obtain ⟨t'', hstep, hrest⟩ := Option.bind_eq_some_iff.1 h
    have hfirst := potential_step goal edited hstep
    have hothers := ih hrest
    rw [List.length_cons]
    omega

theorem totalWeight_of_perm {old : List Definition} {columns : List StoredColumn}
    (h : (columns.map (·.nameless)).Perm (wanted old edited)) :
    totalWeight edited columns = totalWeight edited (wanted old edited) := by
  have hnameless : totalWeight edited (columns.map (·.nameless)) = totalWeight edited columns := by
    rw [totalWeight, List.map_map]
    exact congrArg List.sum (List.map_congr_left fun c _ => weight_nameless edited c)
  rw [← hnameless]
  exact (h.map _).sum_eq

/-- All edited tables have the same potential. -/
theorem StoredTable.IsEdited.potential_eq {table : TableName} {old : List Definition}
    {newName : Option String} (h : t.IsEdited table old edited newName) :
    potential { table with name := finalName table.name newName } edited t
      = totalWeight edited (wanted old edited) := by
  rw [potential, if_pos h.name, Int.zero_add, totalWeight_of_perm h.columns]

/-! ### What the statements take -/

/-- Whether a blank default is spelled differently. -/
def isRespelled (p : Definition × Definition) : Bool :=
  !p.1.hasDefault && !p.2.hasDefault && p.1.defaultText != p.2.defaultText

/-- How many of the columns that stay have a blank default that is spelled differently. -/
def respelled (old edited : List Definition) : Nat := (matched old edited).countP isRespelled

namespace Definition

variable {table : String} {d e : Definition}

theorem length_unless {α : Type} [DecidableEq α] {x y : α} {as : List Alteration}
    (h : as.length = 1) : (if y = x then [] else as).length = (x != y).toNat := by
  by_cases hsame : y = x
  · rw [if_pos hsame, hsame, bne_self_eq_false]
    rfl
  · rw [if_neg hsame, h, bne_iff_ne.2 (Ne.symm hsame)]
    rfl

theorem length_nullable (hkey : d.KeepsKey e) {as : List Alteration} (h : as.length = 1) :
    (if e.nullable = d.nullable then [] else as).length
      = ((d.nullable && !d.primaryKey) != (e.nullable && !e.primaryKey)).toNat := by
  rw [length_unless h, hkey.primaryKey]
  cases hprimary : d.primaryKey with
  | true =>
    rw [hkey.nullable hprimary]
    cases d.nullable <;> rfl
  | false => simp

theorem length_default {as : List Alteration} (h : as.length = 1) :
    (if e.defaultText = d.defaultText then [] else as).length
      = (d.default? != e.default?).toNat + (isRespelled (d, e)).toNat := by
  rw [length_unless h]
  by_cases hsame : d.defaultText = e.defaultText
  · have hdefault : d.default? = e.default? := by
      rw [default?, default?, hasDefault, hasDefault, hsame]
    rw [isRespelled, hdefault, hsame, bne_self_eq_false, bne_self_eq_false, Bool.and_false]
    rfl
  · -- the defaults are the same if both are blank
    have hdefault : (d.default? != e.default?) = (d.hasDefault || e.hasDefault) := by
      unfold default?
      cases d.hasDefault <;> cases e.hasDefault <;> simp [hsame]
    rw [isRespelled, hdefault, bne_iff_ne.2 hsame]
    cases d.hasDefault <;> cases e.hasDefault <;> rfl

theorem length_attributeChanges (hkey : d.KeepsKey e) :
    (d.attributeChanges e).length
      = (d.name != e.name).toNat + (d.dataType != e.dataType).toNat
        + ((d.nullable && !d.primaryKey) != (e.nullable && !e.primaryKey)).toNat
        + (d.default? != e.default?).toNat + (isRespelled (d, e)).toNat := by
  have hnullable : (if e.nullable then [Alteration.dropNotNull e.name]
      else [Alteration.setNotNull e.name]).length = 1 := by
    split <;> rfl
  have hdefault : (if e.hasDefault then [Alteration.setDefault e.name e.defaultText]
      else [Alteration.dropDefault e.name]).length = 1 := by
    split <;> rfl
  unfold attributeChanges
  rw [List.length_append, List.length_append, List.length_append, length_unless rfl,
    length_unless rfl, length_nullable hkey hnullable, length_default hdefault]
  omega

theorem length_keyChanges (hkey : d.KeepsKey e) :
    (d.keyChanges table e).length = (d.needsUnique != e.needsUnique).toNat := by
  have hunique : (if e.unique then [Alteration.addUnique e.name]
      else [Alteration.dropConstraint (uniqueConstraint table d)]).length = 1 := by
    split <;> rfl
  unfold keyChanges needsUnique
  rw [if_pos hkey.primaryKey, List.nil_append, length_unless hunique, hkey.primaryKey]
  cases hprimary : d.primaryKey with
  | true =>
    rw [hkey.unique hprimary]
    cases d.unique <;> rfl
  | false => simp

theorem length_foreignChanges :
    (d.foreignChanges table e).length
      = (d.target?.toList.any fun r => some r != e.target?).toNat
        + (e.target?.any fun r => !d.target?.toList.any (· == r)).toNat := by
  unfold foreignChanges
  by_cases hsame : d.target? = e.target?
  · rw [if_pos hsame, hsame]
    cases e.target? <;> simp
  · rw [if_neg hsame]
    cases hd : d.target? with
    | none =>
      cases he : e.target? with
      | none => exact absurd (hd.trans he.symm) hsame
      | some target => rfl
    | some target =>
      cases he : e.target? with
      | none => rfl
      | some target' =>
        -- one key is dropped and another added
        have hne : target ≠ target' := by
          rintro rfl
          exact hsame (hd.trans he.symm)
        have hsurplus : (some target != some target') = true := by
          rw [bne_iff_ne]
          intro heq
          exact hne (Option.some.inj heq)
        simp [hsurplus, beq_eq_false_iff_ne.2 hne]

/-- The changes of a column are as many as the original is away from the edited one, and one more if
a blank default is spelled differently. -/
theorem length_changes (table : String) (hkey : d.KeepsKey e) :
    (d.changes table e).length
      = (d.original table).distance e + (isRespelled (d, e)).toNat := by
  have hunique : ((d.original table).uniques.isEmpty == e.needsUnique)
      = (d.needsUnique != e.needsUnique) := by
    show ((if d.needsUnique then _ else _ : List (Option String)).isEmpty == e.needsUnique) = _
    cases d.needsUnique <;> cases e.needsUnique <;> rfl
  have hsurplus : ((d.original table).targets.any fun t => some t.2 != e.target?)
      = d.target?.toList.any fun r => some r != e.target? := List.any_map
  have hmissing : (e.target?.any fun r => !(d.original table).targets.any (·.2 == r))
      = e.target?.any fun r => !d.target?.toList.any (· == r) := by
    refine congrArg (Option.any · e.target?) (funext fun r => congrArg _ List.any_map)
  rw [changes, List.length_append, List.length_append, length_attributeChanges hkey,
    length_keyChanges hkey, length_foreignChanges, StoredColumn.distance, hunique, hsurplus,
    hmissing]
  show _ = (d.name != e.name).toNat + (d.dataType != e.dataType).toNat
    + ((d.nullable && !d.primaryKey) != (e.nullable && !e.primaryKey)).toNat
    + (d.default? != e.default?).toNat + _ + _ + _ + _
  omega

end Definition

variable {table : String} {old : List Definition}

theorem Definition.distance_kept (d e : Definition) : (d.kept table e).distance e = 0 := by
  unfold StoredColumn.distance kept stored
  simp only [bne_self_eq_false]
  cases e.needsUnique <;> cases e.target? <;> simp

theorem find?_of_mem_matched {p : Definition × Definition} (h : p ∈ matched old edited) :
    Definition.find? p.1.id edited = some p.2 := by
  obtain ⟨d, -, hd⟩ := List.mem_filterMap.1 h
  obtain ⟨e, he, rfl⟩ := Option.map_eq_some_iff.1 hd
  exact he

/-- The changes of columns that stay take from their weight what they are, but for the blank defaults
that are spelled differently. -/
theorem length_flatMap_changes (table : String) {ps : List (Definition × Definition)}
    (hkeys : ∀ p ∈ ps, p.1.KeepsKey p.2)
    (hfind : ∀ p ∈ ps, Definition.find? p.1.id edited = some p.2) :
    ((ps.flatMap fun p => p.1.changes table p.2).length : Int)
        + totalWeight edited (ps.map fun p => p.1.kept table p.2)
      = totalWeight edited (ps.map fun p => p.1.original table) + ps.countP isRespelled := by
  induction ps with
  | nil => rfl
  | cons p rest ih =>
    rw [List.forall_mem_cons] at hkeys hfind
    have hrest := ih hkeys.2 hfind.2
    have hlength := Definition.length_changes table hkeys.1
    have hcount : ((p :: rest).countP isRespelled) = rest.countP isRespelled
        + (isRespelled (p.1, p.2)).toNat := by
      rw [List.countP_cons]
      show _ + (if isRespelled (p.1, p.2) = true then 1 else 0) = _
      cases isRespelled (p.1, p.2) <;> rfl
    rw [List.flatMap_cons, List.length_append, List.map_cons, List.map_cons, totalWeight_cons,
      totalWeight_cons, weight_of_staying rfl hfind.1, weight_of_staying rfl hfind.1,
      Definition.distance_kept, hlength, hcount]
    omega

theorem totalWeight_original (table : String) (old edited : List Definition) :
    totalWeight edited (old.map (·.original table))
      = (dropouts old edited).length
        + totalWeight edited ((matched old edited).map fun p => p.1.original table) := by
  unfold dropouts matched
  induction old with
  | nil => rfl
  | cons d rest ih =>
    rw [List.map_cons, totalWeight_cons, ih, List.filter_cons, List.filterMap_cons]
    cases hfind : Definition.find? d.id edited with
    | none =>
      rw [weight_of_dropout rfl hfind]
      simp only [Option.map_none, Option.isSome_none, Bool.not_false, if_true, List.length_cons]
      omega
    | some e =>
      simp only [Option.map_some, Option.isSome_some, Bool.not_true, Bool.false_eq_true, if_false,
        List.map_cons, totalWeight_cons]
      omega

theorem totalWeight_added (edited definitions : List Definition) :
    totalWeight edited (definitions.map (·.added)) = -definitions.length := by
  induction definitions with
  | nil => rfl
  | cons e rest ih =>
    rw [List.map_cons, totalWeight_cons, weight_of_new rfl, ih, List.length_cons]
    omega

/-- The statements of an altered table use up the potential, but for those that drop a default that
is blank already. -/
theorem length_alterSteps {table : TableName} (h : Diffable table.name old edited)
    (newName : Option String) :
    ((alterSteps table old edited newName).length : Int) + totalWeight edited (wanted old edited)
      = potential { table with name := finalName table.name newName } edited
          (.original table old) + respelled old edited := by
  have hchanges := length_flatMap_changes table.name
    (fun p (hp : p ∈ matched old edited) => h.keepsKey hp) fun _ hp => find?_of_mem_matched hp
  have hcolumns : (columnAlterations table.name old edited).length
      = (dropouts old edited).length
        + ((matched old edited).flatMap fun p => p.1.changes table.name p.2).length
        + (newcomers old edited).length := by
    rw [columnAlterations_eq, List.length_append, List.length_append, List.length_map,
      List.length_map, (h.distinctIds.rematched_perm.flatMap_right _).length_eq]
  have hrename : (alterSteps table old edited newName).length
      = (if finalName table.name newName = table.name then 0 else 1)
        + (columnAlterations table.name old edited).length := by
    unfold alterSteps
    rw [List.length_append, List.length_map]
    split <;> rfl
  have hname : table = { table with name := finalName table.name newName }
      ↔ finalName table.name newName = table.name :=
    ⟨fun heq => (congrArg TableName.name heq).symm, fun heq => by rw [heq]⟩
  have hpotential : potential { table with name := finalName table.name newName } edited
      (.original table old) = (if finalName table.name newName = table.name then 0 else 1)
        + totalWeight edited (old.map (·.original table.name)) := by
    show (if table = _ then (0 : Int) else 1) + _ = _
    simp only [hname]
    rfl
  rw [hrename, hcolumns, hpotential, totalWeight_original, respelled,
    ← totalWeight_of_perm (editedColumns_perm h), editedColumns, totalWeight_append,
    totalWeight_added]
  split <;> omega

/-! ### Blank defaults -/

/-- The old definition with a blank default spelled like that of the edited one. -/
def respell (edited : List Definition) (d : Definition) : Definition :=
  match Definition.find? d.id edited with
  | some e => if d.hasDefault || e.hasDefault then d else { d with defaultText := e.defaultText }
  | none => d

theorem respell_cases (edited : List Definition) (d : Definition) :
    respell edited d = d
      ∨ ∃ text, respell edited d = { d with defaultText := text } ∧ d.hasDefault = false
        ∧ blankString text = true := by
  unfold respell
  cases Definition.find? d.id edited with
  | none => exact .inl rfl
  | some e =>
    cases hblank : d.hasDefault || e.hasDefault with
    | true => exact .inl (if_pos hblank)
    | false =>
      rw [Bool.or_eq_false_iff] at hblank
      refine .inr ⟨e.defaultText, if_neg (by simp [hblank]), hblank.1, ?_⟩
      simpa [Definition.hasDefault] using hblank.2

theorem id_respell (edited : List Definition) (d : Definition) : (respell edited d).id = d.id := by
  rcases respell_cases edited d with h | ⟨text, h, -⟩ <;> rw [h]

theorem name_respell (edited : List Definition) (d : Definition) :
    (respell edited d).name = d.name := by
  rcases respell_cases edited d with h | ⟨text, h, -⟩ <;> rw [h]

theorem constraintNames_respell (edited : List Definition) (d : Definition) :
    (respell edited d).constraintNames table = d.constraintNames table := by
  rcases respell_cases edited d with h | ⟨text, h, -⟩
  · rw [h]
  · rw [h]
    rfl

theorem original_respell (edited : List Definition) (d : Definition) :
    (respell edited d).original table = d.original table := by
  rcases respell_cases edited d with h | ⟨text, h, hdefault, hblank⟩
  · rw [h]
  · have hnone : d.default? = none := if_neg (by simp [hdefault])
    have hnone' : { d with defaultText := text }.default? = none :=
      if_neg (by simp [Definition.hasDefault, hblank])
    rw [h, Definition.original, Definition.original, Definition.stored, Definition.stored, hnone,
      hnone']
    rfl

theorem Definition.KeepsKey.respell {d e : Definition} (h : d.KeepsKey e)
    (edited : List Definition) : (respell edited d).KeepsKey e := by
  rcases respell_cases edited d with hsame | ⟨text, hsame, -⟩ <;> rw [hsame]
  · exact h
  · exact ⟨h.primaryKey, h.nullable, h.unique⟩

theorem find?_respell (id : String) (old edited : List Definition) :
    Definition.find? id (old.map (respell edited))
      = (Definition.find? id old).map (respell edited) := by
  induction old with
  | nil => rfl
  | cons d rest ih =>
    rw [List.map_cons, Definition.find?, Definition.find?, ih, id_respell]
    cases Definition.find? id rest with
    | some found => rfl
    | none =>
      show (if d.id = id then _ else _) = (if d.id = id then _ else _ : Option Definition).map _
      split <;> rfl

theorem Diffable.respell (h : Diffable table old edited) :
    Diffable table (old.map (respell edited)) edited where
  oldIds := by
    rw [List.map_map]
    exact (List.map_congr_left fun d _ => id_respell edited d) ▸ h.oldIds
  editedIds := h.editedIds
  oldNames := by
    rw [List.map_map]
    exact (List.map_congr_left fun d _ => name_respell edited d) ▸ h.oldNames
  editedNames := h.editedNames
  named e he hblank := by
    rw [List.forall_mem_map]
    intro d hd
    rw [id_respell]
    exact h.named e he hblank d hd
  constraints := by
    simp only [List.flatMap_map, constraintNames_respell]
    exact h.constraints
  renames := by
    simp only [List.forall_mem_map, id_respell, name_respell]
    exact h.renames
  keys := by
    simp only [List.forall_mem_map, id_respell]
    intro d hd e he hid
    exact (h.keys d hd e he hid).respell edited

theorem wanted_respell (old edited : List Definition) :
    wanted (old.map (respell edited)) edited = wanted old edited := by
  unfold wanted
  simp only [find?_respell, Option.isSome_map, Option.map_map]
  congr 1
  funext e
  congr 2
  funext d
  exact id_respell edited d

theorem respelled_respell (old edited : List Definition) :
    respelled (old.map (respell edited)) edited = 0 := by
  apply List.countP_eq_zero.2
  intro p hp
  obtain ⟨d', hd', hp⟩ := List.mem_filterMap.1 hp
  obtain ⟨d, -, rfl⟩ := List.mem_map.1 hd'
  rw [id_respell] at hp
  obtain ⟨e, hfind, rfl⟩ := Option.map_eq_some_iff.1 hp
  unfold isRespelled respell
  simp only [hfind]
  cases hblank : d.hasDefault || e.hasDefault with
  | true =>
    rw [if_pos rfl]
    cases hd : d.hasDefault <;> simp_all
  | false =>
    rw [if_neg Bool.false_ne_true]
    simp

/-- There is a way without the statements that drop a default that is blank already. -/
theorem exists_replay {table : TableName} (h : Diffable table.name old edited)
    (newName : Option String) :
    ∃ steps t, replay steps (.original table old) = some t ∧ t.IsEdited table old edited newName
      ∧ steps.length + respelled old edited = (alterSteps table old edited newName).length := by
  -- the respelled definitions make the same table, and have no statement to spare
  have horiginal : StoredTable.original table (old.map (respell edited)) = .original table old := by
    rw [StoredTable.original, List.map_map]
    exact congrArg _ (List.map_congr_left fun d _ => original_respell edited d)
  have hreplay := replay_alterSteps h.respell newName
  have hcolumns := editedColumns_perm h.respell
  have hlength := length_alterSteps h newName
  have hlength' := length_alterSteps h.respell newName
  rw [horiginal] at hreplay hlength'
  rw [wanted_respell] at hcolumns hlength'
  rw [respelled_respell] at hlength'
  exact ⟨_, _, hreplay, ⟨rfl, hcolumns⟩, by omega⟩

/-- The statements of an altered table are the texts of steps that can be replayed one by one and end
with the edited state: the columns that stay are kept, with all that was edited. No other steps get
there with less, unless there is a blank default that is spelled differently. -/
theorem alterTable_reaches_edited (table : TableName) (old edited : List Definition)
    (newName : Option String) (h : Diffable table.name old edited) :
    let steps := alterSteps table old edited newName
    alterTable table old edited newName = steps.map (fun (table, a) => a.render table)
    ∧ (∃ t, replay steps (.original table old) = some t ∧ t.IsEdited table old edited newName)
    ∧ ((∀ others t, replay others (.original table old) = some t →
        t.IsEdited table old edited newName → steps.length ≤ others.length)
      ↔ ∀ d ∈ old, ∀ e ∈ edited, d.id = e.id → d.hasDefault = false → e.hasDefault = false →
        d.defaultText = e.defaultText) := by
  intro steps
  refine ⟨alterTable_eq table old edited newName,
    ⟨_, replay_alterSteps h newName, rfl, editedColumns_perm h⟩, ?_, ?_⟩
  · intro hshortest d hd e he hid hblank hblank'
    -- the way without the statements to spare would be shorter
    obtain ⟨others, t, hreplay, hedited, hothers⟩ := exists_replay h newName
    have hnone : respelled old edited = 0 := by
      have hlength : others.length + respelled old edited = steps.length := hothers
      have := hshortest others t hreplay hedited
      omega
    have hsame := List.countP_eq_zero.1 hnone (d, e) (h.mem_matched.2 ⟨hd, he, hid⟩)
    simpa [isRespelled, hblank, hblank'] using hsame
  · intro hsame others t hreplay hedited
    have hnone : respelled old edited = 0 := by
      apply List.countP_eq_zero.2
      intro p hp
      obtain ⟨hd, he, hid⟩ := h.mem_matched.1 hp
      have := hsame p.1 hd p.2 he hid
      cases hd : p.1.hasDefault <;> cases he : p.2.hasDefault <;> simp_all [isRespelled]
    -- the steps use the potential up, and no others take more from it with each step
    have hpotential := potential_replay
      { table with name := finalName table.name newName } edited hreplay
    have hlength : (steps.length : Int) + totalWeight edited (wanted old edited)
        = potential { table with name := finalName table.name newName } edited
          (.original table old) + respelled old edited := length_alterSteps h newName
    rw [hedited.potential_eq] at hpotential
    rw [hnone] at hlength
    omega

/-- The columns of a table of users. -/
def users : List Definition :=
  [⟨"c1", "id", "integer", false, true, true, "", none, ""⟩,
    ⟨"c2", "email", "varchar(255)", true, false, true, "", none, ""⟩,
    ⟨"c3", "age", "integer", true, false, false, "0", none, ""⟩,
    ⟨"c4", "team", "integer", true, false, false, "",
      some ⟨⟨"public", "teams"⟩, "id", "NO ACTION", "NO ACTION"⟩, "fk_team"⟩]

/-- The columns of the table of users after an edit. -/
def editedUsers : List Definition :=
  [⟨"c1", "id", "integer", false, true, true, "", none, ""⟩,
    ⟨"c2", "age", "text", false, false, false, "'0'", none, ""⟩,
    ⟨"c4", "team_id", "integer", true, false, true, "",
      some ⟨⟨"public", "teams"⟩, "id", "CASCADE", "NO ACTION"⟩, ""⟩,
    ⟨"c5", "email", "text", false, false, true, "''", none, ""⟩,
    ⟨"c6", " ", "text", true, false, false, "", none, ""⟩]

theorem alterTable_reaches_edited_users :
    Diffable "users" users editedUsers
    ∧ let steps := alterSteps ⟨"public", "users"⟩ users editedUsers (some "members")
      alterTable ⟨"public", "users"⟩ users editedUsers (some "members")
        = steps.map (fun (table, a) => a.render table)
      ∧ (∃ t, replay steps (.original ⟨"public", "users"⟩ users) = some t
        ∧ t.IsEdited ⟨"public", "users"⟩ users editedUsers (some "members"))
      ∧ ((∀ others t, replay others (.original ⟨"public", "users"⟩ users) = some t →
          t.IsEdited ⟨"public", "users"⟩ users editedUsers (some "members") →
          steps.length ≤ others.length)
        ↔ ∀ d ∈ users, ∀ e ∈ editedUsers, d.id = e.id → d.hasDefault = false →
          e.hasDefault = false → d.defaultText = e.defaultText) := by
  have h : Diffable "users" users editedUsers :=
    ⟨by decide, by decide, by decide, by decide +kernel, by decide +kernel, by decide +kernel,
      by decide +kernel, by decide +kernel⟩
  exact ⟨h, alterTable_reaches_edited ⟨"public", "users"⟩ users editedUsers (some "members") h⟩

/-- A default is dropped if a blank one is spelled differently, though the table is the edited one
already. -/
theorem alterTable_blank_default :
    let old : List Definition := [⟨"c1", "age", "integer", true, false, false, "", none, ""⟩]
    let edited : List Definition := [⟨"c1", "age", "integer", true, false, false, " ", none, ""⟩]
    alterTable ⟨"public", "users"⟩ old edited none
      = ["ALTER TABLE \"public\".\"users\" ALTER COLUMN \"age\" DROP DEFAULT".toList]
    ∧ (StoredTable.original ⟨"public", "users"⟩ old).IsEdited ⟨"public", "users"⟩ old edited none :=
  ⟨by decide +kernel, rfl, by decide +kernel⟩

end StagedTable.Sql
