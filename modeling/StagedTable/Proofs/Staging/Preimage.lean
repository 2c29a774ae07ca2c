import StagedTable.Proofs.Staging.History
import StagedTable.Proofs.Staging.Reordering

/-!
# The pre-image of a change

The row of a change is told twice: the statement has a condition that was built when the change was
accepted, and the view looks for a row that holds the pre-image. What the view shows a change on
meets the condition, and no other row that is left does where the keys differ
(`shown_meets_condition`).

The other way round, the condition is built from `Change.renderedFrom`, and the view finds the first
row left that holds it, if the change has a pre-image (`looked_for_as_rendered`). A deletion may be
accepted without one. Its statement is built from its data, but the view looks for nothing, so that
the statement deletes a row that was never marked (`bare_deletion_unseen`).
-/

namespace StagedTable

namespace Sql.Statement

/-- The predicates of the condition of a statement. An insertion has none. -/
def predicates : Statement → List Binding
  | insert _ _ => []
  | update _ _ condition | delete _ condition => condition

/-- The text of an update or a deletion ends with the text of its predicates. -/
theorem exists_sql_eq {s : Statement} (h : s.predicates ≠ []) :
    ∃ head, s.sql = String.ofList (head ++ " WHERE ".toList ++ renderCondition s.predicates) := by
  cases s with
  | insert table items => exact absurd rfl h
  | update table assignments condition => exact ⟨_, rfl⟩
  | delete table condition => exact ⟨_, rfl⟩

end Sql.Statement

/-- Whether the log has accepted a change, on a table with some columns. -/
def Change.IsAccepted (columns : List Column) (c : Change) : Prop :=
  ∃ s s' : Staging, s.add c.kind c.table c.data c.preimage columns = .ok (c, s')

/-- What the condition of a change is built from: the pre-image, or the data of a deletion that has
none. -/
def Change.renderedFrom (c : Change) : Row := c.preimage.getD c.data

/-- Whether a change is applied to the first row left that holds the values of a row, if there is
one. -/
def View.Finds (v : View) (c : Change) (p : Row) : Prop :=
  (∃ t ∈ v.kept, t.holds p = true) → ∃ i, v.target? c = some i ∧ v.FirstHolds p i

variable {columns : List Column} {c : Change} {p : Row} {v : View}

/-! ### Accepted changes -/

namespace Change.IsAccepted

theorem statement (h : c.IsAccepted columns) :
    Sql.Statement.ofChange c.kind c.table c.data c.preimage columns = .ok c.statement := by
  obtain ⟨s, s', hadd⟩ := h
  rcases s.add_cases c.kind c.table c.data c.preimage columns with
    ⟨statement, hstatement, hok⟩ | ⟨e, -, herror⟩
  · rw [hok] at hadd
    have hc := (Prod.mk.inj (Except.ok.inj hadd)).1
    rw [hstatement, ← hc]
  · rw [herror] at hadd
    cases hadd

/-- The condition of an accepted change is the one that picks out what it is built from. -/
theorem condition_eq (h : c.IsAccepted columns) (hkind : c.kind ≠ .insert) :
    Sql.Statement.condition c.renderedFrom columns = .ok c.statement.predicates := by
  have hstatement := h.statement
  unfold Sql.Statement.ofChange at hstatement
  unfold Change.renderedFrom
  split at hstatement
  · next hinsert => exact absurd hinsert hkind
  · next p _ hpreimage =>
    obtain ⟨_, bs, hupdate, -, -, hcondition⟩ := Sql.Statement.updateRow_ok hstatement
    rw [hpreimage, hupdate]
    exact hcondition
  · cases hstatement
  · obtain ⟨bs, hdelete, hcondition⟩ := Sql.Statement.deleteRow_ok hstatement
    rw [hdelete]
    exact hcondition

/-- Only a deletion is accepted without a pre-image. -/
theorem kind_of_none (h : c.IsAccepted columns) (hkind : c.kind ≠ .insert)
    (hnone : c.preimage = none) : c.kind = .delete := by
  have hstatement := h.statement
  rw [hnone] at hstatement
  cases hc : c.kind with
  | insert => exact absurd hc hkind
  | update =>
    rw [hc] at hstatement
    cases hstatement
  | delete => rfl

end Change.IsAccepted

/-! ### What is shown is addressed -/

/-- A row that holds a pre-image meets all predicates that are built from it. -/
theorem Sql.Statement.forall_isMet_of_holds {r : Row} {bs : List Sql.Binding}
    (h : condition p columns = .ok bs) (hholds : r.holds p = true) :
    ∀ b ∈ bs, b.isMet r = true := by
  rw [← List.all_eq_true]
  by_cases hkeys : Column.keys columns = []
  · rwa [forall_isMet_iff_holds (condition_keyless hkeys h).2]
  · exact (meets_condition hkeys h).2 (Row.sameKey_of_holds (carries_of_condition h) hholds)

/-- Where the keys of the rows that are left differ, one of them at most meets all predicates. -/
theorem View.eq_of_isMet {bs : List Sql.Binding} {i j : Nat} {r t : Row}
    (hproper : ∀ r ∈ v.rows, r.IsProper) (hp : p.IsProper) (hkeys : Column.keys columns ≠ [])
    (hcondition : Sql.Statement.condition p columns = .ok bs) (hdiffer : KeysDiffer columns v.kept)
    (hr : v.rows[i]? = some r) (hi : v.isDeleted i = false) (hrmet : ∀ b ∈ bs, b.isMet r = true)
    (ht : v.rows[j]? = some t) (hj : v.isDeleted j = false) (htmet : ∀ b ∈ bs, b.isMet t = true) :
    j = i := by
  have hmeets := fun u => Sql.Statement.meets_condition (t := u) hkeys hcondition
  have hrp : SameKey columns r p := (hmeets r).1 (List.all_eq_true.2 hrmet)
  have htp : SameKey columns t p := (hmeets t).1 (List.all_eq_true.2 htmet)
  have hsame : SameKey columns t r := .of_common (hproper t (List.mem_of_getElem? ht))
    (hproper r (List.mem_of_getElem? hr)) hp htp hrp
  exact View.eq_of_sameKey hproper hdiffer ht hj hr hi hsame

/-- What a change with a pre-image is shown on, its statement would hit: the row, as the changes
before have left it, meets every predicate of the condition that is built from the pre-image. On a
table with a primary key it is the only row left that does, if the rows left have different keys. -/
theorem shown_meets_condition (rows : List Row) (log before after : List Change) (c : Change)
    (columns : List Column) (p : Row) (hsplit : log = before ++ c :: after)
    (hkind : c.kind ≠ .insert) (hpreimage : c.preimage = some p)
    (haccepted : c.IsAccepted columns) :
    let v := before.foldl View.apply (.ofRows rows)
    ∃ bs, Sql.Statement.condition p columns = .ok bs
      ∧ (∃ head, c.sql
        = String.ofList (head ++ " WHERE ".toList ++ Sql.Statement.renderCondition bs))
      ∧ ∀ i, v.target? c = some i → ∃ r, v.rows[i]? = some r ∧ v.isDeleted i = false
        ∧ (∀ b ∈ bs, b.isMet r = true)
        ∧ ((∀ r ∈ rows, r.IsProper) → (∀ d ∈ log, d.IsProper) → Column.keys columns ≠ [] →
          KeysDiffer columns v.kept →
          ∀ j t, v.rows[j]? = some t → v.isDeleted j = false → (∀ b ∈ bs, b.isMet t = true) →
            j = i) := by
  intro v
  have hcondition : Sql.Statement.condition p columns = .ok c.statement.predicates := by
    have h := haccepted.condition_eq hkind
    rwa [Change.renderedFrom, hpreimage] at h
  refine ⟨_, hcondition,
    Sql.Statement.exists_sql_eq (Sql.Statement.condition_ne_nil hcondition), ?_⟩
  intro i htarget
  obtain ⟨-, hopen, r, p', hr, hp', hholds⟩ := View.of_target? htarget
  rw [hpreimage] at hp'
  cases hp'
  have hmet := Sql.Statement.forall_isMet_of_holds hcondition hholds
  refine ⟨r, hr, hopen, hmet, ?_⟩
  intro hrows hlog hkeys hdiffer j t ht hj htmet
  rw [hsplit, List.forall_mem_append, List.forall_mem_cons] at hlog
  exact View.eq_of_isMet (View.isProper_applyAll hrows hlog.1) (hlog.2.1.preimage p hpreimage) hkeys
    hcondition hdiffer hr hopen hmet ht hj htmet

/-- One article has got a new price before the other one is deleted. -/
theorem shown_meets_condition_articles :
    let log := [repriced 1 6, withdrawn]
    let v := [repriced 1 6].foldl View.apply (.ofRows articles.rows)
    withdrawn.kind ≠ .insert ∧ withdrawn.IsAccepted articles.columns
    ∧ (∀ r ∈ articles.rows, r.IsProper) ∧ (∀ c ∈ log, c.IsProper)
    ∧ Column.keys articles.columns ≠ [] ∧ KeysDiffer articles.columns v.kept
    ∧ v.target? withdrawn = some 1
    ∧ ∃ bs, Sql.Statement.condition withdrawn.data articles.columns = .ok bs
      ∧ (∃ r, v.rows[1]? = some r ∧ ∀ b ∈ bs, b.isMet r = true)
      ∧ ∀ j t, v.rows[j]? = some t → v.isDeleted j = false → (∀ b ∈ bs, b.isMet t = true) →
        j = 1 := by
  intro log v
  have hkind : withdrawn.kind ≠ .insert := by decide
  have haccepted : withdrawn.IsAccepted articles.columns := ⟨⟨⟨[]⟩, 1⟩, _, rfl⟩
  obtain ⟨hrows, hlog⟩ : (∀ r ∈ articles.rows, r.IsProper) ∧ ∀ c ∈ log, c.IsProper :=
    isProper_of_isPlain (by decide +kernel) (by decide +kernel)
  have hkeys : Column.keys articles.columns ≠ [] := by decide +kernel
  have hdiffer : KeysDiffer articles.columns v.kept := by decide +kernel
  have htarget : v.target? withdrawn = some 1 := by decide +kernel
  obtain ⟨bs, hcondition, -, hshown⟩ := shown_meets_condition articles.rows log [repriced 1 6] []
    withdrawn articles.columns withdrawn.data rfl hkind rfl haccepted
  obtain ⟨r, hr, -, hmet, honly⟩ := hshown 1 htarget
  exact ⟨hkind, haccepted, hrows, hlog, hkeys, hdiffer, htarget, bs, hcondition, ⟨r, hr, hmet⟩,
    honly hrows hlog hkeys hdiffer⟩

/-! ### What is built is looked for -/

/-- A change with a pre-image is applied to the first row left that holds it. -/
theorem View.finds_preimage (hkind : c.kind ≠ .insert) (hpreimage : c.preimage = some p) :
    v.Finds c p := by
  rintro ⟨t, ht, hholds⟩
  cases htarget : v.target? c with
  | none =>
    rw [(target?_eq_none_iff hkind hpreimage).1 htarget t ht] at hholds
    cases hholds
  | some i => exact ⟨i, rfl, firstHolds_of_target? hpreimage htarget⟩

/-- Every accepted update and deletion that has a pre-image is looked for as its condition was
built: it is applied to the first row left that holds the pre-image, if there is one. A deletion
without a pre-image is applied to no row, and so it is looked for as its condition was built if and
only if no row left holds its data. -/
theorem looked_for_as_rendered (rows : List Row) (log before after : List Change) (c : Change)
    (hlog : ∀ d ∈ log, ∃ columns, d.IsAccepted columns) (hsplit : log = before ++ c :: after)
    (hkind : c.kind ≠ .insert) :
    let v := before.foldl View.apply (.ofRows rows)
    (∃ columns, Sql.Statement.condition c.renderedFrom columns = .ok c.statement.predicates)
    ∧ (c.preimage = none → c.kind = .delete ∧ v.target? c = none)
    ∧ (v.Finds c c.renderedFrom
      ↔ c.preimage.isSome = true ∨ ∀ t ∈ v.kept, t.holds c.renderedFrom = false) := by
  intro v
  obtain ⟨columns, haccepted⟩ := hlog c (by simp [hsplit])
  refine ⟨⟨columns, haccepted.condition_eq hkind⟩, ?_, ?_⟩
  · intro hnone
    exact ⟨haccepted.kind_of_none hkind hnone, View.target?_eq_none (.inr hnone)⟩
  · cases hpreimage : c.preimage with
    | some p =>
      rw [Change.renderedFrom, hpreimage]
      exact ⟨fun _ => .inl rfl, fun _ => View.finds_preimage hkind hpreimage⟩
    | none =>
      constructor
      · intro hfinds
        refine .inr fun t ht => ?_
        rw [← Bool.not_eq_true]
        intro hholds
        obtain ⟨i, htarget, -⟩ := hfinds ⟨t, ht, hholds⟩
        rw [View.target?_eq_none (.inr hpreimage)] at htarget
        cases htarget
      · rintro (hsome | hnone) ⟨t, ht, hholds⟩
        · cases hsome
        · rw [hnone t ht] at hholds
          cases hholds

/-- The price that was staged last is looked for, and found. -/
theorem looked_for_as_rendered_articles :
    let log := [repriced 1 6, withdrawn]
    let v := [repriced 1 6].foldl View.apply (.ofRows articles.rows)
    (∀ c ∈ log, ∃ columns, c.IsAccepted columns) ∧ withdrawn.kind ≠ .insert
    ∧ withdrawn.preimage.isSome = true ∧ (∃ t ∈ v.kept, t.holds withdrawn.renderedFrom = true)
    ∧ v.Finds withdrawn withdrawn.renderedFrom := by
  intro log v
  have hlog : ∀ c ∈ log, ∃ columns, c.IsAccepted columns := by
    intro c hc
    refine ⟨articles.columns, ?_⟩
    rcases List.mem_pair.1 hc with rfl | rfl
    · exact ⟨.empty, _, rfl⟩
    · exact ⟨⟨⟨[]⟩, 1⟩, _, rfl⟩
  have hkind : withdrawn.kind ≠ .insert := by decide
  obtain ⟨-, -, hfinds⟩ := looked_for_as_rendered articles.rows log [repriced 1 6] [] withdrawn
    hlog rfl hkind
  exact ⟨hlog, hkind, rfl, by decide +kernel, hfinds.2 (.inl rfl)⟩

/-- A deletion is accepted without a pre-image. Its statement takes a row out of the table that is
shown as if nothing was staged. -/
theorem bare_deletion_unseen :
    ∃ c s, Staging.empty.add .delete ⟨"public", "articles"⟩
        (.ofList [("id", .int 2), ("price", .null)]) none articles.columns = .ok (c, s)
      ∧ (∃ t ∈ (View.ofRows articles.rows).kept, t.holds c.renderedFrom = true)
      ∧ ¬ (View.ofRows articles.rows).Finds c c.renderedFrom
      ∧ (View.reconcile articles.rows [c] .empty).deleted = []
      ∧ (c.statement.exec articles.rows).length = 1 := by
  have hheld : ∃ t ∈ (View.ofRows articles.rows).kept,
      t.holds (.ofList [("id", .int 2), ("price", .null)]) = true := by decide +kernel
  refine ⟨_, _, rfl, hheld, ?_, by decide +kernel, by decide +kernel⟩
  intro hfinds
  obtain ⟨i, htarget, -⟩ := hfinds hheld
  rw [View.target?_eq_none (.inr rfl)] at htarget
  cases htarget

end StagedTable
