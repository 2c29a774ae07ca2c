import StagedTable.Proofs.Sql.RowStatement
import StagedTable.Proofs.Value.Equality

/-!
# Statements on a table

What row statements do to a table that is held as a list of rows. A statement that is built for a
row of the table has a condition that is met by the rows with the same primary key values
(`meets_condition`), so that it hits one row where no two rows share them (`PicksOnly`).

The rows of the table and the rows that are shown need not hold identical values: `Agrees` says that
they hold the same ones. It is kept by an update that leaves out assignments of values that are
there already (`Agrees.overlay_changed`).
-/

namespace StagedTable

/-! ### Rows -/

namespace Row

/-- Whether all values of a row can be compared with themselves. -/
def IsComparable (r : Row) : Prop := ∀ name v, r.get? name = some v → v.IsComparable

/-- Whether two rows hold the same values under the same names. -/
def Agrees (a b : Row) : Prop :=
  ∀ name, Option.Rel (fun v w => v.same w = true) (a.get? name) (b.get? name)

theorem IsComparable.of_fields {r : Row} (h : ∀ field ∈ r.fields, field.2.IsComparable) :
    r.IsComparable := fun _ _ hv => h _ (Assoc.mem_of_get? hv)

/-- Whether all values of a row are null, booleans, integers and texts. -/
def isPlain (r : Row) : Bool := r.fields.all (·.2.isPlain)

theorem cellOf_of_isPlain {float : Double → Prop} {r : Row} (h : r.isPlain = true) :
    ∀ name v, r.get? name = some v → v.IsCellOf (fun _ => True) float := by
  intro name v hv
  exact .of_isPlain (List.all_eq_true.1 h _ (Assoc.mem_of_get? hv))

theorem agrees_refl {r : Row} (h : r.IsComparable) : r.Agrees r := by
  intro name
  cases hv : r.get? name with
  | none => exact .none
  | some v => exact .some (Value.same_refl (h name v hv).isProper (h name v hv).isNan_eq_false)

theorem get?_overlay (r top : Row) (name : String) :
    (r.overlay top).get? name = (top.get? name).or (r.get? name) := by
  have hputs : ∀ added entries : List (String × Value), (Assoc.keys added).Nodup →
      Assoc.get? name (Assoc.putAll entries added)
        = (Assoc.get? name added).or (Assoc.get? name entries) := by
    intro added
    induction added with
    | nil => exact fun _ _ => rfl
    | cons e rest ih =>
      intro entries hnodup
      rw [Assoc.keys, List.map_cons, List.nodup_cons] at hnodup
      have hrest := ih (Assoc.put e.1 e.2 entries) hnodup.2
      rw [Assoc.get?_put] at hrest
      show Assoc.get? name (Assoc.putAll (Assoc.put e.1 e.2 entries) rest) = _
      rw [hrest, Assoc.get?]
      by_cases hname : name = e.1
      · have hnone : Assoc.get? name rest = none := by
          cases hget : Assoc.get? name rest with
          | none => rfl
          | some v =>
            refine absurd ?_ hnodup.1
            rw [← hname]
            exact Assoc.isSome_get?_iff.1 (by rw [hget]; rfl)
        rw [hnone, if_pos hname, if_pos hname.symm]
        rfl
      · rw [if_neg hname, if_neg fun e => hname e.symm]
  exact hputs top.fields r.fields top.nodup

theorem ofList_fields (r : Row) : ofList r.fields = r := by
  have hfields : Assoc.putAll [] r.fields = r.fields :=
    Assoc.putAll_eq_append (by rw [List.nil_append]; exact r.nodup)
  cases r
  simp only [ofList, hfields]

end Row

/-! ### Keys -/

variable {columns : List Column}

/-- Whether two rows have the same primary key values. -/
def SameKey (columns : List Column) (a b : Row) : Prop :=
  ∀ key ∈ Column.keys columns, ∃ v w, a.get? key.name = some v ∧ b.get? key.name = some w
    ∧ v.same w = true

/-- Whether no two rows have the same primary key values. -/
def KeysDiffer (columns : List Column) (rows : List Row) : Prop :=
  rows.Pairwise fun a b => ¬ SameKey columns a b

instance (columns : List Column) (a b : Row) : Decidable (SameKey columns a b) :=
  decidable_of_iff (∀ key ∈ Column.keys columns,
      (match a.get? key.name, b.get? key.name with
        | some v, some w => v.same w
        | _, _ => false) = true) <| by
    apply forall₂_congr
    intro key _
    cases a.get? key.name <;> cases b.get? key.name <;> simp

instance (columns : List Column) (rows : List Row) : Decidable (KeysDiffer columns rows) :=
  inferInstanceAs (Decidable (rows.Pairwise _))

variable {a b c : Row}

theorem SameKey.symm (ha : a.IsComparable) (hb : b.IsComparable) (h : SameKey columns a b) :
    SameKey columns b a := by
  intro key hkey
  obtain ⟨v, w, hv, hw, hsame⟩ := h key hkey
  exact ⟨w, v, hw, hv, Value.same_symm (ha _ _ hv).isProper (hb _ _ hw).isProper hsame⟩

theorem SameKey.trans (ha : a.IsComparable) (hb : b.IsComparable) (hc : c.IsComparable)
    (hab : SameKey columns a b) (hbc : SameKey columns b c) : SameKey columns a c := by
  intro key hkey
  obtain ⟨v, w, hv, hw, hsame⟩ := hab key hkey
  obtain ⟨w', x, hw', hx, hsame'⟩ := hbc key hkey
  rw [hw] at hw'
  cases hw'
  exact ⟨v, x, hv, hx,
    Value.same_trans (ha _ _ hv).isProper (hb _ _ hw).isProper (hc _ _ hx).isProper hsame hsame'⟩

theorem Row.Agrees.exists_same (h : a.Agrees b) {name : String} {w : Value}
    (hw : b.get? name = some w) : ∃ v, a.get? name = some v ∧ v.same w = true := by
  have hrel := h name
  rw [hw] at hrel
  cases hv : a.get? name with
  | none => rw [hv] at hrel; cases hrel
  | some v =>
    rw [hv] at hrel
    cases hrel with
    | some hsame => exact ⟨v, rfl, hsame⟩

theorem Row.Agrees.sameKey (h : a.Agrees b)
    (hkeys : ∀ key ∈ Column.keys columns, (b.get? key.name).isSome) : SameKey columns a b := by
  intro key hkey
  obtain ⟨w, hw⟩ := Option.isSome_iff_exists.1 (hkeys key hkey)
  obtain ⟨v, hv, hsame⟩ := h.exists_same hw
  exact ⟨v, w, hv, hw, hsame⟩

/-! ### Running statements -/

namespace Sql

/-- Whether a row meets a predicate: it holds null where null is tested for, and else a value that
is the same as the one of the predicate. -/
def Binding.isMet (b : Binding) (r : Row) : Bool :=
  match b.value, r.get? b.column with
  | .null, some .null => true
  | .null, _ => false
  | v, some w => w.same v
  | _, none => false

/-- The values that bindings give, as a row. -/
def Binding.row (bs : List Binding) : Row := .ofList (bs.map fun b => (b.column, b.value))

namespace Statement

/-- The rows that a statement picks out. An insertion picks none. -/
def meets : Statement → Row → Bool
  | .insert _ _, _ => false
  | .update _ _ condition, r => condition.all (·.isMet r)
  | .delete _ condition, r => condition.all (·.isMet r)

/-- The rows of a table after a statement. -/
def exec (s : Statement) (rows : List Row) : List Row :=
  match s with
  | .insert _ items => rows ++ [Binding.row items]
  | .update _ assignments _ =>
    rows.map fun r => if s.meets r then r.overlay (Binding.row assignments) else r
  | .delete _ _ => rows.filter (!s.meets ·)

/-- The rows of a table after several statements. -/
def execAll (statements : List Statement) (rows : List Row) : List Row :=
  statements.foldl (fun rows s => s.exec rows) rows

theorem isMet_iff {b : Binding} {r : Row} {v : Value} {dataType : Option String} {name : String}
    (h : b.Says name dataType v) :
    b.isMet r = true ↔ ∃ w, r.get? name = some w ∧ w.same v = true := by
  unfold Binding.isMet
  rw [h.column, h.value]
  cases v with
  | null =>
    cases r.get? name with
    | none => exact ⟨fun h => (by cases h), fun ⟨_, h, _⟩ => (by cases h)⟩
    | some w =>
      cases w with
      | null => exact ⟨fun _ => ⟨_, rfl, rfl⟩, fun _ => rfl⟩
      | foreign x =>
        cases x <;> exact ⟨fun h => (by cases h), fun ⟨_, h, h'⟩ => (by cases h; cases h')⟩
      | _ => exact ⟨fun h => (by cases h), fun ⟨_, h, h'⟩ => (by cases h; cases h')⟩
  | _ =>
    cases r.get? name with
    | none => exact ⟨fun h => (by cases h), fun ⟨_, h, _⟩ => (by cases h)⟩
    | some w => exact ⟨fun h => ⟨w, rfl, h⟩, fun ⟨_, h, h'⟩ => (by cases h; exact h')⟩

/-- Tests of columns, one after the other, are met by a row that holds the same values in them. -/
theorem forall_isMet_iff {content t : Row} {keys : List Column} {bs : List Binding}
    (h : List.Forall₂ (fun key b => ∃ v, content.get? key.name = some v
      ∧ b.Says key.name (some key.dataType) v) keys bs) :
    (∀ b ∈ bs, b.isMet t = true) ↔ ∀ key ∈ keys, ∃ v w, t.get? key.name = some v
      ∧ content.get? key.name = some w ∧ v.same w = true := by
  induction h with
  | nil => simp
  | cons hb _ ih =>
    obtain ⟨w, hw, hb⟩ := hb
    rw [List.forall_mem_cons, List.forall_mem_cons, isMet_iff hb]
    refine and_congr ?_ ih
    constructor
    · rintro ⟨v, hv, hsame⟩
      exact ⟨v, w, hv, hw, hsame⟩
    · rintro ⟨v, w', hv, hw', hsame⟩
      rw [hw] at hw'
      cases hw'
      exact ⟨v, hv, hsame⟩

/-- The condition that picks a row out by its primary key is met by the rows with the same key. -/
theorem meets_condition {content t : Row} {bs : List Binding}
    (hkeys : Column.keys columns ≠ []) (h : condition content columns = .ok bs) :
    bs.all (·.isMet t) = true ↔ SameKey columns t content := by
  rw [List.all_eq_true]
  exact forall_isMet_iff (condition_keyed hkeys h).2

theorem row_makeAll {fields : List (String × Value)} {bs : List Binding}
    (h : Binding.makeAll columns fields = .ok bs) : Binding.row bs = .ofList fields := by
  have hsays := Binding.says_makeAll h
  rw [Binding.row]
  congr 1
  clear h
  induction hsays with
  | nil => rfl
  | cons hb _ ih => rw [List.map_cons, ih, hb.column, hb.value]

end Statement

end Sql

/-! ### Hitting one row -/

/-- A row that has the key of one of the rows has the key of none of the others, if no two rows
share their key. -/
theorem not_sameKey_of_split {content : Row} {before after : List Row}
    (hcomparable : ∀ t ∈ before ++ a :: after, t.IsComparable) (hcontent : content.IsComparable)
    (hsame : SameKey columns a content) (hdiffer : KeysDiffer columns (before ++ a :: after)) :
    (∀ t ∈ before, ¬ SameKey columns t content) ∧ ∀ t ∈ after, ¬ SameKey columns t content := by
  have ha := hcomparable a (by simp)
  rw [KeysDiffer, List.pairwise_append, List.pairwise_cons] at hdiffer
  obtain ⟨-, ⟨hafter, -⟩, hbefore⟩ := hdiffer
  refine ⟨?_, ?_⟩
  · intro t ht hmet
    have htc := hcomparable t (by simp [ht])
    exact hbefore t ht a (.head _) (hmet.trans htc hcontent ha (hsame.symm ha hcontent))
  · intro t ht hmet
    have htc := hcomparable t (by simp [ht])
    exact hafter t ht (hsame.trans ha hcontent htc (hmet.symm htc hcontent))

namespace Sql.Statement

/-- Whether a statement picks out one row of a table and none of the others. -/
structure PicksOnly (s : Statement) (before : List Row) (a : Row) (after : List Row) : Prop where
  here : s.meets a = true
  before : ∀ t ∈ before, s.meets t = false
  after : ∀ t ∈ after, s.meets t = false

variable {s : Statement} {before after : List Row}

theorem PicksOnly.filter_meets (h : s.PicksOnly before a after) :
    (before ++ a :: after).filter s.meets = [a] := by
  have hbefore : before.filter s.meets = [] :=
    List.filter_eq_nil_iff.2 fun t ht => by simp [h.before t ht]
  have hafter : after.filter s.meets = [] :=
    List.filter_eq_nil_iff.2 fun t ht => by simp [h.after t ht]
  rw [List.filter_append, List.filter_cons_of_pos h.here, hbefore, hafter]
  rfl

/-- An update of one row leaves the others as they are. -/
theorem PicksOnly.exec_update {table : TableName} {assignments condition : List Binding}
    (h : PicksOnly (.update table assignments condition) before a after) :
    exec (.update table assignments condition) (before ++ a :: after)
      = before ++ a.overlay (Binding.row assignments) :: after := by
  have hkeep : ∀ rows : List Row,
      (∀ t ∈ rows, (update table assignments condition).meets t = false) →
      rows.map (fun r => if (update table assignments condition).meets r
        then r.overlay (Binding.row assignments) else r) = rows := by
    intro rows hrows
    have hid : rows.map (fun r => if (update table assignments condition).meets r
        then r.overlay (Binding.row assignments) else r) = rows.map id :=
      List.map_congr_left fun t ht => if_neg (by simp [hrows t ht])
    rw [hid, List.map_id]
  rw [exec, List.map_append, List.map_cons, if_pos h.here, hkeep _ h.before, hkeep _ h.after]

theorem PicksOnly.exec_delete {table : TableName} {condition : List Binding}
    (h : PicksOnly (.delete table condition) before a after) :
    exec (.delete table condition) (before ++ a :: after) = before ++ after := by
  have hkeep : ∀ rows : List Row, (∀ t ∈ rows, (delete table condition).meets t = false) →
      rows.filter (!(delete table condition).meets ·) = rows := by
    intro rows hrows
    exact List.filter_eq_self.2 fun t ht => by rw [hrows t ht]; rfl
  rw [exec, List.filter_append, List.filter_cons_of_neg (by simp [h.here]),
    hkeep _ h.before, hkeep _ h.after]

end Sql.Statement

/-! ### Updates and the rows that are shown -/

theorem Row.get?_ofList {fields : List (String × Value)} (h : (Assoc.keys fields).Nodup)
    (name : String) : (Row.ofList fields).get? name = Assoc.get? name fields := by
  have hfields : Assoc.putAll [] fields = fields :=
    Assoc.putAll_eq_append (by rwa [List.nil_append])
  show Assoc.get? name (Assoc.putAll [] fields) = _
  rw [hfields]

/-- Among the changed values of a row is found what it holds, unless the other row holds something
alike. -/
theorem get?_changed {data content : Row} {name : String} {v : Value} :
    (Row.ofList (Sql.Statement.changed data content)).get? name = some v
      ↔ data.get? name = some v ∧ ∀ old, content.get? name = some old → v.alike old = false := by
  have hnodup : (Assoc.keys (Sql.Statement.changed data content)).Nodup :=
    data.nodup.sublist (List.filter_sublist.map _)
  rw [Row.get?_ofList hnodup]
  constructor
  · intro h
    obtain ⟨hmem, hdiffer⟩ := Sql.Statement.mem_changed.1 (Assoc.mem_of_get? h)
    exact ⟨Assoc.get?_of_mem data.nodup hmem, hdiffer⟩
  · rintro ⟨hv, hdiffer⟩
    exact Assoc.get?_of_mem hnodup (Sql.Statement.mem_changed.2 ⟨Assoc.mem_of_get? hv, hdiffer⟩)

theorem get?_changed_of_none {data content : Row} {name : String} (h : data.get? name = none) :
    (Row.ofList (Sql.Statement.changed data content)).get? name = none := by
  rw [Option.eq_none_iff_forall_ne_some]
  intro v hget
  rw [(get?_changed.1 hget).1] at h
  cases h

theorem get?_changed_of_alike {data content : Row} {name : String} {v w : Value}
    (hv : data.get? name = some v) (hw : content.get? name = some w) (halike : v.alike w = true) :
    (Row.ofList (Sql.Statement.changed data content)).get? name = none := by
  rw [Option.eq_none_iff_forall_ne_some]
  intro v' hget
  obtain ⟨hv', hdiffer⟩ := get?_changed.1 hget
  rw [hv] at hv'
  cases hv'
  rw [hdiffer w hw] at halike
  cases halike

theorem get?_changed_of_not_alike {data content : Row} {name : String} {v w : Value}
    (hv : data.get? name = some v) (hw : content.get? name = some w) (halike : v.alike w = false) :
    (Row.ofList (Sql.Statement.changed data content)).get? name = some v := by
  refine get?_changed.2 ⟨hv, ?_⟩
  intro old hold
  rw [hw] at hold
  cases hold
  exact halike

/-- Rows agree after an update if every value that it leaves out is the same as the one that is
there already. -/
theorem Row.Agrees.overlay_changed {data content : Row} (h : a.Agrees content)
    (ha : a.IsComparable) (hcontent : content.IsComparable) (hdata : data.IsComparable)
    (hnames : ∀ name v, data.get? name = some v → (content.get? name).isSome)
    (hsame : ∀ name v w, data.get? name = some v → content.get? name = some w →
      v.alike w = true → v.same w = true) :
    (a.overlay (.ofList (Sql.Statement.changed data content))).Agrees (content.overlay data) := by
  intro name
  rw [Row.get?_overlay, Row.get?_overlay]
  cases hv : data.get? name with
  | none =>
    rw [get?_changed_of_none hv]
    exact h name
  | some v =>
    obtain ⟨w, hw⟩ := Option.isSome_iff_exists.1 (hnames name v hv)
    have hvc := hdata name v hv
    cases halike : v.alike w with
    | true =>
      -- the assignment is left out, and the row holds such a value already
      obtain ⟨u, hu, huw⟩ := h.exists_same hw
      have hwc := hcontent name w hw
      have hwv := Value.same_symm hvc.isProper hwc.isProper (hsame name v w hv hw halike)
      rw [get?_changed_of_alike hv hw halike, hu]
      exact .some (Value.same_trans (ha name u hu).isProper hwc.isProper hvc.isProper huw hwv)
    | false =>
      rw [get?_changed_of_not_alike hv hw halike]
      exact .some (Value.same_refl hvc.isProper hvc.isNan_eq_false)

theorem Row.IsComparable.overlay {r top : Row} (hr : r.IsComparable) (htop : top.IsComparable) :
    (r.overlay top).IsComparable := by
  intro name v hv
  rw [Row.get?_overlay] at hv
  rcases Option.or_eq_some_iff.1 hv with htop' | ⟨-, hr'⟩
  · exact htop name v htop'
  · exact hr name v hr'

end StagedTable
