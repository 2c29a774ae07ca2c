import StagedTable.Proofs.Session.Calls
import StagedTable.Proofs.Value.Decoding

/-!
# Rows of decoded values

Whatever a driver hands over, once it is decoded it can be shown, edited and written: it is a cell
value that decodes to itself, and it has an editable text, a JSON text and a literal. So a row of
decoded values can be staged for deletion (`exists_deleteRow`). Values that are not decoded have no
literal (`decoded_renders`).
-/

namespace StagedTable

open Text

/-! ### Deletion -/

/-- If an attempt succeeds on each thing of a list, it succeeds on the list. -/
theorem exists_mapM {α β ε : Type} {f : α → Except ε β} {xs : List α}
    (h : ∀ x ∈ xs, ∃ y, f x = .ok y) : ∃ ys, xs.mapM f = .ok ys := by
  induction xs with
  | nil => exact ⟨[], rfl⟩
  | cons x rest ih =>
    obtain ⟨y, hy⟩ := h x (.head _)
    obtain ⟨ys, hys⟩ := ih fun z hz => h z (.tail _ hz)
    refine ⟨y :: ys, ?_⟩
    rw [List.mapM_cons, hy, hys]
    rfl

section

variable {row : Row} {columns : List Column}
  (hcells : ∀ field ∈ row.fields, field.2.IsReadable)
include hcells

/-- A row of cell values that has the primary key, or any value if the table has none, can be picked
out by a condition. -/
theorem Sql.Statement.exists_condition (hkeys : ∀ c ∈ Column.keys columns, row.has c.name = true)
    (hne : row.isEmpty = false) : ∃ bs, condition row columns = .ok bs := by
  unfold condition
  split
  · rw [hne]
    refine exists_mapM fun field hfield => ?_
    obtain ⟨l, hl⟩ := (hcells field hfield).exists_literal
      ((Column.find? field.1 columns).map (·.dataType))
    exact ⟨⟨field.1, field.2, l⟩, by simp only [Binding.make, hl]⟩
  · next hcolumns =>
    have hpresent : ((Column.keys columns).filter fun c => !row.has c.name) = [] := by
      rw [List.filter_eq_nil_iff]
      exact fun c hc => by simp [hkeys c hc]
    rw [hpresent]
    refine exists_mapM fun c hc => ?_
    obtain ⟨v, hv⟩ := Option.isSome_iff_exists.1 (hkeys c hc)
    obtain ⟨l, hl⟩ := (hcells _ (Assoc.mem_of_get? hv)).exists_literal (some c.dataType)
    refine ⟨⟨c.name, v, l⟩, ?_⟩
    rw [hv, Option.getD_some, hl]

/-- A row of cell values that can be picked out can be staged for deletion, unless it is pending
already. -/
theorem Session.exists_deleteRow {d : Desk} {i : Int} (hopen : d.openRow i = .ok row)
    (hkeys : ∀ c ∈ Column.keys d.session.data.columns, row.has c.name = true)
    (hne : row.isEmpty = false) : ∃ c d', Session.deleteRow i d = (.ok c, d') := by
  obtain ⟨bs, hbs⟩ := Sql.Statement.exists_condition hcells hkeys hne
  have hstatement : Sql.Statement.ofChange .delete d.session.table row (some row)
      d.session.data.columns = .ok (.delete d.session.table bs) := by
    rw [Sql.Statement.ofChange, Option.getD_some, Sql.Statement.deleteRow, hbs]
    rfl
  have hstage : ∃ c staging, stage .delete row (some row) d = (.ok c, { d with staging }) := by
    rw [stage, Staging.add, hstatement]
    exact ⟨_, _, rfl⟩
  obtain ⟨c, staging, hstage⟩ := hstage
  refine ⟨c, Desk.mapSession (·.mapEdits (·.eraseRow i)) { d with staging }, ?_⟩
  rw [deleteRow, Attempt.bind_of_ok (by rw [Attempt.look_apply, hopen]),
    Attempt.bind_of_ok hstage]
  rfl

end

/-! ### Decoded values -/

/-- What a driver hands over is decoded to a cell value, which decodes to itself, is read back from
its JSON text (not-a-number as another object), and has an editable text and a literal in columns of
any type and an array literal if it is a list. So a row of decoded values that is not pending delete
can be staged for deletion. A single value of a class that no cell holds has no literal. -/
theorem decoded_renders :
    (∀ w : DriverValue, w.IsBounded → w.decode.IsCell ∧ w.decode.decode = w.decode
      ∧ Json.firstFault? w.decode = none ∧ w.decode.toJson = .ok w.decode.json
      ∧ Json.read w.decode.json = some w.decode.reread
      ∧ (∀ dataType, ∃ cs, w.decode.format dataType = .ok cs
        ∧ w.decode.formatCut dataType = .ok (truncate truncateLength cs))
      ∧ (∀ dataType, ∃ l, Sql.Literal.ofValue dataType w.decode = .ok l)
      ∧ (∀ items, w.decode = .list items → ∃ cs, ArrayLiteral.encode items = .ok cs))
    ∧ (∀ (d : Desk) (i : Int) (row : Row), d.openRow i = .ok row →
      (∀ field ∈ row.fields, ∃ w : DriverValue, w.IsBounded ∧ field.2 = w.decode) →
      (∀ c ∈ Column.keys d.session.data.columns, row.has c.name = true) → row.isEmpty = false →
      ∃ c d', Session.deleteRow i d = (.ok c, d'))
    ∧ ∀ (x : Foreign) (dataType : Option String),
      Sql.Literal.ofValue dataType (.foreign x) = .error (.noLiteral x.typeName) := by
  refine ⟨fun w hw => ?_, fun d i row hopen hdecoded hkeys hne => ?_, fun _ _ => rfl⟩
  · have hreadable := hw.isReadable_decode
    have hfault := hreadable.firstFault?
    rw [hreadable.holdsLong] at hfault
    refine ⟨hreadable.isCell, Value.decode_eq_self _ hreadable.isCell, hfault,
      hreadable.write_eq Value.json, Json.read_json hreadable, fun dataType => ?_,
      hreadable.exists_literal, ?_⟩
    · obtain ⟨cs, hcs⟩ := hreadable.exists_format dataType
      exact ⟨cs, hcs, by rw [Value.formatCut, hcs]; rfl⟩
    · intro items hitems
      rw [hitems] at hreadable
      cases hreadable with
      | list _ hitems => exact ⟨_, ArrayLiteral.encode_eq hitems⟩
  · have hreadable : ∀ field ∈ row.fields, field.2.IsReadable := by
      intro field hfield
      obtain ⟨w, hw, hvalue⟩ := hdecoded field hfield
      exact hvalue ▸ hw.isReadable_decode
    exact Session.exists_deleteRow hreadable hopen hkeys hne

/-- A document with a number and its text for names, and with binary data and decimal numbers below
them. -/
def measurement : DriverValue :=
  .document [
    (.int 7, .single .null),
    (.text "at",
      .tuple [.single (.foreign (.decimal "12.50")), .single (.foreign (.decimal "NaN"))]),
    (.text "7", .list [.single (.foreign (.binary .bytes [0, 255])), .single (.bool true)])]

/-- The row that holds the document as it is decoded. -/
def measurementRow : Row :=
  ⟨[("id", .int 1), ("doc", measurement.decode)], by simp [Assoc.keys]⟩

/-- A desk with that row. -/
def measurementDesk : Desk :=
  ⟨.start ⟨"public", "measurements"⟩
    ⟨[.bare "id" "integer" false true, .bare "doc" "jsonb" true false], [measurementRow]⟩ none,
    .empty⟩

theorem isBounded_measurement : measurement.IsBounded := by
  have hforeign : ∀ x : Foreign, (∀ s, x = .decimal s → s = "12.50" ∨ s = "NaN") →
      (DriverValue.single (.foreign x)).IsBounded := by
    refine fun x hx => .single _ (.foreign x fun s n hs hn => ?_)
    rcases hx s hs with rfl | rfl
    · have hnone : (Decimal.ofText "12.50".toList).toInt? = none := by decide +kernel
      rw [hnone] at hn
      cases hn
    · have hnone : (Decimal.ofText "NaN".toList).toInt? = none := by decide +kernel
      rw [hnone] at hn
      cases hn
  have hshort : Value.IsShort 7 := by unfold Value.IsShort; decide
  unfold measurement
  refine .document _ ?_ ?_
  · simp only [List.forall_mem_cons]
    exact ⟨.int 7 hshort, .text _, .text _, fun _ h => nomatch h⟩
  · simp only [List.forall_mem_cons]
    refine ⟨.single _ .null, .tuple _ ?_, .list _ ?_, fun _ h => nomatch h⟩
    · simp only [List.forall_mem_cons]
      exact ⟨hforeign _ (by simp), hforeign _ (by simp), fun _ h => nomatch h⟩
    · simp only [List.forall_mem_cons]
      exact ⟨hforeign _ (by simp), .single _ (.bool true), fun _ h => nomatch h⟩

theorem decoded_renders_measurement :
    measurement.IsBounded
    ∧ (measurement.decode.IsCell ∧ measurement.decode.decode = measurement.decode
      ∧ Json.read measurement.decode.json = some measurement.decode.reread
      ∧ ∃ l, Sql.Literal.ofValue (some "jsonb") measurement.decode = .ok l)
    ∧ measurementDesk.openRow 0 = .ok measurementRow
    ∧ (∃ c d', Session.deleteRow 0 measurementDesk = (.ok c, d'))
    ∧ Sql.Literal.ofValue (some "jsonb") (.foreign (.decimal "12.50"))
      = .error (.noLiteral "Decimal") := by
  have hdocument := decoded_renders.1 measurement isBounded_measurement
  obtain ⟨hcell, hself, -, -, hread, -, hliteral, -⟩ := hdocument
  have hopen : measurementDesk.openRow 0 = .ok measurementRow := rfl
  have hdecoded : ∀ field ∈ measurementRow.fields,
      ∃ w : DriverValue, w.IsBounded ∧ field.2 = w.decode := by
    have hshort : Value.IsShort 1 := by unfold Value.IsShort; decide
    show ∀ field ∈ [("id", Value.int 1), ("doc", measurement.decode)], _
    simp only [List.forall_mem_cons]
    exact ⟨⟨.single (.int 1), .single _ (.int 1 hshort), rfl⟩,
      ⟨measurement, isBounded_measurement, rfl⟩, fun _ h => nomatch h⟩
  refine ⟨isBounded_measurement, ⟨hcell, hself, hread, hliteral _⟩, hopen, ?_,
    decoded_renders.2.2 _ _⟩
  refine decoded_renders.2.1 measurementDesk 0 measurementRow hopen hdecoded ?_ rfl
  show ∀ c ∈ [Column.bare "id" "integer" false true], _
  simp only [List.forall_mem_cons]
  exact ⟨rfl, fun _ h => nomatch h⟩

end StagedTable
