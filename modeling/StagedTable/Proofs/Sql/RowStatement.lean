import StagedTable.Proofs.Sql.Reading
import StagedTable.Proofs.Value.Comparison

/-!
# What row statements say

A statement that is built for a row says of the table just what it was built to say, whatever the
names and the values hold: its text is read back to the table, to the columns that it sets and to
the columns that it tests, each with one literal that stands for the value (`read_generated`).

`Denotes` says which literal stands for a value, `Sets` what one assignment says and `PicksOut` what
a condition says of the row that it is about.
-/

namespace StagedTable.Sql

open Text

/-- Whether a literal stands for a value in a column of a data type: the bare word or number, a
string that names a double that is not finite, the string of a text, the string of an array literal
in an array column, and the JSON text of other lists and of documents. -/
inductive Denotes (dataType : Option String) : Value → Literal → Prop
  | null : Denotes dataType .null .null
  | bool (b : Bool) : Denotes dataType (.bool b) (.bool b)
  | int (n : Int) : Denotes dataType (.int n) (.number (signedDigits n))
  | float (x : FiniteDouble) : Denotes dataType (.float (.finite x)) (.number x.text)
  | infinity : Denotes dataType (.float (.infinite false)) (.string "Infinity".toList)
  | negativeInfinity : Denotes dataType (.float (.infinite true)) (.string "-Infinity".toList)
  | nan (object : Nat) : Denotes dataType (.float (.nan object)) (.string "NaN".toList)
  | text (s : String) : Denotes dataType (.text s) (.string s.toList)
  | array (items : List Value) (literal : List Char) : dataType.map Kind.ofType = some .array →
      ArrayLiteral.encode items = .ok literal → Denotes dataType (.list items) (.string literal)
  | list (items : List Value) : dataType.map Kind.ofType ≠ some .array →
      Denotes dataType (.list items) (.json (Value.list items).json)
  | document (fields : List (String × Value)) :
      Denotes dataType (.document fields) (.json (Value.document fields).json)

/-- What is written is the form that was asked for. -/
theorem eq_of_write {v : Value} {form : Value → List Char} {f : List Char → Literal} {l : Literal}
    (h : (v.write form).map f = .ok l) : f (form v) = l := by
  unfold Value.write at h
  split at h
  · cases h
  · exact Except.ok.inj h

/-- The literal that a value is rendered as stands for it. -/
theorem denotes_ofValue {dataType : Option String} {v : Value} {l : Literal}
    (h : Literal.ofValue dataType v = .ok l) : Denotes dataType v l := by
  cases v with
  | null => cases h; exact .null
  | bool b => cases h; exact .bool b
  | int n => cases eq_of_write h; exact .int n
  | float x =>
    cases h
    cases x with
    | finite x => exact .float x
    | infinite negative => cases negative <;> constructor
    | nan object => exact .nan object
  | text s => cases h; exact .text s
  | list items =>
    -- an array literal in an array column, a JSON text elsewhere
    rw [Literal.ofValue] at h
    split at h
    · next harray =>
      cases hencode : ArrayLiteral.encode items with
      | error e => rw [hencode] at h; cases h
      | ok literal =>
        rw [hencode] at h
        cases h
        exact .array items literal harray hencode
    · next harray =>
      cases eq_of_write h
      exact .list items fun e => harray e
  | document fields => cases eq_of_write h; exact .document fields
  | tuple items => cases h
  | foreign x => cases h

theorem Denotes.isWritten {dataType : Option String} {v : Value} {l : Literal}
    (h : Denotes dataType v l) : l.IsWritten := by
  cases h with
  | int n => exact ⟨_, _, signedDigits_eq n⟩
  | float x =>
    obtain ⟨w, hfloat, htext, hvalue⟩ := x.exists_written
    exact ⟨_, w, htext⟩
  | _ => trivial

/-- Whether an assignment puts the value of a field into its column. -/
def Sets (columns : List Column) (field : String × Value) (item : String × Literal) : Prop :=
  item.1 = field.1
    ∧ Denotes ((Column.find? field.1 columns).map (·.dataType)) field.2 item.2

/-- Whether a test of a column is met by a value: null is tested for as null and any other value
against a literal that stands for it. -/
def Tests (dataType : Option String) (v : Value) (test : Option Literal) : Prop :=
  match test with
  | none => v = .null
  | some l => v ≠ .null ∧ Denotes dataType v l

/-- Whether a condition picks a row out: by the values of all primary key columns, in order, if the
table has a primary key, else by all values of the row. -/
structure PicksOut (columns : List Column) (row : Row)
    (condition : List (String × Option Literal)) : Prop where
  ne_nil : condition ≠ []
  keys : Column.keys columns ≠ [] →
    List.Forall₂ (fun key test => test.1 = key.name
      ∧ ∃ v, row.get? key.name = some v ∧ Tests (some key.dataType) v test.2)
      (Column.keys columns) condition
  fields : Column.keys columns = [] →
    List.Forall₂ (fun field test => test.1 = field.1
      ∧ Tests ((Column.find? field.1 columns).map (·.dataType)) field.2 test.2)
      row.fields condition

/-! ### Lists side by side -/

section

variable {α β ε : Type}

/-- Where every one of some attempts succeeds, each result belongs to what it was attempted on. -/
theorem forall₂_of_mapM {f : α → Except ε β} {xs : List α} {ys : List β} (h : xs.mapM f = .ok ys) :
    List.Forall₂ (fun x y => f x = .ok y) xs ys := by
  induction xs generalizing ys with
  | nil =>
    cases h
    exact .nil
  | cons x rest ih =>
    rw [List.mapM_cons] at h
    cases hx : f x with
    | error e => rw [hx] at h; cases h
    | ok y =>
      cases hrest : rest.mapM f with
      | error e => rw [hx, hrest] at h; cases h
      | ok ys' =>
        rw [hx, hrest] at h
        cases h
        exact .cons hx (ih hrest)

theorem exists_of_forall₂ {r : α → β → Prop} {xs : List α} {ys : List β} (h : List.Forall₂ r xs ys)
    {y : β} (hy : y ∈ ys) : ∃ x ∈ xs, r x y := by
  induction h with
  | nil => cases hy
  | cons hr _ ih =>
    cases hy with
    | head => exact ⟨_, .head _, hr⟩
    | tail _ hy =>
      obtain ⟨x, hx, hxy⟩ := ih hy
      exact ⟨x, .tail _ hx, hxy⟩

end

/-! ### Bindings -/

namespace Binding

/-- Whether a binding says that a column of a data type holds a value. -/
structure Says (name : String) (dataType : Option String) (v : Value) (b : Binding) : Prop where
  column : b.column = name
  value : b.value = v
  denotes : Denotes dataType v b.literal

variable {name : String} {dataType : Option String} {v : Value} {b : Binding}

theorem Says.isWritten (h : Says name dataType v b) : b.literal.IsWritten := h.denotes.isWritten

theorem Says.assigned (h : Says name dataType v b) :
    b.assigned.1 = name ∧ Denotes dataType v b.assigned.2 := ⟨h.column, h.denotes⟩

theorem Says.tested (h : Says name dataType v b) :
    b.tested.1 = name ∧ Tests dataType v b.tested.2 := by
  obtain ⟨hcolumn, hvalue, hdenotes⟩ := h
  unfold Binding.tested
  rw [hvalue]
  cases v with
  | null => exact ⟨hcolumn, rfl⟩
  | _ => exact ⟨hcolumn, Value.noConfusion, hdenotes⟩

theorem says_make {columns : List Column} (h : make columns name v = .ok b) :
    Says name ((Column.find? name columns).map (·.dataType)) v b := by
  unfold make at h
  split at h
  · next literal hliteral =>
    cases h
    exact ⟨rfl, rfl, denotes_ofValue hliteral⟩
  · cases h

/-- The bindings of named values say one after the other what the values are. -/
theorem says_makeAll {columns : List Column} {fields : List (String × Value)} {bs : List Binding}
    (h : makeAll columns fields = .ok bs) :
    List.Forall₂ (fun field b =>
      Says field.1 ((Column.find? field.1 columns).map (·.dataType)) field.2 b) fields bs :=
  (forall₂_of_mapM h).imp fun _ _ => says_make

end Binding

namespace Statement

/-- Without a primary key a condition tests all values of the row, of which there are some. -/
theorem condition_keyless {row : Row} {columns : List Column} {bs : List Binding}
    (hkeys : Column.keys columns = []) (h : condition row columns = .ok bs) :
    bs ≠ [] ∧ List.Forall₂ (fun field b =>
      b.Says field.1 ((Column.find? field.1 columns).map (·.dataType)) field.2) row.fields bs := by
  unfold condition at h
  rw [hkeys] at h
  dsimp only at h
  split at h
  · cases h
  · next hrow =>
    have hsays := Binding.says_makeAll h
    refine ⟨?_, hsays⟩
    rintro rfl
    rw [List.forall₂_nil_right_iff] at hsays
    exact hrow (by rw [Row.isEmpty, hsays]; rfl)

/-- With a primary key a condition tests its columns, in order, all of which the row has. -/
theorem condition_keyed {row : Row} {columns : List Column} {bs : List Binding}
    (hkeys : Column.keys columns ≠ []) (h : condition row columns = .ok bs) :
    bs ≠ [] ∧ List.Forall₂ (fun key b => ∃ v, row.get? key.name = some v
      ∧ b.Says key.name (some key.dataType) v) (Column.keys columns) bs := by
  unfold condition at h
  split at h
  · next hnil => exact absurd hnil hkeys
  · split at h
    · next hmissing =>
      have hbound := forall₂_of_mapM h
      -- no column is missing, so that none is tested against a null in its place
      have hpresent : ∀ c ∈ Column.keys columns, (row.get? c.name).isSome := by
        intro c hc
        have hc := List.filter_eq_nil_iff.1 hmissing c hc
        simpa [Row.has, Option.isSome_iff_ne_none] using hc
      have hsays := (List.forall₂_and_left _ _).2 ⟨hpresent, hbound⟩
      refine ⟨?_, hsays.imp ?_⟩
      · rintro rfl
        rw [List.forall₂_nil_right_iff] at hbound
        exact hkeys hbound
      · rintro c b ⟨hsome, hb⟩
        obtain ⟨v, hv⟩ := Option.isSome_iff_exists.1 hsome
        refine ⟨v, hv, ?_⟩
        rw [hv, Option.getD_some] at hb
        split at hb
        · next literal hliteral =>
          cases hb
          exact ⟨rfl, rfl, denotes_ofValue hliteral⟩
        · cases hb
    · cases h

theorem condition_ne_nil {row : Row} {columns : List Column} {bs : List Binding}
    (h : condition row columns = .ok bs) : bs ≠ [] := by
  by_cases hkeys : Column.keys columns = []
  · exact (condition_keyless hkeys h).1
  · exact (condition_keyed hkeys h).1

theorem picksOut_of_condition {row : Row} {columns : List Column} {bs : List Binding}
    (h : condition row columns = .ok bs) : PicksOut columns row (bs.map (·.tested)) := by
  constructor
  case ne_nil => simpa using condition_ne_nil h
  case keys =>
    intro hkeys
    refine List.forall₂_map_right_iff.2 ((condition_keyed hkeys h).2.imp ?_)
    rintro c b ⟨v, hv, hb⟩
    exact ⟨hb.tested.1, v, hv, hb.tested.2⟩
  case fields =>
    intro hkeys
    exact List.forall₂_map_right_iff.2 ((condition_keyless hkeys h).2.imp fun _ _ hb => hb.tested)

theorem isWritten_of_condition {row : Row} {columns : List Column} {bs : List Binding}
    (h : condition row columns = .ok bs) : ∀ b ∈ bs, b.literal.IsWritten := by
  intro b hb
  by_cases hkeys : Column.keys columns = []
  · obtain ⟨field, -, hsays⟩ := exists_of_forall₂ (condition_keyless hkeys h).2 hb
    exact hsays.isWritten
  · obtain ⟨key, -, v, -, hsays⟩ := exists_of_forall₂ (condition_keyed hkeys h).2 hb
    exact hsays.isWritten

/-! ### The three statements -/

theorem isWritten_of_makeAll {columns : List Column} {fields : List (String × Value)}
    {bs : List Binding} (h : Binding.makeAll columns fields = .ok bs) :
    ∀ b ∈ bs, b.literal.IsWritten := by
  intro b hb
  obtain ⟨field, -, hsays⟩ := exists_of_forall₂ (Binding.says_makeAll h) hb
  exact hsays.isWritten

theorem sets_of_makeAll {columns : List Column} {fields : List (String × Value)}
    {bs : List Binding} (h : Binding.makeAll columns fields = .ok bs) :
    List.Forall₂ (Sets columns) fields (bs.map (·.assigned)) :=
  List.forall₂_map_right_iff.2 ((Binding.says_makeAll h).imp fun _ _ hb => hb.assigned)

theorem insertRow_ok {table : TableName} {data : Row} {columns : List Column} {s : Statement}
    (h : insertRow table data columns = .ok s) :
    ∃ items, s = .insert table items ∧ Binding.makeAll columns data.fields = .ok items := by
  unfold insertRow at h
  cases hitems : Binding.makeAll columns data.fields with
  | error e => rw [hitems] at h; cases h
  | ok items =>
    rw [hitems] at h
    cases h
    exact ⟨items, rfl, rfl⟩

/-- Where the comparison succeeds, it tells whether the other row lacks the value or holds it with
other content. -/
theorem of_changes {preimage : Row} {name : String} {value : Value} {b : Bool}
    (h : changes preimage name value = .ok b) :
    (match preimage.get? name with
      | none => true
      | some old => !value.alike old) = b := by
  unfold changes at h
  cases hold : preimage.get? name with
  | none =>
    rw [hold] at h
    exact Except.ok.inj h
  | some old =>
    rw [hold] at h
    dsimp only at h ⊢
    split at h
    · next hcompare =>
      rw [Value.alike_of_compare hcompare]
      exact Except.ok.inj h
    · cases h

/-- What is assigned are the values that the other row lacks or holds with other content. -/
theorem makeAll_of_assignments {columns : List Column} {preimage : Row}
    {fields : List (String × Value)} {bs : List Binding}
    (h : assignments columns preimage fields = .ok bs) :
    Binding.makeAll columns (fields.filter fun (name, value) =>
      match preimage.get? name with
      | none => true
      | some old => !value.alike old) = .ok bs := by
  induction fields generalizing bs with
  | nil => exact h
  | cons field rest ih =>
    obtain ⟨name, value⟩ := field
    unfold assignments at h
    cases hchanges : changes preimage name value with
    | error e => rw [hchanges] at h; cases h
    | ok changed =>
      rw [hchanges] at h
      have hkept := of_changes hchanges
      cases changed with
      | false =>
        rw [List.filter_cons_of_neg (Bool.not_eq_true _ ▸ hkept)]
        exact ih h
      | true =>
        rw [List.filter_cons_of_pos (by exact hkept), Binding.makeAll, List.mapM_cons]
        dsimp only
        cases hmake : Binding.make columns name value with
        | error e => rw [hmake] at h; cases h
        | ok b =>
          rw [hmake] at h
          cases hrest : assignments columns preimage rest with
          | error e => rw [hrest] at h; cases h
          | ok more =>
            rw [hrest] at h
            cases h
            have hmore := ih hrest
            rw [Binding.makeAll] at hmore
            rw [hmore]
            rfl

theorem updateRow_ok {table : TableName} {data preimage : Row} {columns : List Column}
    {s : Statement} (h : updateRow table data preimage columns = .ok s) :
    ∃ assignments bs, s = .update table assignments bs ∧ assignments ≠ []
      ∧ Binding.makeAll columns (changed data preimage) = .ok assignments
      ∧ condition preimage columns = .ok bs := by
  unfold updateRow at h
  cases hassignments : Statement.assignments columns preimage data.fields with
  | error e => rw [hassignments] at h; cases h
  | ok assignments =>
    have hmake : Binding.makeAll columns (changed data preimage) = .ok assignments :=
      makeAll_of_assignments hassignments
    rw [hassignments] at h
    cases assignments with
    | nil => cases h
    | cons b rest =>
      cases hcondition : condition preimage columns with
      | error e => rw [hcondition] at h; cases h
      | ok bs =>
        rw [hcondition] at h
        cases h
        exact ⟨_, _, rfl, List.cons_ne_nil _ _, hmake, rfl⟩

theorem deleteRow_ok {table : TableName} {data : Row} {columns : List Column} {s : Statement}
    (h : deleteRow table data columns = .ok s) :
    ∃ bs, s = .delete table bs ∧ condition data columns = .ok bs := by
  unfold deleteRow at h
  cases hcondition : condition data columns with
  | error e => rw [hcondition] at h; cases h
  | ok bs =>
    rw [hcondition] at h
    cases h
    exact ⟨bs, rfl, rfl⟩

/-- The changed values of a row are those that the other row lacks or holds with other content. -/
theorem mem_changed {data preimage : Row} {field : String × Value} :
    field ∈ changed data preimage ↔ field ∈ data.fields
      ∧ ∀ old, preimage.get? field.1 = some old → field.2.alike old = false := by
  rw [changed, List.mem_filter]
  apply and_congr_right
  intro _
  cases hold : preimage.get? field.1 with
  | none => simp [hold]
  | some old => simp [hold]

/-- The text of a statement that is built for a row is read back whole: to the table, to the columns
that it sets and to the columns that it tests, each with a literal that stands for the value. An
insertion sets all values of the row, an update those that changed. -/
theorem read_generated :
    (∀ table data columns s, insertRow table data columns = .ok s →
      ∃ items, read s.sql = some (.insert table items)
        ∧ List.Forall₂ (Sets columns) data.fields items)
    ∧ (∀ table data preimage columns s, updateRow table data preimage columns = .ok s →
      ∃ fields assignments condition, read s.sql = some (.update table assignments condition)
        ∧ fields.Sublist data.fields
        ∧ (∀ field ∈ data.fields, field ∈ fields
          ↔ ∀ old, preimage.get? field.1 = some old → field.2.alike old = false)
        ∧ assignments ≠ [] ∧ List.Forall₂ (Sets columns) fields assignments
        ∧ PicksOut columns preimage condition)
    ∧ (∀ table data columns s, deleteRow table data columns = .ok s →
      ∃ condition, read s.sql = some (.delete table condition)
        ∧ PicksOut columns data condition) := by
  refine ⟨?_, ?_, ?_⟩
  · intro table data columns s h
    obtain ⟨items, rfl, hitems⟩ := insertRow_ok h
    exact ⟨_, read_sql (isWritten_of_makeAll hitems), sets_of_makeAll hitems⟩
  · intro table data preimage columns s h
    obtain ⟨assignments, bs, rfl, hne, hassignments, hcondition⟩ := updateRow_ok h
    have hwritten : IsWritten (.update table assignments bs) :=
      ⟨hne, condition_ne_nil hcondition, isWritten_of_makeAll hassignments,
        isWritten_of_condition hcondition⟩
    refine ⟨changed data preimage, _, _, read_sql hwritten, List.filter_sublist, ?_, ?_,
      sets_of_makeAll hassignments, picksOut_of_condition hcondition⟩
    · intro field hfield
      exact ⟨fun h => (mem_changed.1 h).2, fun h => mem_changed.2 ⟨hfield, h⟩⟩
    · simpa using hne
  · intro table data columns s h
    obtain ⟨bs, rfl, hcondition⟩ := deleteRow_ok h
    have hwritten : IsWritten (.delete table bs) :=
      ⟨condition_ne_nil hcondition, isWritten_of_condition hcondition⟩
    exact ⟨_, read_sql hwritten, picksOut_of_condition hcondition⟩

/-- A table whose names hold quotes and comment marks. -/
def quotedTable : TableName := ⟨"s\"", "t\"; --"⟩

/-- The columns of that table, the first of them its primary key. -/
def quotedColumns : List Column :=
  [.bare "id" "integer" false true, .bare "na\"me = 1" "text" true false]

/-- A row of that table as it was fetched. -/
def fetchedRow : Row := ⟨[("id", .int (-5)), ("na\"me = 1", .null)], by decide⟩

/-- The same row after an edit. -/
def editedRow : Row := ⟨[("id", .int (-5)), ("na\"me = 1", .text "it's; /* \\' --")], by decide⟩

theorem read_generated_quoted :
    (∃ s items, insertRow quotedTable editedRow quotedColumns = .ok s
      ∧ read s.sql = some (.insert quotedTable items)
      ∧ List.Forall₂ (Sets quotedColumns) editedRow.fields items)
    ∧ (∃ s fields assignments condition,
      updateRow quotedTable editedRow fetchedRow quotedColumns = .ok s
      ∧ read s.sql = some (.update quotedTable assignments condition)
      ∧ List.Forall₂ (Sets quotedColumns) fields assignments
      ∧ PicksOut quotedColumns fetchedRow condition)
    ∧ (∃ s condition, deleteRow quotedTable fetchedRow [] = .ok s
      ∧ read s.sql = some (.delete quotedTable condition)
      ∧ PicksOut [] fetchedRow condition) := by
  obtain ⟨hinsert, hupdate, hdelete⟩ := read_generated
  refine ⟨?_, ?_, ?_⟩
  · obtain ⟨items, hread, hsets⟩ := hinsert quotedTable editedRow quotedColumns _ rfl
    exact ⟨_, items, rfl, hread, hsets⟩
  · obtain ⟨fields, assignments, condition, hread, -, -, -, hsets, hpicks⟩ :=
      hupdate quotedTable editedRow fetchedRow quotedColumns _ rfl
    exact ⟨_, fields, assignments, condition, rfl, hread, hsets, hpicks⟩
  · obtain ⟨condition, hread, hpicks⟩ := hdelete quotedTable fetchedRow [] _ rfl
    exact ⟨_, condition, rfl, hread, hpicks⟩

end Statement

end StagedTable.Sql
