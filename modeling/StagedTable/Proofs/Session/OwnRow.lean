import StagedTable.Proofs.Session.Addressing

/-!
# Finding a row by its own values

A row is looked for by the values that it had when its change was staged, so it has to hold its own
values to be found. It does exactly if none of them is not-a-number (`Row.holds_self_iff`), and then
it is found at its own place or before. No row at all holds the values of a row with not-a-number: a
change of such a row is staged and its statement is run, but the view shows nothing of it
(`own_row_found`). A list or a document with not-a-number inside is no such value.
-/

namespace StagedTable

/-! ### Rows -/

namespace Row

variable {r t : Row}

/-- Whether a cell of a row is not-a-number itself; lists and documents that hold it do not count,
as they are equal to themselves. -/
def hasNan (r : Row) : Bool := r.fields.any (·.2.isNan)

/-- A row that some row holds the values of has no not-a-number. -/
theorem hasNan_eq_false_of_holds (hr : r.IsProper) (ht : t.IsProper) (h : t.holds r = true) :
    r.hasNan = false := by
  rw [hasNan, List.any_eq_false]
  rintro ⟨name, v⟩ hfield
  have hv : v.IsProper := hr name v (Assoc.get?_of_mem r.nodup hfield)
  have hsame := List.all_eq_true.1 h _ hfield
  cases hw : t.get? name with
  | none => simp only [hw, Bool.false_eq_true] at hsame
  | some w =>
    simp only [hw] at hsame
    rw [Value.isNan_eq_false_of_same (ht name w hw) hv hsame]
    exact Bool.false_ne_true

/-- A row matches itself exactly if it has no not-a-number. -/
theorem holds_self_iff (hr : r.IsProper) : r.holds r = true ↔ r.hasNan = false := by
  refine ⟨hasNan_eq_false_of_holds hr hr, fun hnan => ?_⟩
  rw [holds, List.all_eq_true]
  rintro ⟨name, v⟩ hfield
  have hget : r.get? name = some v := Assoc.get?_of_mem r.nodup hfield
  have hv := List.any_eq_false.1 hnan _ hfield
  simp only [hget]
  exact Value.same_refl (hr name v hget) (Bool.eq_false_iff.2 hv)

end Row

/-! ### Looking for a row -/

section

variable {skipped : Nat → Bool} {preimage r : Row} {rows : List Row}

/-- Where a row holds the pre-image, it or one before it is found. -/
theorem findRowFrom_le {start i : Nat} (hget : rows[i]? = some r)
    (hskipped : skipped (start + i) = false) (hholds : r.holds preimage = true) :
    ∃ j, j ≤ start + i ∧ findRowFrom skipped preimage start rows = some j := by
  induction rows generalizing start i with
  | nil => cases hget
  | cons t rest ih =>
    rw [findRowFrom]
    split
    · exact ⟨start, Nat.le_add_right .., rfl⟩
    · next ht =>
      cases i with
      | zero =>
        cases hget
        rw [Nat.add_zero] at hskipped
        exact absurd (by rw [hskipped, hholds]; rfl) ht
      | succ i =>
        have hskipped' : skipped (start + 1 + i) = false := by
          rwa [Nat.add_right_comm, Nat.add_assoc]
        obtain ⟨j, hj, hfound⟩ := ih hget hskipped'
        exact ⟨j, by omega, hfound⟩

theorem findRow_eq_none (h : ∀ t ∈ rows, t.holds preimage = false) :
    findRow skipped preimage rows = none := by
  have hnone : ∀ start, findRowFrom skipped preimage start rows = none := by
    induction rows with
    | nil => exact fun _ => rfl
    | cons t rest ih =>
      intro start
      rw [findRowFrom, h t (.head _), Bool.and_false, if_neg Bool.false_ne_true]
      exact ih (fun w hw => h w (.tail _ hw)) (start + 1)
  exact hnone 0

/-- A row that is not skipped is found by its own values, there or before, if none of them is
not-a-number, and else no row is. -/
theorem findRow_own {i : Nat} (hproper : ∀ t ∈ rows, t.IsProper) (hget : rows[i]? = some r)
    (hskipped : skipped i = false) :
    (r.hasNan = false → ∃ j, j ≤ i ∧ findRow skipped r rows = some j)
    ∧ (r.hasNan = true → findRow skipped r rows = none) := by
  have hr := hproper r (List.mem_of_getElem? hget)
  constructor
  · intro hnan
    rw [← Nat.zero_add i] at hskipped
    obtain ⟨j, hj, hfound⟩ := findRowFrom_le hget hskipped ((Row.holds_self_iff hr).2 hnan)
    exact ⟨j, by omega, hfound⟩
  · intro hnan
    refine findRow_eq_none fun t ht => ?_
    rw [Bool.eq_false_iff]
    intro hholds
    rw [Row.hasNan_eq_false_of_holds hr (hproper t ht) hholds] at hnan
    cases hnan

end

/-! ### The change of a row -/

/-- What becomes of a change of a row that was staged: it is given to the row or to one before it
that holds the same values, or, if one of the values is not-a-number, to none, and what is staged
looks as it did before. -/
structure Desk.Gives (d : Desk) (i : Nat) (c : Change) (d' : Desk) : Prop where
  staged : d'.changes = d.changes ++ [c]
  shown : ∃ content, d.staged.rows[i]? = some content ∧ c.preimage = some content
    ∧ (content.hasNan = false →
        ∃ j, j ≤ i ∧ d.staged.target? c = some j ∧ d'.staged = d.staged.apply c)
    ∧ (content.hasNan = true → d'.staged = d.staged)

variable {d d' : Desk} {i : Int} {content data : Row} {kind : ChangeKind} {c : Change}

theorem Session.Stages.gives (h : Stages d kind data (some content) c d') (hkind : kind ≠ .insert)
    (hopen : d.openRow i = .ok content) (hproper : ∀ r ∈ d.staged.rows, r.IsProper) :
    d.Gives i.toNat c d' := by
  obtain ⟨-, hget, hisOpen⟩ := Desk.openRow_ok.1 hopen
  have htarget := View.target?_eq_findRow (v := d.staged) (by rwa [h.kind_eq]) h.preimage_eq
  have hown := findRow_own hproper hget hisOpen
  refine ⟨h.changes, content, hget, h.preimage_eq, ?_, ?_⟩
  · intro hnan
    obtain ⟨j, hj, hfound⟩ := hown.1 hnan
    exact ⟨j, hj, htarget.trans hfound, h.staged_eq⟩
  · intro hnan
    rw [h.staged_eq, View.apply_of_none (htarget.trans (hown.2 hnan))]

/-- A row holds its own values exactly if none of them is not-a-number, and then it is found by them
at its own place or before, whatever other rows are skipped; else it is not found. So where the rows
are those of a view, the change of a row is shown, or nothing of it is. -/
theorem own_row_found (rows : List Row) (hproper : ∀ r ∈ rows, r.IsProper) :
    (∀ r ∈ rows, r.holds r = true ↔ r.hasNan = false)
    ∧ (∀ (skipped : Nat → Bool) (i : Nat) (r : Row), rows[i]? = some r → skipped i = false →
        (r.hasNan = false → ∃ j, j ≤ i ∧ findRow skipped r rows = some j)
        ∧ (r.hasNan = true → findRow skipped r rows = none))
    ∧ ∀ (d : Desk) (i : Int) (c : Change) (d' : Desk), d.staged.rows = rows →
        Session.deleteRow i d = (.ok c, d') ∨ Session.stageRow i d = (.ok (some c), d') →
        d.Gives i.toNat c d' := by
  refine ⟨fun r hr => Row.holds_self_iff (hproper r hr), fun skipped i r => findRow_own hproper, ?_⟩
  rintro d i c d' rfl (hdelete | hstage)
  · rcases Session.deleteRow_cases i d with
      ⟨e, he⟩ | ⟨content, c, d₁, hopen, hstages, he⟩ <;> rw [he] at hdelete <;> cases hdelete
    have hgives := hstages.gives (by decide) hopen hproper
    exact ⟨hgives.staged, hgives.shown⟩
  · rcases Session.stageRow_cases i d with
      ⟨e, he⟩ | he | ⟨content, c, d₁, hopen, hstages, he⟩ <;> rw [he] at hstage <;> cases hstage
    have hgives := hstages.gives (by decide) hopen hproper
    exact ⟨hgives.staged, hgives.shown⟩

/-- A gauge and the level that it reads. -/
def gauge (id : Int) (level : Double) : Row := .ofList [("id", .int id), ("level", .float level)]

/-- Two gauges, one of which reads no number. -/
def gauges : TableData :=
  ⟨[.bare "id" "integer" false true, .bare "level" "double precision" true false],
    [gauge 1 (.nan 1), gauge 2 (.zero false)]⟩

/-- The gauges with nothing staged. -/
def gaugesDesk : Desk := ⟨Session.start ⟨"public", "gauges"⟩ gauges none, .empty⟩

theorem isProper_gauge (id : Int) (level : Double) : (gauge id level).IsProper := by
  intro name v hv
  have hfield : (name, v) ∈ [("id", .int id), ("level", .float level)] := Assoc.mem_of_get? hv
  simp only [List.mem_cons, Prod.mk.injEq, List.not_mem_nil, or_false] at hfield
  rcases hfield with ⟨-, rfl⟩ | ⟨-, rfl⟩
  · exact .int id trivial
  · exact .float level trivial

theorem isProper_gauges : ∀ r ∈ gauges.rows, r.IsProper := by
  simp only [gauges, List.forall_mem_cons]
  exact ⟨isProper_gauge 1 _, isProper_gauge 2 _, nofun⟩

theorem own_row_found_gauges :
    gaugesDesk.staged.rows = gauges.rows
    ∧ (∀ r ∈ gauges.rows, r.IsProper)
    ∧ (∃ j, j ≤ 1 ∧ findRow (fun _ => false) (gauge 2 (.zero false)) gauges.rows = some j)
    ∧ ∃ c d', Session.deleteRow 1 gaugesDesk = (.ok c, d') ∧ gaugesDesk.Gives 1 c d' := by
  obtain ⟨-, hfind, hgives⟩ := own_row_found gauges.rows isProper_gauges
  refine ⟨rfl, isProper_gauges, (hfind _ 1 _ rfl rfl).1 (by decide), ?_⟩
  have hdeleted : (Session.deleteRow 1 gaugesDesk).1.isOk = true := by decide +kernel
  cases hdelete : Session.deleteRow 1 gaugesDesk with
  | mk result d' =>
    rw [hdelete] at hdeleted
    cases result with
    | error e => cases hdeleted
    | ok c => exact ⟨c, d', rfl, hgives _ 1 c d' rfl (.inl hdelete)⟩

/-- The row of the gauge that reads no number does not match itself. It is not found, and when its
deletion is staged nothing is marked. -/
theorem nan_row_not_found :
    (gauge 1 (.nan 1)).IsProper
    ∧ (gauge 1 (.nan 1)).holds (gauge 1 (.nan 1)) = false
    ∧ findRow (fun _ => false) (gauge 1 (.nan 1)) [gauge 1 (.nan 1)] = none
    ∧ (Session.deleteRow 0 gaugesDesk).1.isOk = true
    ∧ (Session.deleteRow 0 gaugesDesk).2.changes.length = 1
    ∧ (Session.deleteRow 0 gaugesDesk).2.view.deleted = [] := by
  refine ⟨isProper_gauge 1 _, ?_⟩
  decide +kernel

end StagedTable
