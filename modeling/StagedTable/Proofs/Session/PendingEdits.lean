import StagedTable.Proofs.Session.Agreement
import StagedTable.Proofs.Session.Refetching

/-!
# Pending edits over whole runs

Edits name their cell by the number of the row, while the rows and the columns are fetched anew and
the rows pending delete come of a log that outlives the fetches. Still every pending edit is of a
row that can be changed and of a column (`Desk.Takes`), and it was recorded on the very rows and
columns that are there now, or on equal ones (`Operation.Recorded`).

A call keeps the rows and takes the edits of a row away along with the row (`Call.takes_run`). An
operation that fetches drops all edits or brings what it had before, so that the log marks the same
rows (`Operation.kept_or_dropped`, `Desk.Keeps.takes`). The upshot for a run of operations is
`pending_edits_fit`.
-/

namespace StagedTable

/-! ### Cells that take edits -/

/-- Whether a cell is of a row that is there and is not pending delete, and of a column. -/
structure Desk.Takes (d : Desk) (cell : CellRef) : Prop where
  low : 0 ≤ cell.row
  high : cell.row < d.session.data.rows.length
  column : ∃ c ∈ d.session.data.columns, c.name = cell.column
  unmarked : cell.row.toNat ∉ d.view.deleted

variable {d d' : Desk} {cell : CellRef} {value : Value} {row : Int} {content data : Row}
  {kind : ChangeKind} {preimage : Option Row} {c : Change}

theorem Desk.deleted_view (d : Desk) : d.view.deleted = d.staged.deleted :=
  View.deleted_withEdits d.staged d.session.edits

theorem Desk.takes_of_open {column : Column} (hopen : d.openRow cell.row = .ok content)
    (hcolumn : d.column cell.column = .ok column) : d.Takes cell := by
  obtain ⟨hlow, hget, hisOpen⟩ := Desk.openRow_ok.1 hopen
  obtain ⟨hname, hmem⟩ := Desk.column_ok hcolumn
  have hlt : cell.row.toNat < d.session.data.rows.length := by
    rw [← d.length_staged]
    exact (List.getElem?_eq_some_iff.1 hget).1
  refine ⟨hlow, by omega, ⟨column, hmem, hname⟩, ?_⟩
  rw [Desk.deleted_view]
  simpa [View.isDeleted] using hisOpen

/-- Whether a cell takes edits depends on what was fetched and on the rows pending delete. -/
theorem Desk.Takes.congr (h : d.Takes cell)
    (hlength : d'.session.data.rows.length = d.session.data.rows.length)
    (hcolumns : d'.session.data.columns = d.session.data.columns)
    (hdeleted : cell.row.toNat ∈ d'.view.deleted → cell.row.toNat ∈ d.view.deleted) :
    d'.Takes cell where
  low := h.low
  high := by rw [hlength]; exact h.high
  column := by rw [hcolumns]; exact h.column
  unmarked hmem := h.unmarked (hdeleted hmem)

theorem Desk.Takes.mapEdits (h : d.Takes cell) (f : Edits → Edits) :
    (d.mapSession (·.mapEdits f)).Takes cell := by
  refine h.congr ?_ ?_ ?_
  · rfl
  · rfl
  · rw [Desk.deleted_view, Desk.deleted_view]
    exact id

/-- A staged change takes no cell away but those of a row that it deletes. -/
theorem Desk.Takes.stages (h : d.Takes cell) (hstages : Session.Stages d kind data preimage c d')
    (htarget : kind = .delete → d.staged.target? c ≠ some cell.row.toNat) : d'.Takes cell := by
  apply h.congr (by rw [hstages.session]) (by rw [hstages.session])
  rw [Desk.deleted_view, Desk.deleted_view, hstages.staged_eq]
  unfold View.apply
  split
  · exact id
  · next i hi hkind =>
    rw [hstages.kind_eq] at hkind
    intro hmem
    rcases List.mem_append.1 hmem with hold | hnew
    · exact hold
    · rw [List.mem_singleton] at hnew
      exact absurd (hnew ▸ hi) (htarget hkind)
  · exact id

/-! ### Calls -/

/-- The row that the deletion of a row is matched to is that row, if no two rows that are left share
their key. -/
theorem Session.Stages.eq_of_target? {i : Nat} (h : Stages d kind data (some content) c d')
    (hproper : d.IsProper) (hopen : d.openRow row = .ok content)
    (hdiffer : KeysDiffer d.session.data.columns d.staged.kept)
    (htarget : d.staged.target? c = some i) : i = row.toNat := by
  obtain ⟨hkind, hi, r, p, hr, hp, hholds⟩ := View.of_target? htarget
  rw [h.preimage_eq] at hp
  cases hp
  rw [h.kind_eq] at hkind
  obtain ⟨-, hget, hisOpen⟩ := Desk.openRow_ok.1 hopen
  have hsame : SameKey d.session.data.columns r content :=
    Row.sameKey_of_holds (h.carries hkind) hholds
  exact View.eq_of_sameKey hproper.staged hdiffer hr hi hget hisOpen hsame

/-- Whether a call enters a value in a cell. -/
def Call.Enters (d : Desk) (cell : CellRef) (value : Value) : Call → Prop
  | editCell row name v => cell = ⟨row, name⟩ ∧ value = v
  | editText row name text =>
    cell = ⟨row, name⟩ ∧ ∃ c, d.column name = .ok c ∧ c.entered text = .ok value
  | stageRow _ | deleteRow _ | insertRow _ => False

theorem Edits.get?_of_forget {e : Edits} {forgotten : CellRef → Bool}
    (h : (e.forget forgotten).get? cell = some value) :
    forgotten cell = false ∧ e.get? cell = some value := by
  rw [get?_forget] at h
  split at h
  · cases h
  · next hkept => exact ⟨Bool.eq_false_iff.2 hkept, h⟩

theorem Session.edited_cases {name : String} {v : Value}
    (h : (editCell row name v d).2.session.edits.get? cell = some value) :
    d.session.edits.get? cell = some value ∨ ((cell = ⟨row, name⟩ ∧ value = v) ∧ d.Takes cell) := by
  rcases editCell_cases row name v d with
    ⟨e, he⟩ | ⟨content, c, hopen, hcolumn, ⟨-, he⟩ | ⟨-, he⟩⟩ <;> rw [he] at h
  · exact .inl h
  · exact .inl (Edits.get?_of_forget h).2
  · have h : (d.session.edits.put ⟨row, name⟩ v).get? cell = some value := h
    rw [Edits.get?_put] at h
    split at h
    · next hcell =>
      cases h
      subst hcell
      exact .inr ⟨⟨rfl, rfl⟩, Desk.takes_of_open hopen hcolumn⟩
    · exact .inl h

/-- An edit that is pending after a call was so before, or the call has entered it in a cell that
takes edits. -/
theorem Call.pending_cases {call : Call}
    (h : (call.run d).session.edits.get? cell = some value) :
    d.session.edits.get? cell = some value ∨ (call.Enters d cell value ∧ d.Takes cell) := by
  cases call with
  | editCell row name v => exact Session.edited_cases h
  | editText row name text =>
    have h : (Session.editText row name text d).2.session.edits.get? cell = some value := h
    rcases Session.editText_cases row name text d with
      ⟨e, he⟩ | ⟨c, v, hcolumn, hv, he⟩ <;> rw [he] at h
    · exact .inl h
    · rcases Session.edited_cases h with hold | ⟨⟨hcell, rfl⟩, htakes⟩
      · exact .inl hold
      · exact .inr ⟨⟨hcell, c, hcolumn, hv⟩, htakes⟩
  | stageRow row =>
    have h : (Session.stageRow row d).2.session.edits.get? cell = some value := h
    rcases Session.stageRow_cases row d with
      ⟨e, he⟩ | he | ⟨_, c, d', -, hstages, he⟩ <;> rw [he] at h
    · exact .inl h
    · exact .inl h
    · rw [← hstages.session]
      exact .inl (Edits.get?_of_forget h).2
  | deleteRow row =>
    have h : (Session.deleteRow row d).2.session.edits.get? cell = some value := h
    rcases Session.deleteRow_cases row d with ⟨e, he⟩ | ⟨_, c, d', -, hstages, he⟩ <;> rw [he] at h
    · exact .inl h
    · rw [← hstages.session]
      exact .inl (Edits.get?_of_forget h).2
  | insertRow data =>
    have h : (Session.insertRow data d).2.session.edits.get? cell = some value := h
    rcases Session.insertRow_cases data d with ⟨e, he⟩ | ⟨c, d', hstages, he⟩ <;> rw [he] at h
    · exact .inl h
    · rw [← hstages.session]
      exact .inl h

theorem Session.takes_editCell (h : d.Takes cell) (row : Int) (name : String) (v : Value) :
    (editCell row name v d).2.Takes cell := by
  rcases editCell_cases row name v d with
    ⟨e, he⟩ | ⟨_, _, -, -, ⟨-, he⟩ | ⟨-, he⟩⟩ <;> rw [he]
  · exact h
  · exact h.mapEdits _
  · exact h.mapEdits _

/-- A cell with an edit that a call leaves pending still takes edits. -/
theorem Call.takes_run (h : d.Takes cell) (hproper : d.IsProper)
    (hdiffer : KeysDiffer d.session.data.columns d.staged.kept) {call : Call}
    (hpending : (call.run d).session.edits.get? cell = some value) : (call.run d).Takes cell := by
  cases call with
  | editCell row name v => exact Session.takes_editCell h row name v
  | editText row name text =>
    show (Session.editText row name text d).2.Takes cell
    rcases Session.editText_cases row name text d with ⟨e, he⟩ | ⟨c, v, -, -, he⟩ <;> rw [he]
    · exact h
    · exact Session.takes_editCell h row name v
  | stageRow row =>
    show (Session.stageRow row d).2.Takes cell
    rcases Session.stageRow_cases row d with
      ⟨e, he⟩ | he | ⟨_, c, d', -, hstages, he⟩ <;> rw [he]
    · exact h
    · exact h
    · exact (h.stages hstages nofun).mapEdits _
  | deleteRow row =>
    show (Session.deleteRow row d).2.Takes cell
    have hpending : (Session.deleteRow row d).2.session.edits.get? cell = some value := hpending
    rcases Session.deleteRow_cases row d with
      ⟨e, he⟩ | ⟨content, c, d', hopen, hstages, he⟩ <;> rw [he] at hpending ⊢
    · exact h
    · -- the edits of the deleted row are gone, so that the cell is of another row
      have hother := (Edits.get?_of_forget hpending).1
      rw [beq_eq_false_iff_ne] at hother
      refine (h.stages hstages ?_).mapEdits _
      intro _ htarget
      have hplace := hstages.eq_of_target? hproper hopen hdiffer htarget
      have hlow := (Desk.openRow_ok.1 hopen).1
      have hlow' := h.low
      omega
  | insertRow data =>
    show (Session.insertRow data d).2.Takes cell
    rcases Session.insertRow_cases data d with ⟨e, he⟩ | ⟨c, d', hstages, he⟩ <;> rw [he]
    · exact h
    · exact h.stages hstages nofun

/-! ### Operations that fetch -/

/-- Whether two fetches are one and the same or bring equal rows and columns. -/
def TableData.Alike (a b : TableData) : Prop := a = b ∨ a.equal b = true

/-- Whether a desk has the edits and the staged changes of another one, on the same rows and columns
or on equal ones. -/
structure Desk.Keeps (d d' : Desk) : Prop where
  edits : d'.session.edits = d.session.edits
  changes : d'.changes = d.changes
  alike : d'.session.data.Alike d.session.data

/-- An operation that is no call drops all edits, or keeps all of them because it has brought
nothing new. -/
theorem Operation.kept_or_dropped {op : Operation} (hop : ∀ call, op ≠ .call call) (d : Desk) :
    (op.run d).session.edits = .empty ∨ d.Keeps (op.run d) := by
  rcases Operation.refetched_run hop d with
    ⟨n, hrun | ⟨data, -, hrun⟩⟩ | ⟨n, hrun | ⟨data, -, hrun⟩⟩ <;> rw [hrun]
  · exact .inr ⟨rfl, rfl, .inl rfl⟩
  · have hedits : (d.mapSession fun s => { s with loads := n }.reload data).session.edits
        = if data.equal d.session.data then d.session.edits else .empty := rfl
    cases hequal : data.equal d.session.data with
    | true =>
      rw [hequal, if_pos rfl] at hedits
      exact .inr ⟨hedits, rfl, .inr hequal⟩
    | false =>
      rw [hequal, if_neg Bool.false_ne_true] at hedits
      exact .inl hedits
  · exact .inl rfl
  · exact .inl (ite_self _)

theorem Desk.Keeps.takes (h : d.Keeps d') (hproper : d.IsProper) (hproper' : d'.IsProper)
    (hkinds : d'.session.data.equal d.session.data = true →
      d.session.data.KeepsKinds d'.session.data) (htakes : d.Takes cell) : d'.Takes cell := by
  rcases h.alike with hdata | hequal
  · apply htakes.congr (by rw [hdata]) (by rw [hdata])
    rw [Desk.deleted_view, Desk.deleted_view, Desk.staged, Desk.staged, hdata, h.changes]
    exact id
  · have hfetched := TableData.indistinct_of_equal hproper.data hproper'.data hequal (hkinds hequal)
    -- the log is replayed on rows that it cannot tell from the old ones
    have hstaged : d.staged.Indistinct d'.staged := by
      rw [Desk.staged, Desk.staged, h.changes]
      exact hfetched.applyAll hproper.changes
    have hcolumns : d'.session.data.columns = d.session.data.columns :=
      beq_iff_eq.1 (Bool.and_eq_true_iff.1 hequal).2
    apply htakes.congr hfetched.rows.length_eq.symm hcolumns
    rw [Desk.deleted_view, Desk.deleted_view, hstaged.deleted]
    exact id

/-! ### Equal fetches -/

namespace TableData

variable {a b c : TableData}

/-- The rows as one value. -/
def asValue (data : TableData) : Value := .list (data.rows.map fun r => .document r.fields)

theorem IsProper.asValue (h : a.IsProper) : a.asValue.IsProper := by
  refine .list _ ?_
  intro v hv
  obtain ⟨r, hr, rfl⟩ := List.mem_map.1 hv
  exact .document _ r.nodup fun field hfield =>
    h r hr _ _ (Assoc.get?_of_mem r.nodup hfield)

theorem equal_iff :
    a.equal b = true ↔ a.asValue.equal b.asValue = true ∧ a.columns = b.columns := by
  rw [equal, Bool.and_eq_true, beq_iff_eq, Row.equalAll_iff]
  refine and_congr_left fun _ => ?_
  rw [asValue, asValue, Value.equal, Value.equalItems_iff, List.forall₂_map_left_iff,
    List.forall₂_map_right_iff]
  rfl

theorem Alike.trans (ha : a.IsProper) (hb : b.IsProper) (hc : c.IsProper) (hab : a.Alike b)
    (hbc : b.Alike c) : a.Alike c := by
  rcases hab with rfl | hab
  · exact hbc
  · rcases hbc with rfl | hbc
    · exact .inr hab
    · obtain ⟨hrows, hcolumns⟩ := equal_iff.1 hab
      obtain ⟨hrows', hcolumns'⟩ := equal_iff.1 hbc
      exact .inr (equal_iff.2 ⟨Value.equal_trans ha.asValue hb.asValue hc.asValue hrows hrows',
        hcolumns.trans hcolumns'⟩)

end TableData

/-! ### Runs -/

namespace Operation

/-- Whether some call of a run entered a value in a cell, where it has been pending ever since, and
did so on the rows and columns that are there now or on equal ones. -/
def Recorded (d : Desk) (ops : List Operation) (cell : CellRef) (value : Value) : Prop :=
  ∃ before call after, ops = before ++ .call call :: after
    ∧ call.Enters (runAll d before) cell value
    ∧ (∀ passed, passed <+: after →
      (runAll d (before ++ .call call :: passed)).session.edits.get? cell = some value)
    ∧ (runAll d ops).session.data.Alike (runAll d before).session.data

/-- Whether no two rows that are left share their key, at any time of a run, and no cell switches
between a boolean and a number when rows are fetched anew that are equal to the old ones. -/
def Calm (d : Desk) : List Operation → Prop
  | [] => True
  | op :: rest => KeysDiffer d.session.data.columns d.staged.kept
    ∧ ((op.run d).session.data.equal d.session.data = true →
      d.session.data.KeepsKinds (op.run d).session.data)
    ∧ Calm (op.run d) rest

instance decidableCalm (d : Desk) : (ops : List Operation) → Decidable (Calm d ops)
  | [] => inferInstanceAs (Decidable True)
  | op :: rest =>
    have := decidableCalm (op.run d) rest
    inferInstanceAs (Decidable (_ ∧ _ ∧ _))

variable {op : Operation} {ops : List Operation}

theorem runAll_concat (d : Desk) (ops : List Operation) (op : Operation) :
    runAll d (ops ++ [op]) = op.run (runAll d ops) := List.foldl_append

theorem Calm.append_iff {more : List Operation} :
    Calm d (ops ++ more) ↔ Calm d ops ∧ Calm (runAll d ops) more := by
  induction ops generalizing d with
  | nil => simp [Calm, runAll]
  | cons op rest ih =>
    rw [List.cons_append, Calm, Calm, ih, and_assoc, and_assoc]
    rfl

/-- An edit that stays pending over one more operation stays recorded. -/
theorem Recorded.concat (h : Recorded d ops cell value) (hproper : d.IsProper)
    (hops : ∀ o ∈ ops, o.IsProper) (hop : op.IsProper)
    (hpending : (runAll d (ops ++ [op])).session.edits.get? cell = some value)
    (halike : (runAll d (ops ++ [op])).session.data.Alike (runAll d ops).session.data) :
    Recorded d (ops ++ [op]) cell value := by
  obtain ⟨before, call, after, rfl, henters, hsince, hbefore⟩ := h
  have hnow := hproper.runAll hops
  have hthen : (runAll d before).IsProper := hproper.runAll fun o ho => hops o (by simp [ho])
  have hnew : (runAll d (before ++ .call call :: after ++ [op])).IsProper := by
    rw [runAll_concat]
    exact hnow.run hop
  refine ⟨before, call, after ++ [op], by simp, henters, ?_,
    halike.trans hnew.data hnow.data hthen.data hbefore⟩
  intro passed hpassed
  rcases List.prefix_concat_iff.1 hpassed with rfl | hpassed
  · rw [← hpending]
    simp
  · exact hsince passed hpassed

/-- What holds of the edits that are pending after a run: their cells take edits, and they were
recorded on what is there now. -/
structure Fits (d : Desk) (ops : List Operation) : Prop where
  takes : ∀ cell value, (runAll d ops).session.edits.get? cell = some value →
    (runAll d ops).Takes cell
  recorded : ∀ cell value, (runAll d ops).session.edits.get? cell = some value →
    Recorded d ops cell value

/-- One more call keeps the edits fit. -/
theorem Fits.call (h : Fits d ops) (hproper : d.IsProper) (hops : ∀ o ∈ ops, o.IsProper)
    {call : Call} (hcall : call.IsProper)
    (hdiffer : KeysDiffer (runAll d ops).session.data.columns (runAll d ops).staged.kept) :
    Fits d (ops ++ [.call call]) := by
  have hrun : runAll d (ops ++ [.call call]) = call.run (runAll d ops) := by
    rw [runAll_concat, run, perform, call.snd_perform]
  have hnow := hproper.runAll hops
  constructor
  case takes =>
    intro cell value hpending
    rw [hrun] at hpending ⊢
    rcases Call.pending_cases hpending with hold | ⟨-, htakes⟩
    · exact Call.takes_run (h.takes cell value hold) hnow hdiffer hpending
    · exact Call.takes_run htakes hnow hdiffer hpending
  case recorded =>
    intro cell value hpending
    have hdata : (runAll d (ops ++ [.call call])).session.data = (runAll d ops).session.data := by
      rw [hrun]
      exact (call.extends_run _).data
    have hafter := hpending
    rw [hrun] at hpending
    rcases Call.pending_cases hpending with hold | ⟨henters, -⟩
    · exact (h.recorded cell value hold).concat hproper hops hcall hafter (.inl hdata)
    · refine ⟨ops, call, [], rfl, henters, ?_, .inl hdata⟩
      intro passed hpassed
      rw [List.prefix_nil.1 hpassed]
      exact hafter

/-- One more operation that is no call keeps the edits fit. -/
theorem Fits.fetch (h : Fits d ops) (hproper : d.IsProper) (hops : ∀ o ∈ ops, o.IsProper)
    (hop : op.IsProper) (hfetch : ∀ call, op ≠ .call call)
    (hkinds : (op.run (runAll d ops)).session.data.equal (runAll d ops).session.data = true →
      (runAll d ops).session.data.KeepsKinds (op.run (runAll d ops)).session.data) :
    Fits d (ops ++ [op]) := by
  have hrun := runAll_concat d ops op
  have hnow := hproper.runAll hops
  rcases kept_or_dropped hfetch (runAll d ops) with hdropped | hkeeps
  · have hnone : ∀ cell value,
        (runAll d (ops ++ [op])).session.edits.get? cell ≠ some value := by
      intro cell value
      rw [hrun, hdropped]
      exact nofun
    exact ⟨fun cell value h => absurd h (hnone cell value),
      fun cell value h => absurd h (hnone cell value)⟩
  · have hold : ∀ cell value, (runAll d (ops ++ [op])).session.edits.get? cell = some value →
        (runAll d ops).session.edits.get? cell = some value := by
      intro cell value hpending
      rwa [hrun, hkeeps.edits] at hpending
    constructor
    case takes =>
      intro cell value hpending
      rw [hrun]
      exact hkeeps.takes hnow (hnow.run hop) hkinds (h.takes cell value (hold cell value hpending))
    case recorded =>
      intro cell value hpending
      have halike : (runAll d (ops ++ [op])).session.data.Alike (runAll d ops).session.data := by
        rw [hrun]
        exact hkeeps.alike
      have hrecorded := h.recorded cell value (hold cell value hpending)
      exact hrecorded.concat hproper hops hop hpending halike

theorem fits_runAll (hproper : d.IsProper) (hnone : d.session.edits = .empty)
    (hops : ∀ op ∈ ops, op.IsProper) (hcalm : Calm d ops) : Fits d ops := by
  induction ops using List.reverseRecOn with
  | nil =>
    have hpending : ∀ cell value, (runAll d []).session.edits.get? cell ≠ some value := by
      intro cell value
      show d.session.edits.get? cell ≠ some value
      rw [hnone]
      exact nofun
    exact ⟨fun cell value h => absurd h (hpending cell value),
      fun cell value h => absurd h (hpending cell value)⟩
  | append_singleton ops op ih =>
    rw [List.forall_mem_append, List.forall_mem_singleton] at hops
    obtain ⟨hbefore, hdiffer, hkinds, -⟩ := Calm.append_iff.1 hcalm
    have hfits := ih hops.1 hbefore
    by_cases hcall : ∃ call, op = .call call
    · obtain ⟨call, rfl⟩ := hcall
      exact hfits.call hproper hops.1 hops.2 hdiffer
    · exact hfits.fetch hproper hops.1 hops.2 (fun call h => hcall ⟨call, h⟩) hkinds

end Operation

/-- The edit buffer stays well-formed over a whole run of a session. Every pending edit is of a row
that is there and is not pending delete, and of a column. An operation that fetches leaves the edits
all as they were, on rows and columns equal to those that they were recorded on, or it drops all of
them. -/
theorem pending_edits_fit (table : Sql.TableName) (data : TableData) (loader : Option Loader)
    (staging : Staging) (ops : List Operation)
    (hproper : Desk.IsProper ⟨Session.start table data loader, staging⟩)
    (hops : ∀ op ∈ ops, op.IsProper)
    (hcalm : Operation.Calm ⟨Session.start table data loader, staging⟩ ops) :
    Operation.Fits ⟨Session.start table data loader, staging⟩ ops
    ∧ ∀ before op after, ops = before ++ op :: after → (∀ call, op ≠ .call call) →
      let d := Operation.runAll ⟨Session.start table data loader, staging⟩ before
      (op.run d).session.edits = .empty
      ∨ ((op.run d).session.edits = d.session.edits
        ∧ ∀ cell value, d.session.edits.get? cell = some value →
          Operation.Recorded ⟨Session.start table data loader, staging⟩ (before ++ [op])
            cell value) := by
  refine ⟨Operation.fits_runAll hproper rfl hops hcalm, ?_⟩
  intro before op after hsplit hfetch d
  rcases Operation.kept_or_dropped hfetch d with hdropped | hkeeps
  · exact .inl hdropped
  · refine .inr ⟨hkeeps.edits, ?_⟩
    have hsplit : ops = before ++ [op] ++ after := by simp [hsplit]
    rw [hsplit] at hops hcalm
    rw [List.forall_mem_append] at hops
    have hfits := Operation.fits_runAll hproper rfl hops.1 (Operation.Calm.append_iff.1 hcalm).1
    intro cell value hpending
    apply hfits.recorded
    rw [Operation.runAll_concat, hkeeps.edits]
    exact hpending

/-- The articles as they may be fetched again: the fields of the rows come in another order. -/
def articlesAgain : TableData :=
  ⟨articles.columns,
    [.ofList [("price", .int 5), ("id", .int 1)], .ofList [("price", .null), ("id", .int 2)]]⟩

/-- A new price is staged and another one is pending when the articles are fetched again. -/
def articlesRun : List Operation :=
  [.call (.editCell 0 "price" (.int 6)), .call (.stageRow 0), .call (.editText 1 "price" "3"),
    .refresh articlesAgain]

theorem pending_edits_fit_articles :
    Desk.IsProper ⟨Session.start ⟨"public", "articles"⟩ articles none, .empty⟩
    ∧ (∀ op ∈ articlesRun, op.IsProper)
    ∧ Operation.Calm ⟨Session.start ⟨"public", "articles"⟩ articles none, .empty⟩ articlesRun
    ∧ Operation.Fits ⟨Session.start ⟨"public", "articles"⟩ articles none, .empty⟩ articlesRun
    ∧ (Operation.runAll ⟨Session.start ⟨"public", "articles"⟩ articles none, .empty⟩
      articlesRun).session.edits.entries.length = 1 := by
  have hplain : ((articles.rows ++ articlesAgain.rows).all (·.isPlain)) = true := by decide +kernel
  have hrows : ∀ r ∈ articles.rows ++ articlesAgain.rows, r.IsProper := fun r hr =>
    Row.cellOf_of_isPlain (List.all_eq_true.1 hplain r hr)
  rw [List.forall_mem_append] at hrows
  have hproper : Desk.IsProper ⟨Session.start ⟨"public", "articles"⟩ articles none, .empty⟩ :=
    ⟨hrows.1, nofun, nofun, nofun⟩
  have hops : ∀ op ∈ articlesRun, op.IsProper := by
    simp only [articlesRun, List.forall_mem_cons]
    exact ⟨.int 6 trivial, trivial, trivial, hrows.2, nofun⟩
  have hcalm : Operation.Calm ⟨Session.start ⟨"public", "articles"⟩ articles none, .empty⟩
      articlesRun := by decide +kernel
  exact ⟨hproper, hops, hcalm, (pending_edits_fit _ _ _ _ _ hproper hops hcalm).1,
    by decide +kernel⟩

end StagedTable
