import StagedTable.Proofs.Session.Operations
import StagedTable.Proofs.Session.Staging

/-!
# The same rows fetched again

A log outlives the rows that it was staged on. When equal rows are fetched again, no pre-image tells
the new ones from the old (`Row.Indistinct`), as long as no cell switches between a boolean and an
equal number: so all staged changes are matched to the same rows as before
(`staged_indistinct`).
-/

namespace StagedTable

/-! ### Proper rows -/

/-- Whether all values of a row are cell values that repeat no field name. -/
def Row.IsProper (r : Row) : Prop := ∀ name v, r.get? name = some v → v.IsProper

theorem Row.IsProper.overlay {r top : Row} (hr : r.IsProper) (htop : top.IsProper) :
    (r.overlay top).IsProper := by
  intro name v hv
  rw [Row.get?_overlay] at hv
  rcases Option.or_eq_some_iff.1 hv with htop' | ⟨-, hr'⟩
  · exact htop name v htop'
  · exact hr name v hr'

/-- Whether all rows are proper. -/
def TableData.IsProper (data : TableData) : Prop := ∀ r ∈ data.rows, r.IsProper

/-- Whether the rows that a change keeps are proper. -/
structure Change.IsProper (c : Change) : Prop where
  data : c.data.IsProper
  preimage : ∀ p, c.preimage = some p → p.IsProper

/-- Whether the rows that a change keeps hold nulls, booleans, integers and texts only. -/
def Change.isPlain (c : Change) : Bool := c.data.isPlain && c.preimage.all (·.isPlain)

theorem Change.isProper_of_isPlain {c : Change} (h : c.isPlain = true) : c.IsProper := by
  rw [isPlain, Bool.and_eq_true, Option.all_eq_true] at h
  exact ⟨Row.cellOf_of_isPlain h.1, fun p hp => Row.cellOf_of_isPlain (h.2 p hp)⟩

/-- Rows and changes that hold nulls, booleans, integers and texts only are proper. -/
theorem isProper_of_isPlain {rows : List Row} {log : List Change}
    (hrows : rows.all (·.isPlain) = true) (hlog : log.all (·.isPlain) = true) :
    (∀ r ∈ rows, r.IsProper) ∧ ∀ c ∈ log, c.IsProper := by
  rw [List.all_eq_true] at hrows hlog
  exact ⟨fun r hr => Row.cellOf_of_isPlain (hrows r hr),
    fun c hc => Change.isProper_of_isPlain (hlog c hc)⟩

/-! ### Rows that are left -/

section

variable {columns : List Column} {a b : Row} {i j : Nat}

theorem SameKey.symm_of_isProper (ha : a.IsProper) (hb : b.IsProper) (h : SameKey columns a b) :
    SameKey columns b a := by
  intro key hkey
  obtain ⟨v, w, hv, hw, hsame⟩ := h key hkey
  exact ⟨w, v, hw, hv, Value.same_symm (ha _ _ hv) (hb _ _ hw) hsame⟩

theorem SameKey.trans_of_isProper {c : Row} (ha : a.IsProper) (hb : b.IsProper) (hc : c.IsProper)
    (hab : SameKey columns a b) (hbc : SameKey columns b c) : SameKey columns a c := by
  intro key hkey
  obtain ⟨v, w, hv, hw, hsame⟩ := hab key hkey
  obtain ⟨w', x, hw', hx, hsame'⟩ := hbc key hkey
  rw [hw] at hw'
  cases hw'
  exact ⟨v, x, hv, hx, Value.same_trans (ha _ _ hv) (hb _ _ hw) (hc _ _ hx) hsame hsame'⟩

/-- Rows that have the key of one and the same row have one key. -/
theorem SameKey.of_common {c : Row} (ha : a.IsProper) (hb : b.IsProper) (hc : c.IsProper)
    (hac : SameKey columns a c) (hbc : SameKey columns b c) : SameKey columns a b :=
  hac.trans_of_isProper ha hc hb (hbc.symm_of_isProper hb hc)

theorem mem_keptFrom {skipped : Nat → Bool} {start : Nat} {rows : List Row}
    (h : rows[i]? = some a) (hopen : skipped (start + i) = false) :
    a ∈ keptFrom skipped start rows := by
  obtain ⟨before, after, rfl, rfl⟩ := exists_split h
  rw [keptFrom_append, keptFrom, hopen, if_neg Bool.false_ne_true]
  simp

/-- Of two rows that are left the one behind does not have the key of the one before. -/
theorem View.not_sameKey_of_lt {v : View} (hdiffer : KeysDiffer columns v.kept)
    (ha : v.rows[i]? = some a) (hi : v.isDeleted i = false) (hb : v.rows[j]? = some b)
    (hj : v.isDeleted j = false) (hij : i < j) : ¬ SameKey columns a b := by
  obtain ⟨before, after, hrows, hlength⟩ := exists_split ha
  rw [← hlength] at hi
  rw [KeysDiffer, View.kept_split hrows hi] at hdiffer
  obtain ⟨k, rfl⟩ := Nat.exists_eq_add_of_lt hij
  have hget : after[k]? = some b := by
    have hplace : i + k + 1 = before.length + (k + 1) := by omega
    rw [hrows, hplace, List.getElem?_append_right (Nat.le_add_right _ _),
      Nat.add_sub_cancel_left] at hb
    exact hb
  have hopen : v.isDeleted (before.length + 1 + k) = false := by
    rw [← hj, hlength]
    congr 1
    omega
  exact (List.pairwise_cons.1 (List.pairwise_append.1 hdiffer).2.1).1 b (mem_keptFrom hget hopen)

/-- A row that is left is known by its key, if the keys differ. -/
theorem View.eq_of_sameKey {v : View} (hproper : ∀ r ∈ v.rows, r.IsProper)
    (hdiffer : KeysDiffer columns v.kept) (ha : v.rows[i]? = some a) (hi : v.isDeleted i = false)
    (hb : v.rows[j]? = some b) (hj : v.isDeleted j = false) (hsame : SameKey columns a b) :
    i = j := by
  have hsame' := hsame.symm_of_isProper (hproper a (List.mem_of_getElem? ha))
    (hproper b (List.mem_of_getElem? hb))
  rcases Nat.lt_trichotomy i j with hij | hij | hij
  · exact absurd hsame (View.not_sameKey_of_lt hdiffer ha hi hb hj hij)
  · exact hij
  · exact absurd hsame' (View.not_sameKey_of_lt hdiffer hb hj ha hi hij)

/-- What a change is matched to is a row that is left and holds its pre-image. -/
theorem View.of_target? {v : View} {c : Change} (h : v.target? c = some i) :
    c.kind ≠ .insert ∧ v.isDeleted i = false
      ∧ ∃ r p, v.rows[i]? = some r ∧ c.preimage = some p ∧ r.holds p = true := by
  unfold View.target? at h
  split at h
  · cases h
  · cases h
  · next p hpreimage hkind =>
    obtain ⟨-, hopen, r, hr, hholds⟩ := of_findRowFrom h
    exact ⟨hkind, hopen, r, p, hr, hpreimage, hholds⟩

end

/-! ### Values that cannot be told apart -/

/-- Whether a pre-image that holds one of two values holds the other one too. -/
def Value.Indistinct (v w : Value) : Prop := ∀ x : Value, x.IsProper → v.same x = w.same x

/-- Whether one of two values is a boolean and the other a number. -/
def Value.switches (v w : Value) : Bool :=
  v.isBool != w.isBool && v.number?.isSome && w.number?.isSome

namespace Value

variable {v w : Value}

theorem isBool_of_equal (hv : v.IsProper) (hw : w.IsProper) (h : w.equal v = true)
    (hkind : v.switches w = false) : v.isBool = w.isBool := by
  cases hv <;> cases hw <;> first | rfl | cases h | cases hkind

/-- Equal values that are both booleans, or neither, cannot be told apart. -/
theorem indistinct_of_equal (hv : v.IsProper) (hw : w.IsProper) (h : w.equal v = true)
    (hkind : v.switches w = false) : v.Indistinct w := by
  have hwv : w.same v = true := (same_iff hw hv).2 ⟨(isBool_of_equal hv hw h hkind).symm, h⟩
  have hvw := same_symm hw hv hwv
  intro x hx
  exact Bool.eq_iff_iff.2 ⟨same_trans hw hv hx hwv, same_trans hv hw hx hvw⟩

/-- What is equal inside a row may also be one object, which cannot be told apart from itself. -/
theorem indistinct_of_equalInside (hv : v.IsProper) (hw : w.IsProper)
    (h : w.equalInside v = true) (hkind : v.switches w = false) : v.Indistinct w := by
  rcases equalInside_iff.1 h with hsame | hequal
  · obtain ⟨object, rfl, rfl⟩ := sameNan_iff.1 hsame
    exact fun _ _ => rfl
  · exact indistinct_of_equal hv hw hequal hkind

end Value

/-! ### Rows that cannot be told apart -/

/-- Whether rows hold values under the same names that cannot be told apart. -/
def Row.Indistinct (r r' : Row) : Prop :=
  ∀ name, Option.Rel Value.Indistinct (r.get? name) (r'.get? name)

/-- Whether no cell of a row switches between a boolean and a number. -/
def Row.keepsKinds (r r' : Row) : Bool :=
  r.fields.all fun (name, v) => (r'.get? name).all fun w => !v.switches w

namespace Row

variable {r r' preimage top : Row}

theorem Indistinct.holds (h : r.Indistinct r') (hpreimage : preimage.IsProper) :
    r.holds preimage = r'.holds preimage := by
  rw [Bool.eq_iff_iff, Row.holds, Row.holds, List.all_eq_true, List.all_eq_true]
  apply forall₂_congr
  rintro ⟨name, x⟩ hx
  have hproper := hpreimage name x (Assoc.get?_of_mem preimage.nodup hx)
  have hrel := h name
  dsimp only
  generalize r.get? name = v at hrel
  generalize r'.get? name = w at hrel
  cases hrel with
  | none => rfl
  | some hvw => dsimp only; rw [hvw x hproper]

theorem Indistinct.overlay (h : r.Indistinct r') :
    (r.overlay top).Indistinct (r'.overlay top) := by
  intro name
  rw [get?_overlay, get?_overlay]
  cases top.get? name with
  | none => exact h name
  | some v => exact .some fun _ _ => rfl

/-- Rows that are equal cannot be told apart, if no cell switches its kind. -/
theorem indistinct_of_equal (hr : r.IsProper) (hr' : r'.IsProper) (h : r'.equal r = true)
    (hkinds : r.keepsKinds r' = true) : r.Indistinct r' := by
  rw [Row.equal, Value.equal, Bool.and_eq_true, beq_iff_eq] at h
  obtain ⟨hlength, hfields⟩ := h
  intro name
  cases hw : r'.get? name with
  | none =>
    -- the old row has no name that the new one lacks
    have hnone : r.get? name = none := by
      rw [← Option.not_isSome_iff_eq_none] at hw ⊢
      intro hsome
      have hname := Value.keys_subset_of_equalFields r'.nodup hlength hfields
        (Assoc.isSome_get?_iff.1 hsome)
      exact hw (Assoc.isSome_get?_iff.2 hname)
    rw [hnone]
    exact .none
  | some w =>
    obtain ⟨v, hv, hequal⟩ := Value.equalFields_iff.1 hfields _ (Assoc.mem_of_get? hw)
    have hv : r.get? name = some v := hv
    have hkind := List.all_eq_true.1 hkinds _ (Assoc.mem_of_get? hv)
    simp only [hw, Option.all_some, Bool.not_eq_true'] at hkind
    rw [hv]
    exact .some (Value.indistinct_of_equalInside (hr name v hv) (hr' name w hw) hequal hkind)

theorem equalAll_iff {rows rows' : List Row} :
    equalAll rows rows' = true ↔ List.Forall₂ (fun r r' => r.equal r' = true) rows rows' := by
  induction rows generalizing rows' with
  | nil => cases rows' <;> simp [equalAll]
  | cons r rest ih => cases rows' <;> simp [equalAll, ih]

end Row

/-! ### Views that cannot be told apart -/

/-- Whether two views show rows that cannot be told apart and mark the same ones as pending
delete. -/
structure View.Indistinct (v v' : View) : Prop where
  rows : List.Forall₂ Row.Indistinct v.rows v'.rows
  deleted : v.deleted = v'.deleted

theorem findRowFrom_indistinct {skipped : Nat → Bool} {preimage : Row} {start : Nat}
    {rows rows' : List Row} (h : List.Forall₂ Row.Indistinct rows rows')
    (hpreimage : preimage.IsProper) :
    findRowFrom skipped preimage start rows = findRowFrom skipped preimage start rows' := by
  induction h generalizing start with
  | nil => rfl
  | cons hr _ ih => rw [findRowFrom, findRowFrom, hr.holds hpreimage, ih]

theorem forall₂_modify {α β : Type} {R : α → β → Prop} {f : α → α} {g : β → β} {xs : List α}
    {ys : List β} (h : List.Forall₂ R xs ys) (hf : ∀ x y, R x y → R (f x) (g y)) (i : Nat) :
    List.Forall₂ R (xs.modify i f) (ys.modify i g) := by
  induction h generalizing i with
  | nil => simp
  | cons hxy htail ih =>
    cases i with
    | zero => simpa using ⟨hf _ _ hxy, htail⟩
    | succ i => simpa using ⟨hxy, ih i⟩

namespace View.Indistinct

variable {v v' : View} {c : Change}

theorem target? (h : v.Indistinct v') (hc : c.IsProper) : v.target? c = v'.target? c := by
  unfold View.target?
  cases hkind : c.kind with
  | insert => rfl
  | _ =>
    cases hpreimage : c.preimage with
    | none => rfl
    | some p =>
      have hdeleted : v.isDeleted = v'.isDeleted := by
        funext i
        rw [isDeleted, isDeleted, h.deleted]
      dsimp only
      rw [findRow, findRow, hdeleted]
      exact findRowFrom_indistinct h.rows (hc.preimage p hpreimage)

/-- A change does the same to views that cannot be told apart. -/
theorem apply (h : v.Indistinct v') (hc : c.IsProper) : (v.apply c).Indistinct (v'.apply c) := by
  unfold View.apply
  rw [h.target? hc]
  split
  · exact ⟨forall₂_modify h.rows (fun _ _ hr => hr.overlay) _, h.deleted⟩
  · exact ⟨h.rows, by rw [h.deleted]⟩
  · exact h

theorem applyAll {changes : List Change} (h : v.Indistinct v')
    (hchanges : ∀ c ∈ changes, c.IsProper) :
    (changes.foldl View.apply v).Indistinct (changes.foldl View.apply v') := by
  induction changes generalizing v v' with
  | nil => exact h
  | cons c rest ih =>
    rw [List.forall_mem_cons] at hchanges
    exact ih (h.apply hchanges.1) hchanges.2

end View.Indistinct

/-! ### Fetches that bring the same -/

/-- Whether no cell switches between a boolean and a number from one fetch to another. -/
def TableData.KeepsKinds (old new : TableData) : Prop :=
  ∀ pair ∈ old.rows.zip new.rows, pair.1.keepsKinds pair.2 = true

instance (old new : TableData) : Decidable (old.KeepsKinds new) :=
  inferInstanceAs (Decidable (∀ _ ∈ _, _))

theorem TableData.indistinct_of_equal {old new : TableData} (hold : old.IsProper)
    (hnew : new.IsProper) (h : new.equal old = true) (hkinds : old.KeepsKinds new) :
    (View.ofRows old.rows).Indistinct (.ofRows new.rows) := by
  have hequal := Row.equalAll_iff.1 (Bool.and_eq_true_iff.1 h).1
  obtain ⟨hlength, hpairs⟩ := List.forall₂_iff_zip.1 hequal.flip
  refine ⟨List.forall₂_iff_zip.2 ⟨hlength, ?_⟩, rfl⟩
  intro r r' hpair
  exact Row.indistinct_of_equal (hold r (List.of_mem_zip hpair).1)
    (hnew r' (List.of_mem_zip hpair).2) (hpairs hpair) (hkinds _ hpair)

/-! ### Proper desks -/

/-- Whether all that a desk holds is proper, and all that its loader brings. -/
structure Desk.IsProper (d : Desk) : Prop where
  data : d.session.data.IsProper
  edits : ∀ edit ∈ d.session.edits.entries, edit.2.IsProper
  changes : ∀ c ∈ d.changes, c.IsProper
  loader : ∀ loader, d.session.loader = some loader →
    ∀ n data, loader n = .ok data → data.IsProper

/-- Whether the values that a call brings are proper. What is entered as a text always is. -/
def Call.IsProper : Call → Prop
  | editCell _ _ value => value.IsProper
  | insertRow data => data.IsProper
  | editText .. | stageRow _ | deleteRow _ => True

/-- Whether all that an operation brings is proper. -/
def Operation.IsProper : Operation → Prop
  | call c => c.IsProper
  | refresh data => data.IsProper
  | refetch | discard | commit .. | migrate .. => True

theorem View.isProper_apply {v : View} {c : Change} (h : ∀ r ∈ v.rows, r.IsProper)
    (hc : c.IsProper) : ∀ r ∈ (v.apply c).rows, r.IsProper := by
  unfold apply
  split
  · intro r hr
    obtain ⟨j, hj⟩ := List.mem_iff_getElem?.1 hr
    rw [getElem?_overlay, Option.map_eq_some_iff] at hj
    obtain ⟨old, hold, rfl⟩ := hj
    have hold := h old (List.mem_of_getElem? hold)
    split
    · exact hold.overlay hc.data
    · exact hold
  · exact h
  · exact h

theorem View.isProper_applyAll {v : View} {changes : List Change} (h : ∀ r ∈ v.rows, r.IsProper)
    (hchanges : ∀ c ∈ changes, c.IsProper) : ∀ r ∈ (changes.foldl apply v).rows, r.IsProper := by
  induction changes generalizing v with
  | nil => exact h
  | cons c rest ih =>
    rw [List.forall_mem_cons] at hchanges
    exact ih (isProper_apply h hchanges.1) hchanges.2

namespace Desk.IsProper

variable {d d' : Desk} {row : Int} {content data : Row} {preimage : Option Row} {kind : ChangeKind}
  {c : Change}

theorem staged (h : d.IsProper) : ∀ r ∈ d.staged.rows, r.IsProper :=
  View.isProper_applyAll h.data h.changes

theorem openRow (h : d.IsProper) (hopen : d.openRow row = .ok content) : content.IsProper :=
  h.staged content (List.mem_of_getElem? (Desk.openRow_ok.1 hopen).2.1)

theorem rowEdits (h : d.IsProper) (row : Int) : (d.session.rowEdits row).IsProper :=
  fun _ _ hv => h.edits _ (Session.mem_rowEdits.1 (Assoc.mem_of_get? hv))

theorem mapEdits (h : d.IsProper) {f : Edits → Edits}
    (hf : ∀ edit ∈ (f d.session.edits).entries, edit.2.IsProper) :
    (d.mapSession (·.mapEdits f)).IsProper :=
  ⟨h.data, hf, h.changes, h.loader⟩

theorem forget (h : d.IsProper) (forgotten : CellRef → Bool) :
    (d.mapSession (·.mapEdits (·.forget forgotten))).IsProper :=
  h.mapEdits fun edit hedit => h.edits edit (List.mem_filter.1 hedit).1

theorem put (h : d.IsProper) {value : Value} (hvalue : value.IsProper) (cell : CellRef) :
    (d.mapSession (·.mapEdits (·.put cell value))).IsProper := by
  apply h.mapEdits
  intro edit hedit
  rcases Assoc.mem_put hedit with hold | rfl
  · exact h.edits edit hold
  · exact hvalue

theorem stages (h : d.IsProper) (hstages : Session.Stages d kind data preimage c d')
    (hdata : data.IsProper) (hpreimage : ∀ p, preimage = some p → p.IsProper) : d'.IsProper where
  data := by rw [hstages.session]; exact h.data
  edits := by rw [hstages.session]; exact h.edits
  loader := by rw [hstages.session]; exact h.loader
  changes := by
    rw [hstages.changes, List.forall_mem_append, List.forall_mem_singleton]
    refine ⟨h.changes, ?_, ?_⟩
    · rw [hstages.data_eq]
      exact hdata
    · rw [hstages.preimage_eq]
      exact hpreimage

theorem editCell (h : d.IsProper) {row : Int} {name : String} {value : Value}
    (hvalue : value.IsProper) : (Session.editCell row name value d).2.IsProper := by
  rcases Session.editCell_cases row name value d with
    ⟨e, he⟩ | ⟨_, _, -, -, ⟨-, he⟩ | ⟨-, he⟩⟩ <;> rw [he]
  · exact h
  · exact h.forget _
  · exact h.put hvalue _

/-- A call keeps a desk proper. -/
theorem call (h : d.IsProper) {call : Call} (hcall : call.IsProper) : (call.run d).IsProper := by
  cases call with
  | editCell row name value => exact h.editCell hcall
  | editText row name text =>
    show (Session.editText row name text d).2.IsProper
    rcases Session.editText_cases row name text d with
      ⟨e, he⟩ | ⟨c, value, -, hvalue, he⟩ <;> rw [he]
    · exact h
    · exact h.editCell (Column.isReadable_of_entered hvalue).isProper
  | stageRow row =>
    show (Session.stageRow row d).2.IsProper
    rcases Session.stageRow_cases row d with
      ⟨e, he⟩ | he | ⟨content, c, d', hopen, hstages, he⟩ <;> rw [he]
    · exact h
    · exact h
    · refine (h.stages hstages (h.rowEdits row) ?_).forget _
      rintro p ⟨⟩
      exact h.openRow hopen
  | deleteRow row =>
    show (Session.deleteRow row d).2.IsProper
    rcases Session.deleteRow_cases row d with
      ⟨e, he⟩ | ⟨content, c, d', hopen, hstages, he⟩ <;> rw [he]
    · exact h
    · refine (h.stages hstages (h.openRow hopen) ?_).forget _
      rintro p ⟨⟩
      exact h.openRow hopen
  | insertRow data =>
    show (Session.insertRow data d).2.IsProper
    rcases Session.insertRow_cases data d with ⟨e, he⟩ | ⟨c, d', hstages, he⟩ <;> rw [he]
    · exact h
    · exact h.stages hstages hcall nofun

end Desk.IsProper

/-! ### Operations that fetch -/

/-- Whether an operation may bring a fetch to a desk: it hands it over, or has the loader ask. -/
def Operation.Brings (d : Desk) (op : Operation) (data : TableData) : Prop :=
  op = .refresh data ∨ ∃ loader n, d.session.loader = some loader ∧ loader n = .ok data

/-- Whether a desk comes of another one by counting requests and then, it may be, by taking over
what was fetched. -/
def Desk.Refetched (brings : TableData → Prop) (d d' : Desk) : Prop :=
  ∃ n, d' = d.mapSession ({ · with loads := n })
    ∨ ∃ data, brings data ∧ d' = d.mapSession fun s => { s with loads := n }.reload data

namespace Session

variable {d : Desk} {op : Operation}

theorem refetched_self (brings : TableData → Prop) (d : Desk) : d.Refetched brings d :=
  ⟨d.session.loads, .inl rfl⟩

theorem refetched_load {loader : Loader} (h : d.session.loader = some loader) :
    d.Refetched (op.Brings d) (load loader d).2 := by
  rw [load_apply]
  cases hdata : loader d.session.loads with
  | error e => exact ⟨_, .inl rfl⟩
  | ok data => exact ⟨_, .inr ⟨data, .inr ⟨loader, _, h, hdata⟩, rfl⟩⟩

theorem refetched_refetch : d.Refetched (op.Brings d) (refetch d).2 := by
  rw [refetch_apply]
  cases h : d.session.loader with
  | none => exact refetched_self _ d
  | some loader => exact refetched_load h

theorem refetched_refetchIfPossible : d.Refetched (op.Brings d) (refetchIfPossible d).2 := by
  rw [refetchIfPossible_apply]
  cases h : d.session.loader with
  | none => exact refetched_self _ d
  | some loader => exact refetched_load h

end Session

/-- An operation that is no call takes over what was fetched, at most, and before that it may forget
all that is staged and all edits. -/
theorem Operation.refetched_run {op : Operation} (hop : ∀ c, op ≠ .call c) (d : Desk) :
    d.Refetched (op.Brings d) (op.run d)
      ∨ (Session.discard d).2.Refetched (op.Brings d) (op.run d) := by
  cases op with
  | call c => exact absurd rfl (hop c)
  | refresh data => exact .inl ⟨d.session.loads, .inr ⟨data, .inl rfl, rfl⟩⟩
  | refetch => exact .inl Session.refetched_refetch
  | discard => exact .inr (Session.refetched_self _ _)
  | commit executor message parent now =>
    rcases Session.commit_cases executor message parent now d with
      ⟨run, e, hcommit⟩ | ⟨-, run, record, hcommit⟩
    · left
      simp only [Operation.run, perform, hcommit]
      exact Session.refetched_self _ d
    · right
      have hdiscard : Session.discard d = (.ok (), (Session.discard d).2) := rfl
      simp only [Operation.run, perform, hcommit]
      rw [Session.finish, Attempt.bind_of_ok hdiscard, Attempt.snd_bind_pure]
      -- a discard leaves the loader as it is
      exact Session.refetched_refetchIfPossible (d := (Session.discard d).2)
  | migrate migrator request =>
    left
    show d.Refetched _ (Session.migrate migrator request d).2
    rcases Session.migrate_cases migrator request d with
      ⟨-, result, hmigrate⟩ | ⟨-, report, hmigrate⟩
    · rw [hmigrate]
      exact Session.refetched_self _ d
    · rw [hmigrate, Attempt.snd_bind_pure]
      exact Session.refetched_refetchIfPossible

/-- An operation keeps a desk proper. -/
theorem Desk.IsProper.run {d : Desk} (h : d.IsProper) {op : Operation} (hop : op.IsProper) :
    (op.run d).IsProper := by
  have hbrings : ∀ data, op.Brings d data → data.IsProper := by
    rintro data (rfl | ⟨loader, n, hloader, hdata⟩)
    · exact hop
    · exact h.loader loader hloader n data hdata
  have hrefetched : ∀ base d' : Desk, base.IsProper → base.Refetched (op.Brings d) d' →
      d'.IsProper := by
    rintro base d' hbase ⟨n, rfl | ⟨data, hdata, rfl⟩⟩
    · exact ⟨hbase.data, hbase.edits, hbase.changes, hbase.loader⟩
    · refine ⟨hbrings data hdata, ?_, hbase.changes, hbase.loader⟩
      show ∀ edit ∈ (if data.equal base.session.data then base.session.edits else .empty).entries, _
      split
      · exact hbase.edits
      · exact nofun
  have hdiscard : (Session.discard d).2.IsProper := ⟨h.data, nofun, nofun, h.loader⟩
  by_cases hcall : ∃ c, op = .call c
  · obtain ⟨c, rfl⟩ := hcall
    rw [Operation.run, Operation.perform, c.snd_perform]
    exact h.call hop
  · rcases Operation.refetched_run (fun c hc => hcall ⟨c, hc⟩) d with hrun | hrun
    · exact hrefetched d _ h hrun
    · exact hrefetched _ _ hdiscard hrun

theorem Desk.IsProper.runAll {d : Desk} (h : d.IsProper) {ops : List Operation}
    (hops : ∀ op ∈ ops, op.IsProper) : (Operation.runAll d ops).IsProper := by
  induction ops generalizing d with
  | nil => exact h
  | cons op rest ih =>
    rw [List.forall_mem_cons] at hops
    exact ih (h.run hops.1) hops.2

end StagedTable
