import StagedTable.Proofs.Session.Calls
import StagedTable.Proofs.Session.Execution
import StagedTable.Proofs.Value.Content

/-!
# The view and the table

The staged view and the table after the statements are worked out independently: the view matches
whole pre-images against rows, the statements name rows by their primary key and set only what
changed. `Matches` ties the two together. A row that can still be changed has its `Place` in both,
and staging a change of the row changes both alike.
-/

namespace StagedTable

/-! ### The rows that are left -/

/-- The rows from a place on that are not skipped. -/
def keptFrom (skipped : Nat → Bool) (start : Nat) : List Row → List Row
  | [] => []
  | r :: rest =>
    if skipped start then keptFrom skipped (start + 1) rest
    else r :: keptFrom skipped (start + 1) rest

/-- The rows of a view that are not pending delete. -/
def View.kept (v : View) : List Row := keptFrom v.isDeleted 0 v.rows

variable {skipped skipped' : Nat → Bool}

theorem keptFrom_append (skipped : Nat → Bool) (start : Nat) (before after : List Row) :
    keptFrom skipped start (before ++ after)
      = keptFrom skipped start before ++ keptFrom skipped (start + before.length) after := by
  induction before generalizing start with
  | nil => rfl
  | cons r rest ih =>
    have hplace : start + 1 + rest.length = start + (r :: rest).length := by
      rw [List.length_cons]
      omega
    rw [List.cons_append, keptFrom, keptFrom, ih, hplace]
    split <;> rfl

/-- Which rows are left depends only on the places that are looked at. -/
theorem keptFrom_congr {start : Nat} {rows : List Row}
    (h : ∀ i, start ≤ i → i < start + rows.length → skipped i = skipped' i) :
    keptFrom skipped start rows = keptFrom skipped' start rows := by
  induction rows generalizing start with
  | nil => rfl
  | cons r rest ih =>
    have hrest : keptFrom skipped (start + 1) rest = keptFrom skipped' (start + 1) rest :=
      ih fun i hlow hhigh => h i (by omega) (by rw [List.length_cons]; omega)
    rw [keptFrom, keptFrom, h start (Nat.le_refl _) (by rw [List.length_cons]; omega), hrest]

theorem mem_of_mem_keptFrom {start : Nat} {rows : List Row} {r : Row}
    (h : r ∈ keptFrom skipped start rows) : r ∈ rows := by
  induction rows generalizing start with
  | nil => cases h
  | cons t rest ih =>
    rw [keptFrom] at h
    split at h
    · exact .tail _ (ih h)
    · rcases List.mem_cons.1 h with rfl | hrest
      · exact .head _
      · exact .tail _ (ih hrest)

theorem kept_ofRows (rows : List Row) : (View.ofRows rows).kept = rows := by
  have hkeep : ∀ start, keptFrom (View.ofRows rows).isDeleted start rows = rows := by
    have hall : ∀ (skipped : Nat → Bool) (xs : List Row), (∀ i, skipped i = false) →
        ∀ start, keptFrom skipped start xs = xs := by
      intro skipped xs h
      induction xs with
      | nil => exact fun _ => rfl
      | cons r rest ih =>
        intro start
        rw [keptFrom, h start, ih]
        rfl
    exact hall _ rows fun _ => rfl
  exact hkeep 0

/-- A row that stands at a place stands between those before it and those behind it. -/
theorem exists_split {rows : List Row} {i : Nat} {r : Row} (h : rows[i]? = some r) :
    ∃ before after, rows = before ++ r :: after ∧ before.length = i := by
  obtain ⟨hlt, hr⟩ := List.getElem?_eq_some_iff.1 h
  refine ⟨rows.take i, rows.drop (i + 1), ?_, ?_⟩
  · rw [← hr, ← List.drop_eq_getElem_cons hlt, List.take_append_drop]
  · rw [List.length_take]
    omega

theorem View.kept_split {v : View} {before after : List Row} {r : Row}
    (hrows : v.rows = before ++ r :: after) (hopen : v.isDeleted before.length = false) :
    v.kept = keptFrom v.isDeleted 0 before
      ++ r :: keptFrom v.isDeleted (before.length + 1) after := by
  rw [kept, hrows, keptFrom_append, Nat.zero_add, keptFrom, hopen, if_neg Bool.false_ne_true]

/-- A row is found if it holds the pre-image and no row before it that is left does. -/
theorem findRowFrom_append {preimage r : Row} {start : Nat} {before after : List Row}
    (hbefore : ∀ t ∈ keptFrom skipped start before, t.holds preimage = false)
    (hskipped : skipped (start + before.length) = false) (hr : r.holds preimage = true) :
    findRowFrom skipped preimage start (before ++ r :: after) = some (start + before.length) := by
  induction before generalizing start with
  | nil =>
    rw [List.length_nil, Nat.add_zero] at hskipped ⊢
    rw [List.nil_append, findRowFrom, hskipped, hr]
    rfl
  | cons t rest ih =>
    have hplace : start + 1 + rest.length = start + (t :: rest).length := by
      rw [List.length_cons]
      omega
    rw [keptFrom] at hbefore
    rw [List.cons_append, findRowFrom, if_neg, ← hplace]
    · rw [← hplace] at hskipped
      refine ih (fun u hu => hbefore u ?_) hskipped
      split
      · exact hu
      · exact .tail _ hu
    · intro hfound
      rw [Bool.and_eq_true, Bool.not_eq_true'] at hfound
      rw [hfound.1, if_neg Bool.false_ne_true] at hbefore
      rw [hbefore t (.head _)] at hfound
      cases hfound.2

/-! ### Rows that are shown -/

variable {columns : List Column} {r content : Row}

/-- Whether a row carries all columns, with comparable values. -/
structure Row.IsShown (columns : List Column) (r : Row) : Prop where
  carries : ∀ c ∈ columns, (r.get? c.name).isSome
  comparable : r.IsComparable

theorem Row.holds_self (h : r.IsComparable) : r.holds r = true := by
  rw [Row.holds, List.all_eq_true]
  rintro ⟨name, v⟩ hv
  have hget : r.get? name = some v := Assoc.get?_of_mem r.nodup hv
  simp only [hget]
  exact Value.same_refl (h name v hget).isProper (h name v hget).isNan_eq_false

/-- A row that holds the values of another one has its key, if the other one has a key. -/
theorem Row.sameKey_of_holds (hkeys : ∀ key ∈ Column.keys columns, (content.get? key.name).isSome)
    (hholds : r.holds content = true) : SameKey columns r content := by
  intro key hkey
  obtain ⟨w, hw⟩ := Option.isSome_iff_exists.1 (hkeys key hkey)
  have hvalue := List.all_eq_true.1 hholds _ (Assoc.mem_of_get? hw)
  cases hv : r.get? key.name with
  | none => simp only [hv, Bool.false_eq_true] at hvalue
  | some v =>
    simp only [hv] at hvalue
    exact ⟨v, w, rfl, hw, hvalue⟩

theorem Row.IsShown.sameKey (h : content.IsShown columns) (hholds : r.holds content = true) :
    SameKey columns r content :=
  Row.sameKey_of_holds (fun key hkey => h.carries key (List.mem_filter.1 hkey).1) hholds

theorem Row.IsShown.overlay {top : Row} (h : r.IsShown columns) (htop : top.IsComparable) :
    (r.overlay top).IsShown columns where
  carries c hc := by
    rw [Row.get?_overlay, Option.isSome_or, h.carries c hc, Bool.or_true]
  comparable := h.comparable.overlay htop

theorem forall_mem_replace {P : Row → Prop} {before after : List Row} {old new : Row}
    (h : ∀ t ∈ before ++ old :: after, P t) (hnew : P new) :
    ∀ t ∈ before ++ new :: after, P t := by
  rw [List.forall_mem_append, List.forall_mem_cons] at h ⊢
  exact ⟨h.1, hnew, h.2.2⟩

/-! ### The view after a change -/

namespace View

variable {v : View} {c : Change} {i j : Nat}

/-- A change with a pre-image is matched to the first row left that holds it. -/
theorem target?_eq_findRow {p : Row} (hkind : c.kind ≠ .insert) (hpreimage : c.preimage = some p) :
    v.target? c = findRow v.isDeleted p v.rows := by
  unfold View.target?
  rw [hpreimage]
  cases hc : c.kind with
  | insert => exact absurd hc hkind
  | _ => rfl

/-- A change of a row is matched to it, if no row before it that is left holds its values. -/
theorem target?_eq {before after : List Row} (hrows : v.rows = before ++ content :: after)
    (hopen : v.isDeleted before.length = false) (hcontent : content.IsComparable)
    (hbefore : ∀ t ∈ keptFrom v.isDeleted 0 before, t.holds content = false)
    (hkind : c.kind ≠ .insert) (hpreimage : c.preimage = some content) :
    v.target? c = some before.length := by
  rw [← Nat.zero_add before.length] at hopen
  rw [target?_eq_findRow hkind hpreimage, findRow, hrows,
    findRowFrom_append hbefore hopen (Row.holds_self hcontent), Nat.zero_add]

/-- A change leaves alone the rows that it is not matched to. -/
theorem apply_elsewhere (h : v.target? c ≠ some j) :
    (v.apply c).rows[j]? = v.rows[j]? ∧ (v.apply c).isDeleted j = v.isDeleted j := by
  unfold View.apply
  split
  · next i htarget _ =>
    have hij : i ≠ j := fun e => h (e ▸ htarget)
    exact ⟨List.getElem?_modify_ne _ _ hij, rfl⟩
  · next i htarget _ =>
    have hij : j ≠ i := fun e => h (e ▸ htarget)
    refine ⟨rfl, ?_⟩
    show (v.deleted ++ [i]).contains j = v.deleted.contains j
    simp [hij]
  · exact ⟨rfl, rfl⟩

theorem apply_eq_overlay (hkind : c.kind = .update) (htarget : v.target? c = some i) :
    v.apply c = v.overlay i c.data := by
  rw [apply, htarget, hkind]

theorem apply_eq_delete (hkind : c.kind = .delete) (htarget : v.target? c = some i) :
    v.apply c = { v with deleted := v.deleted ++ [i] } := by
  rw [apply, htarget, hkind]

theorem apply_update {before after : List Row} (hkind : c.kind = .update)
    (htarget : v.target? c = some i) (hrows : v.rows = before ++ content :: after)
    (hplace : before.length = i) :
    (v.apply c).rows = before ++ content.overlay c.data :: after
      ∧ (v.apply c).isDeleted = v.isDeleted := by
  rw [apply_eq_overlay hkind htarget]
  refine ⟨?_, rfl⟩
  show v.rows.modify i (·.overlay c.data) = _
  rw [hrows, ← hplace]
  exact List.modifyTailIdx_add (List.modifyHead (·.overlay c.data)) 0 before (content :: after)

/-- The rows after a deletion that is matched to a row: that row is marked. -/
theorem apply_delete (hkind : c.kind = .delete) (htarget : v.target? c = some i) :
    (v.apply c).rows = v.rows
      ∧ ∀ j, (v.apply c).isDeleted j = (v.isDeleted j || j == i) := by
  rw [apply_eq_delete hkind htarget]
  refine ⟨rfl, ?_⟩
  intro j
  show (v.deleted ++ [i]).contains j = _
  rw [Bool.eq_iff_iff]
  simp [isDeleted]

theorem apply_insert (hkind : c.kind = .insert) : v.apply c = v := by
  unfold View.apply
  rw [hkind]
  split <;> first | rfl | contradiction

end View

/-! ### The table after the statements -/

namespace Desk

/-- The rows of the table after the statements of the staged changes. -/
def committed (d : Desk) : List Row :=
  Sql.Statement.execAll (d.changes.map (·.statement)) d.session.data.rows

/-- The rows that are staged for insertion, in order. -/
def inserted (d : Desk) : List Row := (d.changes.filter (·.kind = .insert)).map (·.data)

variable {d d' : Desk} {row : Int} {c : Change}

theorem openRow_ok : d.openRow row = .ok content
    ↔ 0 ≤ row ∧ d.staged.rows[row.toNat]? = some content
      ∧ d.staged.isDeleted row.toNat = false := by
  unfold openRow
  by_cases hrow : 0 ≤ row
  · rw [if_pos hrow]
    cases d.staged.rows[row.toNat]? with
    | none => simp
    | some r => cases d.staged.isDeleted row.toNat <;> simp [hrow]
  · rw [if_neg hrow]
    simp [hrow]

end Desk

/-- Where a row that can still be changed stands, in the view and in the table: no other row of the
table has its key, and changes of the row are matched to it. -/
structure Place (columns : List Column) (d : Desk) (row : Int) (content : Row) where
  before : List Row
  after : List Row
  shown : d.staged.rows = before ++ content :: after
  length_before : before.length = row.toNat
  isOpen : d.staged.isDeleted row.toNat = false
  above : List Row
  stored : Row
  below : List Row
  committed : d.committed = above ++ stored :: below
  above_agree : List.Forall₂ Row.Agrees above (keptFrom d.staged.isDeleted 0 before)
  agrees : stored.Agrees content
  below_agree : List.Forall₂ Row.Agrees below
    (keptFrom d.staged.isDeleted (row.toNat + 1) after ++ d.inserted)
  above_differ : ∀ t ∈ above, ¬ SameKey columns t content
  below_differ : ∀ t ∈ below, ¬ SameKey columns t content

/-- How the view of a desk and the table after the statements are tied together. Each statement of
an update or a deletion hits one row. -/
structure Matches (data : TableData) (d : Desk) : Prop where
  data_eq : d.session.data = data
  shown : ∀ r ∈ d.staged.rows, r.IsShown data.columns
  comparable : ∀ r ∈ d.committed, r.IsComparable
  agree : List.Forall₂ Row.Agrees d.committed (d.staged.kept ++ d.inserted)
  hits : ∀ before c after, d.changes = before ++ c :: after → c.kind ≠ .insert →
    ((Sql.Statement.execAll (before.map (·.statement)) data.rows).filter
      c.statement.meets).length = 1

variable {data : TableData} {d d' : Desk} {row : Int}

/-- A row that can still be changed has its place in the table. -/
theorem Matches.place (h : Matches data d) (hopen : d.openRow row = .ok content)
    (hdiffer : KeysDiffer data.columns d.committed) :
    Nonempty (Place data.columns d row content) := by
  obtain ⟨-, hget, hisOpen⟩ := Desk.openRow_ok.1 hopen
  obtain ⟨before, after, hshown, hlength⟩ := exists_split hget
  -- the rows that are left stand in the table in the same order
  have hkept : d.staged.kept ++ d.inserted = keptFrom d.staged.isDeleted 0 before
      ++ (content :: keptFrom d.staged.isDeleted (row.toNat + 1) after ++ d.inserted) := by
    rw [← hlength] at hisOpen ⊢
    rw [View.kept_split hshown hisOpen, List.append_assoc]
  have hagree := h.agree
  rw [hkept] at hagree
  have habove := List.forall₂_take_append _ _ _ hagree
  have hbelow := List.forall₂_drop_append _ _ _ hagree
  have hsplit := List.take_append_drop (keptFrom d.staged.isDeleted 0 before).length d.committed
  rw [List.cons_append] at hbelow
  obtain ⟨stored, below, hstored, hrest, hdrop⟩ := List.forall₂_cons_right_iff.1 hbelow
  rw [hdrop] at hsplit
  have hcontent : content.IsShown data.columns :=
    h.shown content (by rw [hshown]; simp)
  have hcomparable := h.comparable
  rw [← hsplit] at hdiffer hcomparable
  have hkey : SameKey data.columns stored content :=
    hstored.sameKey fun key hkey => hcontent.carries key (List.mem_filter.1 hkey).1
  have hothers := not_sameKey_of_split hcomparable hcontent.comparable hkey hdiffer
  exact ⟨{
    before := before
    after := after
    shown := hshown
    length_before := hlength
    isOpen := hisOpen
    above := _
    stored := stored
    below := below
    committed := hsplit.symm
    above_agree := habove
    agrees := hstored
    below_agree := hrest
    above_differ := hothers.1
    below_differ := hothers.2 }⟩

namespace Place

theorem target (p : Place data.columns d row content) (h : Matches data d) {c : Change}
    (hkind : c.kind ≠ .insert) (hpreimage : c.preimage = some content) :
    d.staged.target? c = some row.toNat := by
  have hcontent : content.IsShown data.columns :=
    h.shown content (by rw [p.shown]; simp)
  -- a row before it that held its values would have its key
  have hbefore : ∀ t ∈ keptFrom d.staged.isDeleted 0 p.before, t.holds content = false := by
    intro t ht
    rw [← Bool.not_eq_true]
    intro hholds
    obtain ⟨s, hs, hagrees⟩ := Sql.exists_of_forall₂ p.above_agree ht
    have hsc := h.comparable s (by rw [p.committed]; simp [hs])
    have ht : t.IsShown data.columns :=
      h.shown t (by rw [p.shown]; simp [mem_of_mem_keptFrom ht])
    refine p.above_differ s hs (SameKey.trans hsc ht.comparable hcontent.comparable ?_
      (hcontent.sameKey hholds))
    exact hagrees.sameKey fun key hkey => ht.carries key (List.mem_filter.1 hkey).1
  have hisOpen := p.isOpen
  rw [← p.length_before] at hisOpen ⊢
  exact View.target?_eq p.shown hisOpen hcontent.comparable hbefore hkind hpreimage

/-- A statement whose condition is met by the rows with the key of a row picks out that row. -/
theorem picksOnly (p : Place data.columns d row content) (h : content.IsShown data.columns)
    {s : Sql.Statement}
    (hmeets : ∀ t, s.meets t = true ↔ SameKey data.columns t content) :
    s.PicksOnly p.above p.stored p.below where
  here := (hmeets _).2
    (p.agrees.sameKey fun key hkey => h.carries key (List.mem_filter.1 hkey).1)
  before t ht := by
    rw [← Bool.not_eq_true, hmeets]
    exact p.above_differ t ht
  after t ht := by
    rw [← Bool.not_eq_true, hmeets]
    exact p.below_differ t ht

/-- The table and the view agree after the row has changed in both. -/
theorem agree_overlay (p : Place data.columns d row content) {stored content' : Row}
    (hagrees : stored.Agrees content') :
    List.Forall₂ Row.Agrees (p.above ++ stored :: p.below)
      (keptFrom d.staged.isDeleted 0 (p.before ++ content' :: p.after) ++ d.inserted) := by
  rw [keptFrom_append, Nat.zero_add, p.length_before, keptFrom, p.isOpen,
    if_neg Bool.false_ne_true, List.append_assoc, List.cons_append]
  exact List.rel_append p.above_agree (.cons hagrees p.below_agree)

/-- The table and the view agree after the row is gone from both. -/
theorem agree_erase (p : Place data.columns d row content) {skipped : Nat → Bool}
    (hskipped : ∀ j, skipped j = (d.staged.isDeleted j || j == row.toNat)) :
    List.Forall₂ Row.Agrees (p.above ++ p.below)
      (keptFrom skipped 0 d.staged.rows ++ d.inserted) := by
  have hbefore : keptFrom skipped 0 p.before = keptFrom d.staged.isDeleted 0 p.before := by
    apply keptFrom_congr
    intro i _ hi
    have hplace : (i == row.toNat) = false := by
      rw [beq_eq_false_iff_ne, ← p.length_before]
      omega
    rw [hskipped, hplace, Bool.or_false]
  have hafter : keptFrom skipped (row.toNat + 1) p.after
      = keptFrom d.staged.isDeleted (row.toNat + 1) p.after := by
    apply keptFrom_congr
    intro i hi _
    have hplace : (i == row.toNat) = false := by
      rw [beq_eq_false_iff_ne]
      omega
    rw [hskipped, hplace, Bool.or_false]
  have hhere : skipped row.toNat = true := by
    rw [hskipped, beq_self_eq_true, Bool.or_true]
  rw [p.shown, keptFrom_append, Nat.zero_add, p.length_before, keptFrom, if_pos hhere, hbefore,
    hafter, List.append_assoc]
  exact List.rel_append p.above_agree p.below_agree

end Place

/-! ### What staging does -/

variable {kind : ChangeKind} {edits : Row} {preimage : Option Row} {c : Change}

namespace Session.Stages

theorem staged_eq (h : Stages d kind edits preimage c d') : d'.staged = d.staged.apply c := by
  show View.reconcile d'.session.data.rows d'.changes .empty = _
  rw [h.session, h.changes]
  exact List.foldl_append

theorem committed_eq (h : Stages d kind edits preimage c d') :
    d'.committed = c.statement.exec d.committed := by
  rw [Desk.committed, h.session, h.changes, List.map_append, Sql.Statement.execAll,
    List.foldl_append]
  rfl

theorem inserted_eq (h : Stages d kind edits preimage c d') :
    d'.inserted = d.inserted ++ (if kind = .insert then [edits] else []) := by
  rw [Desk.inserted, h.changes, List.filter_append, List.map_append, List.filter_cons, h.kind_eq,
    ← h.data_eq]
  by_cases hkind : kind = .insert
  · rw [if_pos hkind, if_pos (decide_eq_true hkind)]
    rfl
  · rw [if_neg hkind, if_neg (by rw [decide_eq_false hkind]; exact Bool.false_ne_true)]
    rfl

/-- Each statement hits one row after a change is staged, if that of the change does. -/
theorem hits (hstages : Stages d kind edits preimage c d') (h : Matches data d)
    (hhits : kind ≠ .insert → (d.committed.filter c.statement.meets).length = 1) :
    ∀ before e after, d'.changes = before ++ e :: after → e.kind ≠ .insert →
      ((Sql.Statement.execAll (before.map (·.statement)) data.rows).filter
        e.statement.meets).length = 1 := by
  intro before e after hsplit hkind
  rw [hstages.changes] at hsplit
  -- the change is the one that was staged last, or it was there before
  rcases List.eq_nil_or_concat after with rfl | ⟨after', last, rfl⟩
  · obtain ⟨rfl, he⟩ := List.append_inj' hsplit rfl
    cases he
    rw [← h.data_eq]
    exact hhits (hstages.kind_eq ▸ hkind)
  · rw [List.concat_eq_append, ← List.cons_append, ← List.append_assoc] at hsplit
    exact h.hits before e after' (List.append_inj' hsplit rfl).1 hkind

end Session.Stages

namespace Matches

/-- Staging an update keeps the view and the table together, if the column of each value that is
alike to the one of the row tells them apart only where they are the same. -/
theorem update (h : Matches data d) (hkeys : Column.keys data.columns ≠ [])
    (hdiffer : KeysDiffer data.columns d.committed) (hopen : d.openRow row = .ok content)
    (hstages : Session.Stages d .update edits (some content) c d') (hedits : edits.IsComparable)
    (hnames : ∀ name v, edits.get? name = some v → (content.get? name).isSome)
    (hsame : ∀ name v w, edits.get? name = some v → content.get? name = some w →
      v.alike w = true → v.same w = true) :
    Matches data d' := by
  obtain ⟨p⟩ := h.place hopen hdiffer
  have hcontent : content.IsShown data.columns := h.shown content (by rw [p.shown]; simp)
  have htarget := p.target h (by simp [hstages.kind_eq]) hstages.preimage_eq
  obtain ⟨hrows, hdeleted⟩ := View.apply_update hstages.kind_eq htarget p.shown p.length_before
  rw [hstages.data_eq] at hrows
  -- the statement hits the row in the table
  obtain ⟨assignments, condition, hstatement, -, hassignments, hcondition⟩ :=
    Sql.Statement.updateRow_ok hstages.statement
  rw [h.data_eq] at hassignments hcondition
  have hpicks : c.statement.PicksOnly p.above p.stored p.below := by
    apply p.picksOnly hcontent
    intro t
    rw [hstatement]
    exact Sql.Statement.meets_condition hkeys hcondition
  have hcommitted : d'.committed = p.above
      ++ p.stored.overlay (.ofList (Sql.Statement.changed edits content)) :: p.below := by
    rw [hstatement] at hpicks
    rw [hstages.committed_eq, p.committed, hstatement, hpicks.exec_update,
      Sql.Statement.row_makeAll hassignments]
  have hstored : p.stored.IsComparable := h.comparable _ (by rw [p.committed]; simp)
  have hchanged : (Row.ofList (Sql.Statement.changed edits content)).IsComparable :=
    fun name v hv => hedits name v (get?_changed.1 hv).1
  constructor
  case data_eq => rw [hstages.session, h.data_eq]
  case shown =>
    have hall := h.shown
    rw [p.shown] at hall
    rw [hstages.staged_eq, hrows]
    exact forall_mem_replace hall (hcontent.overlay hedits)
  case comparable =>
    have hall := h.comparable
    rw [p.committed] at hall
    rw [hcommitted]
    exact forall_mem_replace hall (hstored.overlay hchanged)
  case agree =>
    -- the view takes all edits of the row, the table those that the statement keeps
    have hagrees := p.agrees.overlay_changed hstored hcontent.comparable hedits hnames hsame
    rw [hcommitted, hstages.inserted_eq, View.kept, hstages.staged_eq, hrows, hdeleted]
    simpa using p.agree_overlay hagrees
  case hits =>
    apply hstages.hits h
    intro _
    rw [p.committed, hpicks.filter_meets]
    rfl

theorem delete (h : Matches data d) (hkeys : Column.keys data.columns ≠ [])
    (hdiffer : KeysDiffer data.columns d.committed) (hopen : d.openRow row = .ok content)
    (hstages : Session.Stages d .delete content (some content) c d') : Matches data d' := by
  obtain ⟨p⟩ := h.place hopen hdiffer
  have hcontent : content.IsShown data.columns := h.shown content (by rw [p.shown]; simp)
  have htarget := p.target h (by simp [hstages.kind_eq]) hstages.preimage_eq
  obtain ⟨hrows, hdeleted⟩ := View.apply_delete hstages.kind_eq htarget
  obtain ⟨condition, hstatement, hcondition⟩ := Sql.Statement.deleteRow_ok hstages.statement
  rw [h.data_eq] at hcondition
  have hpicks : c.statement.PicksOnly p.above p.stored p.below := by
    apply p.picksOnly hcontent
    intro t
    rw [hstatement]
    exact Sql.Statement.meets_condition hkeys hcondition
  have hcommitted : d'.committed = p.above ++ p.below := by
    rw [hstatement] at hpicks
    rw [hstages.committed_eq, p.committed, hstatement, hpicks.exec_delete]
  constructor
  case data_eq => rw [hstages.session, h.data_eq]
  case shown =>
    -- a deleted row is skipped in the view, but it stays where it is
    rw [hstages.staged_eq, hrows]
    exact h.shown
  case comparable =>
    have hall := h.comparable
    rw [p.committed, List.forall_mem_append, List.forall_mem_cons] at hall
    rw [hcommitted]
    exact List.forall_mem_append.2 ⟨hall.1, hall.2.2⟩
  case agree =>
    rw [hcommitted, hstages.inserted_eq, View.kept, hstages.staged_eq, hrows]
    simpa using p.agree_erase hdeleted
  case hits =>
    apply hstages.hits h
    intro _
    rw [p.committed, hpicks.filter_meets]
    rfl

theorem insert (h : Matches data d) (hstages : Session.Stages d .insert edits none c d')
    (hedits : edits.IsComparable) : Matches data d' := by
  obtain ⟨items, hstatement, hitems⟩ := Sql.Statement.insertRow_ok hstages.statement
  have hcommitted : d'.committed = d.committed ++ [edits] := by
    rw [hstages.committed_eq, hstatement, Sql.Statement.exec, Sql.Statement.row_makeAll hitems,
      Row.ofList_fields]
  have hstaged : d'.staged = d.staged := by
    rw [hstages.staged_eq, View.apply_insert hstages.kind_eq]
  constructor
  case data_eq => rw [hstages.session, h.data_eq]
  case shown =>
    rw [hstaged]
    exact h.shown
  case comparable =>
    rw [hcommitted, List.forall_mem_append]
    exact ⟨h.comparable, List.forall_mem_singleton.2 hedits⟩
  case agree =>
    rw [hcommitted, hstaged, hstages.inserted_eq, ← List.append_assoc]
    exact List.rel_append h.agree (.cons (Row.agrees_refl hedits) .nil)
  case hits =>
    apply hstages.hits h
    intro hkind
    exact absurd rfl hkind

end Matches

end StagedTable
