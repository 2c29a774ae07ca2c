import StagedTable.Proofs.Session.Addressing

/-!
# The last writer of a cell

The merged view shows in each cell what was written there last: the edit of the cell, else what the
last update of its row has put there, else what was fetched (`reconcile_lastWrites`). Which row an
update or a deletion is of depends on all changes before it; `landings` lists the changes that have
found a row, each with the place of the row, and the view is read off this list. A row that a
deletion has found is found by no later change, so that no row is deleted twice. What finds no row
might as well not be there.
-/

namespace StagedTable

namespace View

variable {v : View} {c : Change} {p : Row} {i : Nat}

/-! ### The row that a change finds -/

/-- Whether the row at a place is left and holds a pre-image, as no row before it that is left. -/
def FirstHolds (v : View) (p : Row) (i : Nat) : Prop :=
  (∃ r, v.rows[i]? = some r ∧ v.isDeleted i = false ∧ r.holds p = true)
    ∧ ∀ j t, j < i → v.rows[j]? = some t → v.isDeleted j = false → t.holds p = false

/-- There is one first row at most. -/
theorem FirstHolds.eq {j : Nat} (hi : v.FirstHolds p i) (hj : v.FirstHolds p j) : i = j := by
  obtain ⟨⟨r, hr, hopen, hholds⟩, hbefore⟩ := hi
  obtain ⟨⟨r', hr', hopen', hholds'⟩, hbefore'⟩ := hj
  rcases Nat.lt_trichotomy i j with hij | hij | hij
  · exact absurd hholds (by simp [hbefore' i r hij hr hopen])
  · exact hij
  · exact absurd hholds' (by simp [hbefore j r' hij hr' hopen'])

theorem firstHolds_of_target? (hpreimage : c.preimage = some p) (h : v.target? c = some i) :
    v.FirstHolds p i := by
  obtain ⟨hkind, hopen, r, p', hr, hp', hholds⟩ := of_target? h
  rw [hpreimage] at hp'
  cases hp'
  refine ⟨⟨r, hr, hopen, hholds⟩, ?_⟩
  intro j t hj ht hleft
  rw [target?_eq_findRow hkind hpreimage] at h
  have hmem : (v.rows.take (i - 0))[j]? = some t := by
    rw [Nat.sub_zero, List.getElem?_take_of_lt hj, ht]
  exact findRowFrom_before h t (mem_keptFrom hmem (by rwa [Nat.zero_add]))

/-- A change finds the first row left that holds its pre-image; an insertion and a change without a
pre-image find none. -/
theorem target?_eq_some_iff :
    v.target? c = some i ↔ c.kind ≠ .insert ∧ ∃ p, c.preimage = some p ∧ v.FirstHolds p i := by
  constructor
  · intro h
    obtain ⟨hkind, -, -, p, -, hpreimage, -⟩ := of_target? h
    exact ⟨hkind, p, hpreimage, firstHolds_of_target? hpreimage h⟩
  · rintro ⟨hkind, p, hpreimage, hfirst⟩
    cases htarget : v.target? c with
    | none =>
      obtain ⟨⟨r, hr, hopen, hholds⟩, -⟩ := hfirst
      have hnone := (target?_eq_none_iff hkind hpreimage).1 htarget r
        (mem_keptFrom hr (by rwa [Nat.zero_add]))
      rw [hholds] at hnone
      cases hnone
    | some j => rw [(firstHolds_of_target? hpreimage htarget).eq hfirst]

/-! ### Changes that have found a row -/

/-- The changes that find a row when they are laid over a view one after the other, each with the
place of the row. -/
def landed (v : View) : List Change → List (Nat × Change)
  | [] => []
  | c :: rest =>
    match v.target? c with
    | some i => (i, c) :: (v.apply c).landed rest
    | none => (v.apply c).landed rest

theorem landed_of_some (h : v.target? c = some i) (rest : List Change) :
    v.landed (c :: rest) = (i, c) :: (v.apply c).landed rest := by
  rw [landed, h]

theorem landed_of_none (h : v.target? c = none) (rest : List Change) :
    v.landed (c :: rest) = v.landed rest := by
  rw [landed, h, apply_of_none h]

end View

/-- The changes that find a row of some rows, each with the place of the row, in order. -/
def landings (rows : List Row) (changes : List Change) : List (Nat × Change) :=
  (View.ofRows rows).landed changes

/-- What a change that has found a row puts into a cell. -/
def Change.writes? (c : Change) (found i : Nat) (name : String) : Option Value :=
  if found = i ∧ c.kind = .update then c.data.get? name else none

/-- What the last update of a row that names a column has put there, if there is one. -/
def written? (landings : List (Nat × Change)) (i : Nat) (name : String) : Option Value :=
  landings.reverse.findSome? fun (found, c) => c.writes? found i name

/-- A later update takes precedence. -/
theorem written?_cons (found : Nat) (c : Change) (rest : List (Nat × Change)) (i : Nat)
    (name : String) :
    written? ((found, c) :: rest) i name
      = (written? rest i name).or (c.writes? found i name) := by
  rw [written?, List.reverse_cons, List.findSome?_append, List.findSome?_singleton]
  rfl

/-- What was put into a cell was put there by a change that has found its row. -/
theorem exists_of_written? {landings : List (Nat × Change)} {i : Nat} {name : String}
    (h : (written? landings i name).isSome = true) : ∃ c, (i, c) ∈ landings := by
  obtain ⟨value, hvalue⟩ := Option.isSome_iff_exists.1 h
  obtain ⟨⟨found, c⟩, hmem, hwrites⟩ := List.exists_of_findSome?_eq_some hvalue
  have hwrites : c.writes? found i name = some value := hwrites
  unfold Change.writes? at hwrites
  split at hwrites
  · next hfound => exact ⟨c, hfound.1 ▸ List.mem_reverse.1 hmem⟩
  · cases hwrites

/-- The places of the rows that deletions have found, in order. -/
def deletions (landings : List (Nat × Change)) : List Nat :=
  (landings.filter (·.2.kind = .delete)).map (·.1)

theorem deletions_append (before after : List (Nat × Change)) :
    deletions (before ++ after) = deletions before ++ deletions after := by
  simp [deletions]

namespace View

variable {v : View} {c : Change} {i j : Nat} {changes : List Change} {name : String}

/-! ### One change -/

/-- A change that has found a row is an update or a deletion. -/
theorem apply_cases (h : v.target? c = some i) :
    (c.kind = .update ∧ v.apply c = v.overlay i c.data)
    ∨ (c.kind = .delete ∧ v.apply c = { v with deleted := v.deleted ++ [i] }) := by
  cases hkind : c.kind with
  | insert => exact absurd hkind (of_target? h).1
  | update => exact .inl ⟨rfl, apply_eq_overlay hkind h⟩
  | delete => exact .inr ⟨rfl, apply_eq_delete hkind h⟩

/-- A change puts its data over the row that it has found. -/
theorem getElem?_apply (h : v.target? c = some i) {r : Row} (hr : v.rows[j]? = some r) :
    ∃ s, (v.apply c).rows[j]? = some s
      ∧ ∀ name, s.get? name = (c.writes? i j name).or (r.get? name) := by
  rcases apply_cases h with ⟨hkind, happly⟩ | ⟨hkind, happly⟩ <;> rw [happly]
  · rw [getElem?_overlay, hr]
    refine ⟨_, rfl, fun name => ?_⟩
    by_cases hij : i = j
    · simp [Change.writes?, hij, hkind, Row.get?_overlay]
    · simp [Change.writes?, hij]
  · exact ⟨r, hr, fun name => by simp [Change.writes?, hkind]⟩

theorem mem_edited_apply (h : v.target? c = some i) :
    (j, name) ∈ (v.apply c).edited ↔ (j, name) ∈ v.edited ∨ (c.writes? i j name).isSome := by
  rcases apply_cases h with ⟨hkind, happly⟩ | ⟨hkind, happly⟩ <;> rw [happly]
  · rw [mem_edited_overlay]
    by_cases hij : i = j
    · simp [Change.writes?, hij, hkind]
    · have hji : j ≠ i := fun e => hij e.symm
      simp [Change.writes?, hij, hji]
  · simp [Change.writes?, hkind]

theorem nodup_markCell {edited : List (Nat × String)} (h : edited.Nodup) (cell : Nat × String) :
    (markCell edited cell).Nodup := by
  unfold markCell
  split
  · exact h
  · next hnew =>
    rw [← List.concat_eq_append]
    exact h.concat hnew

theorem nodup_markAll {edited cells : List (Nat × String)} (h : edited.Nodup) :
    (cells.foldl markCell edited).Nodup := by
  induction cells generalizing edited with
  | nil => exact h
  | cons cell rest ih => exact ih (nodup_markCell h cell)

theorem nodup_edited_apply (h : v.edited.Nodup) (c : Change) : (v.apply c).edited.Nodup := by
  unfold apply
  split
  · exact nodup_markAll h
  · exact h
  · exact h

theorem nodup_edited_applyEdit (h : v.edited.Nodup) (cell : CellRef) (value : Value) :
    (v.applyEdit cell value).edited.Nodup := by
  unfold applyEdit
  split
  · exact nodup_markCell h _
  · exact h

theorem deleted_apply (h : v.target? c = some i) :
    (v.apply c).deleted = v.deleted ++ deletions [(i, c)] := by
  rcases apply_cases h with ⟨hkind, happly⟩ | ⟨hkind, happly⟩ <;> rw [happly]
  · simp [deletions, overlay, hkind]
  · simp [deletions, hkind]

/-! ### All changes -/

theorem getElem?_applyAll (changes : List Change) {r : Row} (hr : v.rows[j]? = some r) :
    ∃ s, (changes.foldl apply v).rows[j]? = some s
      ∧ ∀ name, s.get? name = (written? (v.landed changes) j name).or (r.get? name) := by
  induction changes generalizing v r with
  | nil => exact ⟨r, hr, fun _ => rfl⟩
  | cons c rest ih =>
    rw [List.foldl_cons]
    cases h : v.target? c with
    | none =>
      rw [apply_of_none h, landed_of_none h]
      exact ih hr
    | some i =>
      obtain ⟨t, ht, hget⟩ := getElem?_apply h hr
      obtain ⟨s, hs, hlast⟩ := ih ht
      refine ⟨s, hs, fun name => ?_⟩
      rw [landed_of_some h, written?_cons, hlast, hget, Option.or_assoc]

theorem mem_edited_applyAll (changes : List Change) :
    (j, name) ∈ (changes.foldl apply v).edited
      ↔ (j, name) ∈ v.edited ∨ (written? (v.landed changes) j name).isSome := by
  induction changes generalizing v with
  | nil => simp [landed, written?]
  | cons c rest ih =>
    rw [List.foldl_cons, ih]
    cases h : v.target? c with
    | none => rw [apply_of_none h, landed_of_none h]
    | some i =>
      rw [landed_of_some h, written?_cons, mem_edited_apply h, Option.isSome_or, Bool.or_eq_true,
        or_assoc, or_comm (a := (c.writes? i j name).isSome = true)]

theorem nodup_edited_applyAll (h : v.edited.Nodup) (changes : List Change) :
    (changes.foldl apply v).edited.Nodup := by
  induction changes generalizing v with
  | nil => exact h
  | cons c rest ih => exact ih (nodup_edited_apply h c)

theorem nodup_edited_withEdits (h : v.edited.Nodup) (e : Edits) : (v.withEdits e).edited.Nodup := by
  unfold withEdits
  generalize e.entries = entries
  induction entries generalizing v with
  | nil => exact h
  | cons entry rest ih => exact ih (nodup_edited_applyEdit h _ _)

theorem deleted_applyAll (changes : List Change) :
    (changes.foldl apply v).deleted = v.deleted ++ deletions (v.landed changes) := by
  induction changes generalizing v with
  | nil => exact (List.append_nil _).symm
  | cons c rest ih =>
    rw [List.foldl_cons, ih]
    cases h : v.target? c with
    | none => rw [apply_of_none h, landed_of_none h]
    | some i =>
      rw [landed_of_some h, deleted_apply h, List.append_assoc, ← deletions_append]
      rfl

/-- What is found is a row that was not pending delete before. -/
theorem of_landed {landing : Nat × Change} (h : landing ∈ v.landed changes) :
    landing.1 < v.rows.length ∧ v.isDeleted landing.1 = false := by
  induction changes generalizing v with
  | nil => cases h
  | cons c rest ih =>
    cases htarget : v.target? c with
    | none =>
      rw [landed_of_none htarget] at h
      exact ih h
    | some i =>
      rw [landed_of_some htarget] at h
      rcases List.mem_cons.1 h with rfl | hrest
      · obtain ⟨-, hopen, r, -, hr, -, -⟩ := of_target? htarget
        exact ⟨(List.getElem?_eq_some_iff.1 hr).1, hopen⟩
      · obtain ⟨hlt, hopen⟩ := ih hrest
        refine ⟨(length_apply v c) ▸ hlt, ?_⟩
        rw [← Bool.not_eq_true]
        intro hdeleted
        rw [isDeleted_apply hdeleted c] at hopen
        cases hopen

/-- No change finds a row that a deletion before it has found. -/
theorem pairwise_landed (v : View) (changes : List Change) :
    (v.landed changes).Pairwise fun a b => a.2.kind = .delete → b.1 ≠ a.1 := by
  induction changes generalizing v with
  | nil => exact .nil
  | cons c rest ih =>
    cases h : v.target? c with
    | none =>
      rw [landed_of_none h]
      exact ih v
    | some i =>
      rw [landed_of_some h]
      refine .cons ?_ (ih _)
      rintro landing hlanding hkind rfl
      have hopen := (of_landed hlanding).2
      rw [apply_eq_delete hkind h] at hopen
      simp [isDeleted] at hopen

end View

/-- So no row is deleted twice. -/
theorem nodup_deletions {landings : List (Nat × Change)}
    (h : landings.Pairwise fun a b => a.2.kind = .delete → b.1 ≠ a.1) :
    (deletions landings).Nodup := by
  unfold deletions
  rw [List.Nodup, List.pairwise_map, List.pairwise_filter]
  refine h.imp ?_
  intro a b hab ha _
  exact (hab (of_decide_eq_true ha)).symm

/-! ### The whole view -/

/-- Whether a cell is one of so many rows. -/
def CellRef.isWithin (count : Nat) (cell : CellRef) : Bool :=
  decide (0 ≤ cell.row ∧ cell.row < count)

/-- Edits beyond the rows of a view do not matter. -/
theorem View.withEdits_forget (v : View) (e : Edits) :
    v.withEdits (e.forget fun cell => !cell.isWithin v.rows.length) = v.withEdits e := by
  have hwithin : ∀ (entries : List (CellRef × Value)) (v' : View),
      v'.rows.length = v.rows.length →
      (entries.filter (·.1.isWithin v.rows.length)).foldl
          (fun v entry => v.applyEdit entry.1 entry.2) v'
        = entries.foldl (fun v entry => v.applyEdit entry.1 entry.2) v' := by
    intro entries
    induction entries with
    | nil => exact fun _ _ => rfl
    | cons entry rest ih =>
      obtain ⟨cell, value⟩ := entry
      intro v' hlength
      rw [List.filter_cons]
      show _ = rest.foldl _ (v'.applyEdit cell value)
      cases hcell : cell.isWithin v.rows.length with
      | true =>
        rw [if_pos rfl]
        exact ih _ (length_applyEdit.trans hlength)
      | false =>
        have hstays : v'.applyEdit cell value = v' := by
          rw [applyEdit, hlength, if_neg (of_decide_eq_false hcell)]
        rw [if_neg Bool.false_ne_true, hstays]
        exact ih v' hlength
  unfold withEdits Edits.forget Assoc.keep
  simp only [Bool.not_not]
  exact hwithin e.entries v rfl

/-- How a view of rows shows changes and edits: in each cell what was written last, and nothing else
touched. -/
structure View.LastWrites (rows : List Row) (changes : List Change) (edits : Edits) (v : View) :
    Prop where
  /-- A change finds the first row that is left, as the changes before it have left it, that holds
  its pre-image; an insertion and a change without a pre-image find none. -/
  found : ∀ before c after, changes = before ++ c :: after → ∀ i,
    (before.foldl View.apply (.ofRows rows)).target? c = some i
      ↔ c.kind ≠ .insert ∧ ∃ p, c.preimage = some p
        ∧ (before.foldl View.apply (.ofRows rows)).FirstHolds p i
  length : v.rows.length = rows.length
  /-- A cell holds its edit, else what the last update of its row that names it has put there, else
  what was fetched. -/
  cells : ∀ (i : Nat) (r : Row), rows[i]? = some r → ∃ s, v.rows[i]? = some s ∧ ∀ name, s.get? name
    = (edits.get? ⟨i, name⟩).or ((written? (landings rows changes) i name).or (r.get? name))
  /-- The cells of the rows that were so overwritten are marked, and no others. -/
  edited : ∀ (i : Nat) (name : String), (i, name) ∈ v.edited ↔ i < rows.length
    ∧ ((edits.get? ⟨i, name⟩).isSome ∨ (written? (landings rows changes) i name).isSome)
  nodup_edited : v.edited.Nodup
  /-- The rows that deletions have found are marked, each by one deletion. -/
  deleted : v.deleted = deletions (landings rows changes)
  nodup_deleted : v.deleted.Nodup
  /-- No change is of a row that a deletion before it has marked. -/
  settled : (landings rows changes).Pairwise fun a b => a.2.kind = .delete → b.1 ≠ a.1
  /-- What finds no row might as well not be there. -/
  unmatched : ∀ before c after, changes = before ++ c :: after →
    c.kind = .insert ∨ c.preimage = none
      ∨ (before.foldl View.apply (.ofRows rows)).target? c = none →
    View.reconcile rows (before ++ after) edits = v
  /-- Nor do edits beyond the rows matter. -/
  beyond : View.reconcile rows changes
    (edits.forget fun cell => !cell.isWithin rows.length) = v

variable {rows : List Row} {changes : List Change}

/-- A change that finds no row when its turn comes might as well not be there. -/
theorem foldl_apply_erase {before after : List Change} {c : Change} {v : View}
    (h : (before.foldl View.apply v).target? c = none) :
    (before ++ c :: after).foldl View.apply v = (before ++ after).foldl View.apply v := by
  rw [List.foldl_append, List.foldl_cons, View.apply_of_none h, List.foldl_append]

theorem View.target?_eq_none {v : View} {c : Change}
    (h : c.kind = .insert ∨ c.preimage = none) : v.target? c = none := by
  rw [Option.eq_none_iff_forall_ne_some]
  intro i htarget
  obtain ⟨hkind, -, -, p, -, hpreimage, -⟩ := of_target? htarget
  rcases h with hinsert | hnone
  · exact hkind hinsert
  · rw [hnone] at hpreimage
    cases hpreimage

/-- The merged view shows in each cell what was written there last. -/
theorem reconcile_lastWrites (rows : List Row) (changes : List Change) (edits : Edits) :
    View.LastWrites rows changes edits (View.reconcile rows changes edits) := by
  have hview : View.reconcile rows changes edits
      = (changes.foldl View.apply (.ofRows rows)).withEdits edits := rfl
  have hlength : (changes.foldl View.apply (.ofRows rows)).rows.length = rows.length :=
    View.length_applyAll _ changes
  have hdeleted : (View.reconcile rows changes edits).deleted
      = deletions (landings rows changes) := by
    rw [hview, View.deleted_withEdits]
    exact View.deleted_applyAll changes
  have hsettled := View.pairwise_landed (.ofRows rows) changes
  constructor
  case found => exact fun before c after _ i => View.target?_eq_some_iff
  case length => rw [hview, View.length_withEdits, hlength]
  case cells =>
    intro i r hr
    obtain ⟨s, hs, hlast⟩ := View.getElem?_applyAll (v := .ofRows rows) changes hr
    refine ⟨s.putEdits i edits.entries, ?_, fun name => ?_⟩
    · rw [hview, View.getElem?_withEdits, hs]
      rfl
    · rw [Row.get?_putEdits edits.nodup, hlast]
      rfl
  case edited =>
    intro i name
    -- what was put into a cell was put into one of the rows
    have hrange : (written? (landings rows changes) i name).isSome = true → i < rows.length := by
      intro hsome
      obtain ⟨c, hlanding⟩ := exists_of_written? hsome
      exact (View.of_landed hlanding).1
    rw [hview, View.mem_edited_withEdits, View.mem_edited_applyAll, hlength]
    constructor
    · rintro ((hnone | hwritten) | ⟨hlt, hedit⟩)
      · cases hnone
      · exact ⟨hrange hwritten, .inr hwritten⟩
      · exact ⟨hlt, .inl hedit⟩
    · rintro ⟨hlt, hedit | hwritten⟩
      · exact .inr ⟨hlt, hedit⟩
      · exact .inl (.inr hwritten)
  case nodup_edited =>
    have hnone : (View.ofRows rows).edited.Nodup := List.nodup_nil
    exact View.nodup_edited_withEdits (View.nodup_edited_applyAll hnone changes) edits
  case deleted => exact hdeleted
  case nodup_deleted =>
    rw [hdeleted]
    exact nodup_deletions hsettled
  case settled => exact hsettled
  case unmatched =>
    rintro before c after rfl hnone
    have htarget : (before.foldl View.apply (.ofRows rows)).target? c = none := by
      rcases hnone with hkind | hpreimage | htarget
      · exact View.target?_eq_none (.inl hkind)
      · exact View.target?_eq_none (.inr hpreimage)
      · exact htarget
    rw [hview, foldl_apply_erase htarget]
    rfl
  case beyond =>
    have hforget := View.withEdits_forget (changes.foldl View.apply (.ofRows rows)) edits
    rw [hlength] at hforget
    exact hforget

end StagedTable
