import StagedTable.Proofs.Staging.LastWriter

/-!
# Changes of different rows

In which order changes of rows with different primary key values are staged does not matter to the
merged view. A change that names its row by the whole key and leaves the key as it is can neither
bring about nor take away a row that a change with another key looks for
(`View.target?_apply_of_apart`), so that two neighbours in the log may be swapped
(`View.apply_comm`). Any order of the log that keeps the order of the changes with the same key is
reached by taking the changes to the front one after the other (`Reorders.equiv`).

The rows may share their keys, and changes may find no row. Where a key holds not-a-number it is the
key of no change, and no row is found by it.
-/

namespace StagedTable

/-! ### Keys of changes -/

/-- Whether a change is an update or a deletion of rows with the primary key values of a row. -/
def Change.HasKey (columns : List Column) (key : Row) (c : Change) : Prop :=
  c.kind ≠ .insert ∧ ∃ p ∈ c.preimage, SameKey columns p key

instance (columns : List Column) (key : Row) (c : Change) : Decidable (c.HasKey columns key) :=
  inferInstanceAs (Decidable (_ ∧ _))

/-- Whether a change names its row by all primary key columns, if it is of a row, and leaves the
values in these columns as they are. -/
structure Change.IsKeyed (columns : List Column) (c : Change) : Prop where
  carries : c.kind ≠ .insert → ∃ p, c.preimage = some p
    ∧ ∀ key ∈ Column.keys columns, (p.get? key.name).isSome
  spares : c.kind = .update → ∀ key ∈ Column.keys columns, c.data.get? key.name = none

/-- Whether no key is that of two changes. -/
def Change.Apart (columns : List Column) (c d : Change) : Prop :=
  ∀ key : Row, key.IsProper → c.HasKey columns key → ¬ d.HasKey columns key

/-- Whether the changes of one log are those of another one in an order that keeps, for each key,
the order of the changes with that key. -/
structure Reorders (columns : List Column) (log log' : List Change) : Prop where
  perm : log.Perm log'
  kept : ∀ key : Row, key.IsProper →
    log.filter (·.HasKey columns key) = log'.filter (·.HasKey columns key)

variable {columns : List Column} {c d : Change} {key r p : Row}

/-- What becomes of a row that a change has found. -/
def Change.touched (c : Change) (r : Row) : Row := if c.kind = .update then r.overlay c.data else r

theorem Change.Apart.symm (h : c.Apart columns d) : d.Apart columns c :=
  fun key hkey hd hc => h key hkey hc hd

/-- Changes are apart if their pre-images do not share their key. -/
theorem Change.apart_of_preimages {q : Row} (hc : c.IsProper) (hd : d.IsProper)
    (hp : c.preimage = some p) (hq : d.preimage = some q) (hdiffer : ¬ SameKey columns p q) :
    c.Apart columns d := by
  rintro key hkey ⟨-, p', hp', hpk⟩ ⟨-, q', hq', hqk⟩
  rw [hp] at hp'
  rw [hq] at hq'
  cases hp'
  cases hq'
  exact hdiffer (.of_common (hc.preimage p hp) (hd.preimage q hq) hkey hpk hqk)

/-- A row that holds the pre-image of a change has the key of the change. -/
theorem Change.IsKeyed.hasKey (h : c.IsKeyed columns) (hc : c.IsProper) (hkind : c.kind ≠ .insert)
    (hpreimage : c.preimage = some p) (hr : r.IsProper) (hholds : r.holds p = true) :
    c.HasKey columns r := by
  obtain ⟨p', hp', hcarries⟩ := h.carries hkind
  rw [hpreimage] at hp'
  cases hp'
  have hsame : SameKey columns r p := Row.sameKey_of_holds hcarries hholds
  exact ⟨hkind, p, hpreimage, hsame.symm_of_isProper hr (hc.preimage p hpreimage)⟩

namespace View

/-! ### Views up to the order of marks -/

/-- Whether two views show the very same rows, with the same cells and the same rows marked. -/
structure Equiv (v v' : View) : Prop where
  rows : v.rows = v'.rows
  edited : ∀ cell, cell ∈ v.edited ↔ cell ∈ v'.edited
  deleted : ∀ i, i ∈ v.deleted ↔ i ∈ v'.deleted

/-- Whether the row at a place is left and holds a pre-image. -/
def HoldsAt (v : View) (p : Row) (i : Nat) : Prop :=
  ∃ r, v.rows[i]? = some r ∧ v.isDeleted i = false ∧ r.holds p = true

variable {v v' v'' : View} {i j : Nat}

theorem firstHolds_iff : v.FirstHolds p i ↔ v.HoldsAt p i ∧ ∀ j < i, ¬ v.HoldsAt p j := by
  refine and_congr_right fun _ => ?_
  constructor
  · rintro hbefore j hj ⟨t, ht, hopen, hholds⟩
    rw [hbefore j t hj ht hopen] at hholds
    cases hholds
  · intro hbefore j t hj ht hopen
    rw [← Bool.not_eq_true]
    exact fun hholds => hbefore j hj ⟨t, ht, hopen, hholds⟩

/-- What a change finds depends only on which of the rows that are left hold its pre-image. -/
theorem target?_congr (hpreimage : c.preimage = some p)
    (h : ∀ i, v.HoldsAt p i ↔ v'.HoldsAt p i) : v.target? c = v'.target? c := by
  have hfirst : ∀ i, v.FirstHolds p i ↔ v'.FirstHolds p i := by
    intro i
    simp only [firstHolds_iff, h]
  apply Option.ext
  intro i
  rw [target?_eq_some_iff, target?_eq_some_iff]
  refine and_congr_right fun _ => exists_congr fun q => and_congr_right fun hq => ?_
  rw [hpreimage] at hq
  cases hq
  exact hfirst i

namespace Equiv

theorem refl (v : View) : v.Equiv v := ⟨rfl, fun _ => .rfl, fun _ => .rfl⟩

theorem trans (h : v.Equiv v') (h' : v'.Equiv v'') : v.Equiv v'' :=
  ⟨h.rows.trans h'.rows, fun cell => (h.edited cell).trans (h'.edited cell),
    fun i => (h.deleted i).trans (h'.deleted i)⟩

theorem isDeleted (h : v.Equiv v') : v.isDeleted = v'.isDeleted := by
  funext i
  rw [Bool.eq_iff_iff, View.isDeleted, View.isDeleted, List.contains_iff_mem, List.contains_iff_mem,
    h.deleted]

theorem target? (h : v.Equiv v') (c : Change) : v.target? c = v'.target? c := by
  unfold View.target?
  rw [h.isDeleted, h.rows]

theorem apply (h : v.Equiv v') (c : Change) : (v.apply c).Equiv (v'.apply c) := by
  unfold View.apply
  rw [h.target? c]
  split
  · refine ⟨?_, fun cell => ?_, h.deleted⟩
    · show v.rows.modify _ _ = v'.rows.modify _ _
      rw [h.rows]
    · rw [mem_edited_overlay, mem_edited_overlay, h.edited]
  · refine ⟨h.rows, h.edited, fun j => ?_⟩
    rw [List.mem_append, List.mem_append, h.deleted]
  · exact h

theorem applyAll (h : v.Equiv v') (log : List Change) :
    (log.foldl View.apply v).Equiv (log.foldl View.apply v') := by
  induction log generalizing v v' with
  | nil => exact h
  | cons c rest ih => exact ih (h.apply c)

theorem withEdits (h : v.Equiv v') (e : Edits) : (v.withEdits e).Equiv (v'.withEdits e) := by
  constructor
  case rows =>
    apply List.ext_getElem?
    intro j
    rw [getElem?_withEdits, getElem?_withEdits, h.rows]
  case edited =>
    intro cell
    rw [mem_edited_withEdits, mem_edited_withEdits, h.edited, h.rows]
  case deleted =>
    intro j
    rw [deleted_withEdits, deleted_withEdits, h.deleted]

end Equiv

/-! ### Two changes -/

theorem rows_apply (h : v.target? c = some i) : (v.apply c).rows = v.rows.modify i c.touched := by
  rcases apply_cases h with ⟨hkind, happly⟩ | ⟨hkind, happly⟩ <;> rw [happly]
  · have htouched : c.touched = fun r => r.overlay c.data := by
      funext r
      rw [Change.touched, if_pos hkind]
    rw [htouched]
    rfl
  · have htouched : c.touched = id := by
      funext r
      rw [Change.touched, if_neg (by rw [hkind]; decide), id]
    rw [htouched, List.modify_id]

/-- A change leaves a row that it has found with the key that it has. -/
theorem hasKey_touched (hc : c.IsKeyed columns) (h : c.HasKey columns r) :
    c.HasKey columns (c.touched r) := by
  obtain ⟨hkind, p, hp, hsame⟩ := h
  refine ⟨hkind, p, hp, ?_⟩
  intro key hkey
  obtain ⟨v, w, hv, hw, hvw⟩ := hsame key hkey
  refine ⟨v, w, hv, ?_, hvw⟩
  rw [Change.touched]
  split
  · next hupdate => rw [Row.get?_overlay, hc.spares hupdate key hkey, Option.none_or, hw]
  · exact hw

section

variable (hv : ∀ r ∈ v.rows, r.IsProper) (hc : c.IsProper) (hd : d.IsProper)
  (hck : c.IsKeyed columns) (hdk : d.IsKeyed columns) (hapart : c.Apart columns d)

include hv hc hd hck hdk hapart

/-- The row that a change has found is none that a change apart from it looks for, neither before
nor after. -/
theorem holdsAt_apply_iff (htarget : v.target? c = some i) (hkind : d.kind ≠ .insert)
    (hpreimage : d.preimage = some p) :
    (v.apply c).HoldsAt p j ↔ v.HoldsAt p j := by
  by_cases hij : i = j
  · subst hij
    obtain ⟨hckind, -, r, q, hr, hq, hholds⟩ := of_target? htarget
    have hmem : r ∈ v.rows := List.mem_of_getElem? hr
    have hkey : c.HasKey columns r := hck.hasKey hc hckind hq (hv r hmem) hholds
    have hr' : (v.apply c).rows[i]? = some (c.touched r) := by
      rw [rows_apply htarget, List.getElem?_modify_eq, hr]
      rfl
    have hproper := isProper_apply hv hc _ (List.mem_of_getElem? hr')
    constructor
    · rintro ⟨t, ht, -, hmatch⟩
      rw [hr'] at ht
      cases ht
      exact absurd (hdk.hasKey hd hkind hpreimage hproper hmatch)
        (hapart _ hproper (hasKey_touched hck hkey))
    · rintro ⟨t, ht, -, hmatch⟩
      rw [hr] at ht
      cases ht
      exact absurd (hdk.hasKey hd hkind hpreimage (hv r hmem) hmatch) (hapart r (hv r hmem) hkey)
  · have helse : v.target? c ≠ some j := by
      rw [htarget]
      exact fun e => hij (Option.some.inj e)
    obtain ⟨hrow, hdeleted⟩ := apply_elsewhere helse
    rw [HoldsAt, HoldsAt, hrow, hdeleted]

/-- A change finds the same row before and after a change apart from it. -/
theorem target?_apply_of_apart : (v.apply c).target? d = v.target? d := by
  cases htarget : v.target? c with
  | none => rw [apply_of_none htarget]
  | some i =>
    by_cases hkind : d.kind = .insert
    · rw [target?_eq_none (.inl hkind), target?_eq_none (.inl hkind)]
    · obtain ⟨p, hpreimage, -⟩ := hdk.carries hkind
      apply target?_congr hpreimage
      intro j
      exact holdsAt_apply_iff hv hc hd hck hdk hapart htarget hkind hpreimage

/-- Changes that are apart find different rows. -/
theorem ne_of_apart (hci : v.target? c = some i) (hdj : v.target? d = some j) : i ≠ j := by
  rintro rfl
  obtain ⟨hckind, -, r, p, hr, hp, hholds⟩ := of_target? hci
  obtain ⟨hdkind, -, r', q, hr', hq, hholds'⟩ := of_target? hdj
  rw [hr] at hr'
  cases hr'
  have hproper := hv r (List.mem_of_getElem? hr)
  exact hapart r hproper (hck.hasKey hc hckind hp hproper hholds)
    (hdk.hasKey hd hdkind hq hproper hholds')

/-- Two changes that are apart may be made in either order. -/
theorem apply_comm : ((v.apply c).apply d).Equiv ((v.apply d).apply c) := by
  have hcd := target?_apply_of_apart hv hc hd hck hdk hapart
  have hdc := target?_apply_of_apart hv hd hc hdk hck hapart.symm
  cases hci : v.target? c with
  | none =>
    rw [hci] at hdc
    rw [apply_of_none hci, apply_of_none hdc]
    exact .refl _
  | some i =>
    cases hdj : v.target? d with
    | none =>
      rw [hdj] at hcd
      rw [apply_of_none hdj, apply_of_none hcd]
      exact .refl _
    | some j =>
      have hij : i ≠ j := ne_of_apart hv hc hd hck hdk hapart hci hdj
      rw [hdj] at hcd
      rw [hci] at hdc
      constructor
      case rows =>
        rw [rows_apply hcd, rows_apply hci, rows_apply hdc, rows_apply hdj,
          List.modify_modify_ne _ _ _ hij]
      case edited =>
        rintro ⟨k, name⟩
        rw [mem_edited_apply hcd, mem_edited_apply hci, mem_edited_apply hdc, mem_edited_apply hdj,
          or_right_comm]
      case deleted =>
        intro k
        rw [deleted_apply hcd, deleted_apply hci, deleted_apply hdc, deleted_apply hdj]
        simp only [List.mem_append]
        exact or_right_comm

end

/-! ### Logs -/

/-- A change may be taken before changes that are apart from it. -/
theorem applyAll_bubble {before after : List Change} (hv : ∀ r ∈ v.rows, r.IsProper)
    (hc : c.IsProper) (hck : c.IsKeyed columns)
    (hbefore : ∀ d ∈ before, d.IsProper ∧ d.IsKeyed columns ∧ c.Apart columns d) :
    ((c :: (before ++ after)).foldl apply v).Equiv ((before ++ c :: after).foldl apply v) := by
  induction before generalizing v with
  | nil => exact .refl _
  | cons d rest ih =>
    rw [List.forall_mem_cons] at hbefore
    obtain ⟨⟨hd, hdk, hapart⟩, hrest⟩ := hbefore
    have hswap : ((d :: c :: (rest ++ after)).foldl apply v).Equiv
        ((d :: (rest ++ c :: after)).foldl apply v) := ih (isProper_apply hv hd) hrest
    exact ((apply_comm hv hc hd hck hdk hapart).applyAll (rest ++ after)).trans hswap

end View

namespace Reorders

variable {log rest before after : List Change}

/-- In a reordered log no change with the key of the first one stands before it. -/
theorem apart (h : Reorders columns (c :: rest) (before ++ c :: after)) (hfirst : c ∉ before) :
    ∀ d ∈ before, c.Apart columns d := by
  intro d hd key hkey hc hdkey
  have hkept := h.kept key hkey
  rw [List.filter_cons_of_pos (by simpa using hc), List.filter_append] at hkept
  -- the first of the changes with the key is another one in the reordered log
  have hmem : d ∈ before.filter (·.HasKey columns key) :=
    List.mem_filter.2 ⟨hd, by simpa using hdkey⟩
  cases hbefore : before.filter (·.HasKey columns key) with
  | nil =>
    rw [hbefore] at hmem
    cases hmem
  | cons e tail =>
    rw [hbefore, List.cons_append] at hkept
    have hce : c = e := (List.cons.inj hkept).1
    have he : e ∈ before.filter (·.HasKey columns key) := by
      rw [hbefore]
      exact .head _
    exact hfirst (hce ▸ (List.mem_filter.1 he).1)

/-- What is left of a log and of its reordering without the first change. -/
theorem tail (h : Reorders columns (c :: rest) (before ++ c :: after)) (hfirst : c ∉ before) :
    Reorders columns rest (before ++ after) := by
  refine ⟨(h.perm.trans List.perm_middle).cons_inv, ?_⟩
  intro key hkey
  have hkept := h.kept key hkey
  rw [List.filter_append] at hkept ⊢
  by_cases hc : c.HasKey columns key
  · have hnone : before.filter (·.HasKey columns key) = [] :=
      List.filter_eq_nil_iff.2 fun d hd hdkey =>
        h.apart hfirst d hd key hkey hc (by simpa using hdkey)
    rw [List.filter_cons_of_pos (by simpa using hc), List.filter_cons_of_pos (by simpa using hc),
      hnone, List.nil_append] at hkept
    rw [hnone, List.nil_append]
    exact (List.cons.inj hkept).2
  · rwa [List.filter_cons_of_neg (by simpa using hc), List.filter_cons_of_neg (by simpa using hc)]
      at hkept

/-- Two neighbours that are apart may change places. -/
theorem swap (h : c.Apart columns d) (before after : List Change) :
    Reorders columns (before ++ c :: d :: after) (before ++ d :: c :: after) := by
  refine ⟨(List.Perm.swap d c after).append_left before, ?_⟩
  intro key hkey
  rw [List.filter_append, List.filter_append]
  congr 1
  by_cases hc : c.HasKey columns key
  · have hd : ¬ d.HasKey columns key := h key hkey hc
    simp [hc, hd]
  · simp [List.filter_cons, hc]

/-- A reordered log makes the same view of a view. -/
theorem equiv {v : View} {log' : List Change} (h : Reorders columns log log')
    (hv : ∀ r ∈ v.rows, r.IsProper) (hlog : ∀ c ∈ log, c.IsProper ∧ c.IsKeyed columns) :
    (log.foldl View.apply v).Equiv (log'.foldl View.apply v) := by
  induction log generalizing v log' with
  | nil =>
    rw [h.perm.symm.eq_nil]
    exact .refl _
  | cons c rest ih =>
    obtain ⟨before, after, rfl, hfirst⟩ :=
      List.eq_append_cons_of_mem (h.perm.subset (.head rest))
    have hall : ∀ d ∈ before, d.IsProper ∧ d.IsKeyed columns ∧ c.Apart columns d := by
      intro d hd
      obtain ⟨hproper, hkeyed⟩ := hlog d (h.perm.symm.subset (by simp [hd]))
      exact ⟨hproper, hkeyed, h.apart hfirst d hd⟩
    rw [List.forall_mem_cons] at hlog
    obtain ⟨⟨hc, hck⟩, hrest⟩ := hlog
    have htail : (rest.foldl View.apply (v.apply c)).Equiv
        ((before ++ after).foldl View.apply (v.apply c)) :=
      ih (h.tail hfirst) (View.isProper_apply hv hc) hrest
    exact htail.trans (View.applyAll_bubble hv hc hck hall)

end Reorders

/-- Changes of different rows commute: if every update and deletion names its row by the whole key
and no update sets a key column, the view stays the same, row by row and mark by mark, in whatever
order the log is, as long as the changes with the same key stay in order. -/
theorem reordering_keeps_view (columns : List Column) (rows : List Row) (log log' : List Change)
    (edits : Edits) (hrows : ∀ r ∈ rows, r.IsProper) (hlog : ∀ c ∈ log, c.IsProper)
    (hkeyed : ∀ c ∈ log, c.IsKeyed columns) (hreorders : Reorders columns log log') :
    (View.reconcile rows log edits).Equiv (View.reconcile rows log' edits) := by
  have happlied : (log.foldl View.apply (.ofRows rows)).Equiv
      (log'.foldl View.apply (.ofRows rows)) :=
    hreorders.equiv hrows fun c hc => ⟨hlog c hc, hkeyed c hc⟩
  exact happlied.withEdits edits

/-- An article gets a new price. -/
def repriced (n : Nat) (price : Int) : Change :=
  ⟨changeId n, .update, ⟨"public", "articles"⟩, .ofList [("price", .int price)],
    some (.ofList [("id", .int 1), ("price", .int 5)]),
    .update ⟨"public", "articles"⟩ [⟨"price", .int price, .number (Text.signedDigits price)⟩]
      [⟨"id", .int 1, .number "1".toList⟩]⟩

/-- Another article is taken out. -/
def withdrawn : Change :=
  ⟨changeId 2, .delete, ⟨"public", "articles"⟩, .ofList [("id", .int 2), ("price", .null)],
    some (.ofList [("id", .int 2), ("price", .null)]),
    .delete ⟨"public", "articles"⟩ [⟨"id", .int 2, .number "2".toList⟩]⟩

/-- Every article was fetched twice, so that both new prices are shown. -/
theorem reordering_keeps_view_articles :
    let rows := articles.rows ++ articles.rows
    let log := [repriced 1 6, withdrawn, repriced 3 8]
    let log' := [withdrawn, repriced 1 6, repriced 3 8]
    (∀ r ∈ rows, r.IsProper) ∧ (∀ c ∈ log, c.IsProper) ∧ (∀ c ∈ log, c.IsKeyed articles.columns)
    ∧ Reorders articles.columns log log'
    ∧ (View.reconcile rows log .empty).Equiv (View.reconcile rows log' .empty)
    ∧ (View.reconcile rows log .empty).edited = [(0, "price"), (2, "price")]
    ∧ (View.reconcile rows log .empty).deleted = [1] := by
  intro rows log log'
  obtain ⟨hrows, hlog⟩ : (∀ r ∈ rows, r.IsProper) ∧ ∀ c ∈ log, c.IsProper :=
    isProper_of_isPlain (by decide +kernel) (by decide +kernel)
  have hkeyed : ∀ c ∈ log, c.IsKeyed articles.columns := by
    have hchecked : ∀ c ∈ log, (∃ p ∈ c.preimage, ∀ key ∈ Column.keys articles.columns,
        (p.get? key.name).isSome) ∧ (c.kind = .update → ∀ key ∈ Column.keys articles.columns,
          (c.data.get? key.name).isNone) := by decide +kernel
    intro c hc
    obtain ⟨hcarries, hspares⟩ := hchecked c hc
    exact ⟨fun _ => hcarries, fun hkind key hkey => Option.isNone_iff_eq_none.1
      (hspares hkind key hkey)⟩
  have hapart : (repriced 1 6).Apart articles.columns withdrawn := by
    apply Change.apart_of_preimages (hlog _ (.head _)) (hlog _ (.tail _ (.head _))) rfl rfl
    decide +kernel
  have hreorders : Reorders articles.columns log log' := .swap hapart [] [repriced 3 8]
  exact ⟨hrows, hlog, hkeyed, hreorders,
    reordering_keeps_view _ rows log log' .empty hrows hlog hkeyed hreorders,
    by decide +kernel, by decide +kernel⟩

end StagedTable
