import StagedTable.Proofs.Sql.EditedState

/-!
# The primary key, column by column

An altered table takes its primary key from column to column: each column that stays or comes has
its turn, at which it may drop the key, or make a key of itself alone. The key is one thing of the
whole table, so that this only works out in two ways (`turnKeys_iff`). Either no column changes its
part in the key; or the key is on one column at most, before and after, it is dropped before it is
made, and the columns before and after differ.

What carries the proof is that the last turn that changes the key decides what it is
(`lastTurn`): a key that was made and is dropped later is lost for good.
-/

namespace StagedTable.Sql

/-- The ids of the definitions that are in the primary key. -/
def keyIds (definitions : List Definition) : List String :=
  (definitions.filter (·.primaryKey)).map (·.id)

theorem mem_keyIds {definitions : List Definition} {id : String} :
    id ∈ keyIds definitions ↔ ∃ d ∈ definitions, d.primaryKey = true ∧ d.id = id := by
  simp only [keyIds, List.mem_map, List.mem_filter, and_assoc]

@[simp] theorem keyIds_append (ds es : List Definition) :
    keyIds (ds ++ es) = keyIds ds ++ keyIds es := by
  simp [keyIds]

theorem keyIds_cons (d : Definition) (ds : List Definition) :
    keyIds (d :: ds) = (if d.primaryKey then [d.id] else []) ++ keyIds ds := by
  unfold keyIds
  cases h : d.primaryKey <;> simp [h]

theorem keyIds_eq_nil_iff {ds : List Definition} :
    keyIds ds = [] ↔ ∀ d ∈ ds, d.primaryKey = false := by
  simp [keyIds, List.filter_eq_nil_iff]

theorem keyIds_perm {ds es : List Definition} (h : ds.Perm es) : (keyIds ds).Perm (keyIds es) :=
  (h.filter _).map _

/-- Where ids are different, the key tells which definitions are in it. -/
theorem id_mem_keyIds {ds : List Definition} (hids : (ds.map (·.id)).Nodup) {d : Definition}
    (hd : d ∈ ds) : d.id ∈ keyIds ds ↔ d.primaryKey = true := by
  rw [mem_keyIds]
  refine ⟨fun ⟨e, he, hkey, hid⟩ => ?_, fun hkey => ⟨d, hd, hkey, rfl⟩⟩
  exact List.inj_on_of_nodup_map hids he hd hid ▸ hkey

/-! ### Turns -/

/-- The primary key after the turn of a column, by its definition before and after. It cannot be
made nullable while it is in the key; the key is made if there is none, and dropped if there is one. -/
def turnKey (p : Definition × Definition) (key : List String) : Option (List String) :=
  if p.2.nullable = true ∧ p.1.nullable = false ∧ p.1.id ∈ key then none
  else if p.1.primaryKey = p.2.primaryKey then some key
  else if p.2.primaryKey then if key = [] then some [p.2.id] else none
  else if key = [] then none else some []

/-- The primary key after the turns of several columns. -/
def turnKeys : List (Definition × Definition) → List String → Option (List String)
  | [], key => some key
  | p :: rest, key => (turnKey p key).bind (turnKeys rest)

variable {p q : Definition × Definition} {ps before after : List (Definition × Definition)}
variable {key key' : List String}

theorem turnKeys_append (ps qs : List (Definition × Definition)) (key : List String) :
    turnKeys (ps ++ qs) key = (turnKeys ps key).bind (turnKeys qs) := by
  induction ps generalizing key with
  | nil => rfl
  | cons p rest ih =>
    rw [List.cons_append, turnKeys, turnKeys, Option.bind_assoc]
    congr 1
    funext key
    exact ih key

/-- A column that keeps its part in the key leaves the key as it is. -/
theorem turnKey_same (h : p.1.primaryKey = p.2.primaryKey)
    (hnull : p.2.nullable = true → p.1.nullable = false → p.1.id ∉ key) :
    turnKey p key = some key := by
  rw [turnKey, if_neg fun hn => hnull hn.1 hn.2.1 hn.2.2, if_pos h]

theorem turnKey_gain (hbefore : p.1.primaryKey = false) (hafter : p.2.primaryKey = true) :
    turnKey p [] = some [p.2.id] := by
  simp [turnKey, hbefore, hafter]

theorem turnKey_lose (hbefore : p.1.primaryKey = true) (hafter : p.2.primaryKey = false)
    (hkey : key ≠ []) (hnull : p.2.nullable = true → p.1.nullable = true) :
    turnKey p key = some [] := by
  unfold turnKey
  rw [if_neg fun hn => by simp [hnull hn.1] at hn, if_neg (by simp [hbefore, hafter]),
    if_neg (by simp [hafter]), if_neg hkey]

/-- What a turn that is done leaves. -/
theorem of_turnKey (h : turnKey p key = some key') :
    ¬ (p.2.nullable = true ∧ p.1.nullable = false ∧ p.1.id ∈ key)
    ∧ ((p.1.primaryKey = p.2.primaryKey ∧ key' = key)
      ∨ (p.1.primaryKey = false ∧ p.2.primaryKey = true ∧ key = [] ∧ key' = [p.2.id])
      ∨ (p.1.primaryKey = true ∧ p.2.primaryKey = false ∧ key ≠ [] ∧ key' = [])) := by
  unfold turnKey at h
  split at h
  · cases h
  · next hnull =>
    refine ⟨hnull, ?_⟩
    split at h
    · next hsame =>
      cases h
      exact .inl ⟨hsame, rfl⟩
    · next hdiffer =>
      split at h
      · next hafter =>
        split at h
        · next hkey =>
          cases h
          exact .inr (.inl ⟨by simpa [hafter] using hdiffer, hafter, hkey, rfl⟩)
        · cases h
      · next hafter =>
        rw [Bool.not_eq_true] at hafter
        split at h
        · cases h
        · next hkey =>
          cases h
          exact .inr (.inr ⟨by simpa [hafter] using hdiffer, hafter, hkey, rfl⟩)

/-- The last turn that changes the key decides what it is. -/
theorem lastTurn (h : turnKeys ps key = some key') :
    ((∀ p ∈ ps, p.1.primaryKey = p.2.primaryKey) ∧ key' = key)
    ∨ ∃ before p after, ps = before ++ p :: after ∧ p.1.primaryKey ≠ p.2.primaryKey
      ∧ (∀ q ∈ after, q.1.primaryKey = q.2.primaryKey)
      ∧ key' = if p.2.primaryKey then [p.2.id] else [] := by
  induction ps generalizing key with
  | nil =>
    cases h
    exact .inl ⟨List.forall_mem_nil _, rfl⟩
  | cons p rest ih =>
    obtain ⟨key₁, hturn, hrest⟩ := Option.bind_eq_some_iff.1 h
    rcases ih hrest with ⟨hsame, hkey⟩ | ⟨before, q, after, rfl, hdiffer, hafter, hkey⟩
    · rcases (of_turnKey hturn).2 with
        ⟨hp, rfl⟩ | ⟨hbefore, hafter, -, rfl⟩ | ⟨hbefore, hafter, -, rfl⟩
      · exact .inl ⟨List.forall_mem_cons.2 ⟨hp, hsame⟩, hkey⟩
      · exact .inr ⟨[], p, rest, rfl, by simp [hbefore, hafter], hsame, by simp [hkey, hafter]⟩
      · exact .inr ⟨[], p, rest, rfl, by simp [hbefore, hafter], hsame, by simp [hkey, hafter]⟩
    · exact .inr ⟨p :: before, q, after, rfl, hdiffer, hafter, hkey⟩

/-- Turns that are done are done one by one. -/
theorem exists_turn (h : turnKeys (before ++ p :: after) key = some key') :
    ∃ key₁ key₂, turnKeys before key = some key₁ ∧ turnKey p key₁ = some key₂ := by
  rw [turnKeys_append] at h
  obtain ⟨key₁, hbefore, h⟩ := Option.bind_eq_some_iff.1 h
  obtain ⟨key₂, hp, -⟩ := Option.bind_eq_some_iff.1 h
  exact ⟨key₁, key₂, hbefore, hp⟩

/-! ### Turns that can be done -/

/-- Whether a column makes the key of itself. -/
def GainsKey (p : Definition × Definition) : Prop := p.1.primaryKey = false ∧ p.2.primaryKey = true

/-- Whether a column drops the key. -/
def LosesKey (p : Definition × Definition) : Prop := p.1.primaryKey = true ∧ p.2.primaryKey = false

instance (p : Definition × Definition) : Decidable (GainsKey p) :=
  inferInstanceAs (Decidable (_ ∧ _))

instance (p : Definition × Definition) : Decidable (LosesKey p) :=
  inferInstanceAs (Decidable (_ ∧ _))

/-- Whether columns are given by definitions with the same id before and after, and no two columns
have the same one. -/
structure Turning (ps : List (Definition × Definition)) : Prop where
  ids : ∀ p ∈ ps, p.1.id = p.2.id
  nodup : (ps.map (·.1.id)).Nodup

/-- Whether the key is dropped before it is made, on one column at most. -/
structure MovesKey (ps : List (Definition × Definition)) (key : List String) : Prop where
  apart : ∀ p ∈ ps, p.1.primaryKey = true → p.2.primaryKey = false
  single : (keyIds (ps.map (·.2))).length ≤ 1
  alone : ∀ p ∈ ps, p.1.primaryKey = true → key = [p.1.id]
  inOrder : ps.Pairwise fun p q => ¬ (GainsKey p ∧ LosesKey q)

namespace Turning

theorem tail (h : Turning (p :: ps)) : Turning ps :=
  ⟨fun q hq => h.ids q (.tail _ hq), (List.nodup_cons.1 h.nodup).2⟩

theorem right (h : Turning (before ++ after)) : Turning after :=
  ⟨fun q hq => h.ids q (List.mem_append_right _ hq),
    (List.nodup_append.1 (List.map_append ▸ h.nodup)).2.1⟩

theorem eq_of_id (h : Turning ps) (hp : p ∈ ps) (hq : q ∈ ps) (hid : p.1.id = q.1.id) : p = q :=
  List.inj_on_of_nodup_map h.nodup hp hq hid

theorem id_ne (h : Turning (before ++ after)) (hp : p ∈ before) (hq : q ∈ after) :
    p.1.id ≠ q.1.id :=
  (List.nodup_append.1 (List.map_append ▸ h.nodup)).2.2 _ (List.mem_map_of_mem hp) _
    (List.mem_map_of_mem hq)

theorem mem_keyIds_before (h : Turning ps) (hp : p ∈ ps) :
    p.1.id ∈ keyIds (ps.map (·.1)) ↔ p.1.primaryKey = true :=
  id_mem_keyIds (by rw [List.map_map]; exact h.nodup) (List.mem_map_of_mem hp)

theorem map_id_after (h : Turning ps) : ps.map (·.2.id) = ps.map (·.1.id) :=
  List.map_congr_left fun p hp => (h.ids p hp).symm

theorem mem_keyIds_after (h : Turning ps) (hp : p ∈ ps) :
    p.1.id ∈ keyIds (ps.map (·.2)) ↔ p.2.primaryKey = true := by
  rw [h.ids p hp]
  refine id_mem_keyIds ?_ (List.mem_map_of_mem hp)
  rw [List.map_map]
  exact h.map_id_after ▸ h.nodup

/-- If all columns keep their part in the key, so does the key. -/
theorem keyIds_same (h : Turning ps) (hsame : ∀ p ∈ ps, p.1.primaryKey = p.2.primaryKey) :
    keyIds (ps.map (·.1)) = keyIds (ps.map (·.2)) := by
  induction ps with
  | nil => rfl
  | cons p rest ih =>
    rw [List.forall_mem_cons] at hsame
    rw [List.map_cons, List.map_cons, keyIds_cons, keyIds_cons, hsame.1, h.ids p (.head _),
      ih h.tail hsame.2]

end Turning

/-! ### Turns that are done -/

/-- Columns that keep their part in the key leave the key as it is. -/
theorem turnKeys_same (hsame : ∀ p ∈ ps, p.1.primaryKey = p.2.primaryKey)
    (hnull : ∀ p ∈ ps, p.2.nullable = true → p.1.nullable = false → p.1.id ∉ key) :
    turnKeys ps key = some key := by
  induction ps with
  | nil => rfl
  | cons p rest ih =>
    rw [List.forall_mem_cons] at hsame hnull
    rw [turnKeys, turnKey_same hsame.1 hnull.1, Option.bind_some]
    exact ih hsame.2 hnull.2

/-- A table without a key gets one of one column at most. -/
theorem turnKeys_fresh (h : Turning ps) (hbefore : ∀ p ∈ ps, p.1.primaryKey = false)
    (hsingle : (keyIds (ps.map (·.2))).length ≤ 1) :
    turnKeys ps [] = some (keyIds (ps.map (·.2))) := by
  induction ps with
  | nil => rfl
  | cons p rest ih =>
    rw [List.forall_mem_cons] at hbefore
    rw [List.map_cons, keyIds_cons] at hsingle ⊢
    rw [turnKeys]
    cases hafter : p.2.primaryKey with
    | false =>
      rw [turnKey_same (hbefore.1.trans hafter.symm) fun _ _ => List.not_mem_nil, Option.bind_some]
      rw [hafter] at hsingle
      exact ih h.tail hbefore.2 hsingle
    | true =>
      have hrest : keyIds (rest.map (·.2)) = [] := by
        simp only [hafter, if_true, List.singleton_append, List.length_cons] at hsingle
        exact List.eq_nil_of_length_eq_zero (by omega)
      have hsame : ∀ q ∈ rest, q.1.primaryKey = q.2.primaryKey := fun q hq =>
        (hbefore.2 q hq).trans (keyIds_eq_nil_iff.1 hrest _ (List.mem_map_of_mem hq)).symm
      rw [turnKey_gain hbefore.1 hafter, Option.bind_some, hrest]
      refine turnKeys_same hsame fun q hq _ _ hmem => ?_
      have hid : p.1.id = q.1.id :=
        (h.ids p (.head _)).trans (List.mem_singleton.1 hmem).symm
      exact (List.nodup_cons.1 h.nodup).1 (List.mem_map.2 ⟨q, hq, hid.symm⟩)

/-- The key is dropped, if there is one, and then made. -/
theorem turnKeys_moves (h : Turning ps) (hmoves : MovesKey ps key)
    (hkey : key.Perm (keyIds (ps.map (·.1))) ∨ key = [])
    (hnull : ∀ p ∈ ps, p.1.primaryKey = true → p.2.nullable = true → p.1.nullable = true) :
    turnKeys ps key = some (keyIds (ps.map (·.2))) := by
  by_cases hlose : ∀ p ∈ ps, p.1.primaryKey = false
  · have hempty : key = [] := by
      rcases hkey with hkey | hkey
      · rw [keyIds_eq_nil_iff.2 (List.forall_mem_map.2 hlose)] at hkey
        exact hkey.eq_nil
      · exact hkey
    rw [hempty]
    exact turnKeys_fresh h hlose hmoves.single
  · push Not at hlose
    obtain ⟨q, hq, hbefore⟩ := hlose
    replace hbefore : q.1.primaryKey = true := Bool.of_not_eq_false hbefore
    obtain ⟨cs, ds, rfl⟩ := List.append_of_mem hq
    have hother : ∀ r ∈ cs ++ q :: ds, r.1.primaryKey = true → r = q := by
      intro r hr hkey'
      have hids := (hmoves.alone r hr hkey').symm.trans (hmoves.alone q hq hbefore)
      exact h.eq_of_id hr hq (List.singleton_inj.1 hids)
    have hafter := hmoves.apart q hq hbefore
    have hcs : ∀ r ∈ cs, r.1.primaryKey = false ∧ r.2.primaryKey = false := by
      intro r hr
      have hhad : r.1.primaryKey = false := by
        rw [← Bool.not_eq_true]
        intro hkey'
        exact h.id_ne hr (.head _) (by rw [hother r (List.mem_append_left _ hr) hkey'])
      refine ⟨hhad, ?_⟩
      rw [← Bool.not_eq_true]
      intro hgains
      exact (List.pairwise_append.1 hmoves.inOrder).2.2 r hr q (.head _)
        ⟨⟨hhad, hgains⟩, hbefore, hafter⟩
    have hcsEmpty : keyIds (cs.map (·.2)) = [] :=
      keyIds_eq_nil_iff.2 (List.forall_mem_map.2 fun r hr => (hcs r hr).2)
    have hds : ∀ r ∈ ds, r.1.primaryKey = false := by
      intro r hr
      rw [← Bool.not_eq_true]
      intro hkey'
      have hrq := hother r (List.mem_append_right _ (.tail _ hr)) hkey'
      exact (List.nodup_cons.1 h.right.nodup).1 (List.mem_map.2 ⟨r, hr, by rw [hrq]⟩)
    have hsingle := hmoves.single
    rw [List.map_append, List.map_cons, keyIds_append, keyIds_cons, hcsEmpty, hafter] at hsingle ⊢
    have hrun : turnKeys cs key = some key := by
      refine turnKeys_same (fun r hr => (hcs r hr).1.trans (hcs r hr).2.symm) ?_
      intro r hr _ _ hmem
      rw [hmoves.alone q hq hbefore, List.mem_singleton] at hmem
      exact h.id_ne hr (.head _) hmem
    have hdrop : turnKey q key = some [] :=
      turnKey_lose hbefore hafter (by rw [hmoves.alone q hq hbefore]; exact List.cons_ne_nil _ _)
        (hnull q hq hbefore)
    rw [turnKeys_append, hrun, Option.bind_some, turnKeys, hdrop, Option.bind_some]
    exact turnKeys_fresh h.right.tail hds hsingle

/-- A column that makes the key before another one drops it is not in it at the end. -/
theorem inOrder_of_turnKeys (h : Turning ps) (hrun : turnKeys ps key = some key')
    (hkey' : key'.Perm (keyIds (ps.map (·.2)))) :
    ps.Pairwise fun p q => ¬ (GainsKey p ∧ LosesKey q) := by
  refine List.pairwise_iff_forall_sublist.2 fun {p q} hsub => ?_
  rintro ⟨hgains, hloses⟩
  obtain ⟨before, after, rfl, hp, hq⟩ := List.cons_sublist_iff.1 hsub
  rw [List.singleton_sublist] at hq
  rw [turnKeys_append] at hrun
  obtain ⟨key₁, -, hafter⟩ := Option.bind_eq_some_iff.1 hrun
  have hmem : p.1.id ∈ key' :=
    hkey'.mem_iff.2 ((h.mem_keyIds_after (List.mem_append_left _ hp)).2 hgains.2)
  rcases lastTurn hafter with ⟨hsame, -⟩ | ⟨cs, r, ds, hsplit, -, -, hlast⟩
  · have hflags := hsame q hq
    rw [hloses.1, hloses.2] at hflags
    cases hflags
  · have hr : r ∈ after := hsplit ▸ List.mem_append_right _ (.head _)
    rw [hlast] at hmem
    split at hmem
    · refine h.id_ne hp hr ((List.mem_singleton.1 hmem).trans ?_)
      exact (h.ids r (List.mem_append_right _ hr)).symm
    · cases hmem

/-- No column changes its part in the key before the column that drops it. -/
theorem same_of_loses (hinOrder : (before ++ p :: after).Pairwise fun p q =>
    ¬ (GainsKey p ∧ LosesKey q)) (hloses : LosesKey p)
    (hrun : turnKeys (before ++ p :: after) key = some key') :
    (∀ q ∈ before, q.1.primaryKey = q.2.primaryKey) ∧ key ≠ []
      ∧ ¬ (p.2.nullable = true ∧ p.1.nullable = false ∧ p.1.id ∈ key) := by
  obtain ⟨key₁, key₂, hbefore, hturn⟩ := exists_turn hrun
  obtain ⟨hnull, hcases⟩ := of_turnKey hturn
  have hkey₁ : key₁ ≠ [] := by
    rcases hcases with ⟨hsame, -⟩ | ⟨hhad, -⟩ | ⟨-, -, hkey₁, -⟩
    · rw [hloses.1, hloses.2] at hsame
      cases hsame
    · rw [hloses.1] at hhad
      cases hhad
    · exact hkey₁
  rcases lastTurn hbefore with ⟨hsame, rfl⟩ | ⟨cs, r, ds, hsplit, hdiffer, -, hlast⟩
  · exact ⟨hsame, hkey₁, hnull⟩
  · -- a key that is there after another column was changed is the key that this one made
    have hgains : GainsKey r := by
      cases hafter : r.2.primaryKey with
      | false =>
        rw [hafter] at hlast
        exact absurd hlast hkey₁
      | true => exact ⟨by simpa [hafter] using hdiffer, hafter⟩
    have hr : r ∈ before := hsplit ▸ List.mem_append_right _ (.head _)
    exact absurd ⟨hgains, hloses⟩ ((List.pairwise_append.1 hinOrder).2.2 r hr p (.head _))

/-- A column that drops the key was alone in it, and was not made nullable before. -/
theorem alone_of_loses (h : Turning ps) (hapart : ∀ q ∈ ps, q.1.primaryKey = true →
    q.2.primaryKey = false) (hinOrder : ps.Pairwise fun p q => ¬ (GainsKey p ∧ LosesKey q))
    (hkey : key.Perm (keyIds (ps.map (·.1))) ∨ key = []) (hrun : turnKeys ps key = some key')
    (hp : p ∈ ps) (hhad : p.1.primaryKey = true) :
    key = [p.1.id] ∧ (p.2.nullable = true → p.1.nullable = true) := by
  obtain ⟨before, after, rfl⟩ := List.append_of_mem hp
  have hloses : LosesKey p := ⟨hhad, hapart p hp hhad⟩
  obtain ⟨hsame, hne, hnull⟩ := same_of_loses hinOrder hloses hrun
  have hbefore : keyIds (before.map (·.1)) = [] := by
    refine keyIds_eq_nil_iff.2 (List.forall_mem_map.2 fun q hq => ?_)
    rw [← Bool.not_eq_true]
    intro hkeyed
    have hkept := hsame q hq
    rw [hapart q (List.mem_append_left _ hq) hkeyed, hkeyed] at hkept
    cases hkept
  have hafter : keyIds (after.map (·.1)) = [] := by
    refine keyIds_eq_nil_iff.2 (List.forall_mem_map.2 fun q hq => ?_)
    rw [← Bool.not_eq_true]
    intro hkeyed
    -- it would drop the key too, and `p` has changed its part before
    have hlosesToo : LosesKey q :=
      ⟨hkeyed, hapart q (List.mem_append_right _ (.tail _ hq)) hkeyed⟩
    obtain ⟨cs, ds, rfl⟩ := List.append_of_mem hq
    rw [← List.cons_append, ← List.append_assoc] at hinOrder hrun
    have hkept := (same_of_loses hinOrder hlosesToo hrun).1 p (by simp)
    rw [hloses.1, hloses.2] at hkept
    cases hkept
  have hone : keyIds ((before ++ p :: after).map (·.1)) = [p.1.id] := by
    rw [List.map_append, List.map_cons, keyIds_append, keyIds_cons, hbefore, hafter, hhad]
    rfl
  rw [hone] at hkey
  have hsingle : key = [p.1.id] := List.perm_singleton.1 (hkey.resolve_right hne)
  refine ⟨hsingle, fun hnullable => ?_⟩
  rw [← Bool.not_eq_false]
  exact fun hbeforeNull => hnull ⟨hnullable, hbeforeNull, hsingle ▸ List.mem_singleton_self _⟩

/-- Where no column changes its part in the key, no key column was made nullable. -/
theorem nullable_of_same (h : Turning ps) (hsame : ∀ p ∈ ps, p.1.primaryKey = p.2.primaryKey)
    (hkey : key.Perm (keyIds (ps.map (·.1)))) (hrun : turnKeys ps key = some key')
    (hp : p ∈ ps) (hhad : p.1.primaryKey = true) (hnullable : p.2.nullable = true) :
    p.1.nullable = true := by
  have hmem : p.1.id ∈ key := hkey.mem_iff.2 ((h.mem_keyIds_before hp).2 hhad)
  obtain ⟨before, after, rfl⟩ := List.append_of_mem hp
  obtain ⟨key₁, key₂, hbefore, hturn⟩ := exists_turn hrun
  rcases lastTurn hbefore with ⟨-, rfl⟩ | ⟨cs, q, ds, rfl, hdiffer, -⟩
  · rw [← Bool.not_eq_false]
    exact fun hnull => (of_turnKey hturn).1 ⟨hnullable, hnull, hmem⟩
  · exact absurd (hsame q (by simp)) hdiffer

/-- The primary key can be changed column by column, and ends as it was edited, in two ways: no
column changes its part in it, or it is moved. A key column is not made nullable in either. -/
theorem turnKeys_iff (h : Turning ps) (hkey : key.Perm (keyIds (ps.map (·.1))) ∨ key = []) :
    (∃ key', turnKeys ps key = some key' ∧ key'.Perm (keyIds (ps.map (·.2))))
      ↔ (∀ p ∈ ps, p.1.primaryKey = true → p.2.nullable = true → p.1.nullable = true)
        ∧ ((key.Perm (keyIds (ps.map (·.1))) ∧ ∀ p ∈ ps, p.1.primaryKey = p.2.primaryKey)
          ∨ MovesKey ps key) := by
  constructor
  · rintro ⟨key', hrun, hkey'⟩
    have hinOrder := inOrder_of_turnKeys h hrun hkey'
    rcases lastTurn hrun with ⟨hsame, rfl⟩ | ⟨before, p, after, hsplit, hdiffer, -, hlast⟩
    · rw [← h.keyIds_same hsame] at hkey'
      exact ⟨fun p hp hhad hnullable => nullable_of_same h hsame hkey' hrun hp hhad hnullable,
        .inl ⟨hkey', hsame⟩⟩
    · have hp : p ∈ ps := hsplit ▸ List.mem_append_right _ (.head _)
      have hapart : ∀ q ∈ ps, q.1.primaryKey = true → q.2.primaryKey = false := by
        intro q hq hhad
        rw [← Bool.not_eq_true]
        intro hafter
        have hmem : q.1.id ∈ key' := hkey'.mem_iff.2 ((h.mem_keyIds_after hq).2 hafter)
        rw [hlast] at hmem
        split at hmem
        · next hgains =>
          have hqp := h.eq_of_id hq hp ((List.mem_singleton.1 hmem).trans (h.ids p hp).symm)
          exact hdiffer (by rw [hgains, ← hqp, hhad])
        · cases hmem
      have hsingle : (keyIds (ps.map (·.2))).length ≤ 1 := by
        rw [← hkey'.length_eq, hlast]
        split <;> simp
      have halone := fun q (hq : q ∈ ps) => alone_of_loses h hapart hinOrder hkey hrun hq
      exact ⟨fun q hq hhad => (halone q hq hhad).2,
        .inr ⟨hapart, hsingle, fun q hq hhad => (halone q hq hhad).1, hinOrder⟩⟩
  · rintro ⟨hnull, ⟨hperm, hsame⟩ | hmoves⟩
    · refine ⟨key, turnKeys_same hsame fun p hp hafter hbefore hmem => ?_,
        h.keyIds_same hsame ▸ hperm⟩
      rw [hnull p hp ((h.mem_keyIds_before hp).1 (hperm.mem_iff.1 hmem)) hafter] at hbefore
      cases hbefore
    · exact ⟨_, turnKeys_moves h hmoves hkey hnull, .refl _⟩

end StagedTable.Sql
