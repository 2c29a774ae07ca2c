/-!
# Association lists in order

Lists of values under keys, in the order in which the keys first came up. Putting a value under a
known key keeps the place of the key; a new key goes to the end. The main statements say what a
look-up finds after a put (`get?_put`) and which keys there are (`keys_put`). Values under different
new keys make up the same list when they are put one by one (`putAll_eq_append`).
-/

namespace StagedTable.Assoc

variable {κ α : Type}

/-- The keys, in order. -/
def keys (entries : List (κ × α)) : List κ := entries.map (·.1)

/-- Keeps the values under some keys only. -/
def keep (kept : κ → Bool) (entries : List (κ × α)) : List (κ × α) :=
  entries.filter fun entry => kept entry.1

/-- Keeping some keys repeats none. -/
theorem nodup_keep {kept : κ → Bool} {entries : List (κ × α)} (h : (keys entries).Nodup) :
    (keys (keep kept entries)).Nodup :=
  h.sublist (List.filter_sublist.map _)

/-- Keeping fewer keys of those that are kept. -/
theorem keep_keep {kept wider : κ → Bool} (entries : List (κ × α))
    (h : ∀ k, kept k = true → wider k = true) :
    keep kept (keep wider entries) = keep kept entries := by
  rw [keep, keep, keep, List.filter_filter]
  refine List.filter_congr fun entry _ => ?_
  cases hkept : kept entry.1 with
  | true => simp [h _ hkept]
  | false => rfl

variable [DecidableEq κ]

/-- The value under a key. -/
def get? (key : κ) : List (κ × α) → Option α
  | [] => none
  | (k, v) :: rest => if k = key then some v else get? key rest

/-- Puts a value under a key. -/
def put (key : κ) (value : α) : List (κ × α) → List (κ × α)
  | [] => [(key, value)]
  | (k, v) :: rest => if k = key then (k, value) :: rest else (k, v) :: put key value rest

/-- Puts several values, one after the other. -/
def putAll (entries added : List (κ × α)) : List (κ × α) :=
  added.foldl (fun entries (key, value) => put key value entries) entries

/-- Under the key that was put there is the new value; all other keys are as before. -/
theorem get?_put (key other : κ) (value : α) (entries : List (κ × α)) :
    get? other (put key value entries)
      = if other = key then some value else get? other entries := by
  induction entries with
  | nil => by_cases h : key = other <;> simp [put, get?, h, eq_comm]
  | cons e rest ih =>
    obtain ⟨k, v⟩ := e
    by_cases hn : k = key <;> by_cases hk : other = key <;> by_cases h : k = other <;>
      simp_all [put, get?]

/-- A value under a kept key is still found, and no other. -/
theorem get?_keep (kept : κ → Bool) (key : κ) (entries : List (κ × α)) :
    get? key (keep kept entries) = if kept key then get? key entries else none := by
  induction entries with
  | nil => simp [keep, get?]
  | cons e rest ih =>
    obtain ⟨k, v⟩ := e
    unfold keep at ih
    by_cases hk : kept k = true <;> by_cases h : k = key <;> simp_all [keep, get?]

/-- A value under a key that is not kept does not matter to what is kept. -/
theorem keep_put {kept : κ → Bool} {key : κ} {value : α} {entries : List (κ × α)}
    (h : kept key = false) : keep kept (put key value entries) = keep kept entries := by
  induction entries with
  | nil => simp [put, keep, h]
  | cons e rest ih =>
    obtain ⟨k, v⟩ := e
    unfold keep at ih ⊢
    rw [put]
    split
    · next hk =>
      rw [List.filter_cons_of_neg (by simp [hk, h]), List.filter_cons_of_neg (by simp [hk, h])]
    · rw [List.filter_cons, List.filter_cons, ih]

/-- Whether a key is there shows in what is found under it. -/
theorem isSome_get?_iff {key : κ} {entries : List (κ × α)} :
    (get? key entries).isSome ↔ key ∈ keys entries := by
  induction entries with
  | nil => simp [get?, keys]
  | cons e rest ih =>
    obtain ⟨k, v⟩ := e
    by_cases h : k = key
    · simp [get?, keys, h]
    · have h' : ¬ key = k := fun e => h e.symm
      simpa [get?, keys, h, h'] using ih

/-- What is found under a key stands there. -/
theorem mem_of_get? {key : κ} {value : α} {entries : List (κ × α)}
    (h : get? key entries = some value) : (key, value) ∈ entries := by
  induction entries with
  | nil => cases h
  | cons e rest ih =>
    rw [get?] at h
    split at h
    · next hk =>
      cases h
      cases hk
      exact .head _
    · exact .tail _ (ih h)

/-- If no key is repeated, what stands under a key is found. -/
theorem get?_of_mem {key : κ} {value : α} {entries : List (κ × α)} (hnodup : (keys entries).Nodup)
    (h : (key, value) ∈ entries) : get? key entries = some value := by
  induction entries with
  | nil => cases h
  | cons e rest ih =>
    obtain ⟨k, v⟩ := e
    rw [keys, List.map_cons, List.nodup_cons] at hnodup
    rcases List.mem_cons.1 h with he | hrest
    · cases he
      exact if_pos rfl
    · have hne : k ≠ key := by
        rintro rfl
        exact hnodup.1 (List.mem_map.2 ⟨_, hrest, rfl⟩)
      rw [get?, if_neg hne, ih hnodup.2 hrest]

/-- If no key is repeated, one value at most is under a key. -/
theorem keep_beq {key : κ} {entries : List (κ × α)} (hnodup : (keys entries).Nodup) :
    keep (· == key) entries = ((get? key entries).map fun v => (key, v)).toList := by
  induction entries with
  | nil => rfl
  | cons e rest ih =>
    obtain ⟨k, v⟩ := e
    rw [keys, List.map_cons, List.nodup_cons] at hnodup
    have hrest := ih hnodup.2
    unfold keep at hrest ⊢
    rw [get?]
    by_cases hk : k = key
    · have hnone : get? key rest = none := by
        rw [← Option.not_isSome_iff_eq_none, isSome_get?_iff, ← hk]
        exact hnodup.1
      rw [hnone] at hrest
      rw [List.filter_cons_of_pos (by simp [hk]), hrest, if_pos hk, hk]
      rfl
    · rw [List.filter_cons_of_neg (by simp [hk]), hrest, if_neg hk]

/-- A known key keeps its place and a new one goes to the end. -/
theorem keys_put (key : κ) (value : α) (entries : List (κ × α)) :
    keys (put key value entries)
      = if key ∈ keys entries then keys entries else keys entries ++ [key] := by
  induction entries with
  | nil => simp [put, keys]
  | cons e rest ih =>
    obtain ⟨k, v⟩ := e
    by_cases hk : k = key
    · simp [put, keys, hk]
    · have hk' : ¬ key = k := fun e => hk e.symm
      by_cases hm : key ∈ keys rest <;> simp_all [put, keys]

/-- What stands there after a put stood there before or was put. -/
theorem mem_put {key : κ} {value : α} {entries : List (κ × α)} {e : κ × α}
    (h : e ∈ put key value entries) : e ∈ entries ∨ e = (key, value) := by
  induction entries with
  | nil => exact .inr (List.mem_singleton.1 h)
  | cons f rest ih =>
    rw [put] at h
    split at h
    · next hk =>
      cases hk
      rcases List.mem_cons.1 h with rfl | hrest
      · exact .inr rfl
      · exact .inl (.tail _ hrest)
    · rcases List.mem_cons.1 h with rfl | hrest
      · exact .inl (.head _)
      · exact (ih hrest).imp_left (.tail _)

/-- What stands there after several puts stood there before or was one of them. -/
theorem mem_putAll {entries added : List (κ × α)} {e : κ × α}
    (h : e ∈ putAll entries added) : e ∈ entries ∨ e ∈ added := by
  induction added generalizing entries with
  | nil => exact .inl h
  | cons f rest ih =>
    rcases ih h with hput | hrest
    · rcases mem_put hput with hold | rfl
      · exact .inl hold
      · exact .inr (.head _)
    · exact .inr (.tail _ hrest)

/-- Putting repeats no key. -/
theorem nodup_put {key : κ} {value : α} {entries : List (κ × α)} (h : (keys entries).Nodup) :
    (keys (put key value entries)).Nodup := by
  rw [keys_put]
  split
  · exact h
  · next hm =>
    refine List.nodup_append.2 ⟨h, by simp, ?_⟩
    intro a ha b hb e
    simp only [List.mem_singleton] at hb
    exact hm (hb ▸ e ▸ ha)

/-- Putting several values repeats no key. -/
theorem nodup_putAll {entries added : List (κ × α)} (h : (keys entries).Nodup) :
    (keys (putAll entries added)).Nodup := by
  unfold putAll
  induction added generalizing entries with
  | nil => exact h
  | cons e rest ih => exact ih (nodup_put h)

/-- A new key goes to the end. -/
theorem put_eq_append {key : κ} {value : α} {entries : List (κ × α)} (h : key ∉ keys entries) :
    put key value entries = entries ++ [(key, value)] := by
  induction entries with
  | nil => rfl
  | cons e rest ih =>
    simp only [keys, List.map_cons, List.mem_cons, not_or] at h
    rw [put, if_neg fun e => h.1 e.symm, ih h.2]
    rfl

/-- Values under different new keys go to the end, in order. -/
theorem putAll_eq_append {entries added : List (κ × α)} (h : (keys (entries ++ added)).Nodup) :
    putAll entries added = entries ++ added := by
  induction added generalizing entries with
  | nil => exact (List.append_nil entries).symm
  | cons e rest ih =>
    have hnew : e.1 ∉ keys entries := by
      intro hmem
      simp only [keys, List.map_append, List.map_cons, List.nodup_append] at h
      exact h.2.2 _ hmem _ (.head _) rfl
    have hrest : putAll (entries ++ [e]) rest = entries ++ [e] ++ rest := ih (by simpa using h)
    have hput : putAll entries (e :: rest) = putAll (put e.1 e.2 entries) rest := rfl
    rw [hput, put_eq_append hnew, hrest, List.append_assoc]
    rfl

/-- Putting values that are put before changes nothing. -/
theorem putAll_putAll (entries : List (κ × α)) :
    putAll [] (putAll [] entries) = putAll [] entries :=
  putAll_eq_append (nodup_putAll List.nodup_nil)

variable {β : Type} (f : α → β)

theorem put_map (key : κ) (value : α) (entries : List (κ × α)) :
    put key (f value) (entries.map fun e => (e.1, f e.2))
      = (put key value entries).map fun e => (e.1, f e.2) := by
  induction entries with
  | nil => rfl
  | cons e rest ih =>
    rw [List.map_cons, put, put]
    split
    · rfl
    · rw [ih, List.map_cons]

/-- The values may be changed before or after they are put. -/
theorem putAll_map (entries added : List (κ × α)) :
    putAll (entries.map fun e => (e.1, f e.2)) (added.map fun e => (e.1, f e.2))
      = (putAll entries added).map fun e => (e.1, f e.2) := by
  induction added generalizing entries with
  | nil => rfl
  | cons e rest ih =>
    have hput := put_map f e.1 e.2 entries
    have hrest := ih (put e.1 e.2 entries)
    rw [← hput] at hrest
    exact hrest

end StagedTable.Assoc
