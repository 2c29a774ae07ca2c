import StagedTable.Staging.Log

/-!
# The history of a change log

After any run of steps a log holds the changes that were added, in order, without those that a later
step has taken out (`log_keepsHistory`). What is added has an id that no change had before, so that
a removal takes out one change and no other; what is refused changes nothing; and all readers read
the one list.
-/

namespace StagedTable

open Text

/-! ### Ids -/

/-- The number that hexadecimal digits stand for. -/
def Text.hexNumber (ds : List Char) : Nat := ds.foldl (fun n c => 16 * n + (hexValue? c).getD 0) 0

theorem Text.hexNumber_append_digit (ds : List Char) {d : Nat} (h : d < 16) :
    hexNumber (ds ++ [Nat.digitChar d]) = 16 * hexNumber ds + d := by
  have hvalue : ∀ d : Fin 16, hexValue? (Nat.digitChar d) = some d.val := by decide
  rw [hexNumber, List.foldl_append, ← hexNumber]
  simp [hvalue ⟨d, h⟩]

/-- Hexadecimal digits read back. -/
theorem Text.hexNumber_hexDigits (width n : Nat) : hexNumber (hexDigits width n) = n := by
  have hzeros : ∀ k, (List.replicate k '0').foldl
      (fun n c => 16 * n + (hexValue? c).getD 0) 0 = 0 := by
    intro k
    induction k with
    | zero => rfl
    | succ k ih =>
      rw [List.replicate_succ, List.foldl_cons]
      exact ih
  have hdigits : ∀ n, hexNumber (Nat.toDigits 16 n) = n := by
    intro n
    induction n using Nat.strongRecOn with
    | _ n ih =>
      rw [Nat.toDigits_eq_if (by decide)]
      split
      · next hlt => simpa [hexNumber] using hexNumber_append_digit [] hlt
      · next hle =>
        rw [hexNumber_append_digit _ (Nat.mod_lt n (by decide)), ih (n / 16) (by omega)]
        omega
  rw [hexDigits, hexNumber, List.foldl_append, hzeros]
  exact hdigits n

/-- Different numbers stand for different ids. -/
theorem changeId_injective {m n : Nat} (h : changeId m = changeId n) : m = n := by
  have hdigits := congrArg hexNumber (String.ofList_injective h)
  rwa [hexNumber_hexDigits, hexNumber_hexDigits] at hdigits

/-! ### Steps -/

/-- What can be done with a log: a change is added, or taken out by its id, all are forgotten, or
the log is read. -/
inductive LogStep
  | add (kind : ChangeKind) (table : Sql.TableName) (data : Row) (preimage : Option Row)
    (columns : List Column)
  | remove (id : String)
  | clear
  | size
  | isEmpty
  | list
  | statements
  | forTable (table : Sql.TableName)

/-- What a step yields. -/
inductive LogReply
  | change (c : Change)
  | refused (e : LogError)
  | done
  | count (n : Nat)
  | flag (b : Bool)
  | changes (cs : List Change)
  | texts (ts : List String)

/-- The reply to a step that yields a change, and the staging area that it leaves. -/
def Staging.replied (s : Staging) : Except LogError (Change × Staging) → LogReply × Staging
  | .ok (c, s) => (.change c, s)
  | .error e => (.refused e, s)

namespace LogStep

/-- Takes a step. -/
def perform (s : Staging) : LogStep → LogReply × Staging
  | add kind table data preimage columns => s.replied (s.add kind table data preimage columns)
  | remove id => s.replied (s.remove id)
  | clear => (.done, s.clear)
  | size => (.count s.log.size, s)
  | isEmpty => (.flag s.log.isEmpty, s)
  | list => (.changes s.log.changes, s)
  | statements => (.texts s.log.statements, s)
  | forTable table => (.changes (s.log.forTable table), s)

theorem perform_add (s : Staging) (kind : ChangeKind) (table : Sql.TableName) (data : Row)
    (preimage : Option Row) (columns : List Column) :
    (add kind table data preimage columns).perform s
      = s.replied (s.add kind table data preimage columns) := rfl

theorem perform_remove (s : Staging) (id : String) :
    (remove id).perform s = s.replied (s.remove id) := rfl

/-- The staging area that steps leave, one after the other, be they refused or not. -/
def run (s : Staging) (steps : List LogStep) : Staging :=
  steps.foldl (fun s step => (step.perform s).2) s

/-- The change that a step adds when so many ids have been given before. -/
def added? (issued : Nat) : LogStep → Option Change
  | add kind table data preimage columns =>
    (Sql.Statement.ofChange kind table data preimage columns).toOption.map fun statement =>
      ⟨changeId (issued + 1), kind, table, data, preimage, statement⟩
  | _ => none

/-- What is added is the change of a step that adds, with a new id and the statement that is built
for it. -/
theorem of_added? {issued : Nat} {step : LogStep} {c : Change} (h : step.added? issued = some c) :
    c.id = changeId (issued + 1)
      ∧ ∃ columns, step = add c.kind c.table c.data c.preimage columns
        ∧ Sql.Statement.ofChange c.kind c.table c.data c.preimage columns = .ok c.statement := by
  cases step with
  | add kind table data preimage columns =>
    obtain ⟨statement, hstatement, rfl⟩ := Option.map_eq_some_iff.1 h
    refine ⟨rfl, columns, rfl, ?_⟩
    revert hstatement
    dsimp only
    cases Sql.Statement.ofChange kind table data preimage columns with
    | ok _ => exact fun h => congrArg Except.ok (Option.some.inj h)
    | error _ => exact fun h => nomatch h
  | _ => cases h

/-- Whether a step takes out the change of an id. -/
def takes (id : String) : LogStep → Bool
  | remove other => other = id
  | clear => true
  | _ => false

end LogStep

/-- The changes that steps add, in order, each with the steps that come later. -/
def additions (issued : Nat) : List LogStep → List (Change × List LogStep)
  | [] => []
  | step :: rest =>
    match step.added? issued with
    | some c => (c, rest) :: additions (issued + 1) rest
    | none => additions issued rest

/-- The changes that are left of those that were added: those that no later step takes out. -/
def history (issued : Nat) (steps : List LogStep) : List Change :=
  ((additions issued steps).filter fun (c, later) => !later.any (·.takes c.id)).map (·.1)

theorem history_cons (issued : Nat) (step : LogStep) (rest : List LogStep) :
    history issued (step :: rest) = match step.added? issued with
      | some c => [c].filter (fun c => !rest.any (·.takes c.id)) ++ history (issued + 1) rest
      | none => history issued rest := by
  unfold history
  rw [additions]
  cases step.added? issued with
  | none => rfl
  | some c =>
    dsimp only
    rw [List.filter_cons]
    cases hrest : rest.any (·.takes c.id) <;> simp [hrest]

/-! ### All that was added -/

/-- New ids follow the ids that were given before. -/
theorem ids_additions (issued : Nat) (steps : List LogStep) :
    (additions issued steps).map (·.1.id)
      = (List.range' (issued + 1) (additions issued steps).length).map changeId := by
  induction steps generalizing issued with
  | nil => rfl
  | cons step rest ih =>
    rw [additions]
    cases hadded : step.added? issued with
    | none => exact ih issued
    | some c =>
      dsimp only
      rw [List.map_cons, ih, (LogStep.of_added? hadded).1, List.length_cons, List.range'_succ,
        List.map_cons]

/-- No id is given twice. -/
theorem nodup_additions (issued : Nat) (steps : List LogStep) :
    ((additions issued steps).map (·.1.id)).Nodup := by
  rw [ids_additions, List.Nodup, List.pairwise_map]
  exact (List.nodup_range' 1).imp fun hne h => hne (changeId_injective h)

/-- What was added was added by a step, with the statement that was built for it there. -/
theorem of_mem_additions {issued : Nat} {steps later : List LogStep} {c : Change}
    (h : (c, later) ∈ additions issued steps) :
    ∃ before columns, steps = before ++ .add c.kind c.table c.data c.preimage columns :: later
      ∧ Sql.Statement.ofChange c.kind c.table c.data c.preimage columns = .ok c.statement := by
  induction steps generalizing issued with
  | nil => cases h
  | cons step rest ih =>
    have hrest : ∀ issued, (c, later) ∈ additions issued rest →
        ∃ before columns,
          step :: rest = before ++ .add c.kind c.table c.data c.preimage columns :: later
          ∧ Sql.Statement.ofChange c.kind c.table c.data c.preimage columns = .ok c.statement := by
      intro issued h
      obtain ⟨before, columns, rfl, hstatement⟩ := ih h
      exact ⟨step :: before, columns, rfl, hstatement⟩
    rw [additions] at h
    split at h
    · next d hadded =>
      rcases List.mem_cons.1 h with heq | h
      · cases heq
        obtain ⟨-, columns, hstep, hstatement⟩ := LogStep.of_added? hadded
        exact ⟨[], columns, congrArg (· :: later) hstep, hstatement⟩
      · exact hrest _ h
    · exact hrest _ h

/-! ### One step -/

/-- Whether the changes of a log have ids that were given before, each its own. -/
structure Staging.IsNumbered (s : Staging) : Prop where
  given : ∀ c ∈ s.log.changes, ∃ n ≤ s.issued, c.id = changeId n
  nodup : (s.log.changes.map (·.id)).Nodup

theorem ChangeLog.removeFrom?_eq_none {id : String} {cs : List Change}
    (h : removeFrom? id cs = none) : ∀ c ∈ cs, c.id ≠ id := by
  induction cs with
  | nil => exact fun c hc => nomatch hc
  | cons d rest ih =>
    rw [removeFrom?] at h
    split at h
    · cases h
    · next hd => exact List.forall_mem_cons.2 ⟨hd, ih (Option.map_eq_none_iff.1 h)⟩

namespace Staging

variable {s : Staging}

/-- A change is added at the end with a new id and the statement that is built for it, or is refused
as there is none. -/
theorem add_cases (s : Staging) (kind : ChangeKind) (table : Sql.TableName) (data : Row)
    (preimage : Option Row) (columns : List Column) :
    (∃ statement, Sql.Statement.ofChange kind table data preimage columns = .ok statement
      ∧ s.add kind table data preimage columns
        = .ok (⟨changeId (s.issued + 1), kind, table, data, preimage, statement⟩,
          ⟨⟨s.log.changes ++ [⟨changeId (s.issued + 1), kind, table, data, preimage, statement⟩]⟩,
            s.issued + 1⟩))
    ∨ ∃ e, Sql.Statement.ofChange kind table data preimage columns = .error e
      ∧ s.add kind table data preimage columns = .error (.statement e) := by
  unfold add
  cases Sql.Statement.ofChange kind table data preimage columns with
  | ok statement => exact .inl ⟨statement, rfl, rfl⟩
  | error e => exact .inr ⟨e, rfl, rfl⟩

/-- A removal takes out the one change of the id, or is refused as there is none. -/
theorem remove_cases (h : s.IsNumbered) (id : String) :
    (∃ before c after, s.log.changes = before ++ c :: after ∧ c.id = id
      ∧ (∀ d ∈ before ++ after, d.id ≠ id)
      ∧ s.remove id = .ok (c, { s with log := ⟨before ++ after⟩ }))
    ∨ ((∀ c ∈ s.log.changes, c.id ≠ id) ∧ s.remove id = .error (.unknownChange id)) := by
  unfold remove ChangeLog.remove?
  cases hremove : ChangeLog.removeFrom? id s.log.changes with
  | none => exact .inr ⟨ChangeLog.removeFrom?_eq_none hremove, rfl⟩
  | some found =>
    obtain ⟨c, rest⟩ := found
    obtain ⟨hid, before, after, hsplit, rfl, hbefore⟩ := ChangeLog.of_removeFrom? hremove
    refine .inl ⟨before, c, after, hsplit, hid, ?_, rfl⟩
    have hnodup := h.nodup
    rw [hsplit, List.map_append, List.map_cons, List.nodup_append, List.nodup_cons] at hnodup
    obtain ⟨-, ⟨hafter, -⟩, -⟩ := hnodup
    intro d hd
    rcases List.mem_append.1 hd with hd | hd
    · exact hbefore d hd
    · rintro rfl
      exact hafter (hid ▸ List.mem_map_of_mem hd)

end Staging

namespace LogStep

variable {s : Staging}

/-- A step adds a change at the end, or adds nothing and leaves what it does not take out. -/
theorem perform_cases (h : s.IsNumbered) (step : LogStep) :
    (∃ c, step.added? s.issued = some c ∧ (∀ id, step.takes id = false)
      ∧ (step.perform s).2 = ⟨⟨s.log.changes ++ [c]⟩, s.issued + 1⟩)
    ∨ (step.added? s.issued = none
      ∧ (step.perform s).2
        = ⟨⟨s.log.changes.filter fun c => !step.takes c.id⟩, s.issued⟩) := by
  have hkept : s.log.changes.filter (fun _ => true) = s.log.changes :=
    List.filter_eq_self.2 fun _ _ => rfl
  have hself : s = ⟨⟨s.log.changes.filter fun _ => true⟩, s.issued⟩ := by rw [hkept]
  cases step with
  | add kind table data preimage columns =>
    have hadded : (add kind table data preimage columns).added? s.issued
        = (Sql.Statement.ofChange kind table data preimage columns).toOption.map _ := rfl
    rw [perform_add, hadded]
    rcases s.add_cases kind table data preimage columns with ⟨_, hstatement, hadd⟩ | ⟨_, he, hadd⟩
    · rw [hadd, hstatement]
      exact .inl ⟨_, rfl, fun _ => rfl, rfl⟩
    · rw [hadd, he]
      exact .inr ⟨rfl, hself⟩
  | remove id =>
    refine .inr ⟨rfl, ?_⟩
    rw [perform_remove]
    rcases Staging.remove_cases h id with ⟨before, c, after, hsplit, hid, hothers, hremove⟩ | hnone
    · -- no other change has the id, so the one that is taken out is all that the step takes
      have hrest : (before ++ after).filter (fun c => !takes c.id (remove id)) = before ++ after :=
        List.filter_eq_self.2 fun d hd => by simp [takes, (hothers d hd).symm]
      have htaken : ¬ (!takes c.id (remove id)) = true := by simp [takes, hid]
      have hleft : (before ++ c :: after).filter (fun c => !takes c.id (remove id))
          = before ++ after := by
        rw [List.filter_append, List.filter_cons, if_neg htaken, ← List.filter_append, hrest]
      rw [hremove, hsplit, hleft]
      rfl
    · have hall : s.log.changes.filter (fun c => !takes c.id (remove id)) = s.log.changes :=
        List.filter_eq_self.2 fun d hd => by simp [takes, (hnone.1 d hd).symm]
      rw [hnone.2, hall]
      rfl
  | clear =>
    have hcleared : s.log.changes.filter (fun c => !takes c.id clear) = [] :=
      List.filter_eq_nil_iff.2 fun _ _ => Bool.false_ne_true
    rw [hcleared]
    exact .inr ⟨rfl, rfl⟩
  | size | isEmpty | list | statements | forTable table => exact .inr ⟨rfl, hself⟩

end LogStep

/-- A step leaves the log numbered. -/
theorem Staging.IsNumbered.perform {s : Staging} (h : s.IsNumbered) (step : LogStep) :
    (step.perform s).2.IsNumbered := by
  rcases step.perform_cases h with ⟨c, hadded, -, hperform⟩ | ⟨-, hperform⟩ <;> rw [hperform]
  · have hid := (LogStep.of_added? hadded).1
    constructor
    · intro d hd
      rcases List.mem_append.1 hd with hd | hd
      · obtain ⟨n, hn, hdid⟩ := h.given d hd
        exact ⟨n, Nat.le_succ_of_le hn, hdid⟩
      · rw [List.mem_singleton.1 hd]
        exact ⟨s.issued + 1, Nat.le_refl _, hid⟩
    · show ((s.log.changes ++ [c]).map (·.id)).Nodup
      rw [List.map_append, List.map_singleton]
      refine List.nodup_append.2 ⟨h.nodup, List.pairwise_singleton _ _, ?_⟩
      intro id hmem _ hnew hsame
      obtain ⟨d, hd, rfl⟩ := List.mem_map.1 hmem
      obtain ⟨n, hn, hnid⟩ := h.given d hd
      have hnumber : n = s.issued + 1 :=
        changeId_injective (by rw [← hnid, hsame, List.mem_singleton.1 hnew, hid])
      omega
  · exact ⟨fun d hd => h.given d (List.mem_filter.1 hd).1,
      h.nodup.sublist (List.filter_sublist.map _)⟩

/-! ### All steps -/

/-- What steps leave: what none of them takes out, and what they add and do not take out again. -/
theorem LogStep.changes_run {s : Staging} (h : s.IsNumbered) (steps : List LogStep) :
    (run s steps).log.changes
      = s.log.changes.filter (fun c => !steps.any (·.takes c.id)) ++ history s.issued steps := by
  induction steps generalizing s with
  | nil =>
    have hkept : s.log.changes.filter (fun c => !([] : List LogStep).any (·.takes c.id))
        = s.log.changes := List.filter_eq_self.2 fun _ _ => rfl
    rw [hkept]
    exact (List.append_nil _).symm
  | cons step rest ih =>
    have hrun : run s (step :: rest) = run (step.perform s).2 rest := rfl
    rw [hrun, ih (h.perform step), history_cons]
    -- what the first step adds is there for the later ones to take out
    rcases step.perform_cases h with ⟨c, hadded, htakes, hperform⟩ | ⟨hadded, hperform⟩
    · rw [hperform, hadded]
      simp [htakes, List.filter_append]
    · rw [hperform, hadded]
      simp [List.filter_filter, Bool.and_comm]

theorem LogStep.isNumbered_run {s : Staging} (h : s.IsNumbered) (steps : List LogStep) :
    (run s steps).IsNumbered := by
  induction steps generalizing s with
  | nil => exact h
  | cons step rest ih => exact ih (h.perform step)

/-- Every step that adds is counted. -/
theorem LogStep.issued_run {s : Staging} (h : s.IsNumbered) (steps : List LogStep) :
    (run s steps).issued = s.issued + (additions s.issued steps).length := by
  induction steps generalizing s with
  | nil => rfl
  | cons step rest ih =>
    have hrun : run s (step :: rest) = run (step.perform s).2 rest := rfl
    rw [hrun, ih (h.perform step), additions]
    rcases step.perform_cases h with ⟨c, hadded, -, hperform⟩ | ⟨hadded, hperform⟩ <;>
      rw [hperform, hadded]
    rw [List.length_cons, Nat.add_assoc, Nat.add_comm 1]

/-- What can be said of a log after some steps, and of the next step, whichever it is. -/
structure KeepsHistory (issued : Nat) (steps : List LogStep) (s : Staging) : Prop where
  /-- The log holds what was added, in order, without what was taken out later. -/
  changes : s.log.changes = history issued steps
  /-- No two of the changes that were ever added have the same id. -/
  nodup : ((additions issued steps).map (·.1.id)).Nodup
  /-- Each change has the data and the pre-image that it was added with, and the statement that was
  built for them then. -/
  kept : ∀ c ∈ s.log.changes, ∃ before columns later,
    steps = before ++ .add c.kind c.table c.data c.preimage columns :: later
      ∧ Sql.Statement.ofChange c.kind c.table c.data c.preimage columns = .ok c.statement
      ∧ ∀ step ∈ later, step.takes c.id = false
  /-- A change is added at the end, with an id that none had before, or is refused as there is no
  statement for it; then nothing changes. -/
  add : ∀ kind table data preimage columns,
    (∃ c statement, Sql.Statement.ofChange kind table data preimage columns = .ok statement
      ∧ c = ⟨c.id, kind, table, data, preimage, statement⟩
      ∧ c.id ∉ (additions issued steps).map (·.1.id)
      ∧ (LogStep.add kind table data preimage columns).perform s
        = (.change c, ⟨⟨s.log.changes ++ [c]⟩, s.issued + 1⟩))
    ∨ ∃ e, Sql.Statement.ofChange kind table data preimage columns = .error e
      ∧ (LogStep.add kind table data preimage columns).perform s = (.refused (.statement e), s)
  /-- The one change of an id is taken out and yielded, and the others stay in order; or there is
  none, and nothing changes. -/
  remove : ∀ id,
    (∃ before c after, s.log.changes = before ++ c :: after ∧ c.id = id
      ∧ (∀ d ∈ before ++ after, d.id ≠ id)
      ∧ (LogStep.remove id).perform s = (.change c, ⟨⟨before ++ after⟩, s.issued⟩))
    ∨ ((∀ c ∈ s.log.changes, c.id ≠ id)
      ∧ (LogStep.remove id).perform s = (.refused (.unknownChange id), s))
  clear : LogStep.clear.perform s = (.done, ⟨.empty, s.issued⟩)
  /-- All readers read the one list, and change nothing. -/
  size : LogStep.size.perform s = (.count (history issued steps).length, s)
  isEmpty : LogStep.isEmpty.perform s = (.flag (history issued steps).isEmpty, s)
  list : LogStep.list.perform s = (.changes (history issued steps), s)
  statements : LogStep.statements.perform s = (.texts ((history issued steps).map (·.sql)), s)
  forTable : ∀ table, (LogStep.forTable table).perform s
    = (.changes ((history issued steps).filter (·.table = table)), s)

/-- After any steps a log holds exactly the history of them. -/
theorem log_keepsHistory (issued : Nat) (steps : List LogStep) :
    KeepsHistory issued steps (LogStep.run ⟨.empty, issued⟩ steps) := by
  have hstart : Staging.IsNumbered ⟨.empty, issued⟩ := ⟨fun _ hc => (nomatch hc), List.nodup_nil⟩
  have hnumbered := LogStep.isNumbered_run hstart steps
  have hissued : (LogStep.run ⟨.empty, issued⟩ steps).issued
      = issued + (additions issued steps).length := LogStep.issued_run hstart steps
  have hchanges : (LogStep.run ⟨.empty, issued⟩ steps).log.changes = history issued steps :=
    LogStep.changes_run hstart steps
  generalize LogStep.run ⟨.empty, issued⟩ steps = s at hnumbered hissued hchanges ⊢
  constructor
  case changes => exact hchanges
  case nodup => exact nodup_additions issued steps
  case kept =>
    intro c hc
    rw [hchanges] at hc
    obtain ⟨⟨_, later⟩, hlater, rfl⟩ := List.mem_map.1 hc
    obtain ⟨hadded, hleft⟩ := List.mem_filter.1 hlater
    obtain ⟨before, columns, hsteps, hstatement⟩ := of_mem_additions hadded
    refine ⟨before, columns, later, hsteps, hstatement, ?_⟩
    simpa using hleft
  case add =>
    intro kind table data preimage columns
    rw [LogStep.perform_add]
    rcases s.add_cases kind table data preimage columns with
      ⟨statement, hstatement, hadd⟩ | ⟨e, he, hadd⟩
    · rw [hadd]
      refine .inl ⟨_, statement, hstatement, rfl, ?_, rfl⟩
      rw [ids_additions]
      intro hmem
      obtain ⟨n, hn, hid⟩ := List.mem_map.1 hmem
      have hnew := changeId_injective hid
      have hlt := List.mem_range'_1.1 hn
      omega
    · rw [hadd]
      exact .inr ⟨e, he, rfl⟩
  case remove =>
    intro id
    rw [LogStep.perform_remove]
    rcases Staging.remove_cases hnumbered id with
      ⟨before, c, after, hsplit, hid, hothers, hremove⟩ | ⟨hnone, hremove⟩
    · rw [hremove]
      exact .inl ⟨before, c, after, hsplit, hid, hothers, rfl⟩
    · rw [hremove]
      exact .inr ⟨hnone, rfl⟩
  case clear => rfl
  case size => exact hchanges ▸ rfl
  case isEmpty => exact hchanges ▸ rfl
  case list => exact hchanges ▸ rfl
  case statements => exact hchanges ▸ rfl
  case forTable => exact fun _ => hchanges ▸ rfl

end StagedTable
