import StagedTable.Proofs.Session.PendingEdits

/-!
# The row that a change is replayed on

The statement of a change names its row by the primary key, the view finds it by the whole
pre-image. So a replay may leave out a change whose row is there all the same: the row was fetched
with another value, or the change that had brought it about was taken out of the log. What a change
is replayed on is the first row left that holds the pre-image, and only of this row it can be said
that the statement addresses it too (`View.Addressed`).

A replay shows every change on the row that its statement addresses (`View.ShowsAll`) as long as
the log is only added to, or shortened at its end, and what is fetched anew is equal to what was
there, while no two rows left share their key (`ShowsAll.runAll`).
-/

namespace StagedTable

/-! ### Steps -/

/-- Takes a change out of the log, if it is there. -/
def Desk.unstage (d : Desk) (id : String) : Desk :=
  match d.staging.remove id with
  | .ok (_, staging) => { d with staging := staging }
  | .error _ => d

/-- A step in a session: an operation, or a change is taken out of the log. -/
inductive Step
  | operation (op : Operation)
  | unstage (id : String)

namespace Step

/-- The desk that a step leaves. -/
def run (d : Desk) : Step → Desk
  | operation op => op.run d
  | unstage id => d.unstage id

/-- The desk that steps leave, one after the other. -/
def runAll (d : Desk) (steps : List Step) : Desk := steps.foldl run d

end Step

/-! ### The row that is found -/

section

variable {skipped : Nat → Bool} {preimage : Row}

theorem findRowFrom_eq_none {start : Nat} {rows : List Row}
    (h : findRowFrom skipped preimage start rows = none) :
    ∀ t ∈ keptFrom skipped start rows, t.holds preimage = false := by
  induction rows generalizing start with
  | nil => exact nofun
  | cons r rest ih =>
    rw [findRowFrom] at h
    split at h
    · cases h
    · next hr =>
      rw [keptFrom]
      split
      · exact ih h
      · next hopen =>
        refine List.forall_mem_cons.2 ⟨?_, ih h⟩
        simpa [hopen] using hr

theorem findRowFrom_before {start i : Nat} {rows : List Row}
    (h : findRowFrom skipped preimage start rows = some i) :
    ∀ t ∈ keptFrom skipped start (rows.take (i - start)), t.holds preimage = false := by
  induction rows generalizing start with
  | nil => cases h
  | cons r rest ih =>
    rw [findRowFrom] at h
    split at h
    · cases h
      rw [Nat.sub_self, List.take_zero]
      intro t ht
      cases ht
    · next hr =>
      have hlow := (of_findRowFrom h).1
      have hplace : i - start = i - (start + 1) + 1 := by omega
      rw [hplace, List.take_succ_cons, keptFrom]
      split
      · exact ih h
      · next hopen =>
        refine List.forall_mem_cons.2 ⟨?_, ih h⟩
        simpa [hopen] using hr

end

namespace View

variable {v v' : View} {c : Change} {p r : Row} {i : Nat} {columns : List Column}

/-- A change of a row is matched to none if and only if no row that is left holds its pre-image. -/
theorem target?_eq_none_iff (hkind : c.kind ≠ .insert) (hpreimage : c.preimage = some p) :
    v.target? c = none ↔ ∀ t ∈ v.kept, t.holds p = false := by
  rw [target?_eq_findRow hkind hpreimage]
  refine ⟨findRowFrom_eq_none, fun hnone => ?_⟩
  rw [Option.eq_none_iff_forall_ne_some]
  intro i hfound
  obtain ⟨-, hopen, r, hr, hholds⟩ := of_findRowFrom hfound
  have hmem : r ∈ v.kept := mem_keptFrom hr (by rwa [Nat.zero_add])
  rw [hnone r hmem] at hholds
  cases hholds

/-- If one row alone has the key of the pre-image, the change is matched to it or to none. -/
theorem target?_of_unique (hkind : c.kind ≠ .insert) (hpreimage : c.preimage = some p)
    (hr : v.rows[i]? = some r) (hopen : v.isDeleted i = false) (hsame : SameKey columns r p)
    (hothers : ∀ j t, v.rows[j]? = some t → v.isDeleted j = false → SameKey columns t p → j = i) :
    (v.target? c = some i ↔ r.holds p = true) ∧ (v.target? c = none ↔ r.holds p = false) := by
  -- whatever row is found holds the pre-image and so has its key
  have hfound : ∀ j, v.target? c = some j → j = i ∧ r.holds p = true := by
    intro j htarget
    obtain ⟨-, hopen', t, p', ht, hp', hholds⟩ := of_target? htarget
    rw [hpreimage] at hp'
    cases hp'
    have hsame' : SameKey columns t p := by
      refine Row.sameKey_of_holds (fun key hkey => ?_) hholds
      obtain ⟨_, w, -, hw, -⟩ := hsame key hkey
      rw [hw]
      rfl
    have hplace := hothers j t ht hopen' hsame'
    subst hplace
    rw [hr] at ht
    cases ht
    exact ⟨rfl, hholds⟩
  have hmem : r ∈ v.kept := mem_keptFrom hr (by rwa [Nat.zero_add])
  cases htarget : v.target? c with
  | none =>
    have hnone := (target?_eq_none_iff hkind hpreimage).1 htarget r hmem
    simp [hnone]
  | some j =>
    obtain ⟨rfl, hholds⟩ := hfound j htarget
    simp [hholds]

/-- How a change with a pre-image is matched, and the rows that its statement addresses, on a table
with given columns. -/
structure Addressed (columns : List Column) (v : View) (c : Change) (p : Row) : Prop where
  /-- The statement addresses the rows with the primary key values of the pre-image, by the columns
  that the table had when it was built; if it had no primary key then, the rows with all values. -/
  addresses : ∃ built : List Column, ∀ r, c.statement.meets r = true
    ↔ if Column.keys built = [] then r.holds p = true else SameKey built r p
  /-- The change is matched to a row that is left and holds the pre-image, and the statement
  addresses that row. -/
  matched : ∀ i, v.target? c = some i → v.isDeleted i = false
    ∧ ∃ r, v.rows[i]? = some r ∧ r.holds p = true ∧ c.statement.meets r = true
  /-- It is the first of the rows that are left and hold the pre-image. -/
  first : ∀ i, v.target? c = some i →
    ∀ t ∈ keptFrom v.isDeleted 0 (v.rows.take i), t.holds p = false
  /-- There is such a row, or the change is matched to none. -/
  missed : v.target? c = none ↔ ∀ t ∈ v.kept, t.holds p = false
  /-- A row that is left and has the key of the pre-image, as no other one does, takes the change if
  and only if it holds the other values too. -/
  unique : ∀ i r, v.rows[i]? = some r → v.isDeleted i = false → SameKey columns r p →
    (∀ j t, v.rows[j]? = some t → v.isDeleted j = false → SameKey columns t p → j = i) →
    (v.target? c = some i ↔ r.holds p = true) ∧ (v.target? c = none ↔ r.holds p = false)

end View

/-- Whether the statement of a change is the one that is built for it on a table with some
columns. -/
def Change.IsBuilt (c : Change) : Prop :=
  ∃ columns, Sql.Statement.ofChange c.kind c.table c.data c.preimage columns = .ok c.statement

theorem Change.IsBuilt.addressed {c : Change} (h : c.IsBuilt) (hkind : c.kind ≠ .insert) {p : Row}
    (hpreimage : c.preimage = some p) (columns : List Column) (v : View) :
    v.Addressed columns c p := by
  obtain ⟨built, hstatement⟩ := h
  rw [hpreimage] at hstatement
  have hmeets := Sql.Statement.meets_ofChange hkind hstatement
  obtain ⟨bs, hcondition, -⟩ := Sql.Statement.condition_ofChange hkind hstatement
  have hcarries := Sql.Statement.carries_of_condition hcondition
  refine ⟨⟨built, hmeets⟩, ?matched, ?first, View.target?_eq_none_iff hkind hpreimage, ?unique⟩
  case matched =>
    intro i htarget
    obtain ⟨-, hopen, r, p', hr, hp', hholds⟩ := View.of_target? htarget
    rw [hpreimage] at hp'
    cases hp'
    refine ⟨hopen, r, hr, hholds, (hmeets r).2 ?_⟩
    split
    · exact hholds
    · exact Row.sameKey_of_holds hcarries hholds
  case first =>
    intro i htarget
    rw [View.target?_eq_findRow hkind hpreimage] at htarget
    exact findRowFrom_before htarget
  case unique =>
    intro i r hr hopen hsame hothers
    exact View.target?_of_unique hkind hpreimage hr hopen hsame hothers

/-! ### Replays that show every change -/

namespace View

variable {columns : List Column} {v v' : View} {c : Change} {changes more : List Change}

/-- Whether an update or a deletion is matched to every row that is left and has the primary key
values of its pre-image. -/
def Shows (columns : List Column) (v : View) (c : Change) : Prop :=
  c.kind ≠ .insert → ∀ p ∈ c.preimage, ∀ i, ∀ r ∈ v.rows[i]?, v.isDeleted i = false →
    SameKey columns r p → v.target? c = some i

/-- Whether the replay of changes shows each of them so. -/
def ShowsAll (columns : List Column) (v : View) : List Change → Prop
  | [] => True
  | c :: rest => v.Shows columns c ∧ (v.apply c).ShowsAll columns rest

instance : Decidable (v.Shows columns c) :=
  decidable_of_iff (c.kind ≠ .insert → ∀ p ∈ c.preimage, ∀ i ∈ List.range v.rows.length,
      ∀ r ∈ v.rows[i]?, v.isDeleted i = false → SameKey columns r p → v.target? c = some i) <| by
    refine imp_congr_right fun _ => forall₂_congr fun p _ => forall_congr' fun i => ?_
    constructor
    · intro h r hr
      exact h (List.mem_range.2 (List.getElem?_eq_some_iff.1 hr).1) r hr
    · exact fun h _ => h

instance decidableShowsAll (columns : List Column) :
    (v : View) → (changes : List Change) → Decidable (v.ShowsAll columns changes)
  | _, [] => inferInstanceAs (Decidable True)
  | v, c :: rest =>
    have := decidableShowsAll columns (v.apply c) rest
    inferInstanceAs (Decidable (_ ∧ _))

theorem showsAll_append : v.ShowsAll columns (changes ++ more)
    ↔ v.ShowsAll columns changes ∧ (changes.foldl apply v).ShowsAll columns more := by
  induction changes generalizing v with
  | nil => simp [ShowsAll]
  | cons c rest ih => rw [List.cons_append, ShowsAll, ShowsAll, ih, and_assoc, List.foldl_cons]

theorem ShowsAll.of_prefix (h : v.ShowsAll columns changes) (hmore : more <+: changes) :
    v.ShowsAll columns more := by
  obtain ⟨rest, rfl⟩ := hmore
  exact (showsAll_append.1 h).1

theorem Indistinct.shows (h : v.Indistinct v') (hc : c.IsProper) (hshows : v.Shows columns c) :
    v'.Shows columns c := by
  intro hkind p hp i r' hr' hopen hsame
  obtain ⟨hlt, rfl⟩ := List.getElem?_eq_some_iff.1 hr'
  have hlt' : i < v.rows.length := by rwa [h.rows.length_eq]
  have hrow : (v.rows[i]).Indistinct (v'.rows[i]) := h.rows.get hlt' hlt
  rw [← h.target? hc]
  apply hshows hkind p hp i _ (List.getElem?_eq_getElem hlt')
  · rwa [isDeleted, h.deleted]
  · -- the key values of the pre-image do not tell the rows apart
    intro key hkey
    obtain ⟨w, x, hw, hx, hwx⟩ := hsame key hkey
    have hrel := hrow key.name
    rw [hw] at hrel
    obtain ⟨v₀, hv₀, hvw⟩ : ∃ v₀, (v.rows[i]).get? key.name = some v₀ ∧ v₀.Indistinct w := by
      cases hv : (v.rows[i]).get? key.name with
      | none =>
        rw [hv] at hrel
        cases hrel
      | some v₀ =>
        rw [hv] at hrel
        cases hrel with
        | some hvw => exact ⟨v₀, rfl, hvw⟩
    refine ⟨v₀, x, hv₀, hx, ?_⟩
    rw [hvw x (hc.preimage p hp _ _ hx)]
    exact hwx

theorem Indistinct.showsAll (h : v.Indistinct v') (hchanges : ∀ c ∈ changes, c.IsProper)
    (hshows : v.ShowsAll columns changes) : v'.ShowsAll columns changes := by
  induction changes generalizing v v' with
  | nil => trivial
  | cons c rest ih =>
    rw [List.forall_mem_cons] at hchanges
    exact ⟨h.shows hchanges.1 hshows.1, ih (h.apply hchanges.1) hchanges.2 hshows.2⟩

end View

/-- Whether the view shows every staged change on the row that its statement addresses. -/
def Desk.ShowsAll (d : Desk) : Prop :=
  (View.ofRows d.session.data.rows).ShowsAll d.session.data.columns d.changes

instance (d : Desk) : Decidable d.ShowsAll :=
  View.decidableShowsAll d.session.data.columns (.ofRows d.session.data.rows) d.changes

variable {d d' : Desk} {row : Int} {content data : Row} {kind : ChangeKind}
  {preimage : Option Row} {c : Change}

theorem Desk.ShowsAll.of_extends (h : d.ShowsAll) (hdata : d'.session.data = d.session.data)
    (hchanges : d'.changes <+: d.changes) : d'.ShowsAll := by
  rw [Desk.ShowsAll, hdata]
  exact View.ShowsAll.of_prefix h hchanges

theorem Desk.showsAll_of_none (h : d.changes = []) : d.ShowsAll := by
  rw [Desk.ShowsAll, h]
  trivial

/-- A change that is staged is shown, if the view shows it on its row and no other one that is left
has its key. -/
theorem Desk.ShowsAll.stages (h : d.ShowsAll) (hstages : Session.Stages d kind data preimage c d')
    (hshows : d.staged.Shows d.session.data.columns c) : d'.ShowsAll := by
  rw [Desk.ShowsAll, hstages.session, hstages.changes]
  exact View.showsAll_append.2 ⟨h, hshows, trivial⟩

theorem Session.Stages.shows (h : Stages d kind data (some content) c d') (hproper : d.IsProper)
    (hopen : d.openRow row = .ok content)
    (hdiffer : KeysDiffer d.session.data.columns d.staged.kept)
    (hcomparable : ∀ r ∈ d.staged.kept, r.IsComparable) :
    d.staged.Shows d.session.data.columns c := by
  intro hkind p hp i r hr hleft hsame
  rw [h.preimage_eq] at hp
  cases hp
  rw [h.kind_eq] at hkind
  obtain ⟨-, hget, hisOpen⟩ := Desk.openRow_ok.1 hopen
  rw [h.target? hkind hopen hdiffer hcomparable,
    View.eq_of_sameKey hproper.staged hdiffer hr hleft hget hisOpen hsame]

/-! ### Calm runs -/

/-- Whether a row holds not-a-number. -/
def Row.holdsNan (r : Row) : Bool := r.fields.any (·.2.holdsNan)

theorem Row.IsProper.isComparable {r : Row} (h : r.IsProper) (hnan : r.holdsNan = false) :
    r.IsComparable := by
  intro name v hv
  have hfield := List.any_eq_false.1 hnan _ (Assoc.mem_of_get? hv)
  exact (h name v hv).isComparable (Bool.eq_false_iff.2 hfield)

namespace Step

/-- Whether all that a step brings is proper. -/
def IsProper : Step → Prop
  | operation op => op.IsProper
  | unstage _ => True

/-- Whether no change is taken out of the log but the last one of the table. -/
def takesLast (d : Desk) : Step → Bool
  | operation _ => true
  | unstage id => d.changes.dropLast.all fun c => !decide (c.id = id)

/-- Whether a step takes over what was fetched anew or takes all staged changes away. -/
def renews (d : Desk) : Step → Bool
  | operation op => op.renews d
  | unstage _ => false

/-- Whether the steps of a run are such that every change stays on its row: no two rows left ever
share their key or hold not-a-number, a change that is taken out of the log is the last one, and
while changes are staged what is fetched anew is equal to what was there, no cell switching between
a boolean and a number. -/
def Calm (d : Desk) : List Step → Prop
  | [] => True
  | step :: rest => KeysDiffer d.session.data.columns d.staged.kept
    ∧ (∀ r ∈ d.staged.kept, r.holdsNan = false)
    ∧ step.takesLast d = true
    ∧ (step.renews d = true → (step.run d).changes.isEmpty = true
      ∨ ((step.run d).session.data.equal d.session.data = true
        ∧ d.session.data.KeepsKinds (step.run d).session.data))
    ∧ Calm (step.run d) rest

instance decidableCalm (d : Desk) : (steps : List Step) → Decidable (Calm d steps)
  | [] => inferInstanceAs (Decidable True)
  | step :: rest =>
    have := decidableCalm (step.run d) rest
    inferInstanceAs (Decidable (_ ∧ _ ∧ _ ∧ _ ∧ _))

end Step

/-! ### Taking a change out -/

/-- What is taken out leaves the other changes in order. -/
theorem Desk.unstage_cases (d : Desk) (id : String) : d.unstage id = d
    ∨ ∃ before c after, c.id = id ∧ d.staging.log.changes = before ++ c :: after
      ∧ (d.unstage id).session = d.session
      ∧ (d.unstage id).staging.log.changes = before ++ after := by
  unfold Desk.unstage Staging.remove ChangeLog.remove?
  cases hremove : ChangeLog.removeFrom? id d.staging.log.changes with
  | none => exact .inl rfl
  | some found =>
    obtain ⟨c, rest⟩ := found
    obtain ⟨hid, before, after, hsplit, hrest, -⟩ := ChangeLog.of_removeFrom? hremove
    exact .inr ⟨before, c, after, hid, hsplit, rfl, hrest⟩

theorem Desk.session_unstage (d : Desk) (id : String) : (d.unstage id).session = d.session := by
  rcases d.unstage_cases id with h | ⟨_, _, _, -, -, h, -⟩
  · rw [h]
  · exact h

theorem Desk.changes_unstage (d : Desk) (id : String) :
    (d.unstage id).changes.Sublist d.changes := by
  rcases d.unstage_cases id with h | ⟨before, c, after, -, hsplit, hsession, hrest⟩
  · rw [h]
  · rw [Desk.changes, Desk.changes, ChangeLog.forTable, ChangeLog.forTable, hsession, hrest, hsplit]
    exact ((List.sublist_cons_self c after).append_left before).filter _

/-- If only the last change of the table can have the id, the changes before it stay. -/
theorem Desk.changes_unstage_of_last {id : String}
    (h : ∀ c ∈ d.changes.dropLast, c.id ≠ id) : (d.unstage id).changes <+: d.changes := by
  rcases d.unstage_cases id with hsame | ⟨before, c, after, hid, hsplit, hsession, hrest⟩
  · rw [hsame]
  · have hold : d.changes = before.filter (·.table = d.session.table)
        ++ (c :: after).filter (·.table = d.session.table) := by
      rw [Desk.changes, ChangeLog.forTable, hsplit, List.filter_append]
    have hnew : (d.unstage id).changes = before.filter (·.table = d.session.table)
        ++ after.filter (·.table = d.session.table) := by
      rw [Desk.changes, ChangeLog.forTable, hsession, hrest, List.filter_append]
    rw [hnew, hold]
    by_cases htable : c.table = d.session.table
    · rw [List.filter_cons_of_pos (by simpa using htable)] at hold ⊢
      -- a change behind it would make it one of those that stay
      have hnone : after.filter (·.table = d.session.table) = [] := by
        by_contra hne
        refine h c ?_ hid
        rw [hold, List.dropLast_append_of_ne_nil (List.cons_ne_nil _ _),
          List.dropLast_cons_of_ne_nil hne]
        simp
      rw [hnone, List.append_nil]
      exact List.prefix_append _ _
    · rw [List.filter_cons_of_neg (by simpa using htable)]

/-! ### Runs of steps -/

theorem Operation.changes_run {op : Operation} (hop : ∀ call, op ≠ .call call) (d : Desk) :
    (op.run d).changes = d.changes ∨ (op.run d).changes = [] := by
  rcases Operation.refetched_run hop d with
    ⟨n, hrun | ⟨data, -, hrun⟩⟩ | ⟨n, hrun | ⟨data, -, hrun⟩⟩ <;> rw [hrun]
  · exact .inl rfl
  · exact .inl rfl
  · exact .inr rfl
  · exact .inr rfl

theorem Operation.run_call (call : Call) (d : Desk) : (Operation.call call).run d = call.run d := by
  rw [Operation.run, Operation.perform, call.snd_perform]

theorem Session.Stages.isBuilt (h : Stages d kind data preimage c d') : c.IsBuilt := by
  have hmem : c ∈ d'.changes := by rw [h.changes]; simp
  have htable : c.table = d'.session.table := by simpa using (List.mem_filter.1 hmem).2
  refine ⟨d.session.data.columns, ?_⟩
  rw [h.kind_eq, h.data_eq, h.preimage_eq, htable, h.session]
  exact h.statement

namespace Step

variable {step : Step} {steps : List Step}

/-- Every change in the log was there before the step, or was staged by it with the statement that
is built for it. -/
theorem isBuilt_run (h : ∀ c ∈ d.changes, c.IsBuilt) (step : Step) :
    ∀ c ∈ (step.run d).changes, c.IsBuilt := by
  cases step with
  | operation op =>
    show ∀ c ∈ (op.run d).changes, c.IsBuilt
    by_cases hcall : ∃ call, op = .call call
    · obtain ⟨call, rfl⟩ := hcall
      rw [Operation.run_call]
      rcases call.stages_cases d with hsame | ⟨_, _, _, c, d', hstages, hchanges, -⟩
      · rwa [hsame]
      · rw [hchanges, hstages.changes, List.forall_mem_append, List.forall_mem_singleton]
        exact ⟨h, hstages.isBuilt⟩
    · rcases op.changes_run (fun call hc => hcall ⟨call, hc⟩) d with hsame | hnone
      · rwa [hsame]
      · rw [hnone]
        exact nofun
  | unstage id => exact fun c hc => h c ((d.changes_unstage id).subset hc)

theorem isBuilt_runAll (h : ∀ c ∈ d.changes, c.IsBuilt) (steps : List Step) :
    ∀ c ∈ (runAll d steps).changes, c.IsBuilt := by
  induction steps generalizing d with
  | nil => exact h
  | cons step rest ih => exact ih (isBuilt_run h step)

theorem isProper_run (h : d.IsProper) (hstep : step.IsProper) : (step.run d).IsProper := by
  cases step with
  | operation op => exact h.run hstep
  | unstage id =>
    show (d.unstage id).IsProper
    have hsession := d.session_unstage id
    refine ⟨by rw [hsession]; exact h.data, by rw [hsession]; exact h.edits, ?_,
      by rw [hsession]; exact h.loader⟩
    exact fun c hc => h.changes c ((d.changes_unstage id).subset hc)

end Step

theorem Desk.ShowsAll.call (h : d.ShowsAll) (hproper : d.IsProper)
    (hdiffer : KeysDiffer d.session.data.columns d.staged.kept)
    (hcomparable : ∀ r ∈ d.staged.kept, r.IsComparable) (call : Call) : (call.run d).ShowsAll := by
  have hdata := (call.extends_run d).data
  rcases call.stages_cases d with hsame | ⟨kind, _, preimage, c, d', hstages, hchanges, hkind⟩
  · exact h.of_extends hdata (by rw [hsame])
  · have hshows : d.staged.Shows d.session.data.columns c := by
      rcases hkind with rfl | ⟨row, content, rfl, hopen⟩
      · exact fun hother => absurd hstages.kind_eq hother
      · exact hstages.shows hproper hopen hdiffer hcomparable
    refine (h.stages hstages hshows).of_extends ?_ (by rw [hchanges])
    rw [hdata, hstages.session]

/-- Equal rows that are fetched anew take the changes as the old ones did. -/
theorem Desk.ShowsAll.of_equal (h : d.ShowsAll) (hproper : d.IsProper) (hproper' : d'.IsProper)
    (hchanges : d'.changes = d.changes)
    (hequal : d'.session.data.equal d.session.data = true)
    (hkinds : d.session.data.KeepsKinds d'.session.data) : d'.ShowsAll := by
  have hcolumns : d'.session.data.columns = d.session.data.columns :=
    beq_iff_eq.1 (Bool.and_eq_true_iff.1 hequal).2
  rw [Desk.ShowsAll, hcolumns, hchanges]
  exact (TableData.indistinct_of_equal hproper.data hproper'.data hequal hkinds).showsAll
    hproper.changes h

namespace Step

variable {step : Step} {steps : List Step}

/-- A calm step keeps every change on its row. -/
theorem showsAll_run (h : d.ShowsAll) (hproper : d.IsProper) (hstep : step.IsProper)
    (hcalm : Calm d [step]) : (step.run d).ShowsAll := by
  obtain ⟨hdiffer, hnan, hlast, hrenews, -⟩ := hcalm
  have hcomparable : ∀ r ∈ d.staged.kept, r.IsComparable := fun r hr =>
    (hproper.staged r (mem_of_mem_keptFrom hr)).isComparable (hnan r hr)
  have hproper' := isProper_run hproper hstep
  cases step with
  | unstage id =>
    refine h.of_extends (by rw [run, d.session_unstage]) (d.changes_unstage_of_last ?_)
    intro c hc
    simpa using List.all_eq_true.1 hlast c hc
  | operation op =>
    by_cases hcall : ∃ call, op = .call call
    · obtain ⟨call, rfl⟩ := hcall
      rw [run, Operation.run_call]
      exact h.call hproper hdiffer hcomparable call
    · rcases op.changes_run (fun call hc => hcall ⟨call, hc⟩) d with hsame | hnone
      · cases hop : op.renews d with
        | false => exact h.of_extends (Operation.extends_run hop).data (by rw [run, hsame])
        | true =>
          rcases hrenews hop with hempty | ⟨hequal, hkinds⟩
          · exact Desk.showsAll_of_none (List.isEmpty_iff.1 hempty)
          · exact h.of_equal hproper hproper' hsame hequal hkinds
      · exact Desk.showsAll_of_none hnone

theorem showsAll_runAll (h : d.ShowsAll) (hproper : d.IsProper)
    (hsteps : ∀ step ∈ steps, step.IsProper) (hcalm : Calm d steps) :
    (runAll d steps).ShowsAll := by
  induction steps generalizing d with
  | nil => exact h
  | cons step rest ih =>
    rw [List.forall_mem_cons] at hsteps
    obtain ⟨hdiffer, hnan, hlast, hrenews, hrest⟩ := hcalm
    have hhere : Calm d [step] := ⟨hdiffer, hnan, hlast, hrenews, trivial⟩
    exact ih (showsAll_run h hproper hsteps.1 hhere) (isProper_run hproper hsteps.1) hsteps.2 hrest

end Step

/-- Whatever was done in a session, a staged update or deletion is replayed on the first row left
that holds its whole pre-image, a row that its statement addresses too; a row that is left and alone
has the primary key values of the pre-image takes the change if and only if it holds the other
values of the pre-image as well. In a calm run each change is replayed on the row that its statement
addresses. -/
theorem replayed_by_content (table : Sql.TableName) (data : TableData) (loader : Option Loader)
    (staging : Staging) (steps : List Step) (hbuilt : ∀ c ∈ staging.log.changes, c.IsBuilt) :
    let d := Step.runAll ⟨Session.start table data loader, staging⟩ steps
    (∀ before c after p, d.changes = before ++ c :: after → c.kind ≠ .insert →
      c.preimage = some p →
      (before.foldl View.apply (.ofRows d.session.data.rows)).Addressed d.session.data.columns c p)
    ∧ (staging.log.forTable table = [] →
      Desk.IsProper ⟨Session.start table data loader, staging⟩ → (∀ step ∈ steps, step.IsProper) →
      Step.Calm ⟨Session.start table data loader, staging⟩ steps → d.ShowsAll) := by
  intro d
  refine ⟨?_, ?_⟩
  · intro before c after p hsplit hkind hpreimage
    have hall : ∀ c ∈ d.changes, c.IsBuilt :=
      Step.isBuilt_runAll (fun c hc => hbuilt c (List.mem_filter.1 hc).1) steps
    exact (hall c (by rw [hsplit]; simp)).addressed hkind hpreimage _ _
  · intro hnone hproper hsteps hcalm
    exact Step.showsAll_runAll (Desk.showsAll_of_none hnone) hproper hsteps hcalm

/-- A session on the articles, before anything is staged. -/
def articlesStart : Desk := ⟨Session.start ⟨"public", "articles"⟩ articles none, .empty⟩

/-- A new price is staged, equal rows are fetched again, and a deletion is staged and taken back. -/
def articlesSteps : List Step :=
  [.operation (.call (.editCell 0 "price" (.int 6))), .operation (.call (.stageRow 0)),
    .operation (.refresh articlesAgain), .operation (.call (.deleteRow 1)), .unstage (changeId 2)]

theorem replayed_by_content_articles :
    (∀ c ∈ Staging.empty.log.changes, c.IsBuilt)
    ∧ Staging.empty.log.forTable ⟨"public", "articles"⟩ = []
    ∧ articlesStart.IsProper ∧ (∀ step ∈ articlesSteps, step.IsProper)
    ∧ Step.Calm articlesStart articlesSteps
    ∧ (Step.runAll articlesStart articlesSteps).changes.length = 1
    ∧ (Step.runAll articlesStart articlesSteps).ShowsAll := by
  have hplain : ((articles.rows ++ articlesAgain.rows).all (·.isPlain)) = true := by decide +kernel
  have hrows : ∀ r ∈ articles.rows ++ articlesAgain.rows, r.IsProper := fun r hr =>
    Row.cellOf_of_isPlain (List.all_eq_true.1 hplain r hr)
  rw [List.forall_mem_append] at hrows
  have hproper : articlesStart.IsProper := ⟨hrows.1, nofun, nofun, nofun⟩
  have hsteps : ∀ step ∈ articlesSteps, step.IsProper := by
    simp only [articlesSteps, List.forall_mem_cons]
    exact ⟨.int 6 trivial, trivial, hrows.2, trivial, trivial, nofun⟩
  have hcalm : Step.Calm articlesStart articlesSteps := by decide +kernel
  have hbuilt : ∀ c ∈ Staging.empty.log.changes, c.IsBuilt := nofun
  have hlength : (Step.runAll articlesStart articlesSteps).changes.length = 1 := by decide +kernel
  have hreplayed :=
    replayed_by_content ⟨"public", "articles"⟩ articles none .empty articlesSteps hbuilt
  have hnone : Staging.empty.log.forTable ⟨"public", "articles"⟩ = [] := rfl
  exact ⟨hbuilt, hnone, hproper, hsteps, hcalm, hlength, hreplayed.2 hnone hproper hsteps hcalm⟩

/-- Whether rows of different primary keys were fetched, and still some staged change is not shown
on the row that its statement addresses. -/
def Desk.Misses (d : Desk) : Prop :=
  d.session.identity = .primaryKey ∧ KeysDiffer d.session.data.columns d.session.data.rows
    ∧ ¬ d.ShowsAll

instance (d : Desk) : Decidable d.Misses := inferInstanceAs (Decidable (_ ∧ _ ∧ _))

/-- A measure that was read as not-a-number. -/
def measures : TableData :=
  ⟨[.bare "id" "integer" false true, .bare "measure" "double precision" true false,
      .bare "note" "text" true false],
    [.ofList [("id", .int 1), ("measure", .float (.nan 1)), ("note", .null)]]⟩

/-- A staged change is lost from the view, though its statement addresses a row, when its row is
fetched with another value, when the change before it is taken out of the log, when a row before its
own has been given the key, and when its row holds not-a-number. -/
theorem replay_misses_addressed_row :
    (Step.runAll articlesStart [.operation (.call (.editCell 0 "price" (.int 6))),
      .operation (.call (.stageRow 0)),
      .operation (.refresh ⟨articles.columns, [.ofList [("id", .int 1), ("price", .int 9)]]⟩)]).Misses
    ∧ (Step.runAll articlesStart [.operation (.call (.editCell 0 "price" (.int 6))),
      .operation (.call (.stageRow 0)), .operation (.call (.editCell 0 "price" (.int 7))),
      .operation (.call (.stageRow 0)), .unstage (changeId 1)]).Misses
    ∧ (Step.runAll articlesStart [.operation (.call (.editCell 0 "id" (.int 2))),
      .operation (.call (.stageRow 0)), .operation (.call (.deleteRow 1))]).Misses
    ∧ (Step.runAll ⟨Session.start ⟨"public", "measures"⟩ measures none, .empty⟩
      [.operation (.call (.editCell 0 "note" (.text "again"))),
        .operation (.call (.stageRow 0))]).Misses := by
  decide +kernel

end StagedTable
