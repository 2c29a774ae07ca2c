import StagedTable.Proofs.Calendar.Canonical
import StagedTable.Proofs.Sql.Script
import StagedTable.Staging.Record

/-!
# What the id of a commit stands for

The id of a commit is the digest of its parent, its time and its statements, one after the other
without anything between them. The parent can be told from what follows it, since an id has a fixed
length and the word for no parent starts with a letter that no id has. Where the time ends and one
statement ends and the next one starts is not written: texts that are split elsewhere have the same
id (`bytes_regrouped`). The statements of the change log are told apart all the same, as each starts
with words that stand nowhere else outside quotes, so commits of different changes share an id only
if the digest has a collision.
-/

namespace StagedTable

open Text

/-! ### Bytes of texts -/

/-- The bytes of an array from a place on, behind those that were collected before. -/
theorem toList_loop (bytes : ByteArray) (i : Nat) (collected : List UInt8) :
    ByteArray.toList.loop bytes i collected = collected.reverse ++ bytes.data.toList.drop i := by
  have hlength : bytes.data.toList.length = bytes.size := by simp
  induction hn : bytes.size - i generalizing i collected with
  | zero =>
    rw [ByteArray.toList.loop, if_neg (by omega), List.drop_eq_nil_of_le (by omega),
      List.append_nil]
  | succ n ih =>
    have hlt : i < bytes.data.toList.length := by omega
    have hget : bytes.get! i = bytes.data.toList[i] := getElem!_pos bytes.data i hlt
    rw [ByteArray.toList.loop, if_pos (by omega), ih (i + 1) _ (by omega), List.reverse_cons,
      List.append_assoc, List.singleton_append, hget, List.cons_getElem_drop_succ]

theorem utf8_eq (s : String) : utf8 s = s.toByteArray.data.toList := by
  rw [utf8, ByteArray.toList, toList_loop]
  rfl

theorem utf8_append (s t : String) : utf8 (s ++ t) = utf8 s ++ utf8 t := by
  simp [utf8_eq]

theorem utf8_injective : Function.Injective utf8 := by
  intro s t h
  rw [utf8_eq, utf8_eq, Array.toList_inj] at h
  exact String.toByteArray_inj.1 (ByteArray.ext h)

theorem flatMap_utf8 (texts : List String) : texts.flatMap utf8 = utf8 (String.join texts) := by
  induction texts with
  | nil => simp [utf8_eq]
  | cons s rest ih => rw [List.flatMap_cons, ih, String.join_cons, utf8_append]

/-! ### Ids -/

/-- Whether a text is an id: 64 hexadecimal digits. -/
def IsCommitId (id : String) : Prop :=
  id.toList.length = 64 ∧ ∀ c ∈ id.toList, (hexValue? c).isSome = true

theorem isSome_hexValue?_digitChar : ∀ n < 16, (hexValue? n.digitChar).isSome = true := by decide

theorem isSome_hexValue?_of_mem_toDigits (n : Nat) :
    ∀ c ∈ Nat.toDigits 16 n, (hexValue? c).isSome = true := by
  induction n using Nat.strongRecOn with
  | ind n ih =>
    intro c hc
    rw [Nat.toDigits_eq_if (by decide)] at hc
    split at hc
    · next hlt =>
      rw [List.mem_singleton.1 hc]
      exact isSome_hexValue?_digitChar n hlt
    · next hle =>
      rcases List.mem_append.1 hc with hc | hc
      · exact ih (n / 16) (Nat.div_lt_self (by omega) (by decide)) c hc
      · rw [List.mem_singleton.1 hc]
        exact isSome_hexValue?_digitChar _ (Nat.mod_lt _ (by decide))

theorem length_hexDigits {width n : Nat} (hwidth : 0 < width) (h : n < 16 ^ width) :
    (hexDigits width n).length = width := by
  have hle := (Nat.length_toDigits_le_iff (by decide) hwidth).2 h
  rw [hexDigits, List.length_append, List.length_replicate]
  omega

theorem isSome_hexValue?_of_mem_hexDigits {width n : Nat} {c : Char} (h : c ∈ hexDigits width n) :
    (hexValue? c).isSome = true := by
  rcases List.mem_append.1 h with h | h
  · rw [(List.mem_replicate.1 h).2]
    rfl
  · exact isSome_hexValue?_of_mem_toDigits n c h

/-- Every digest is written as an id. -/
theorem isCommitId_hexDigest (message : List UInt8) :
    IsCommitId (String.ofList (Sha256.hexDigest message)) := by
  have hlength : ∀ w : UInt32, (hexDigits 8 w.toNat).length = 8 := fun w =>
    length_hexDigits (by decide) w.toNat_lt
  rw [IsCommitId, String.toList_ofList]
  constructor
  · simp [Sha256.hexDigest, hlength]
  · intro c hc
    obtain ⟨w, -, hc⟩ := List.mem_flatMap.1 hc
    exact isSome_hexValue?_of_mem_hexDigits hc

/-! ### The parent -/

/-- What is put into a commit id for the parent. -/
def parentText (parent : Option String) : String :=
  if parent.getD "" = "" then rootParent else parent.getD ""

theorem parentText_of_isCommitId {id : String} (h : IsCommitId id) : parentText (some id) = id := by
  refine if_neg ?_
  rintro rfl
  exact absurd h.1 (by decide)

/-- The word for no parent is not the start of an id. -/
theorem root_append_ne {id : String} (h : IsCommitId id) (r r' : List Char) :
    rootParent.toList ++ r ≠ id.toList ++ r' := by
  obtain ⟨hlength, hhex⟩ := h
  cases hid : id.toList with
  | nil => rw [hid] at hlength; cases hlength
  | cons c rest =>
    intro heq
    have hc : 'r' = c := (List.cons.inj heq).1
    have hsome := hhex c (hid ▸ .head _)
    rw [← hc] at hsome
    cases hsome

/-- The parent is told from what follows it. -/
theorem parentText_append_inj {parent parent' : Option String} {r r' : List Char}
    (h : ∀ id ∈ parent, IsCommitId id) (h' : ∀ id ∈ parent', IsCommitId id)
    (heq : (parentText parent).toList ++ r = (parentText parent').toList ++ r') :
    parent = parent' ∧ r = r' := by
  cases parent with
  | none =>
    cases parent' with
    | none => exact ⟨rfl, List.append_cancel_left heq⟩
    | some id' =>
      rw [parentText_of_isCommitId (h' id' rfl)] at heq
      exact absurd heq (root_append_ne (h' id' rfl) r r')
  | some id =>
    rw [parentText_of_isCommitId (h id rfl)] at heq
    cases parent' with
    | none => exact absurd heq.symm (root_append_ne (h id rfl) r' r)
    | some id' =>
      rw [parentText_of_isCommitId (h' id' rfl)] at heq
      have hlength := (h id rfl).1.trans (h' id' rfl).1.symm
      obtain ⟨hid, hr⟩ := List.append_inj heq hlength
      exact ⟨congrArg some (String.toList_inj.1 hid), hr⟩

/-! ### The time -/

/-- Whether a character may stand in a time. -/
def isTimeChar (c : Char) : Bool := isDigit c || "-T:.+".toList.contains c

theorem all_isTimeChar (now : DateTime) : now.text.all isTimeChar = true :=
  now.all_text (fun c h => by simp [isTimeChar, h]) rfl rfl rfl rfl rfl

/-- No statement starts in a time. -/
theorem DateTime.passes_text (now : DateTime) : Sql.Passes now.text := by
  have hplain := now.all_text (fun _ => Sql.isPlain_of_isDigit) rfl rfl rfl rfl rfl
  exact Sql.passes_of_isClear (Sql.isClear_of_isPlain (List.all_eq_true.1 hplain))

/-- Whether a text does not go on with a time that is before it. -/
def EndsTime (cs : List Char) : Prop := ∀ c r, cs = c :: r → isTimeChar c = false

theorem takeWhile_isTimeChar (now : DateTime) {cs : List Char} (h : EndsTime cs) :
    (now.text ++ cs).takeWhile isTimeChar = now.text :=
  (takeWhile_dropWhile_run (List.all_eq_true.1 (all_isTimeChar now)) h).1

/-! ### Statements of changes -/

/-- Whether a text is that of a statement that is built for a change. -/
def IsRowStatement (text : String) : Prop :=
  ∃ kind table data preimage columns s,
    Sql.Statement.ofChange kind table data preimage columns = .ok s ∧ text = s.sql

/-- A statement that is built for a change can be read back. -/
theorem Sql.Statement.isWritten_of_ofChange {kind : ChangeKind} {table : TableName} {data : Row}
    {preimage : Option Row} {columns : List Column} {s : Statement}
    (h : ofChange kind table data preimage columns = .ok s) : s.IsWritten := by
  have hdelete : ∀ {row}, deleteRow table row columns = .ok s → s.IsWritten := by
    intro row h
    obtain ⟨bs, rfl, hcondition⟩ := deleteRow_ok h
    exact ⟨condition_ne_nil hcondition, isWritten_of_condition hcondition⟩
  cases kind with
  | insert =>
    obtain ⟨items, rfl, hitems⟩ := insertRow_ok h
    exact isWritten_of_makeAll hitems
  | update =>
    cases preimage with
    | none => cases h
    | some preimage =>
      obtain ⟨assignments, bs, rfl, hne, hassignments, hcondition⟩ := updateRow_ok h
      exact ⟨hne, condition_ne_nil hcondition, isWritten_of_makeAll hassignments,
        isWritten_of_condition hcondition⟩
  | delete => cases preimage <;> exact hdelete h

theorem IsRowStatement.stands {text : String} (h : IsRowStatement text) :
    Sql.Stands text.toList := by
  obtain ⟨kind, table, data, preimage, columns, s, hs, rfl⟩ := h
  rw [Sql.Statement.sql, String.toList_ofList]
  exact Sql.Statement.stands_render (Sql.Statement.isWritten_of_ofChange hs)

/-! ### What is hashed -/

/-- What a commit id is made of: the id of the parent if there is one, the text of a time, and the
texts of statements. -/
@[ext]
structure CommitSource where
  parent : Option String
  time : String
  statements : List String
  isCommitId_parent : ∀ id ∈ parent, IsCommitId id
  exists_time : ∃ now : DateTime, time = String.ofList now.text

namespace CommitSource

/-- The bytes that the id is the digest of. -/
def bytes (c : CommitSource) : List UInt8 := commitBytes c.parent c.time c.statements

/-- The id. -/
def id (c : CommitSource) : String := commitId c.parent c.time c.statements

variable (c c' : CommitSource)

/-- Every commit can be a parent. -/
theorem isCommitId_id : IsCommitId c.id := isCommitId_hexDigest c.bytes

theorem bytes_eq :
    c.bytes = utf8 (parentText c.parent ++ (c.time ++ String.join c.statements)) := by
  rw [utf8_append, utf8_append, ← flatMap_utf8, ← List.append_assoc]
  rfl

/-- The parent and what follows it as one text are told by the bytes. -/
theorem bytes_eq_iff : c.bytes = c'.bytes ↔ c.parent = c'.parent
    ∧ c.time ++ String.join c.statements = c'.time ++ String.join c'.statements := by
  rw [bytes_eq, bytes_eq]
  constructor
  · intro h
    have htext : (parentText c.parent).toList ++ (c.time ++ String.join c.statements).toList
        = (parentText c'.parent).toList ++ (c'.time ++ String.join c'.statements).toList := by
      rw [← String.toList_append, ← String.toList_append, utf8_injective h]
    obtain ⟨hparent, hrest⟩ :=
      parentText_append_inj c.isCommitId_parent c'.isCommitId_parent htext
    exact ⟨hparent, String.toList_inj.1 hrest⟩
  · rintro ⟨hparent, hrest⟩
    rw [hparent, hrest]

/-- The time is told from what follows it, unless that goes on like a time. -/
theorem rest_eq_iff (h : EndsTime (String.join c.statements).toList)
    (h' : EndsTime (String.join c'.statements).toList) :
    c.time ++ String.join c.statements = c'.time ++ String.join c'.statements
      ↔ c.time = c'.time ∧ String.join c.statements = String.join c'.statements := by
  obtain ⟨now, hnow⟩ := c.exists_time
  obtain ⟨now', hnow'⟩ := c'.exists_time
  constructor
  · intro heq
    have htext := congrArg String.toList heq
    rw [hnow, hnow', String.toList_append, String.toList_append, String.toList_ofList,
      String.toList_ofList] at htext
    have htime : now.text = now'.text := by
      rw [← takeWhile_isTimeChar now h, htext, takeWhile_isTimeChar now' h']
    rw [htime, List.append_cancel_left_eq] at htext
    exact ⟨by rw [hnow, hnow', htime], String.toList_inj.1 htext⟩
  · rintro ⟨htime, hjoin⟩
    rw [htime, hjoin]

/-- The statements of changes and the time before them are found again by cutting. -/
theorem cut_rest (h : ∀ s ∈ c.statements, IsRowStatement s) :
    Sql.cut none (c.time ++ String.join c.statements).toList
      = (c.time.toList, c.statements.map String.toList) := by
  obtain ⟨now, hnow⟩ := c.exists_time
  rw [String.toList_append, String.toList_join, List.flatMap_def, hnow, String.toList_ofList]
  refine Sql.cut_flatten now.passes_text ?_
  rw [List.forall_mem_map]
  exact fun s hs => (h s hs).stands

/-- Parent, time and statements of changes are told by the bytes. -/
theorem eq_of_bytes_eq {c c' : CommitSource} (h : ∀ s ∈ c.statements, IsRowStatement s)
    (h' : ∀ s ∈ c'.statements, IsRowStatement s) (heq : c.bytes = c'.bytes) : c = c' := by
  obtain ⟨hparent, hrest⟩ := (bytes_eq_iff c c').1 heq
  have hcut := cut_rest c h
  rw [hrest, cut_rest c' h', Prod.mk.injEq] at hcut
  obtain ⟨htime, hstatements⟩ := hcut
  have hinjective : Function.Injective String.toList := fun _ _ => String.toList_inj.1
  exact CommitSource.ext hparent (hinjective htime.symm)
    (hinjective.list_map hstatements.symm)

/-- The bytes that are hashed tell the parent, and time and statements as one text. They tell where
the time ends if the first statement does not go on like a time, and all three if the statements are
those of changes: then different commits have the same id only if their different bytes have the
same digest. -/
theorem bytes_tell :
    (c.bytes = c'.bytes ↔ c.parent = c'.parent
      ∧ c.time ++ String.join c.statements = c'.time ++ String.join c'.statements)
    ∧ (EndsTime (String.join c.statements).toList → EndsTime (String.join c'.statements).toList →
      (c.bytes = c'.bytes ↔ c.parent = c'.parent ∧ c.time = c'.time
        ∧ String.join c.statements = String.join c'.statements))
    ∧ ((∀ s ∈ c.statements, IsRowStatement s) → (∀ s ∈ c'.statements, IsRowStatement s) →
      (c.bytes = c'.bytes ↔ c = c')
        ∧ (c ≠ c' → c.id = c'.id →
          c.bytes ≠ c'.bytes ∧ Sha256.hexDigest c.bytes = Sha256.hexDigest c'.bytes)) := by
  refine ⟨bytes_eq_iff c c', ?_, ?_⟩
  · intro hend hend'
    rw [bytes_eq_iff, rest_eq_iff c c' hend hend']
  · intro hrow hrow'
    refine ⟨⟨eq_of_bytes_eq hrow hrow', congrArg bytes⟩, ?_⟩
    intro hne hid
    exact ⟨fun heq => hne (eq_of_bytes_eq hrow hrow' heq), String.ofList_injective hid⟩

/-- The last day of a year. -/
def yearEnd : DateTime :=
  ⟨⟨2026, 12, 31, by decide, by decide, by decide, by decide⟩, ⟨.midnight, some .utc⟩⟩

/-- A commit on that day, behind others or as the first one. -/
def atYearEnd (before : Option CommitSource) (statements : List String) : CommitSource where
  parent := before.map (·.id)
  time := "2026-12-31T00:00:00+00:00"
  statements := statements
  isCommitId_parent := by simpa using fun c _ => isCommitId_id c
  exists_time := ⟨yearEnd, rfl⟩

/-- A statement that inserts a row. -/
def insertion : String := "INSERT INTO \"public\".\"t\" (\"id\") VALUES (1)"

/-- A statement that deletes that row. -/
def deletion : String := "DELETE FROM \"public\".\"t\" WHERE \"id\" = 1"

theorem isRowStatement_insertion : IsRowStatement insertion :=
  ⟨.insert, ⟨"public", "t"⟩, ⟨[("id", .int 1)], by decide⟩, none,
    [.bare "id" "integer" false true], _, rfl, rfl⟩

theorem isRowStatement_deletion : IsRowStatement deletion :=
  ⟨.delete, ⟨"public", "t"⟩, ⟨[("id", .int 1)], by decide⟩, none, [], _, rfl, rfl⟩

/-- Two changes in one commit, and in two. -/
theorem bytes_tell_split :
    let whole := atYearEnd none [insertion, deletion]
    let second := atYearEnd (some (atYearEnd none [insertion])) [deletion]
    (whole.bytes = second.bytes ↔ whole.parent = second.parent ∧ whole.time = second.time
      ∧ String.join whole.statements = String.join second.statements)
    ∧ whole.bytes ≠ second.bytes
    ∧ (whole.id = second.id → Sha256.hexDigest whole.bytes = Sha256.hexDigest second.bytes) := by
  intro whole second
  have hne : whole ≠ second := fun h => by cases congrArg parent h
  have hwhole : ∀ s ∈ whole.statements, IsRowStatement s := by
    simp [whole, atYearEnd, isRowStatement_insertion, isRowStatement_deletion]
  have hsecond : ∀ s ∈ second.statements, IsRowStatement s := by
    simp [second, atYearEnd, isRowStatement_deletion]
  have hI : (String.join whole.statements).toList.head? = some 'I' := by
    simp [whole, atYearEnd, insertion]
  have hD : (String.join second.statements).toList.head? = some 'D' := by
    simp [second, atYearEnd, deletion]
  obtain ⟨-, htime, hrows⟩ := bytes_tell whole second
  obtain ⟨hiff, hcollision⟩ := hrows hwhole hsecond
  refine ⟨htime ?_ ?_, fun heq => hne (hiff.1 heq), fun hid => (hcollision hne hid).2⟩
  · intro c r hc
    rw [hc] at hI
    cases hI
    rfl
  · intro c r hc
    rw [hc] at hD
    cases hD
    rfl

/-- A first commit on that day, in a time without an offset. -/
def unzoned (statements : List String) : CommitSource where
  parent := none
  time := "2026-12-31T00:00:00"
  statements := statements
  isCommitId_parent := by simp
  exists_time := ⟨.ofDate yearEnd.date, rfl⟩

/-- Texts that are split elsewhere are hashed alike, be it in two statements or in time and
statement. -/
theorem bytes_regrouped :
    ((atYearEnd none ["SELECT 1; ", "SELECT 2"]).bytes
        = (atYearEnd none ["SELECT 1; SELECT 2"]).bytes
      ∧ ["SELECT 1; ", "SELECT 2"] ≠ ["SELECT 1; SELECT 2"])
    ∧ ((unzoned ["+00:00"]).bytes = (atYearEnd none []).bytes
      ∧ (unzoned ["+00:00"]).time ≠ (atYearEnd none []).time) :=
  ⟨⟨(bytes_eq_iff _ _).2 ⟨rfl, rfl⟩, by decide⟩, (bytes_eq_iff _ _).2 ⟨rfl, rfl⟩, by decide⟩

end CommitSource

end StagedTable
