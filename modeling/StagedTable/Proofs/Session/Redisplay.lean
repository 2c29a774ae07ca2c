import StagedTable.Proofs.Session.Calls
import StagedTable.Proofs.Value.Content
import StagedTable.Proofs.Value.Redisplay

/-!
# Cells saved as they are displayed

To open a cell in an editor and to save it again, without a change of the text, is no edit for the
values that the kind of the column redisplays. For the others it is an edit, to the value that the
text is read as (`editText_redisplayed`), so that an array of numbers becomes one of texts.
-/

namespace StagedTable.Session

variable {d : Desk} {row : Int} {name : String} {content : Row} {c : Column}

/-! ### Edits of open cells -/

theorem editText_eq {text : String} {value : Value} (hcolumn : d.column name = .ok c)
    (hentered : c.entered text = .ok value) :
    editText row name text d = editCell row name value d := by
  have hlook : (Attempt.look fun _ => (c.entered text).mapError SessionError.parse) d
      = (.ok value, d) := by
    rw [Attempt.look_apply, hentered]
    rfl
  unfold editText
  rw [Attempt.bind_of_ok (by rw [Attempt.look_apply, hcolumn]), Attempt.bind_of_ok hlook]

theorem editCell_of_open (hopen : d.openRow row = .ok content) (hcolumn : d.column name = .ok c)
    {value : Value} (hnew : value.IsReadable)
    (hold : ((content.get? name).getD .null).IsReadable) :
    editCell row name value d
      = (if c.alike value ((content.get? name).getD .null) then changeEdits (·.erase ⟨row, name⟩)
        else changeEdits (·.put ⟨row, name⟩ value)) d := by
  have hcompare := c.compare_eq_ok hnew.holdsLong hold.holdsLong
  unfold editCell
  rw [Attempt.bind_of_ok (by rw [Attempt.look_apply, hopen]),
    Attempt.bind_of_ok (by rw [Attempt.look_apply, hcolumn]),
    Attempt.bind_of_ok (by rw [Attempt.look_apply, hcompare]; rfl)]

/-! ### Saving what is displayed -/

/-- Whether a text that is saved in a cell makes an edit of the cell: to what it is entered as, or
to a string that has no form here, as it holds half of a surrogate pair. -/
inductive MakesEdit (d : Desk) (row : Int) (name text : String) (c : Column) (v : Value) : Prop
  | put {w : Value} : c.entered text = .ok w →
      editText row name text d = (.ok (), d.mapSession (·.mapEdits (·.put ⟨row, name⟩ w))) →
      MakesEdit d row name text c v
  | unpaired {s : String} : v = .text s → c.entered text = .error (.refused .unpaired) →
      MakesEdit d row name text c v

/-- A cell without an edit, saved as it is displayed: nothing changes at the desk, or the cell has
an edit to what the text is read as. -/
theorem editText_redisplayed {v : Value} (hopen : d.openRow row = .ok content)
    (hcolumn : d.column name = .ok c) (hvalue : (content.get? name).getD .null = v)
    (hedit : d.session.edits.get? ⟨row, name⟩ = none) (hdelivers : c.kind.Delivers v)
    (htext : ∀ s, v = .text s → ¬ Value.IsNullText s.toList) :
    ∃ cs, v.format (some c.dataType) = .ok cs
      ∧ (c.kind.Redisplays v → editText row name (String.ofList cs) d = (.ok (), d))
      ∧ (¬ c.kind.Redisplays v → MakesEdit d row name (String.ofList cs) c v) := by
  obtain ⟨cs, hformat, ⟨w, hentered, hsame⟩ | ⟨hrefused, ⟨s, rfl⟩, hnot⟩⟩ :=
    c.redisplay v hdelivers htext
  · refine ⟨cs, hformat, ?_⟩
    have hopened := editCell_of_open hopen hcolumn (Column.isReadable_of_entered hentered)
      (hvalue ▸ hdelivers.isReadable)
    rw [← editText_eq hcolumn hentered, hvalue] at hopened
    constructor
    · intro hredisplays
      have hkept : d.mapSession (·.mapEdits (·.erase ⟨row, name⟩)) = d := by
        rw [Desk.mapSession, mapEdits, Edits.erase_eq_self hedit]
      rw [hopened, if_pos (hsame.2 hredisplays), changeEdits_apply, hkept]
    · intro hredisplays
      rw [if_neg (fun halike => hredisplays (hsame.1 halike)), changeEdits_apply] at hopened
      exact .put hentered hopened
  · exact ⟨cs, hformat, fun hredisplays => absurd hredisplays hnot,
      fun _ => .unpaired rfl hrefused⟩

/-- The grades of a student, as the driver delivers them. -/
def grades : Value := .list [.int 1, .int 2]

@[inherit_doc grades]
def gradesColumn : Column := .bare "grades" "integer[]" true false

/-- A table of one student. -/
def gradesDesk : Desk :=
  ⟨start ⟨"public", "students"⟩
    ⟨[.bare "id" "integer" false true, gradesColumn],
      [.ofList [("id", .int 1), ("grades", grades)]]⟩ none, .empty⟩

theorem delivers_grades : gradesColumn.kind.Delivers grades := by
  have hkind : gradesColumn.kind = .array := by decide +kernel
  have hshort : ∀ n ∈ [(1 : Int), 2], Value.IsShort n := by
    unfold Value.IsShort
    decide
  rw [hkind]
  refine .array _ ?_
  intro v hv
  obtain ⟨n, hn, rfl⟩ : ∃ n ∈ [(1 : Int), 2], v = .int n := by simpa using hv
  exact .int n (hshort n hn)

theorem editText_redisplayed_grades :
    ∃ content, gradesDesk.openRow 0 = .ok content ∧ gradesDesk.column "grades" = .ok gradesColumn
      ∧ (content.get? "grades").getD .null = grades
      ∧ gradesDesk.session.edits.get? ⟨0, "grades"⟩ = none ∧ gradesColumn.kind.Delivers grades
      ∧ (∀ s, grades = .text s → ¬ Value.IsNullText s.toList)
      ∧ ∃ cs, grades.format (some gradesColumn.dataType) = .ok cs
        ∧ (gradesColumn.kind.Redisplays grades →
          editText 0 "grades" (String.ofList cs) gradesDesk = (.ok (), gradesDesk))
        ∧ (¬ gradesColumn.kind.Redisplays grades →
          MakesEdit gradesDesk 0 "grades" (String.ofList cs) gradesColumn grades) := by
  have hopen : gradesDesk.openRow 0 = .ok (.ofList [("id", .int 1), ("grades", grades)]) := rfl
  have htext : ∀ s, grades = .text s → ¬ Value.IsNullText s.toList := fun _ h => nomatch h
  exact ⟨_, hopen, rfl, rfl, rfl, delivers_grades, htext,
    editText_redisplayed hopen rfl rfl rfl delivers_grades htext⟩

/-- The grades become texts when they are saved as they are displayed. -/
theorem editText_grades_edits :
    ¬ ∀ (d : Desk) (row : Int) (name : String) (content : Row) (c : Column) (v : Value)
      (cs : List Char), d.openRow row = .ok content → d.column name = .ok c →
      (content.get? name).getD .null = v → d.session.edits.get? ⟨row, name⟩ = none →
      c.kind.Delivers v → (∀ s, v = .text s → ¬ Value.IsNullText s.toList) →
      v.format (some c.dataType) = .ok cs →
      (editText row name (String.ofList cs) d).2.session.edits = d.session.edits := by
  intro hall
  have hsame := hall gradesDesk 0 "grades" _ gradesColumn grades "{1,2}".toList rfl rfl rfl rfl
    delivers_grades (fun _ h => nomatch h) (by decide +kernel)
  have hedited : Edits.isEmpty
      (editText 0 "grades" (String.ofList "{1,2}".toList) gradesDesk).2.session.edits = false := by
    decide +kernel
  rw [hsame] at hedited
  cases hedited

end StagedTable.Session
