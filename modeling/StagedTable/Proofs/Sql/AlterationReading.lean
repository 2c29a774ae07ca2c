import StagedTable.Proofs.Sql.Replay
import StagedTable.Text.Search

/-!
# Alterations read back

What the statement of an alteration says is read from its text: the table, the kind of the change
and the names in it, whatever characters they hold. Data types, defaults and the actions of foreign
keys are SQL text already and stand in a statement as they were given, so they are read up to the
end of it (`TableChange`). The statements of an altered table are read back to their steps
(`read_alterTable`).
-/

namespace StagedTable.Sql

open Text

/-! ### What statements say -/

/-- What the text of a change says, with the SQL text in it as it stands there. -/
inductive TableChange
  | renameTable (name : String)
  | dropColumn (column : String)
  | renameColumn (column name : String)
  | setType (column : String) (dataType : List Char)
  | dropNotNull (column : String)
  | setNotNull (column : String)
  | setDefault (column : String) (expression : List Char)
  | dropDefault (column : String)
  | addPrimaryKey (column : String)
  | addUnique (column : String)
  | addForeignKey (column : String) (table : TableName) (target : String) (actions : List Char)
  | dropConstraint (constraint : String)
  | addColumn (column : String) (clauses : List Char)
deriving DecidableEq

/-- The actions of a foreign key that are named. -/
def Reference.actions (r : Reference) : List Char :=
  (if r.onDelete = noAction then [] else " ON DELETE ".toList ++ r.onDelete.toList)
    ++ (if r.onUpdate = noAction then [] else " ON UPDATE ".toList ++ r.onUpdate.toList)

/-- What is declared of an added column behind its name. -/
def Definition.clauses (d : Definition) : List Char :=
  List.intercalate [' '] (d.dataType.toList
    :: ((if d.primaryKey then ["PRIMARY KEY".toList] else [])
      ++ d.constraintClauses ++ d.defaultClause ++ d.targetClause))

/-- What an alteration says. -/
def Alteration.change : Alteration → TableChange
  | .renameTable name => .renameTable name
  | .dropColumn column => .dropColumn column
  | .renameColumn column name => .renameColumn column name
  | .setType column dataType => .setType column dataType.toList
  | .dropNotNull column => .dropNotNull column
  | .setNotNull column => .setNotNull column
  | .setDefault column expression => .setDefault column expression.toList
  | .dropDefault column => .dropDefault column
  | .addPrimaryKey column => .addPrimaryKey column
  | .addUnique column => .addUnique column
  | .addForeignKey column target => .addForeignKey column target.table target.column target.actions
  | .dropConstraint constraint => .dropConstraint constraint
  | .addColumn d => .addColumn d.name d.clauses

/-! ### Reading -/

namespace TableChange

/-- What follows a keyword. -/
def behind? (keyword : String) (cs : List Char) : Option (List Char) :=
  after? keyword.toList cs

/-- What follows a character. -/
def char? (c : Char) : List Char → Option (List Char)
  | d :: after => if d = c then some after else none
  | [] => none

/-- A name in quotes, and what follows it. -/
def name? (cs : List Char) : Option (String × List Char) :=
  (readQuoted '"' cs).map fun (name, after) => (String.ofList name, after)

/-- A table, and what follows it. -/
def table? (cs : List Char) : Option (TableName × List Char) := do
  let (schema, after) ← name? cs
  let (name, after) ← name? (← char? '.' after)
  return (⟨schema, name⟩, after)

/-- A name up to some text at the end. -/
def lastName? (ending : List Char) (cs : List Char) : Option String := do
  let (name, after) ← name? cs
  if after = ending then some name else none

/-- A new column name behind the old one. -/
def renaming? (cs : List Char) : Option TableChange := do
  let (column, after) ← name? cs
  return .renameColumn column (← lastName? [] (← behind? " TO " after))

/-- The data type of a column of a name. It stands once more behind the name at the end. -/
def dataType? (column : String) (cs : List Char) : Option (List Char) :=
  let middle := " USING ".toList ++ identifier column ++ "::".toList
  let dataType := cs.take ((cs.length - middle.length) / 2)
  if cs = dataType ++ (middle ++ dataType) then some dataType else none

/-- A keyword, and the reader of what follows it. -/
abbrev Form := String × (List Char → Option TableChange)

/-- The change that a text says in the first form that fits. -/
def readForms? (forms : List Form) (cs : List Char) : Option TableChange :=
  forms.findSome? fun f => (behind? f.1 cs).bind f.2

/-- A change that nothing follows. -/
def atEnd? (change : TableChange) (cs : List Char) : Option TableChange :=
  if cs = [] then some change else none

/-- The changes of one column behind its name. -/
def columnForms (column : String) : List Form := [
  ("TYPE ", fun cs => (dataType? column cs).map (.setType column ·)),
  ("SET DEFAULT ", fun cs => some (.setDefault column cs)),
  ("DROP DEFAULT", atEnd? (.dropDefault column)),
  ("DROP NOT NULL", atEnd? (.dropNotNull column)),
  ("SET NOT NULL", atEnd? (.setNotNull column))]

/-- The change of one column. -/
def onColumn? (cs : List Char) : Option TableChange := do
  let (column, after) ← name? cs
  readForms? (columnForms column) (← char? ' ' after)

/-- A foreign key behind its opening parenthesis. -/
def foreignKey? (cs : List Char) : Option TableChange := do
  let (column, after) ← name? cs
  let (table, after) ← table? (← behind? ") REFERENCES " after)
  let (target, after) ← name? (← char? '(' after)
  return .addForeignKey column table target (← char? ')' after)

/-- An added column. -/
def addition? (cs : List Char) : Option TableChange := do
  let (column, after) ← name? cs
  return .addColumn column (← char? ' ' after)

/-- The changes of a table. -/
def forms : List Form := [
  ("RENAME TO ", fun cs => (lastName? [] cs).map .renameTable),
  ("RENAME COLUMN ", renaming?),
  ("DROP COLUMN ", fun cs => (lastName? [] cs).map .dropColumn),
  ("DROP CONSTRAINT ", fun cs => (lastName? [] cs).map .dropConstraint),
  ("ALTER COLUMN ", onColumn?),
  ("ADD PRIMARY KEY (", fun cs => (lastName? [')'] cs).map .addPrimaryKey),
  ("ADD UNIQUE (", fun cs => (lastName? [')'] cs).map .addUnique),
  ("ADD FOREIGN KEY (", foreignKey?),
  ("ADD COLUMN ", addition?)]

/-- The table that a statement alters, and the change that it makes. -/
def readStatement? (cs : List Char) : Option (TableName × TableChange) := do
  let (table, after) ← table? (← behind? "ALTER TABLE " cs)
  return (table, ← readForms? forms (← char? ' ' after))

/-! ### Names and keywords -/

@[simp] theorem behind?_append (keyword : String) (cs : List Char) :
    behind? keyword (keyword.toList ++ cs) = some cs := after?_eq_some_iff.2 rfl

/-- Whether neither of two keywords starts with the other. -/
def Apart (k l : String) : Prop := ¬ k.toList <+: l.toList ∧ ¬ l.toList <+: k.toList

instance (k l : String) : Decidable (Apart k l) := inferInstanceAs (Decidable (_ ∧ _))

/-- A keyword is not found where one stands that it is apart from. -/
theorem behind?_eq_none {k l : String} (h : Apart k l) (cs : List Char) :
    behind? k (l.toList ++ cs) = none := by
  rw [behind?, Option.eq_none_iff_forall_ne_some]
  intro after hafter
  have happend := List.append_eq_append_iff.1 (after?_eq_some_iff.1 hafter)
  rcases happend with ⟨r, hr, -⟩ | ⟨r, hr, -⟩
  · exact h.2 ⟨r, hr.symm⟩
  · exact h.1 ⟨r, hr.symm⟩

/-- A text is read in the form of its keyword. -/
theorem readForms?_append {fs : List Form} (hapart : (fs.map (·.1)).Pairwise Apart)
    {keyword : String} {body : List Char → Option TableChange} (hform : (keyword, body) ∈ fs)
    {cs : List Char} {change : TableChange} (hchange : body cs = some change) :
    readForms? fs (keyword.toList ++ cs) = some change := by
  unfold readForms?
  induction fs with
  | nil => cases hform
  | cons f rest ih =>
    rw [List.map_cons, List.pairwise_cons] at hapart
    rw [List.findSome?_cons]
    rcases List.mem_cons.1 hform with rfl | hrest
    · rw [behind?_append, Option.bind_some]
      dsimp only
      rw [hchange]
    · have hkeyword := hapart.1 keyword (List.mem_map_of_mem hrest)
      rw [behind?_eq_none hkeyword, Option.bind_none]
      exact ih hapart.2 hrest

@[simp] theorem char?_cons (c : Char) (cs : List Char) : char? c (c :: cs) = some cs := if_pos rfl

@[simp] theorem name?_identifier (name : String) : name? (identifier name) = some (name, []) := by
  have hread := readQuoted_quoted '"' name.toList [] nofun
  rw [List.append_nil] at hread
  rw [name?, identifier, hread]
  exact congrArg (fun s => some (s, [])) String.ofList_toList

/-- A name ends before any character but another quote. -/
theorem name?_append (name : String) {c : Char} (hc : c ≠ '"') (cs : List Char) :
    name? (identifier name ++ c :: cs) = some (name, c :: cs) := by
  have hread := readQuoted_quoted '"' name.toList (c :: cs) fun r e => hc (List.cons.inj e).1
  rw [name?, identifier, hread]
  exact congrArg (fun s => some (s, c :: cs)) String.ofList_toList

theorem table?_append (table : TableName) {c : Char} (hc : c ≠ '"') (cs : List Char) :
    table? (table.render ++ c :: cs) = some (table, c :: cs) := by
  rw [TableName.render, List.append_assoc, List.cons_append, table?,
    name?_append table.schema (by decide)]
  simp only [Option.bind_eq_bind, Option.bind_some, char?_cons, name?_append table.name hc]
  rfl

theorem lastName?_identifier (name : String) :
    lastName? [] (identifier name) = some name := by
  rw [lastName?, name?_identifier]
  rfl

theorem lastName?_append (name : String) {c : Char} (hc : c ≠ '"') :
    lastName? [c] (identifier name ++ [c]) = some name := by
  rw [lastName?, name?_append name hc]
  exact if_pos rfl

theorem lastName?_map (name : String) (make : String → TableChange) :
    (lastName? [] (identifier name)).map make = some (make name) := by
  rw [lastName?_identifier]
  rfl

theorem renaming?_append (column name : String) :
    renaming? (identifier column ++ (" TO ".toList ++ identifier name))
      = some (.renameColumn column name) := by
  have hspace : " TO ".toList ++ identifier name = ' ' :: ("TO ".toList ++ identifier name) := rfl
  have hname := name?_append column (show ' ' ≠ '"' by decide) ("TO ".toList ++ identifier name)
  rw [← hspace] at hname
  simp only [renaming?, hname, Option.bind_eq_bind, Option.bind_some, behind?_append,
    lastName?_identifier]
  rfl

theorem foreignKey?_append (column : String) (target : Reference) :
    foreignKey? (identifier column ++ (") REFERENCES ".toList ++
        (target.table.render ++ '(' :: (identifier target.column ++ ')' :: target.actions))))
      = some (.addForeignKey column target.table target.column target.actions) := by
  generalize htext :
    target.table.render ++ '(' :: (identifier target.column ++ ')' :: target.actions) = text
  have hparenthesis : ") REFERENCES ".toList ++ text = ')' :: (" REFERENCES ".toList ++ text) := rfl
  have hcolumn := name?_append column (show ')' ≠ '"' by decide) (" REFERENCES ".toList ++ text)
  rw [← hparenthesis] at hcolumn
  simp only [foreignKey?, hcolumn, Option.bind_eq_bind, Option.bind_some, behind?_append]
  rw [← htext, table?_append target.table (by decide)]
  simp only [Option.bind_some, char?_cons]
  rw [name?_append target.column (by decide)]
  rfl

theorem addition?_append (column : String) (clauses : List Char) :
    addition? (identifier column ++ ' ' :: clauses) = some (.addColumn column clauses) := by
  rw [addition?, name?_append column (by decide)]
  rfl

/-- What stands on both sides of a text is as long as half of the rest. -/
theorem dataType?_append (column : String) (dataType : List Char) :
    dataType? column
        (dataType ++ (" USING ".toList ++ identifier column ++ "::".toList ++ dataType))
      = some dataType := by
  unfold dataType?
  dsimp only
  generalize " USING ".toList ++ identifier column ++ "::".toList = middle
  have hhalf : ((dataType ++ (middle ++ dataType)).length - middle.length) / 2
      = dataType.length := by
    simp only [List.length_append]
    omega
  rw [hhalf, List.take_left, if_pos rfl]

end TableChange

open TableChange

section
variable {column keyword : String} {body : List Char → Option TableChange} {cs : List Char}
  {change : TableChange}

theorem readForms?_forms (i : Nat) (hform : forms[i]? = some (keyword, body))
    (hchange : body cs = some change) : readForms? forms (keyword.toList ++ cs) = some change := by
  have hapart : (forms.map (·.1)).Pairwise Apart := by decide +kernel
  exact readForms?_append hapart (List.mem_of_getElem? hform) hchange

/-- A change of one column is read by what follows its name. -/
theorem readForms?_onColumn (i : Nat) (hform : (columnForms column)[i]? = some (keyword, body))
    (hchange : body cs = some change) :
    readForms? forms (Alteration.onColumn column (keyword.toList ++ cs)) = some change := by
  have hapart : ((columnForms column).map (·.1)).Pairwise Apart :=
    show ["TYPE ", "SET DEFAULT ", "DROP DEFAULT", "DROP NOT NULL", "SET NOT NULL"].Pairwise Apart
      by decide +kernel
  unfold Alteration.onColumn
  rw [List.append_assoc]
  refine readForms?_forms 4 rfl ?_
  rw [onColumn?, name?_append column (by decide)]
  exact readForms?_append hapart (List.mem_of_getElem? hform) hchange

end

theorem Reference.render_eq (r : Reference) :
    r.render = "REFERENCES ".toList
      ++ (r.table.render ++ '(' :: (identifier r.column ++ ')' :: r.actions)) := by
  unfold Reference.render Reference.actions
  simp only [List.append_assoc, List.cons_append, List.nil_append]

theorem Alteration.renderAdded_eq (d : Definition) :
    renderAdded d = "ADD COLUMN ".toList ++ (identifier d.name ++ ' ' :: d.clauses) := by
  unfold renderAdded Definition.render Definition.heading Definition.clauses
  simp only [Bool.true_and, List.cons_append, List.nil_append, List.append_assoc,
    List.intercalate_cons_cons]

/-- The text of a change says what it should. -/
theorem readForms?_renderChange (a : Alteration) :
    readForms? forms a.renderChange = some a.change := by
  unfold Alteration.renderChange
  cases a with
  | renameTable name => exact readForms?_forms 0 rfl (lastName?_map name .renameTable)
  | renameColumn column name =>
    dsimp only
    rw [List.append_assoc, List.append_assoc]
    exact readForms?_forms 1 rfl (renaming?_append column name)
  | dropColumn column => exact readForms?_forms 2 rfl (lastName?_map column .dropColumn)
  | dropConstraint constraint =>
    exact readForms?_forms 3 rfl (lastName?_map constraint .dropConstraint)
  | setType column dataType =>
    have hsplit : "TYPE ".toList ++ dataType.toList ++ " USING ".toList ++ identifier column
          ++ "::".toList ++ dataType.toList
        = "TYPE ".toList ++ (dataType.toList
          ++ (" USING ".toList ++ identifier column ++ "::".toList ++ dataType.toList)) := by
      simp only [List.append_assoc]
    dsimp only
    rw [hsplit]
    refine readForms?_onColumn 0 rfl ?_
    rw [dataType?_append]
    rfl
  | setDefault column expression => exact readForms?_onColumn 1 rfl rfl
  | dropDefault column =>
    dsimp only
    rw [← List.append_nil "DROP DEFAULT".toList]
    exact readForms?_onColumn 2 rfl rfl
  | dropNotNull column =>
    dsimp only
    rw [← List.append_nil "DROP NOT NULL".toList]
    exact readForms?_onColumn 3 rfl rfl
  | setNotNull column =>
    dsimp only
    rw [← List.append_nil "SET NOT NULL".toList]
    exact readForms?_onColumn 4 rfl rfl
  | addPrimaryKey column =>
    dsimp only
    rw [List.append_assoc]
    refine readForms?_forms 5 rfl ?_
    rw [lastName?_append column (by decide)]
    rfl
  | addUnique column =>
    dsimp only
    rw [List.append_assoc]
    refine readForms?_forms 6 rfl ?_
    rw [lastName?_append column (by decide)]
    rfl
  | addForeignKey column target =>
    have hclause : ") REFERENCES ".toList = ") ".toList ++ "REFERENCES ".toList := rfl
    have hread := foreignKey?_append column target
    rw [hclause, List.append_assoc, ← target.render_eq] at hread
    dsimp only
    rw [List.append_assoc, List.append_assoc]
    exact readForms?_forms 7 rfl hread
  | addColumn d =>
    dsimp only
    rw [Alteration.renderAdded_eq]
    exact readForms?_forms 8 rfl (addition?_append d.name d.clauses)

/-- The statement of an alteration says which table is altered and how. -/
theorem readStatement?_render (table : TableName) (a : Alteration) :
    readStatement? (a.render table) = some (table, a.change) := by
  have htable := table?_append table (show ' ' ≠ '"' by decide) a.renderChange
  unfold Alteration.render readStatement?
  rw [List.append_assoc, behind?_append]
  simp only [Option.bind_eq_bind, Option.bind_some, htable, char?_cons, readForms?_renderChange]
  rfl

/-- The statements of an altered table are read back to the steps that they are the texts of. -/
theorem read_alterTable (table : TableName) (old edited : List Definition)
    (newName : Option String) :
    (alterTable table old edited newName).map readStatement?
      = (alterSteps table old edited newName).map fun (table, a) => some (table, a.change) := by
  rw [alterTable_eq, List.map_map]
  exact List.map_congr_left fun step _ => readStatement?_render step.1 step.2

/-- A name may hold quotes and keywords. -/
example :
    readStatement? "ALTER TABLE \"s\".\"t\" RENAME COLUMN \"a\"\" TO \"\"b\" TO \"c\"".toList
      = some (⟨"s", "t"⟩, .renameColumn "a\" TO \"b" "c") := by decide +kernel

end StagedTable.Sql
