import StagedTable.Proofs.Sql.Lexer

/-!
# Reading row statements

A reader of the statements that insert, update and delete rows. From the tokens of a text it
recovers the kind of the statement, the table, and the columns with the literals that stand for
their values; it fails on a text that goes on after the statement.

The text of a statement is read back to what the statement says (`read_sql`): `lex_render` gives the
tokens of the text and `readStatement_tokens` what is read from them.
-/

namespace StagedTable.Sql

open Text

/-! ### The reader -/

/-- What a statement says of its table: the values it inserts or sets, and the columns that pick
its rows out. A column of a condition without a literal is tested for null. -/
inductive Reading
  | insert (table : TableName) (items : List (String × Literal))
  | update (table : TableName) (assignments : List (String × Literal))
      (condition : List (String × Option Literal))
  | delete (table : TableName) (condition : List (String × Option Literal))
deriving DecidableEq

namespace Reading

/-- A reader of something at the start of a list of tokens. -/
abbrev Reader (α : Type) : Type := List Token → Option (α × List Token)

/-- Passes over expected tokens. -/
def skip : List Token → List Token → Option (List Token)
  | [], ts => some ts
  | _ :: _, [] => none
  | e :: expected, t :: ts => if t = e then skip expected ts else none

/-- Reads the name of a table, its schema before it. -/
def readTable : Reader TableName
  | .identifier schema :: .symbol '.' :: .identifier name :: rest => some (⟨schema, name⟩, rest)
  | _ => none

/-- Reads a column name. -/
def readColumn : Reader String
  | .identifier name :: rest => some (name, rest)
  | _ => none

/-- Reads a literal: one token, or a string that is cast to a JSON document. -/
def readLiteral : Reader Literal
  | .word "NULL" :: rest => some (.null, rest)
  | .word "TRUE" :: rest => some (.bool true, rest)
  | .word "FALSE" :: rest => some (.bool false, rest)
  | .number text :: rest => some (.number text, rest)
  | .string text :: .cast :: .word "jsonb" :: rest => some (.json text, rest)
  | .string text :: rest => some (.string text, rest)
  | _ => none

/-- Reads a column name, an equals sign and a literal. -/
def readAssignment : Reader (String × Literal)
  | .identifier name :: .symbol '=' :: rest =>
    (readLiteral rest).map fun (l, rest) => ((name, l), rest)
  | _ => none

/-- Reads the test of a column: for null, or against a literal. -/
def readPredicate : Reader (String × Option Literal)
  | .identifier name :: .word "IS" :: .word "NULL" :: rest => some ((name, none), rest)
  | ts => (readAssignment ts).map fun ((name, l), rest) => ((name, some l), rest)

/-- Reads one or more things with a separator between them. Each takes one unit of fuel. -/
def readSeparated {α : Type} (item : Reader α) (separator : Token) : Nat → Reader (List α)
  | 0, _ => none
  | fuel + 1, ts =>
    match item ts with
    | none => none
    | some (x, []) => some ([x], [])
    | some (x, t :: rest) =>
      if t = separator then
        (readSeparated item separator fuel rest).map fun (xs, rest) => (x :: xs, rest)
      else some ([x], t :: rest)

/-- Reads one or more things up to the end of the tokens, or one less. -/
def readAll {α : Type} (item : Reader α) (separator : Token) : Reader (List α) :=
  fun ts => readSeparated item separator (ts.length + 1) ts

/-- Reads a condition up to the end of the tokens. -/
def readCondition (ts : List Token) : Option (List (String × Option Literal)) :=
  match readAll readPredicate (.word "AND") ts with
  | some (condition, []) => some condition
  | _ => none

/-- Reads what an insertion says after the table. -/
def readValues (ts : List Token) : Option (List (String × Literal)) :=
  if ts = [.word "DEFAULT", .word "VALUES"] then some []
  else do
    let (columns, ts) ← readAll readColumn (.symbol ',') (← skip [.symbol '('] ts)
    let ts ← skip [.symbol ')', .word "VALUES", .symbol '('] ts
    let (literals, ts) ← readAll readLiteral (.symbol ',') ts
    if ts = [.symbol ')'] ∧ columns.length = literals.length then some (columns.zip literals)
    else none

/-- Reads a statement, up to the end of the tokens. -/
def readStatement : List Token → Option Reading
  | .word "INSERT" :: .word "INTO" :: ts => do
    let (table, ts) ← readTable ts
    some (.insert table (← readValues ts))
  | .word "UPDATE" :: ts => do
    let (table, ts) ← readTable ts
    let (assignments, ts) ← readAll readAssignment (.symbol ',') (← skip [.word "SET"] ts)
    some (.update table assignments (← readCondition (← skip [.word "WHERE"] ts)))
  | .word "DELETE" :: .word "FROM" :: ts => do
    let (table, ts) ← readTable ts
    some (.delete table (← readCondition (← skip [.word "WHERE"] ts)))
  | _ => none

end Reading

/-- Reads the text of a statement. -/
def read (text : String) : Option Reading := (lex text.toList).bind Reading.readStatement

/-! ### The tokens of a statement -/

/-- The tokens of a table name. -/
def TableName.tokens (t : TableName) : List Token :=
  [.identifier t.schema, .symbol '.', .identifier t.name]

namespace Binding

/-- The tokens of an assignment. -/
def assignmentTokens (b : Binding) : List Token :=
  .identifier b.column :: .symbol '=' :: b.literal.tokens

/-- The tokens of a predicate. -/
def predicateTokens (b : Binding) : List Token :=
  match b.value with
  | .null => [.identifier b.column, .word "IS", .word "NULL"]
  | _ => b.assignmentTokens

/-- What a predicate says. -/
def tested (b : Binding) : String × Option Literal :=
  match b.value with
  | .null => (b.column, none)
  | _ => (b.column, some b.literal)

/-- What an assignment says. -/
def assigned (b : Binding) : String × Literal := (b.column, b.literal)

theorem lexes_assignment {b : Binding} (h : b.literal.IsWritten) :
    Lexes b.assignment b.assignmentTokens := by
  have hequals : Opens " = ".toList [.symbol '='] :=
    (opens_space.append opens_equals).append opens_space
  have hcolumn := (lexes_identifier b.column).append_opens
    (v := " = ".toList) (fun _ => breaks_cons (.inl rfl)) hequals
  exact hcolumn.append_lexes (lexes_literal h)

theorem lexes_predicate {b : Binding} (h : b.literal.IsWritten) :
    Lexes b.predicate b.predicateTokens := by
  have hassignment := lexes_assignment h
  unfold predicate predicateTokens
  cases b.value with
  | null =>
    have hnull : Lexes "IS NULL".toList [.word "IS", .word "NULL"] :=
      (opens_word "IS").append_lexes (lexes_word "NULL")
    have hcolumn := (lexes_identifier b.column).append_opens
      (v := [' ']) (fun _ => breaks_cons (.inl rfl)) opens_space
    have htest := hcolumn.append_lexes hnull
    rw [List.append_assoc] at htest
    exact htest
  | _ => exact hassignment

end Binding

/-- Whether a statement can be read back: the texts of its numbers are numerals, and it sets and
tests something where it sets or tests. -/
def Statement.IsWritten : Statement → Prop
  | .insert _ items => ∀ b ∈ items, b.literal.IsWritten
  | .update _ assignments condition =>
    assignments ≠ [] ∧ condition ≠ [] ∧ (∀ b ∈ assignments, b.literal.IsWritten)
      ∧ ∀ b ∈ condition, b.literal.IsWritten
  | .delete _ condition => condition ≠ [] ∧ ∀ b ∈ condition, b.literal.IsWritten

namespace Statement

/-- The tokens of a condition. -/
def conditionTokens (condition : List Binding) : List Token :=
  List.intercalate [.word "AND"] (condition.map (·.predicateTokens))

/-- The tokens of a list between parentheses. -/
def parenthesizedTokens (items : List (List Token)) : List Token :=
  .symbol '(' :: (List.intercalate [.symbol ','] items ++ [.symbol ')'])

/-- The tokens of a statement. -/
def tokens : Statement → List Token
  | .insert table [] =>
    .word "INSERT" :: .word "INTO" :: (table.tokens ++ [.word "DEFAULT", .word "VALUES"])
  | .insert table items =>
    .word "INSERT" :: .word "INTO" :: (table.tokens
      ++ parenthesizedTokens (items.map fun b => [.identifier b.column]) ++ [.word "VALUES"]
      ++ parenthesizedTokens (items.map (·.literal.tokens)))
  | .update table assignments condition =>
    .word "UPDATE" :: (table.tokens ++ .word "SET"
      :: (List.intercalate [.symbol ','] (assignments.map (·.assignmentTokens))
        ++ .word "WHERE" :: conditionTokens condition))
  | .delete table condition =>
    .word "DELETE" :: .word "FROM" :: (table.tokens ++ .word "WHERE" :: conditionTokens condition)

/-- What a statement says. -/
def reading : Statement → Reading
  | .insert table items => .insert table (items.map (·.assigned))
  | .update table assignments condition =>
    .update table (assignments.map (·.assigned)) (condition.map (·.tested))
  | .delete table condition => .delete table (condition.map (·.tested))

/-! ### From the text to the tokens -/

/-- A part that starts with a space breaks off what is before it. -/
theorem breaks_of_head {w : List Char} (h : w.head? = some ' ') : ∀ after, Breaks (w ++ after) := by
  intro after
  cases w with
  | nil => cases h
  | cons c rest =>
    cases h
    exact breaks_cons (.inl rfl)

theorem lexes_condition {condition : List Binding} (hne : condition ≠ [])
    (h : ∀ b ∈ condition, b.literal.IsWritten) :
    Lexes (renderCondition condition) (conditionTokens condition) := by
  have hand : Opens " AND ".toList [.word "AND"] :=
    opens_space.append (opens_word "AND")
  cases condition with
  | nil => exact absurd rfl hne
  | cons b rest =>
    exact lexes_intercalate hand (breaks_of_head rfl) b rest
      fun c hc => Binding.lexes_predicate (h c hc)

theorem opens_parenthesized {α : Type} (text : α → List Char) (tokens : α → List Token) (x : α)
    (xs : List α) (h : ∀ y ∈ x :: xs, Lexes (text y) (tokens y)) :
    Opens (parenthesized ((x :: xs).map text)) (parenthesizedTokens ((x :: xs).map tokens)) := by
  have hitems := lexes_intercalate opens_listComma (fun _ => breaks_cons (.inr (.inl rfl))) x xs h
  exact opens_open.append
    (hitems.append_opens (fun _ => breaks_cons (.inr (.inr rfl))) opens_close)

/-! The text of a statement, grouped by what breaks off its parts. -/

theorem render_insert_nil (table : TableName) :
    render (.insert table [])
      = "INSERT INTO ".toList ++ (table.render ++ [' ']) ++ "DEFAULT VALUES".toList := by
  rw [← List.append_assoc, List.append_assoc _ [' ']]
  rfl

theorem render_insert_cons (table : TableName) (b : Binding) (rest : List Binding) :
    render (.insert table (b :: rest))
      = "INSERT INTO ".toList ++ (table.render ++ [' '])
        ++ (parenthesized ((b :: rest).map (identifier ·.column))
          ++ (" VALUES ".toList ++ parenthesized ((b :: rest).map (·.literal.render)))) := by
  simp only [← List.append_assoc]
  rw [List.append_assoc _ [' ']]
  rfl

theorem render_update (table : TableName) (assignments condition : List Binding) :
    render (.update table assignments condition)
      = "UPDATE ".toList ++ ((table.render ++ " SET ".toList)
        ++ (List.intercalate ", ".toList (assignments.map (·.assignment)) ++ " WHERE ".toList))
        ++ renderCondition condition := by
  simp only [← List.append_assoc]
  rfl

theorem render_delete (table : TableName) (condition : List Binding) :
    render (.delete table condition)
      = "DELETE FROM ".toList ++ (table.render ++ " WHERE ".toList)
        ++ renderCondition condition := by
  rw [← List.append_assoc]
  rfl

theorem opens_where : Opens " WHERE ".toList [.word "WHERE"] :=
  opens_space.append (opens_word "WHERE")

theorem lex_insert (table : TableName) {items : List Binding}
    (h : ∀ b ∈ items, b.literal.IsWritten) :
    lex (render (.insert table items)) = some (tokens (.insert table items)) := by
  have hinsert : Opens "INSERT INTO ".toList [.word "INSERT", .word "INTO"] :=
    (opens_word "INSERT").append (opens_word "INTO")
  have hinto := hinsert.append ((lexes_table table).append_opens (breaks_of_head rfl) opens_space)
  cases items with
  | nil =>
    have hdefault : Lexes "DEFAULT VALUES".toList [.word "DEFAULT", .word "VALUES"] :=
      (opens_word "DEFAULT").append_lexes (lexes_word "VALUES")
    rw [render_insert_nil, (hinto.append_lexes hdefault).lex_eq]
    rfl
  | cons b rest =>
    have hvalues : Opens " VALUES ".toList [.word "VALUES"] :=
      opens_space.append (opens_word "VALUES")
    have hcolumns := opens_parenthesized (fun b : Binding => identifier b.column)
      (fun b => [.identifier b.column]) b rest fun c _ => lexes_identifier c.column
    have hliterals := opens_parenthesized (fun b : Binding => b.literal.render)
      (fun b => b.literal.tokens) b rest fun c hc => lexes_literal (h c hc)
    rw [render_insert_cons,
      (hinto.append (hcolumns.append (hvalues.append hliterals))).lexes.lex_eq]
    simp only [tokens, TableName.tokens, List.append_assoc, List.cons_append, List.nil_append]

theorem lex_update (table : TableName) {assignments condition : List Binding}
    (hset : assignments ≠ []) (hpick : condition ≠ [])
    (hassigned : ∀ b ∈ assignments, b.literal.IsWritten)
    (htested : ∀ b ∈ condition, b.literal.IsWritten) :
    lex (render (.update table assignments condition))
      = some (tokens (.update table assignments condition)) := by
  have hkeyword : Opens " SET ".toList [.word "SET"] := opens_space.append (opens_word "SET")
  have hassignments : Lexes (List.intercalate ", ".toList (assignments.map (·.assignment)))
      (List.intercalate [.symbol ','] (assignments.map (·.assignmentTokens))) := by
    cases assignments with
    | nil => exact absurd rfl hset
    | cons b rest =>
      exact lexes_intercalate opens_listComma (fun _ => breaks_cons (.inr (.inl rfl))) b rest
        fun c hc => Binding.lexes_assignment (hassigned c hc)
  have htable := (lexes_table table).append_opens (breaks_of_head rfl) hkeyword
  have hassign := hassignments.append_opens (breaks_of_head rfl) opens_where
  have hhead := (opens_word "UPDATE").append (htable.append hassign)
  have htext := hhead.append_lexes (lexes_condition hpick htested)
  rw [render_update]
  refine htext.lex_eq.trans ?_
  simp only [tokens, TableName.tokens, List.append_assoc, List.cons_append, List.nil_append]

theorem lex_delete (table : TableName) {condition : List Binding} (hpick : condition ≠ [])
    (htested : ∀ b ∈ condition, b.literal.IsWritten) :
    lex (render (.delete table condition)) = some (tokens (.delete table condition)) := by
  have hdelete : Opens "DELETE FROM ".toList [.word "DELETE", .word "FROM"] :=
    (opens_word "DELETE").append (opens_word "FROM")
  have htable := (lexes_table table).append_opens (breaks_of_head rfl) opens_where
  have hhead := hdelete.append htable
  rw [render_delete, (hhead.append_lexes (lexes_condition hpick htested)).lex_eq]
  rfl

/-- The text of a statement has its tokens. -/
theorem lex_render {s : Statement} (h : s.IsWritten) : lex s.render = some s.tokens := by
  cases s with
  | insert table items => exact lex_insert table h
  | update table assignments condition =>
    obtain ⟨hset, hpick, hassigned, htested⟩ := h
    exact lex_update table hset hpick hassigned htested
  | delete table condition => exact lex_delete table h.1 h.2

end Statement

/-! ### From the tokens to the statement -/

namespace Reading

variable {α β : Type}

/-- Whether a reader takes off some tokens as what they stand for, where no cast follows. -/
def Reads (item : Reader α) (x : α) (ts : List Token) : Prop :=
  ∀ rest, rest.head? ≠ some .cast → item (ts ++ rest) = some (x, rest)

theorem reads_column (name : String) : Reads readColumn name [.identifier name] :=
  fun _ _ => rfl

theorem reads_literal (l : Literal) : Reads readLiteral l l.tokens := by
  intro rest hrest
  cases l with
  | null => rfl
  | bool b => cases b <;> rfl
  | number text => rfl
  | json text => rfl
  | string text =>
    -- a cast behind it would make it a JSON text
    cases rest with
    | nil => rfl
    | cons t rest =>
      cases t with
      | cast => exact absurd rfl hrest
      | _ => rfl

theorem reads_assignment (b : Binding) : Reads readAssignment b.assigned b.assignmentTokens := by
  intro rest hrest
  have hliteral := reads_literal b.literal rest hrest
  rw [Binding.assignmentTokens, List.cons_append, List.cons_append, readAssignment, hliteral]
  rfl

theorem reads_predicate (b : Binding) : Reads readPredicate b.tested b.predicateTokens := by
  intro rest hrest
  have hassignment := reads_assignment b rest hrest
  unfold Binding.tested Binding.predicateTokens
  cases b.value with
  | null => rfl
  | _ =>
    dsimp only
    rw [Binding.assignmentTokens, List.cons_append, List.cons_append] at hassignment ⊢
    rw [readPredicate, hassignment]
    · rfl
    · intro _ _ e
      exact absurd e (by simp)

/-- Things with a separator between them are read one by one, up to what is no separator. -/
theorem readSeparated_intercalate {item : Reader α} {value : β → α} {tokens : β → List Token}
    {separator : Token} (hseparator : separator ≠ .cast) (x : β) (xs : List β)
    (h : ∀ y ∈ x :: xs, Reads item (value y) (tokens y)) {after : List Token}
    (hafter : after.head? ≠ some .cast ∧ after.head? ≠ some separator) (fuel : Nat)
    (hfuel : xs.length < fuel) :
    readSeparated item separator fuel
        (List.intercalate [separator] ((x :: xs).map tokens) ++ after)
      = some ((x :: xs).map value, after) := by
  induction xs generalizing x fuel with
  | nil =>
    obtain ⟨fuel, rfl⟩ : ∃ k, fuel = k + 1 := ⟨fuel - 1, by omega⟩
    have hx := h x (.head _) after hafter.1
    simp only [List.map_cons, List.map_nil, List.intercalate_singleton]
    rw [readSeparated, hx]
    cases after with
    | nil => rfl
    | cons t rest => exact if_neg fun e => hafter.2 (by rw [e]; rfl)
  | cons y rest ih =>
    obtain ⟨fuel, rfl⟩ : ∃ k, fuel = k + 1 := ⟨fuel - 1, by omega⟩
    rw [List.length_cons] at hfuel
    have hrest := ih y (fun z hz => h z (.tail _ hz)) fuel (by omega)
    -- no cast follows, but the separator
    have hx := h x (.head _)
      (separator :: (List.intercalate [separator] ((y :: rest).map tokens) ++ after))
      fun e => hseparator (Option.some.inj e)
    have hsplit : List.intercalate [separator] ((x :: y :: rest).map tokens) ++ after
        = tokens x ++ separator
          :: (List.intercalate [separator] ((y :: rest).map tokens) ++ after) := by
      simp [List.intercalate_cons_cons]
    rw [hsplit, readSeparated, hx]
    dsimp only
    rw [if_pos rfl, hrest]
    rfl

/-- The length of the tokens is fuel enough, as each thing but the first has a separator. -/
theorem readAll_intercalate {item : Reader α} {value : β → α} {tokens : β → List Token}
    {separator : Token} (hseparator : separator ≠ .cast) {xs : List β} (hne : xs ≠ [])
    (h : ∀ y ∈ xs, Reads item (value y) (tokens y)) (after : List Token)
    (hafter : after.head? ≠ some .cast ∧ after.head? ≠ some separator) :
    readAll item separator (List.intercalate [separator] (xs.map tokens) ++ after)
      = some (xs.map value, after) := by
  have hlength : ∀ (ts : List Token) (tss : List (List Token)),
      tss.length ≤ (List.intercalate [separator] (ts :: tss)).length := by
    intro ts tss
    induction tss generalizing ts with
    | nil => exact Nat.zero_le _
    | cons us rest ih =>
      have hrest := ih us
      rw [List.intercalate_cons_cons, List.length_append, List.length_append,
        List.length_singleton, List.length_cons]
      omega
  cases xs with
  | nil => exact absurd rfl hne
  | cons x xs =>
    have hxs := hlength (tokens x) (xs.map tokens)
    rw [List.length_map] at hxs
    refine readSeparated_intercalate hseparator x xs h hafter _ ?_
    rw [List.map_cons, List.length_append]
    omega

theorem readCondition_tokens {condition : List Binding} (hne : condition ≠ []) :
    readCondition (Statement.conditionTokens condition) = some (condition.map (·.tested)) := by
  have hread := readAll_intercalate (show Token.word "AND" ≠ .cast by decide) hne
    (fun b _ => reads_predicate b) [] (by decide)
  rw [List.append_nil] at hread
  rw [readCondition, Statement.conditionTokens, hread]

theorem readValues_tokens {items : List Binding} (hne : items ≠ []) :
    readValues (Statement.parenthesizedTokens (items.map fun b => [.identifier b.column])
        ++ .word "VALUES" :: Statement.parenthesizedTokens (items.map (·.literal.tokens)))
      = some (items.map (·.assigned)) := by
  have hcomma : Token.symbol ',' ≠ .cast := by decide
  have hcolumns := readAll_intercalate hcomma hne (fun b _ => reads_column b.column)
    (.symbol ')' :: .word "VALUES"
      :: Statement.parenthesizedTokens (items.map (·.literal.tokens))) ⟨by simp, by simp⟩
  have hliterals := readAll_intercalate hcomma hne (fun b _ => reads_literal b.literal)
    [.symbol ')'] (by decide)
  have htokens : Statement.parenthesizedTokens (items.map fun b => [.identifier b.column])
        ++ .word "VALUES" :: Statement.parenthesizedTokens (items.map (·.literal.tokens))
      = .symbol '(' :: (List.intercalate [.symbol ','] (items.map fun b => [.identifier b.column])
        ++ .symbol ')' :: .word "VALUES"
          :: Statement.parenthesizedTokens (items.map (·.literal.tokens))) := by
    simp [Statement.parenthesizedTokens]
  have hzip : (items.map (·.column)).zip (items.map (·.literal)) = items.map (·.assigned) := by
    rw [List.zip_map']
    rfl
  have hopen : ∀ ts, skip [.symbol '('] (.symbol '(' :: ts) = some ts := fun _ => rfl
  have hskip : skip [.symbol ')', .word "VALUES", .symbol '('] (.symbol ')' :: .word "VALUES"
        :: Statement.parenthesizedTokens (items.map (·.literal.tokens)))
      = some (List.intercalate [.symbol ','] (items.map (·.literal.tokens)) ++ [.symbol ')']) := rfl
  rw [htokens, readValues, if_neg (by simp)]
  simp only [Option.bind_eq_bind, Option.bind_some, hopen, hcolumns, hskip, hliterals,
    List.length_map, and_self, if_true, hzip]

end Reading

theorem readStatement_tokens {s : Statement} (h : s.IsWritten) :
    Reading.readStatement s.tokens = some s.reading := by
  have htable : ∀ (t : TableName) (ts : List Token),
      Reading.readTable (t.tokens ++ ts) = some (t, ts) := fun _ _ => rfl
  cases s with
  | insert table items =>
    cases items with
    | nil => rfl
    | cons b rest =>
      have hvalues := Reading.readValues_tokens (List.cons_ne_nil b rest)
      simp only [Statement.tokens, Reading.readStatement, List.append_assoc, htable,
        Option.bind_eq_bind, Option.bind_some, List.singleton_append, hvalues, Statement.reading]
  | update table assignments condition =>
    obtain ⟨hset, hpick, -, -⟩ := h
    have hassignments := Reading.readAll_intercalate (show Token.symbol ',' ≠ .cast by decide) hset
      (fun b _ => Reading.reads_assignment b)
      (.word "WHERE" :: Statement.conditionTokens condition) ⟨by simp, by simp⟩
    have hcondition := Reading.readCondition_tokens hpick
    simp only [Statement.tokens, Reading.readStatement, htable, Option.bind_eq_bind,
      Option.bind_some, Reading.skip, if_true, hassignments, hcondition, Statement.reading]
  | delete table condition =>
    have hcondition := Reading.readCondition_tokens h.1
    simp only [Statement.tokens, Reading.readStatement, htable, Option.bind_eq_bind,
      Option.bind_some, Reading.skip, if_true, hcondition, Statement.reading]

/-- The text of a statement is read back to what the statement says. -/
theorem read_sql {s : Statement} (h : s.IsWritten) : read s.sql = some s.reading := by
  rw [read, Statement.sql, String.toList_ofList, Statement.lex_render h]
  exact readStatement_tokens h

end StagedTable.Sql
