import StagedTable.Proofs.Number.Numeral
import StagedTable.Sql.Statement

/-!
# A lexer of SQL text

The tokens of SQL text: identifiers in double quotes and strings in single quotes, either with its
quote doubled inside and a backslash as an ordinary character, signed numbers, words, symbols, the
sign of a cast, and comments. A comment is a token of its own, so that a text in which one opens
shows it.

`lex` takes a text apart or fails; it does not pass over anything but white space. What follows it
says which tokens the parts of a statement are: a part that ends where its last character says so
is taken off whatever follows (`Opens`), and one that another character could extend is taken off a
space, a comma, a closing parenthesis or the end (`Lexes`).
-/

namespace StagedTable.Sql

open Text

/-! ### Tokens -/

/-- A token of SQL text. -/
inductive Token
  | identifier (name : String)
  | string (text : List Char)
  | number (text : List Char)
  | word (text : String)
  | symbol (c : Char)
  | cast
  | comment
deriving DecidableEq

/-- Whether a word may start with the character. -/
def startsWord (c : Char) : Bool := ('a' ≤ c && c ≤ 'z') || ('A' ≤ c && c ≤ 'Z') || c == '_'

/-- Whether a word may go on with the character. -/
def continuesWord (c : Char) : Bool := startsWord c || isDigit c || c == '$'

/-- The characters that are tokens by themselves. -/
def isSymbol (c : Char) : Bool := "()[],.;:=<>+-*/%|&^~!?@#".toList.contains c

/-- What follows the end of a block comment. -/
def afterComment? : List Char → Option (List Char)
  | '*' :: '/' :: rest => some rest
  | _ :: rest => afterComment? rest
  | [] => none

/-- A signed number at the start of a text, as it is written there. -/
def lexNumber? (cs : List Char) : Option (Token × List Char) :=
  (Numeral.read cs).map fun (_, after) => (.number (cs.take (cs.length - after.length)), after)

/-- The token that a text starts with, and what follows it. -/
def lexToken : List Char → Option (Token × List Char)
  | [] => none
  | '"' :: rest =>
    (readQuotedBody '"' rest).map fun (name, after) => (.identifier (String.ofList name), after)
  | '\'' :: rest => (readQuotedBody '\'' rest).map fun (text, after) => (.string text, after)
  | '-' :: '-' :: rest => some (.comment, rest.dropWhile (· != '\n'))
  | '/' :: '*' :: rest => (afterComment? rest).map fun after => (.comment, after)
  | ':' :: ':' :: rest => some (.cast, rest)
  | c :: rest =>
    if startsWord c then
      some (.word (String.ofList (c :: rest.takeWhile continuesWord)), rest.dropWhile continuesWord)
    else
      (lexNumber? (c :: rest)).or (if isSymbol c then some (.symbol c, rest) else none)

/-- The tokens of a text, with white space between them; every token takes some of the text. -/
def lex (cs : List Char) : Option (List Token) :=
  match cs with
  | [] => some []
  | c :: rest =>
    if isAsciiBlank c then lex rest
    else
      match lexToken (c :: rest) with
      | none => none
      | some (t, after) =>
        if after.length < rest.length + 1 then (lex after).map (t :: ·) else none
termination_by cs.length

/-! ### Taking a token off -/

@[simp] theorem lex_nil : lex [] = some [] := by rw [lex]

theorem lex_space (cs : List Char) : lex (' ' :: cs) = lex cs := by
  rw [lex, if_pos (by decide)]

/-- A token is taken off, and the lexer goes on behind it. -/
theorem lex_of_lexToken {c : Char} {w after : List Char} {t : Token} (hc : isAsciiBlank c = false)
    (h : lexToken (c :: w ++ after) = some (t, after)) :
    lex (c :: w ++ after) = (lex after).map (t :: ·) := by
  rw [List.cons_append] at h ⊢
  rw [lex, if_neg (by simp [hc]), h]
  exact if_pos (by rw [List.length_append]; omega)

/-- Whether a text ends any token that it follows: at its end, or with a space, a comma or a closing
parenthesis. -/
def Breaks (cs : List Char) : Prop := ∀ c r, cs = c :: r → c = ' ' ∨ c = ',' ∨ c = ')'

theorem breaks_nil : Breaks [] := by
  intro c r h
  cases h

theorem breaks_cons {c : Char} {r : List Char} (h : c = ' ' ∨ c = ',' ∨ c = ')') :
    Breaks (c :: r) := by
  intro c' r' e
  cases e
  exact h

/-- No character of a class that the breaking ones are not in follows. -/
theorem Breaks.not_ahead {cs : List Char} (h : Breaks cs) {p : Char → Bool}
    (hp : p ' ' = false ∧ p ',' = false ∧ p ')' = false) : ∀ c r, cs = c :: r → p c = false := by
  intro c r e
  rcases h c r e with rfl | rfl | rfl
  · exact hp.1
  · exact hp.2.1
  · exact hp.2.2

theorem Breaks.endsNumeral {cs : List Char} (h : Breaks cs) : EndsNumeral cs := by
  intro c r e
  rcases h c r e with rfl | rfl | rfl <;> decide

/-- Whether a part of a text is taken off as some tokens, whatever follows it. -/
def Opens (w : List Char) (ts : List Token) : Prop :=
  ∀ after, lex (w ++ after) = (lex after).map (ts ++ ·)

/-- Whether a part of a text is taken off as some tokens where something breaks it off. -/
def Lexes (w : List Char) (ts : List Token) : Prop :=
  ∀ after, Breaks after → lex (w ++ after) = (lex after).map (ts ++ ·)

theorem map_append_append (ts us : List Token) (r : Option (List Token)) :
    (r.map (us ++ ·)).map (ts ++ ·) = r.map (ts ++ us ++ ·) := by
  rw [Option.map_map]
  congr 1
  funext vs
  simp

variable {w v : List Char} {ts us : List Token}

theorem Opens.lexes (h : Opens w ts) : Lexes w ts := fun after _ => h after

theorem Opens.append (h : Opens w ts) (h' : Opens v us) : Opens (w ++ v) (ts ++ us) := by
  intro after
  rw [List.append_assoc, h, h', map_append_append]

/-- A part that ends by itself goes before any other. -/
theorem Opens.append_lexes (h : Opens w ts) (h' : Lexes v us) : Lexes (w ++ v) (ts ++ us) := by
  intro after hafter
  rw [List.append_assoc, h, h' after hafter, map_append_append]

/-- A part that must be broken off goes before one that starts with a breaking character. -/
theorem Lexes.append_opens (h : Lexes w ts) (hv : ∀ after, Breaks (v ++ after)) (h' : Opens v us) :
    Opens (w ++ v) (ts ++ us) := by
  intro after
  rw [List.append_assoc, h _ (hv after), h', map_append_append]

theorem Lexes.lex_eq (h : Lexes w ts) : lex w = some ts := by
  have hend := h [] breaks_nil
  simpa using hend

/-! ### Words and symbols -/

theorem opens_space : Opens [' '] [] := by
  intro after
  rw [List.singleton_append, lex_space]
  simp

/-- A symbol that no token is led in by is a token, whatever follows it. -/
theorem opens_symbol {c : Char} (hc : isAsciiBlank c = false)
    (h : ∀ rest, lexToken (c :: rest) = some (.symbol c, rest)) : Opens [c] [.symbol c] := by
  intro after
  exact lex_of_lexToken (w := []) hc (h after)

theorem opens_open : Opens ['('] [.symbol '('] := opens_symbol rfl fun _ => rfl

theorem opens_close : Opens [')'] [.symbol ')'] := opens_symbol rfl fun _ => rfl

theorem opens_comma : Opens [','] [.symbol ','] := opens_symbol rfl fun _ => rfl

theorem opens_equals : Opens ['='] [.symbol '='] := opens_symbol rfl fun _ => rfl

/-- Whether a text is a word. -/
def isWordText : List Char → Bool
  | [] => false
  | c :: rest => startsWord c && rest.all continuesWord

theorem lexToken_word {cs after : List Char} (h : isWordText cs = true)
    (hafter : ∀ c r, after = c :: r → continuesWord c = false) :
    lexToken (cs ++ after) = some (.word (String.ofList cs), after) := by
  cases cs with
  | nil => cases h
  | cons c rest =>
    rw [isWordText, Bool.and_eq_true, List.all_eq_true] at h
    -- the word ends where it does, since nothing that could go on follows
    obtain ⟨htaken, hleft⟩ := takeWhile_dropWhile_run h.2 hafter
    -- and it does not start like any other token
    have hne : ∀ d : Char, startsWord d = false → c ≠ d := by
      rintro d hd rfl
      rw [h.1] at hd
      cases hd
    rw [List.cons_append, lexToken]
    · rw [if_pos h.1, htaken, hleft]
    · exact hne '"' (by decide)
    · exact hne '\'' (by decide)
    · intro _ e _
      exact hne '-' (by decide) e
    · intro _ e _
      exact hne '/' (by decide) e
    · intro _ e _
      exact hne ':' (by decide) e

theorem le_toNat_of_startsWord {c : Char} (h : startsWord c = true) : 0x41 ≤ c.toNat := by
  simp only [startsWord, Bool.or_eq_true, Bool.and_eq_true, decide_eq_true_eq, Char.le_def,
    UInt32.le_iff_toNat_le, beq_iff_eq] at h
  rcases h with (⟨h, -⟩ | ⟨h, -⟩) | rfl
  · exact Nat.le_trans (by decide) h
  · exact h
  · decide

theorem isAsciiBlank_of_startsWord {c : Char} (h : startsWord c = true) :
    isAsciiBlank c = false := by
  have hlow := le_toNat_of_startsWord h
  simp only [isAsciiBlank, Bool.or_eq_false_iff, Bool.and_eq_false_iff, decide_eq_false_iff_not,
    beq_eq_false_iff_ne]
  omega

theorem lexes_word (word : String) (h : isWordText word.toList = true := by decide) :
    Lexes word.toList [.word word] := by
  intro after hafter
  have htoken := lexToken_word h (hafter.not_ahead (by decide))
  rw [String.ofList_toList] at htoken
  cases hword : word.toList with
  | nil => rw [hword] at h; cases h
  | cons c rest =>
    rw [hword] at h htoken
    rw [isWordText, Bool.and_eq_true] at h
    exact lex_of_lexToken (isAsciiBlank_of_startsWord h.1) htoken

theorem opens_word (word : String) (h : isWordText word.toList = true := by decide) :
    Opens (word.toList ++ [' ']) [.word word] :=
  (lexes_word word h).append_opens (fun _ => breaks_cons (.inl rfl)) opens_space

theorem startsWord_of_isDigit {c : Char} (h : isDigit c = true) : startsWord c = false := by
  cases hc : startsWord c with
  | false => rfl
  | true =>
    have hhigh := (isDigit_iff.1 h).2
    have hlow := le_toNat_of_startsWord hc
    omega

/-! ### Quoted texts and numbers -/

/-- An identifier is taken whole, unless another quote follows it. -/
theorem lex_identifier (name : String) {after : List Char} (h : ∀ r, after ≠ '"' :: r) :
    lex (identifier name ++ after) = (lex after).map (.identifier name :: ·) := by
  have hread := readQuotedBody_doubled '"' name.toList after h
  have htoken : lexToken (identifier name ++ after) = some (.identifier name, after) := by
    rw [identifier, quoted, List.cons_append, lexToken, List.append_assoc, List.singleton_append,
      hread]
    simp
  exact lex_of_lexToken (by decide) htoken

theorem lexes_identifier (name : String) : Lexes (identifier name) [.identifier name] := by
  intro after hafter
  refine lex_identifier name ?_
  rintro r rfl
  exact absurd (hafter '"' r rfl) (by decide)

/-- The point between a schema and a name is a symbol, since no digit follows it. -/
theorem lex_point (cs : List Char) :
    lex ('.' :: '"' :: cs) = (lex ('"' :: cs)).map (.symbol '.' :: ·) :=
  lex_of_lexToken (w := []) (by decide) rfl

theorem lexes_table (t : TableName) :
    Lexes t.render [.identifier t.schema, .symbol '.', .identifier t.name] := by
  intro after hafter
  have hname := lexes_identifier t.name after hafter
  have hquote : identifier t.name = '"' :: (doubled '"' t.name.toList ++ ['"']) := rfl
  rw [TableName.render, List.append_assoc, lex_identifier t.schema (by simp), List.cons_append,
    hquote, List.cons_append, lex_point, ← List.cons_append, ← hquote, hname, Option.map_map,
    Option.map_map]
  rfl

/-- A string is taken whole, unless another quote follows it. -/
theorem lex_string (cs : List Char) {after : List Char} (h : ∀ r, after ≠ '\'' :: r) :
    lex (string cs ++ after) = (lex after).map (.string cs :: ·) := by
  have hread := readQuotedBody_doubled '\'' cs after h
  have htoken : lexToken (string cs ++ after) = some (.string cs, after) := by
    rw [string, quoted, List.cons_append, lexToken, List.append_assoc, List.singleton_append,
      hread]
    simp
  exact lex_of_lexToken (by decide) htoken

theorem lexes_number (negative : Bool) (w : WrittenNumeral) :
    Lexes ((if negative then ['-'] else []) ++ w.render)
      [.number ((if negative then ['-'] else []) ++ w.render)] := by
  intro after hafter
  have hread := w.read_render hafter.endsNumeral negative
  rw [← List.append_assoc] at hread
  have hnumber : lexNumber? (((if negative then ['-'] else []) ++ w.render) ++ after)
      = some (.number ((if negative then ['-'] else []) ++ w.render), after) := by
    rw [lexNumber?, hread, Option.map_some]
    dsimp only
    rw [List.length_append, Nat.add_sub_cancel, List.take_left]
  obtain ⟨c, r, hr, hc⟩ := w.exists_head
  rw [hr] at hnumber ⊢
  cases negative with
  | false =>
    refine lex_of_lexToken (isAsciiBlank_of_isDigit hc) ?_
    simp only [Bool.false_eq_true, if_false, List.nil_append] at hnumber
    rw [List.cons_append] at hnumber ⊢
    -- a digit leads in neither a quoted text nor a comment, a cast or a word
    rw [lexToken, if_neg (by simp [startsWord_of_isDigit hc]), hnumber]
    · rfl
    · exact ne_of_isDigit hc (by decide)
    · exact ne_of_isDigit hc (by decide)
    · intro _ e _
      exact ne_of_isDigit hc (by decide) e
    · intro _ e _
      exact ne_of_isDigit hc (by decide) e
    · intro _ e _
      exact ne_of_isDigit hc (by decide) e
  | true =>
    refine lex_of_lexToken (by decide) ?_
    have hnumber : lexNumber? ('-' :: (c :: r ++ after))
        = some (.number ('-' :: c :: r), after) := hnumber
    show lexToken ('-' :: (c :: r ++ after)) = some (.number ('-' :: c :: r), after)
    -- a minus sign opens a comment before another one only
    rw [lexToken, if_neg (by decide), hnumber]
    · rfl
    · decide
    · decide
    · intro _ _ e
      exact ne_of_isDigit hc (by decide) (List.cons.inj e).1
    · intro _ e
      exact absurd e (by decide)
    · intro _ e
      exact absurd e (by decide)

/-! ### Literals -/

/-- The tokens of a literal. -/
def Literal.tokens : Literal → List Token
  | .null => [.word "NULL"]
  | .bool b => [.word (if b then "TRUE" else "FALSE")]
  | .number text => [.number text]
  | .string text => [.string text]
  | .json text => [.string text, .cast, .word "jsonb"]

/-- Whether the text of a number is a numeral. -/
def Literal.IsWritten : Literal → Prop
  | .number text => ∃ (negative : Bool) (w : WrittenNumeral),
      text = (if negative then ['-'] else []) ++ w.render
  | _ => True

theorem lex_cast (cs : List Char) : lex (':' :: ':' :: cs) = (lex cs).map (.cast :: ·) :=
  lex_of_lexToken (w := [':']) (by decide) rfl

theorem lexes_literal {l : Literal} (h : l.IsWritten) : Lexes l.render l.tokens := by
  cases l with
  | null => exact lexes_word "NULL"
  | bool b =>
    cases b with
    | false => exact lexes_word "FALSE"
    | true => exact lexes_word "TRUE"
  | number text =>
    obtain ⟨negative, w, rfl⟩ := h
    exact lexes_number negative w
  | string text =>
    intro after hafter
    refine lex_string text ?_
    rintro r rfl
    exact absurd (hafter '\'' r rfl) (by decide)
  | json text =>
    intro after hafter
    have hjsonb : Lexes "jsonb".toList [.word "jsonb"] := lexes_word "jsonb"
    have hrender : (Literal.json text).render ++ after
        = string text ++ ':' :: ':' :: ("jsonb".toList ++ after) := by
      rw [Literal.render, List.append_assoc]
      rfl
    rw [hrender, lex_string text (by simp), lex_cast, hjsonb after hafter, Option.map_map,
      Option.map_map]
    rfl

/-! ### Lists -/

/-- Parts with a separator between them are taken off one by one, if the separator breaks each of
them off. -/
theorem lexes_intercalate {α : Type} {text : α → List Char} {tokens : α → List Token}
    {separator : List Char} {t : Token} (hopens : Opens separator [t])
    (hbreaks : ∀ after, Breaks (separator ++ after)) (x : α) (xs : List α)
    (h : ∀ y ∈ x :: xs, Lexes (text y) (tokens y)) :
    Lexes (List.intercalate separator ((x :: xs).map text))
      (List.intercalate [t] ((x :: xs).map tokens)) := by
  induction xs generalizing x with
  | nil => simpa using h x (.head _)
  | cons y rest ih =>
    have hrest := ih y fun z hz => h z (.tail _ hz)
    have hhead := (h x (.head _)).append_opens hbreaks hopens
    simp only [List.map_cons, List.intercalate_cons_cons] at hrest ⊢
    exact hhead.append_lexes hrest

theorem opens_listComma : Opens ", ".toList [.symbol ','] := opens_comma.append opens_space

end StagedTable.Sql
