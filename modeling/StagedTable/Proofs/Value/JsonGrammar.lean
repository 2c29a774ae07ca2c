import StagedTable.Proofs.Value.JsonReading

/-!
# The grammar of JSON

Which documents there are (`Document`), and which texts stand for each of them (`Derives`,
`IsTextOf`). Numbers are kept as they are written and objects with all their fields, so that nothing
of the text is lost but its white space and the way in which characters are escaped. What a document
says is less than that (`Tree.content`): of two fields of one name the last one counts, and of a
number only its value.

The reader takes every JSON text for the value of its document, and refuses one that holds an integer
of too many digits (`load_of_isTextOf`). It takes a few texts more, which the same grammar gives with
other numbers (`IsNumberOf`) and with halves of surrogate pairs (`IsLooseTextOf`).
-/

namespace StagedTable.Json

open Text

/-! ### Documents -/

/-- A JSON document over numbers of some kind, all fields of its objects in order. -/
inductive Tree (ν : Type)
  | null
  | bool (b : Bool)
  | number (n : ν)
  | string (s : String)
  | array (items : List (Tree ν))
  | object (fields : List (String × Tree ν))

/-- What becomes of each kind of node. -/
structure Algebra (ν β : Type) where
  null : β
  bool : Bool → β
  number : ν → β
  string : String → β
  array : List β → β
  object : List (String × β) → β

namespace Tree

variable {ν β : Type}

mutual

/-- What an algebra makes of a document, from the leaves up. -/
def fold (a : Algebra ν β) : Tree ν → β
  | .null => a.null
  | .bool b => a.bool b
  | .number n => a.number n
  | .string s => a.string s
  | .array items => a.array (foldItems a items)
  | .object fields => a.object (foldFields a fields)

@[inherit_doc fold]
def foldItems (a : Algebra ν β) : List (Tree ν) → List β
  | [] => []
  | t :: rest => fold a t :: foldItems a rest

@[inherit_doc fold]
def foldFields (a : Algebra ν β) : List (String × Tree ν) → List (String × β)
  | [] => []
  | (name, t) :: rest => (name, fold a t) :: foldFields a rest

end

theorem fold_array (a : Algebra ν β) (items : List (Tree ν)) :
    fold a (.array items) = a.array (items.map (fold a)) := by
  have h : foldItems a items = items.map (fold a) := by
    induction items with
    | nil => rw [foldItems, List.map_nil]
    | cons t rest ih => rw [foldItems, ih, List.map_cons]
  rw [fold, h]

theorem fold_object (a : Algebra ν β) (fields : List (String × Tree ν)) :
    fold a (.object fields) = a.object (fields.map fun f => (f.1, fold a f.2)) := by
  have h : foldFields a fields = fields.map fun f => (f.1, fold a f.2) := by
    induction fields with
    | nil => rw [foldFields, List.map_nil]
    | cons f rest ih => rw [foldFields, ih, List.map_cons]
  rw [fold, h]

/-- Induction over a document, with the assumption for all items of an array and for the values of
all fields of an object. -/
@[elab_as_elim]
theorem induct {motive : Tree ν → Prop} (null : motive .null) (bool : ∀ b, motive (.bool b))
    (number : ∀ n, motive (.number n)) (string : ∀ s, motive (.string s))
    (array : ∀ items, (∀ t ∈ items, motive t) → motive (.array items))
    (object : ∀ fields, (∀ f ∈ fields, motive f.2) → motive (.object fields)) (t : Tree ν) :
    motive t :=
  @Tree.rec ν motive (fun items => ∀ t ∈ items, motive t)
    (fun fields => ∀ f ∈ fields, motive f.2) (fun f => motive f.2) null bool number string array
    object (by simp) (by simp_all) (by simp) (by simp_all) (fun _ _ h => h) t

/-- Whether all numbers in a document pass a test. -/
def all (p : ν → Bool) : Tree ν → Bool :=
  fold {
    null := true
    bool := fun _ => true
    number := p
    string := fun _ => true
    array := fun items => items.all id
    object := fun fields => fields.all (·.2) }

/-- The value of a document, given the values of its numbers. A field counts in its first place and
with its last value. -/
def valueBy (f : ν → Value) : Tree ν → Value :=
  fold {
    null := .null
    bool := .bool
    number := f
    string := .text
    array := .list
    object := fun fields => .document (Assoc.putAll [] fields) }

/-- The value of a document, if all of its numbers have one. -/
def value? (f : ν → Option Value) : Tree ν → Option Value :=
  fold {
    null := some .null
    bool := fun b => some (.bool b)
    number := f
    string := fun s => some (.text s)
    array := fun items => (items.mapM id).map .list
    object := fun fields =>
      (fields.mapM fun field : String × Option Value => field.2.map (field.1, ·)).map
        fun fields => .document (Assoc.putAll [] fields) }

/-- What a document says, its numbers taken for rational ones: a field counts in its first place and
with its last value. -/
def content (f : ν → ℚ) : Tree ν → Tree ℚ :=
  fold {
    null := .null
    bool := .bool
    number := fun n => .number (f n)
    string := .string
    array := .array
    object := fun fields => .object (Assoc.putAll [] fields) }

@[simp] theorem all_array (p : ν → Bool) (items : List (Tree ν)) :
    all p (.array items) = items.all (all p) :=
  (fold_array _ items).trans List.all_map

@[simp] theorem all_object (p : ν → Bool) (fields : List (String × Tree ν)) :
    all p (.object fields) = fields.all fun f => f.2.all p :=
  (fold_object _ fields).trans List.all_map

@[simp] theorem valueBy_array (f : ν → Value) (items : List (Tree ν)) :
    valueBy f (.array items) = .list (items.map (valueBy f)) := fold_array ..

@[simp] theorem valueBy_object (f : ν → Value) (fields : List (String × Tree ν)) :
    valueBy f (.object fields)
      = .document (Assoc.putAll [] (fields.map fun field => (field.1, field.2.valueBy f))) :=
  fold_object ..

@[simp] theorem value?_array (f : ν → Option Value) (items : List (Tree ν)) :
    value? f (.array items) = (items.mapM (value? f)).map .list := by
  have hmap : (items.map (value? f)).mapM id = items.mapM (value? f) := List.mapM_map
  exact (fold_array _ items).trans (congrArg (Option.map Value.list) hmap)

@[simp] theorem value?_object (f : ν → Option Value) (fields : List (String × Tree ν)) :
    value? f (.object fields)
      = (fields.mapM fun field : String × Tree ν => (field.2.value? f).map (field.1, ·)).map
        fun fields => .document (Assoc.putAll [] fields) := by
  have hmap : ((fields.map fun field => (field.1, field.2.value? f)).mapM
        fun field : String × Option Value => field.2.map (field.1, ·))
      = fields.mapM fun field => (field.2.value? f).map (field.1, ·) := List.mapM_map
  exact (fold_object _ fields).trans
    (congrArg (Option.map fun fields => Value.document (Assoc.putAll [] fields)) hmap)

/-- Of several things that have a value under a condition, all have one if all meet it. -/
theorem mapM_ite {α : Type} {p : α → Bool} {f : α → β} {g : α → Option β} {xs : List α}
    (h : ∀ x ∈ xs, g x = if p x then some (f x) else none) :
    xs.mapM g = if xs.all p then some (xs.map f) else none := by
  induction xs with
  | nil => rfl
  | cons x rest ih =>
    rw [List.mapM_cons, h x (.head _), ih fun y hy => h y (.tail _ hy)]
    cases hx : p x <;> cases hrest : rest.all p <;> simp [hx, hrest]

/-- If numbers have a value under a condition, so have the documents whose numbers all meet it. -/
theorem value?_ite (p : ν → Bool) (f : ν → Value) (t : Tree ν) :
    t.value? (fun n => if p n then some (f n) else none)
      = if t.all p then some (t.valueBy f) else none := by
  induction t using induct with
  | null | bool b | string s => rfl
  | number n => rfl
  | array items ih =>
    rw [value?_array, mapM_ite ih, all_array, valueBy_array]
    split <;> rfl
  | object fields ih =>
    have hfield : ∀ field ∈ fields,
        (field.2.value? fun n => if p n then some (f n) else none).map (field.1, ·)
          = if field.2.all p then some (field.1, field.2.valueBy f) else none := by
      intro field hmem
      rw [ih field hmem]
      split <;> rfl
    rw [value?_object, mapM_ite hfield, all_object, valueBy_object]
    split <;> rfl

@[simp] theorem content_array (f : ν → ℚ) (items : List (Tree ν)) :
    content f (.array items) = .array (items.map (content f)) := fold_array ..

@[simp] theorem content_object (f : ν → ℚ) (fields : List (String × Tree ν)) :
    content f (.object fields)
      = .object (Assoc.putAll [] (fields.map fun field => (field.1, field.2.content f))) :=
  fold_object ..

theorem all_true (t : Tree ν) : t.all (fun _ => true) = true := by
  induction t using induct with
  | null | bool b | number n | string s => rfl
  | array items ih => rw [all_array, List.all_eq_true.2 ih]
  | object fields ih => rw [all_object, List.all_eq_true.2 ih]

/-- If all numbers have a value, so have all documents. -/
theorem value?_some (f : ν → Value) (t : Tree ν) :
    t.value? (fun n => some (f n)) = some (t.valueBy f) := by
  have h := value?_ite (fun _ => true) f t
  rwa [if_pos t.all_true] at h

/-- What a document says depends on the numbers in it only. -/
theorem content_congr {f g : ν → ℚ} {p : ν → Bool} (h : ∀ n, p n = true → f n = g n) {t : Tree ν}
    (ht : t.all p = true) : t.content f = t.content g := by
  induction t using induct with
  | null | bool b | string s => rfl
  | number n => exact congrArg Tree.number (h n ht)
  | array items ih =>
    rw [all_array, List.all_eq_true] at ht
    rw [content_array, content_array, List.map_congr_left fun t hmem => ih t hmem (ht t hmem)]
  | object fields ih =>
    rw [all_object, List.all_eq_true] at ht
    have hfields : (fields.map fun field => (field.1, field.2.content f))
        = fields.map fun field => (field.1, field.2.content g) :=
      List.map_congr_left fun field hmem => by rw [ih field hmem (ht field hmem)]
    rw [content_object, content_object, hfields]

end Tree

/-! ### Numbers -/

/-- A number as it is written: a numeral behind its sign. -/
structure SignedNumeral extends WrittenNumeral where
  negative : Bool

namespace SignedNumeral

variable (n : SignedNumeral)

/-- The number as a text. -/
def render : List Char := (if n.negative then ['-'] else []) ++ n.toWrittenNumeral.render

/-- The number itself. -/
def value : ℚ := if n.negative then -n.scaled.value else n.scaled.value

/-- Whether the number has neither a fraction nor an exponent. -/
def isInteger : Bool := n.fraction.isEmpty && n.exponent.isNone

/-- The integer that the digits before the point make. -/
def integer : Int := if n.negative then -(ofDigits n.whole : Int) else ofDigits n.whole

/-- The double nearest to the number. -/
def toDouble : Double := (n.numeral n.negative).toDouble

/-- The value that a number is read as. -/
def toValue : Value := if n.isInteger then .int n.integer else .float n.toDouble

/-- Whether the number is no integer of too many digits. -/
def isShort : Bool := !n.isInteger || decide (n.whole.length ≤ maxIntegerDigits)

/-- Whether the number is an integer or within the range of the doubles. -/
def inRange : Bool := n.isInteger || n.toDouble.isFinite

end SignedNumeral

/-- A JSON document with its numbers as they are written. -/
abbrev Document := Tree SignedNumeral

namespace Tree

/-- The value that a document is read as. -/
def toValue (D : Document) : Value := D.valueBy SignedNumeral.toValue

/-- Whether all integers in a document are within the limit on digits. -/
def isShort (D : Document) : Bool := D.all SignedNumeral.isShort

/-- Whether all numbers in a document are integers or within the range of the doubles. -/
def inRange (D : Document) : Bool := D.all SignedNumeral.inRange

/-- The value that a document is read as, if it holds no integer of too many digits. -/
def toValue? (D : Document) : Option Value := if D.isShort then some D.toValue else none

@[simp] theorem toValue_array (items : List Document) :
    toValue (.array items) = .list (items.map toValue) := valueBy_array ..

@[simp] theorem toValue_object (fields : List (String × Document)) :
    toValue (.object fields)
      = .document (Assoc.putAll [] (fields.map fun f => (f.1, f.2.toValue))) := valueBy_object ..

end Tree

/-- Whether two documents say the same. -/
def SameDocument (D E : Document) : Prop :=
  D.content SignedNumeral.value = E.content SignedNumeral.value

/-! ### Texts -/

/-- Whether a text without white space around it is that of a document, by the rules of JSON, with
numbers that are written in some way. -/
inductive DerivesBy {ν : Type} (half : Option Char) (number : List Char → ν → Prop) :
    List Char → Tree ν → Prop
  | null : DerivesBy half number "null".toList .null
  | bool (b : Bool) : DerivesBy half number (if b then "true".toList else "false".toList) (.bool b)
  | number {cs : List Char} {n : ν} : number cs n → DerivesBy half number cs (.number n)
  | string {cs : List Char} {s : String} : IsString half cs s.toList →
      DerivesBy half number cs (.string s)
  | emptyArray {space : List Char} : IsSpace space →
      DerivesBy half number ('[' :: (space ++ [']'])) (.array [])
  | emptyObject {space : List Char} : IsSpace space →
      DerivesBy half number ('{' :: (space ++ ['}'])) (.object [])
  | array (items : List (Slot (Tree ν))) : items ≠ [] →
      (∀ i ∈ items, DerivesBy half number i.text i.content) →
      DerivesBy half number (enclosed '[' ']' (items.map Slot.render))
        (.array (items.map Slot.content))
  | object (members : List (Member half (Tree ν))) : members ≠ [] →
      (∀ m ∈ members, DerivesBy half number m.text m.content) →
      DerivesBy half number (enclosed '{' '}' (members.map Member.render))
        (.object (members.map fun m => (m.name, m.content)))

/-- Whether a text is that of a number. -/
def SignedNumeral.IsTextOf (cs : List Char) (n : SignedNumeral) : Prop := cs = n.render

/-- Whether a text without white space around it is that of a document. -/
abbrev Derives (cs : List Char) (D : Document) : Prop := DerivesBy none SignedNumeral.IsTextOf cs D

/-- Whether a text is a JSON text of a document. -/
def IsTextOf (cs : List Char) (D : Document) : Prop :=
  ∃ s : Slot Document, s.render = cs ∧ s.content = D ∧ Derives s.text D

/-- Whether a text is read as a number of some value: a numeral that is no integer of too many
digits, or the name of a double that is not finite. -/
inductive IsNumberOf : List Char → Value → Prop
  | numeral (n : SignedNumeral) : n.isShort = true → IsNumberOf n.render n.toValue
  | nan : IsNumberOf "NaN".toList (.float notANumber)
  | infinity : IsNumberOf "Infinity".toList (.float (.infinite false))
  | negativeInfinity : IsNumberOf "-Infinity".toList (.float (.infinite true))

/-- Whether a text is a JSON text of a document by the rules of the reader, its numbers being given
as values. With a character for half of a surrogate pair, strings may hold such halves. -/
def IsLooseTextOf (half : Option Char) (cs : List Char) (D : Tree Value) : Prop :=
  ∃ s : Slot (Tree Value), s.render = cs ∧ s.content = D ∧ DerivesBy half IsNumberOf s.text D

/-! ### Reading -/

/-- A member without halves of surrogate pairs in its name, where there might be some. -/
def Member.widen (half : Option Char) {α : Type} (m : Member none α) : Member half α :=
  { m with isString := m.isString.mono }

section
variable {ν : Type} {half : Option Char} {number : List Char → ν → Prop}

/-- What is a document without halves of surrogate pairs is one where there might be some. -/
theorem DerivesBy.mono {cs : List Char} {D : Tree ν} (h : DerivesBy none number cs D) :
    DerivesBy half number cs D := by
  induction h with
  | null => exact .null
  | bool b => exact .bool b
  | number hn => exact .number hn
  | string hs => exact .string hs.mono
  | emptyArray hspace => exact .emptyArray hspace
  | emptyObject hspace => exact .emptyObject hspace
  | array items hne _ ih => exact .array items hne ih
  | object members hne _ ih =>
    have hderives : DerivesBy half number
        (enclosed '{' '}' ((members.map (Member.widen half)).map Member.render))
        (.object ((members.map (Member.widen half)).map fun m => (m.name, m.content))) := by
      refine .object _ (by simpa using hne) fun m hm => ?_
      obtain ⟨n, hn, rfl⟩ := List.mem_map.1 hm
      exact ih n hn
    rwa [List.map_map, List.map_map] at hderives

theorem IsLooseTextOf.mono {cs : List Char} {D : Tree Value} (h : IsLooseTextOf none cs D) :
    IsLooseTextOf half cs D := by
  obtain ⟨s, hs, hcontent, hderives⟩ := h
  exact ⟨s, hs, hcontent, hderives.mono⟩

/-- The text of a document is taken for the value of the document, if the texts of its numbers are
taken for their values. -/
theorem DerivesBy.isTaken {f : ν → Option Value} {cs : List Char} {D : Tree ν}
    (hnumber : ∀ cs n, number cs n → IsTaken half cs (f n)) (h : DerivesBy half number cs D) :
    IsTaken half cs (D.value? f) := by
  induction h with
  | null => exact isTaken_name (.head _)
  | bool b =>
    cases b with
    | true => exact isTaken_name (.tail _ (.head _))
    | false => exact isTaken_name (.tail _ (.tail _ (.head _)))
  | number hn => exact hnumber _ _ hn
  | string hs => exact isTaken_string hs
  | emptyArray hspace => exact isTaken_emptyArray hspace
  | emptyObject hspace => exact isTaken_emptyObject hspace
  | array items hne _ ih =>
    have h := isTaken_array (Tree.value? f) hne ih
    rwa [Tree.value?_array, List.mapM_map]
  | object members hne _ ih =>
    have h := isTaken_object (Tree.value? f) hne ih
    rwa [Tree.value?_object, List.mapM_map]

end

theorem SignedNumeral.isInteger_iff (n : SignedNumeral) :
    n.isInteger = true ↔ n.fraction = [] ∧ n.exponent = none := by
  simp [isInteger]

/-- A number is taken for its value, unless it is an integer of too many digits. -/
theorem isTaken_number (half : Option Char) (n : SignedNumeral) :
    IsTaken half n.render (if n.isShort then some n.toValue else none) := by
  have h := isTaken_numeral half n.negative n.toWrittenNumeral
  have hvalue : (if n.fraction = [] ∧ n.exponent = none
      then (integerOfDigits? n.negative n.whole).map .int
      else some (.float (n.numeral n.negative).toDouble))
        = if n.isShort then some n.toValue else none := by
    rw [SignedNumeral.isShort, SignedNumeral.toValue]
    by_cases hint : n.isInteger = true
    · rw [if_pos (n.isInteger_iff.1 hint), if_pos hint, integerOfDigits?]
      by_cases hlength : n.whole.length ≤ maxIntegerDigits <;>
        simp [hint, hlength, SignedNumeral.integer]
    · rw [if_neg (mt n.isInteger_iff.2 hint), if_neg hint]
      simp [hint, SignedNumeral.toDouble]
  rwa [hvalue] at h

theorem isTaken_numberOf {half : Option Char} {cs : List Char} {v : Value}
    (h : IsNumberOf cs v) : IsTaken half cs (some v) := by
  cases h with
  | numeral n hshort =>
    have htaken := isTaken_number half n
    rwa [if_pos hshort] at htaken
  | nan => exact isTaken_name (by simp [namedValues])
  | infinity => exact isTaken_name (by simp [namedValues])
  | negativeInfinity => exact isTaken_name (by simp [namedValues])

theorem DerivesBy.isTaken_valueBy {half : Option Char} {cs : List Char} {D : Tree Value}
    (h : DerivesBy half IsNumberOf cs D) : IsTaken half cs (some (D.valueBy id)) := by
  have htaken := h.isTaken (f := fun v => some (id v)) fun _ _ => isTaken_numberOf
  rwa [Tree.value?_some] at htaken

/-- The text of a document is taken for the value of the document, unless it holds an integer of too
many digits. -/
theorem Derives.isTaken {cs : List Char} {D : Document} (h : Derives cs D) (half : Option Char) :
    IsTaken half cs D.toValue? := by
  have htaken := DerivesBy.isTaken (f := fun n => if n.isShort then some n.toValue else none)
    (fun cs n hcs => hcs ▸ isTaken_number half n) h.mono
  rwa [Tree.value?_ite] at htaken

/-- A JSON text is loaded as the value of its document, unless it holds an integer of too many
digits. -/
theorem load_of_isTextOf {cs : List Char} {D : Document} (h : IsTextOf cs D) :
    load none cs = .ok D.toValue? := by
  obtain ⟨s, rfl, rfl, hderives⟩ := h
  exact load_render hderives.isTaken

end StagedTable.Json
