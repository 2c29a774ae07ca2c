import StagedTable.Proofs.Value.JsonReading
import StagedTable.Proofs.Value.Cell
import StagedTable.Value.Text

/-!
# Reading back written JSON

The text that writing makes of a value has the parts that the reader takes: strings are spelled
(`isString_string`), numbers are written numerals, and items and fields stand between commas without
white space (`Slot.bare`, `Member.bare`). So reading takes exactly the text of a readable value,
whatever follows it (`isTaken_print`), and the JSON text of the value reads as the value
(`read_json`), but for the objects of not-a-number: they are all read as one (`Value.reread`).
-/

namespace StagedTable

open Text

/-! ### Objects -/

namespace Value

mutual

/-- The value that is read from the text of a value: the same, with the one object that is read for
not-a-number in the place of any other. -/
def reread : Value → Value
  | .float (.nan _) => .float Json.notANumber
  | .list items => .list (rereadItems items)
  | .document fields => .document (rereadFields fields)
  | v => v

@[inherit_doc reread]
def rereadItems : List Value → List Value
  | [] => []
  | v :: rest => v.reread :: rereadItems rest

@[inherit_doc reread]
def rereadFields : List (String × Value) → List (String × Value)
  | [] => []
  | (name, v) :: rest => (name, v.reread) :: rereadFields rest

end

theorem rereadItems_eq_map (items : List Value) : rereadItems items = items.map reread := by
  induction items with
  | nil => rfl
  | cons v rest ih => rw [rereadItems, ih, List.map_cons]

theorem rereadFields_eq_map (fields : List (String × Value)) :
    rereadFields fields = fields.map fun field => (field.1, field.2.reread) := by
  induction fields with
  | nil => rfl
  | cons field rest ih => rw [rereadFields, ih, List.map_cons]

variable {int : Int → Prop} {float : Double → Prop} {v : Value}

theorem reread_float {x : Double} (h : x.isNan = false) :
    (Value.float x).reread = .float x := by
  cases x with
  | nan object => cases h
  | _ => rfl

/-- Where there is no not-a-number the same value is read. -/
theorem IsCellOf.reread_eq_self (h : v.IsCellOf int (·.isNan = false)) : v.reread = v := by
  induction h with
  | float x hx => exact reread_float hx
  | list items _ ih =>
    rw [reread, rereadItems_eq_map, List.map_congr_left (g := id) ih, List.map_id]
  | document fields _ _ ih =>
    have hfields : ∀ field ∈ fields, (field.1, field.2.reread) = id field :=
      fun field hfield => by rw [ih field hfield]; rfl
    rw [reread, rereadFields_eq_map, List.map_congr_left hfields, List.map_id]
  | _ => rfl

/-- What is read is written as before. -/
theorem IsCellOf.print_reread (h : v.IsCellOf int float) (sorted : Bool) :
    Json.print sorted v.reread = Json.print sorted v := by
  induction h with
  | float x _ =>
    cases x with
    | nan object => rw [reread, Json.print, Json.print]; rfl
    | _ => rfl
  | list items _ ih =>
    rw [reread, Json.print, Json.print, Json.printItems_eq_map, Json.printItems_eq_map,
      rereadItems_eq_map, List.map_map, Function.comp_def, List.map_congr_left ih]
  | document fields _ _ ih =>
    have hfields : (rereadFields fields).map (fun f => (f.1, Json.print sorted f.2))
        = fields.map fun f => (f.1, Json.print sorted f.2) := by
      rw [rereadFields_eq_map, List.map_map]
      exact List.map_congr_left fun f hf => congrArg (f.1, ·) (ih f hf)
    rw [reread, Json.print, Json.print, Json.printFields_eq_map, Json.printFields_eq_map, hfields]
  | _ => rfl

@[inherit_doc IsCellOf.print_reread]
theorem IsCellOf.plainText_reread (h : v.IsCellOf int float) : v.reread.plainText = v.plainText := by
  cases h with
  | float x _ => cases x <;> rfl
  | list items hitems => exact IsCellOf.print_reread (.list items hitems) false
  | document fields hnodup hfields =>
    exact IsCellOf.print_reread (.document fields hnodup hfields) false
  | _ => rfl

theorem IsCellOf.reread (h : v.IsCellOf int fun _ => True) :
    v.reread.IsCellOf int fun _ => True := by
  induction h with
  | null => exact .null
  | bool b => exact .bool b
  | int n hn => exact .int n hn
  | float x _ => cases x <;> exact .float _ trivial
  | text s => exact .text s
  | list items _ ih =>
    rw [Value.reread, rereadItems_eq_map]
    refine .list _ fun w hw => ?_
    obtain ⟨u, hu, rfl⟩ := List.mem_map.1 hw
    exact ih u hu
  | document fields hnodup _ ih =>
    rw [Value.reread, rereadFields_eq_map]
    refine .document _ ?_ fun field hfield => ?_
    · rwa [Assoc.keys, List.map_map]
    · obtain ⟨f, hf, rfl⟩ := List.mem_map.1 hfield
      exact ih f hf

end Value

namespace Json

open Value

variable {half : Option Char}

/-! ### Strings -/

/-- A control of ASCII is escaped in the hexadecimal digits of its one code unit. -/
theorem exists_hexDigits : ∀ n : Fin 0x20, ∃ a b i j, hexDigits 4 n = ['0', '0', a, b]
    ∧ hexValue? a = some i ∧ hexValue? b = some j ∧ i * 16 + j = n.val := by
  intro n
  refine ⟨(n.val / 16).digitChar, (n.val % 16).digitChar, n.val / 16, n.val % 16, ?_⟩
  revert n
  decide

theorem escapesUnit_hexDigits (n : Fin 0x20) : EscapesUnit ('\\' :: 'u' :: hexDigits 4 n) n := by
  obtain ⟨a, b, i, j, hdigits, ha, hb, hvalue⟩ := exists_hexDigits n
  have hunit : EscapesUnit ['\\', 'u', '0', '0', a, b] (((0 * 16 + 0) * 16 + i) * 16 + j) :=
    .intro rfl rfl ha hb
  have hn : ((0 * 16 + 0) * 16 + i) * 16 + j = n.val := by omega
  rw [hdigits, ← hn]
  exact hunit

/-- Every character is written as one that is spelled. -/
theorem spells_escapeChar (c : Char) : Spells (escapeChar c) (codeUnits c) := by
  have hshort : ∀ {e d : Char}, (e, d) ∈ shortEscapes → d.toNat < 0x10000 →
      Spells ['\\', e] (codeUnits d) := by
    intro e d hmem hlow
    rw [codeUnits, if_pos hlow]
    exact .short hmem
  unfold escapeChar
  split
  iterate 7 exact hshort (by decide) (by decide)
  · next hquote hslash _ _ _ _ _ =>
    split
    · next hlow =>
      rw [codeUnits, if_pos (by omega)]
      exact .unit (escapesUnit_hexDigits ⟨c.toNat, hlow⟩)
    · next hhigh => exact .plain c (by omega) hquote hslash

theorem isString_string (s : List Char) : IsString half (string s) s := by
  refine ⟨s.map escapeChar, s.map codeUnits, ?_, ?_, rfl⟩
  · rw [List.forall₂_map_left_iff, List.forall₂_map_right_iff, List.forall₂_same]
    exact fun c _ => spells_escapeChar c
  · rw [← List.flatMap_def]
    exact encodes_flatMap s

/-! ### Lists and documents -/

/-- A member without white space, its name as it is written. -/
def Member.bare (half : Option Char) (name : String) (text : List Char) (content : α) :
    Member half α where
  toSlot := .bare text content
  beforeName := []
  nameText := string name.toList
  afterName := []
  name := name
  isSpace_beforeName := isSpace_nil
  isSpace_afterName := isSpace_nil
  isString := isString_string name.toList

@[simp] theorem Member.toSlot_bare (name : String) (text : List Char) (content : α) :
    (Member.bare half name text content).toSlot = .bare text content := rfl

@[simp] theorem Member.name_bare (name : String) (text : List Char) (content : α) :
    (Member.bare half name text content).name = name := rfl

@[simp] theorem Member.render_bare (name : String) (text : List Char) (content : α) :
    (Member.bare half name text content).render = string name.toList ++ ':' :: text := by
  simp [render, bare]

/-- A written list is made of its written items. -/
theorem print_list (items : List Value) :
    print false (.list items) = enclosed '[' ']' (items.map (print false)) := by
  rw [print, bracketed, printItems_eq_map, enclosed]

/-- A written document is made of its written fields. -/
theorem print_document (fields : List (String × Value)) :
    print false (.document fields)
      = enclosed '{' '}' (fields.map fun f => string f.1.toList ++ ':' :: print false f.2) := by
  rw [print, printFields_eq_map, if_neg Bool.false_ne_true, braced, List.map_map, enclosed]
  rfl

/-! ### Values -/

theorem print_finite (x : FiniteDouble) : print false (.float (.finite x)) = x.text := by
  rw [print]
  rfl

theorem isTaken_int {n : Int} (hn : IsShort n) :
    IsTaken half (print false (.int n)) (some (.int n)) := by
  have h := isTaken_numeral half (decide (n < 0)) (writtenDigits n.natAbs)
  have hvalue : integerOfDigits? (decide (n < 0)) (writtenDigits n.natAbs).whole = some n :=
    integerOfDigits?_digits hn
  rw [← signedDigits_eq, if_pos ⟨rfl, rfl⟩, hvalue] at h
  rwa [print]

theorem isTaken_float (x : Double) :
    IsTaken half (print false (.float x)) (some (Value.float x).reread) := by
  cases x with
  | finite x =>
    obtain ⟨w, hfloat, htext, hvalue⟩ := x.exists_written
    have h := isTaken_numeral half x.negative w
    rw [if_neg hfloat.not_integer, hvalue, ← htext] at h
    rwa [print_finite]
  | infinite negative =>
    cases negative with
    | false => exact isTaken_name (.tail _ (.tail _ (.tail _ (.tail _ (.head _)))))
    | true => exact isTaken_name (.tail _ (.tail _ (.tail _ (.tail _ (.tail _ (.head _))))))
  | nan object =>
    rw [print]
    exact isTaken_name (.tail _ (.tail _ (.tail _ (.head _))))

theorem isTaken_list {items : List Value}
    (h : ∀ v ∈ items, IsTaken half (print false v) (some v.reread)) :
    IsTaken half (print false (.list items)) (some (Value.list items).reread) := by
  rw [print_list, reread, rereadItems_eq_map]
  cases items with
  | nil => exact isTaken_emptyArray isSpace_nil
  | cons v rest =>
    have hitems : ∀ i ∈ (v :: rest).map fun v => Slot.bare (print false v) v.reread,
        IsTaken half i.text (some i.content) := by
      intro i hi
      obtain ⟨w, hw, rfl⟩ := List.mem_map.1 hi
      exact h w hw
    have htaken := isTaken_array some (by simp) hitems
    rw [List.mapM_map, List.map_map] at htaken
    simpa only [Function.comp_def, Slot.content_bare, Slot.render_bare, mapM_some,
      Option.map_some] using htaken

theorem isTaken_document {fields : List (String × Value)} (hnodup : (Assoc.keys fields).Nodup)
    (h : ∀ f ∈ fields, IsTaken half (print false f.2) (some f.2.reread)) :
    IsTaken half (print false (.document fields)) (some (Value.document fields).reread) := by
  rw [print_document, reread, rereadFields_eq_map]
  cases fields with
  | nil => exact isTaken_emptyObject isSpace_nil
  | cons f rest =>
    have hmembers : ∀ m ∈ (f :: rest).map fun f => Member.bare half f.1 (print false f.2) f.2.reread,
        IsTaken half m.text (some m.content) := by
      intro m hm
      obtain ⟨g, hg, rfl⟩ := List.mem_map.1 hm
      exact h g hg
    have htaken := isTaken_object some (by simp) hmembers
    -- the fields have different names, and putting them one by one keeps them all
    have hputs : Assoc.putAll [] ((f :: rest).map fun f => (f.1, f.2.reread))
        = (f :: rest).map fun f => (f.1, f.2.reread) := by
      refine Assoc.putAll_eq_append ?_
      rw [List.nil_append, Assoc.keys, List.map_map]
      exact hnodup
    rw [List.mapM_map, List.map_map] at htaken
    simpa only [Function.comp_def, Member.toSlot_bare, Member.name_bare, Slot.content_bare,
      Member.render_bare, Option.map_some, mapM_some, hputs] using htaken

/-- The text of a readable value is taken as the value. -/
theorem isTaken_print (half : Option Char) {v : Value} (h : v.IsReadable) :
    IsTaken half (print false v) (some v.reread) := by
  induction h with
  | null => exact isTaken_name (.head _)
  | bool b =>
    cases b with
    | true => exact isTaken_name (.tail _ (.head _))
    | false => exact isTaken_name (.tail _ (.tail _ (.head _)))
  | int n hn => exact isTaken_int hn
  | float x _ => exact isTaken_float x
  | text s => exact isTaken_string (isString_string s.toList)
  | list items _ ih => exact isTaken_list ih
  | document fields hnodup _ ih => exact isTaken_document hnodup ih

/-- The JSON text of a readable value reads as the value. -/
theorem load_json {v : Value} (h : v.IsReadable) : load none v.json = .ok (some v.reread) := by
  have hload := load_render (s := .bare v.json v.reread) fun half => isTaken_print half h
  rwa [Slot.render_bare] at hload

@[inherit_doc load_json]
theorem read_json {v : Value} (h : v.IsReadable) : Json.read v.json = some v.reread :=
  read_of_load (load_json h)

end Json

end StagedTable
