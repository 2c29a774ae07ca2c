import StagedTable.Proofs.Value.JsonGrammar
import StagedTable.Proofs.Value.JsonText

/-!
# JSON written again

A document is read as a value, and the value is written as JSON again. What is written then is the
text of a document that says the same, but for the numbers with a fraction or an exponent: each of
them has become the shortest decimal number that reads as its nearest double (`Rewrites`). Nothing
is lost where all of them have that form already. The document must be within the range of the
doubles (`exists_rewriting`).
-/

namespace StagedTable

/-- The number that is written for a finite double. -/
def FiniteDouble.written (x : FiniteDouble) : ℚ :=
  if x.negative then -x.writtenMagnitude else x.writtenMagnitude

namespace Json

open Text

/-! ### Numbers -/

namespace SignedNumeral

/-- The number that becomes of a number: an integer stays as it is, and any other becomes the
shortest decimal number that reads as its nearest double. -/
def rounded (n : SignedNumeral) : ℚ :=
  if n.isInteger then n.value
  else
    match n.toDouble with
    | .finite x => x.written
    | _ => n.value

/-- Whether the number stays as it is. -/
def isKept (n : SignedNumeral) : Bool := decide (n.rounded = n.value)

theorem value_of_isInteger {n : SignedNumeral} (h : n.isInteger = true) : n.value = n.integer := by
  obtain ⟨hfraction, hexponent⟩ := n.isInteger_iff.1 h
  have hscaled : n.scaled.value = ofDigits n.whole := by
    simp [Scaled.value, WrittenNumeral.scaled, WrittenNumeral.exponentValue, hfraction, hexponent]
  rw [value, integer, hscaled]
  split <;> simp

/-- An integer in its digits. -/
def ofInt (k : Int) : SignedNumeral :=
  { writtenDigits k.natAbs with negative := decide (k < 0) }

theorem render_ofInt (k : Int) : (ofInt k).render = signedDigits k := (signedDigits_eq k).symm

theorem value_ofInt (k : Int) : (ofInt k).value = k := by
  have hinteger : (ofInt k).integer = k := by
    simp only [ofInt, integer, writtenDigits, ofDigits_digits, decide_eq_true_eq]
    omega
  rw [value_of_isInteger rfl, hinteger]

/-- A number within the range of the doubles is written again as the number that becomes of it. -/
theorem exists_render {n : SignedNumeral} (h : n.inRange = true) :
    ∃ m : SignedNumeral, n.toValue.json = m.render ∧ m.value = n.rounded := by
  by_cases hint : n.isInteger = true
  · refine ⟨ofInt n.integer, ?_, ?_⟩
    · rw [toValue, if_pos hint, render_ofInt, Value.json, print]
    · rw [value_ofInt, rounded, if_pos hint, value_of_isInteger hint]
  · cases hdouble : n.toDouble with
    | finite x =>
      obtain ⟨w, -, htext, hvalue⟩ := x.exists_numeral
      refine ⟨{ w with negative := x.negative }, ?_, ?_⟩
      · rw [toValue, if_neg hint, hdouble, Value.json, print_finite, htext]
        rfl
      · simp only [rounded, if_neg hint, hdouble, value, FiniteDouble.written, hvalue]
    | infinite _ | nan => simp [inRange, hint, hdouble, Double.isFinite] at h

end SignedNumeral

/-! ### Documents -/

/-- Whether all numbers in a document stay as they are. -/
def Tree.isKept (D : Document) : Bool := D.all SignedNumeral.isKept

/-- Whether a document is what becomes of another one when it is read and written again. -/
structure Rewrites (D E : Document) : Prop where
  rounded : E.content SignedNumeral.value = D.content SignedNumeral.rounded
  same_of_isKept : D.isKept = true → SameDocument D E

theorem rewrites_of_rounded {D E : Document}
    (h : E.content SignedNumeral.value = D.content SignedNumeral.rounded) : Rewrites D E where
  rounded := h
  same_of_isKept := by
    intro hkept
    have hcongr := Tree.content_congr (fun n hn => of_decide_eq_true hn) hkept
    exact hcongr.symm.trans h.symm

instance {ν : Type} : Inhabited (Tree ν) := ⟨.null⟩

/-- A written array is derived from its written items. -/
theorem derives_list {items : List Document} {E : Document → Document}
    (h : ∀ t ∈ items, Derives t.toValue.json (E t)) :
    Derives (Value.list (items.map Tree.toValue)).json (.array (items.map E)) := by
  have hslots : ∀ s ∈ items.map fun t => Slot.bare t.toValue.json (E t),
      Derives s.text s.content := by
    intro s hs
    obtain ⟨t, ht, rfl⟩ := List.mem_map.1 hs
    exact h t ht
  rw [Value.json, print_list]
  by_cases hnil : items = []
  · rw [hnil]
    exact .emptyArray isSpace_nil
  · have hderives := DerivesBy.array _ (by simpa using hnil) hslots
    simpa only [List.map_map, Function.comp_def, Slot.render_bare, Slot.content_bare,
      Value.json] using hderives

/-- A written object is derived from its written fields. -/
theorem derives_document {fields : List (String × Document)} {E : String × Document → Document}
    (h : ∀ f ∈ fields, Derives f.2.toValue.json (E f)) :
    Derives (Value.document (fields.map fun f => (f.1, f.2.toValue))).json
      (.object (fields.map fun f => (f.1, E f))) := by
  have hmembers : ∀ m ∈ fields.map fun f => Member.bare none f.1 f.2.toValue.json (E f),
      Derives m.text m.content := by
    intro m hm
    obtain ⟨f, hf, rfl⟩ := List.mem_map.1 hm
    exact h f hf
  rw [Value.json, print_document]
  by_cases hnil : fields = []
  · rw [hnil]
    exact .emptyObject isSpace_nil
  · have hderives := DerivesBy.object _ (by simpa using hnil) hmembers
    simpa only [List.map_map, Function.comp_def, Member.render_bare, Member.name_bare,
      Member.toSlot_bare, Slot.content_bare, Value.json] using hderives

/-- Of the fields of an object only those are left that are found when they are put one by one. -/
theorem mem_of_mem_putAll {fields : List (String × Document)} {f : String × Document}
    (h : f ∈ Assoc.putAll [] fields) : f ∈ fields :=
  (Assoc.mem_putAll h).resolve_left List.not_mem_nil

/-- An object is written again with the fields that are left. -/
theorem derives_object {fields : List (String × Document)} {E : String × Document → Document}
    (h : ∀ f ∈ fields, Derives f.2.toValue.json (E f)) :
    Derives (Tree.toValue (.object fields)).json
      (.object ((Assoc.putAll [] fields).map fun f => (f.1, E f))) := by
  have hvalue := Assoc.putAll_map Tree.toValue [] fields
  rw [List.map_nil] at hvalue
  rw [Tree.toValue_object, hvalue]
  exact derives_document fun f hf => h f (mem_of_mem_putAll hf)

/-- The fields that are left say what all fields said, if each of them says what it said. -/
theorem content_object_rounded {fields : List (String × Document)}
    {E : String × Document → Document}
    (h : ∀ f ∈ fields, (E f).content SignedNumeral.value = f.2.content SignedNumeral.rounded) :
    Tree.content SignedNumeral.value (.object ((Assoc.putAll [] fields).map fun f => (f.1, E f)))
      = Tree.content SignedNumeral.rounded (.object fields) := by
  have hrounded := Assoc.putAll_map (Tree.content SignedNumeral.rounded) [] fields
  rw [List.map_nil] at hrounded
  have hfields : ((Assoc.putAll [] fields).map fun f => (f.1, E f)).map
        (fun f => (f.1, f.2.content SignedNumeral.value))
      = Assoc.putAll [] (fields.map fun f => (f.1, f.2.content SignedNumeral.rounded)) := by
    rw [hrounded, List.map_map]
    exact List.map_congr_left fun f hf => congrArg (f.1, ·) (h f (mem_of_mem_putAll hf))
  rw [Tree.content_object, Tree.content_object, hfields, Assoc.putAll_putAll]

/-- A document within the range of the doubles, read and written again, has become a document that
says the same but for the rounding of numbers. -/
theorem exists_rounded {D : Document} (h : D.inRange = true) :
    ∃ E, Derives D.toValue.json E
      ∧ E.content SignedNumeral.value = D.content SignedNumeral.rounded := by
  induction D using Tree.induct with
  | null => exact ⟨.null, .null, rfl⟩
  | bool b => exact ⟨.bool b, .bool b, rfl⟩
  | number n =>
    obtain ⟨m, htext, hvalue⟩ := SignedNumeral.exists_render h
    exact ⟨.number m, .number htext, congrArg Tree.number hvalue⟩
  | string s => exact ⟨.string s, .string (isString_string s.toList), rfl⟩
  | array items ih =>
    rw [Tree.inRange, Tree.all_array, List.all_eq_true] at h
    choose! E hderives hcontent using fun t ht => ih t ht (h t ht)
    refine ⟨.array (items.map E), ?_, ?_⟩
    · rw [Tree.toValue_array]
      exact derives_list hderives
    · rw [Tree.content_array, Tree.content_array, List.map_map]
      exact congrArg Tree.array (List.map_congr_left hcontent)
  | object fields ih =>
    rw [Tree.inRange, Tree.all_object, List.all_eq_true] at h
    choose! E hderives hcontent using fun f hf => ih f hf (h f hf)
    exact ⟨_, derives_object hderives, content_object_rounded hcontent⟩

/-- A document within the range of the doubles is rewritten when it is read and written again. -/
theorem exists_rewriting {D : Document} (h : D.inRange = true) :
    ∃ E, Derives D.toValue.json E ∧ Rewrites D E := by
  obtain ⟨E, hderives, hrounded⟩ := exists_rounded h
  exact ⟨E, hderives, rewrites_of_rounded hrounded⟩

end Json

end StagedTable
