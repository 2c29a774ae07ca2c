import StagedTable.Proofs.Value.Comparison
import StagedTable.Proofs.Value.JsonText

/-!
# The text of sorted documents

Lists and documents are compared by their JSON texts with the fields of all documents sorted by
name. The texts are the same exactly if the contents are (`alike_iff_sameContent`): the same
structure, the same names, and the same leaves, numbers by kind and text. The comparison tells this
of all values whose integers are within the limit on digits, and fails for all others
(`compare_documents`).

The texts are taken apart from the left. What is written for a value comes to an end by itself or
before a character that ends a value, so that from two texts that are the same, whatever follows,
the values can be told and the rests agree (`Separates`). For a list and for a document this goes
from part to part (`separates_enclosed`), and so for all values by induction (`separates_print`).
The texts are taken for integers of any size, as if there were no limit on their digits.
-/

namespace StagedTable

open Text

/-! ### The same content -/

/-- Whether fields are those of a document in the order of their names. -/
structure IsSorted (fields sorted : List (String × Value)) : Prop where
  perm : sorted.Perm fields
  ordered : (Assoc.keys sorted).Pairwise (· < ·)

/-- Whether two values are the same but for the order of fields: numbers of the same kind and text,
lists with the same content place by place, and documents that have the same names and under them
the same content once their fields are sorted. -/
inductive Value.SameContent : Value → Value → Prop
  | null : SameContent .null .null
  | bool (b : Bool) : SameContent (.bool b) (.bool b)
  | int (n : Int) : SameContent (.int n) (.int n)
  | float {x y : Double} : x.text = y.text → SameContent (.float x) (.float y)
  | text (s : String) : SameContent (.text s) (.text s)
  | list {items others : List Value} : List.Forall₂ SameContent items others →
      SameContent (.list items) (.list others)
  | document {fields others sorted sorted' : List (String × Value)} :
      IsSorted fields sorted → IsSorted others sorted' →
      Assoc.keys sorted = Assoc.keys sorted' →
      List.Forall₂ SameContent (sorted.map (·.2)) (sorted'.map (·.2)) →
      SameContent (.document fields) (.document others)

/-! ### Sorting by name -/

section

variable {fields sorted : List (String × Value)}

theorem isSorted_sortedByName (h : (Assoc.keys fields).Nodup) :
    IsSorted fields (Json.sortedByName fields) := by
  have hle : ∀ a b : String × Value, (!decide (b.1 < a.1)) = true ↔ a.1 ≤ b.1 := by
    intro a b
    rw [Bool.not_eq_true', decide_eq_false_iff_not]
    exact Iff.rfl
  have hperm : (Json.sortedByName fields).Perm fields := List.mergeSort_perm ..
  have hordered : (Json.sortedByName fields).Pairwise fun a b => a.1 ≤ b.1 := by
    refine (List.pairwise_mergeSort (fun a b c hab hbc => ?_) (fun a b => ?_) fields).imp
      fun hab => (hle _ _).1 hab
    · exact (hle a c).2 (String.le_trans ((hle a b).1 hab) ((hle b c).1 hbc))
    · rw [Bool.or_eq_true, hle, hle]
      exact String.le_total _ _
  have hdiffer : (Json.sortedByName fields).Pairwise fun a b => a.1 ≠ b.1 :=
    List.pairwise_map.1 ((hperm.map _).nodup_iff.2 h)
  refine ⟨hperm, List.pairwise_map.2 ((hordered.and hdiffer).imp fun hab => ?_)⟩
  exact Decidable.byContradiction fun hlt => hab.2 (String.le_antisymm hab.1 hlt)

/-- Fields have one order only in which their names go up. -/
theorem IsSorted.eq_sortedByName (h : IsSorted fields sorted) :
    sorted = Json.sortedByName fields := by
  have hdiffer : (Assoc.keys sorted).Nodup := by
    refine h.ordered.imp ?_
    rintro a b hab rfl
    exact String.lt_irrefl a hab
  have hown := isSorted_sortedByName ((h.perm.map _).nodup_iff.1 hdiffer)
  have hantisymm : ∀ a b : String × Value, a ∈ sorted → b ∈ Json.sortedByName fields →
      a.1 < b.1 → b.1 < a.1 → a = b := by
    intro a b _ _ hab hba
    exact absurd (String.lt_trans hab hba) (String.lt_irrefl _)
  exact List.Perm.eq_of_pairwise hantisymm (List.pairwise_map.1 h.ordered)
    (List.pairwise_map.1 hown.ordered) (h.perm.trans hown.perm.symm)

end

namespace Json

open Value

/-! ### Texts that can be told apart -/

/-- Whether a text does not run on into a value that it follows: it is empty, or goes on with the
end of an item, a list or a document. -/
def EndsValue (cs : List Char) : Prop := ∀ c r, cs = c :: r → c = ',' ∨ c = ']' ∨ c = '}'

theorem endsValue_nil : EndsValue [] := by
  intro c r h
  cases h

theorem endsValue_cons {c : Char} (h : c = ',' ∨ c = ']' ∨ c = '}') (r : List Char) :
    EndsValue (c :: r) := by
  rintro d t ⟨⟩
  exact h

variable {α : Type} {text : α → List Char} {R : α → α → Prop} {a b : α}

/-- Whether the texts of two things, with more text behind, are the same only if the things are
related, and then what is behind is the same. -/
def Separates (text : α → List Char) (R : α → α → Prop) (a b : α) : Prop :=
  ∀ r s, EndsValue r → EndsValue s → text a ++ r = text b ++ s → R a b ∧ r = s

/-- The texts of things behind the first one, each behind a comma, up to a closing character. -/
theorem separates_rest {last : Char} (hlast : last = ']' ∨ last = '}') {as bs : List α}
    {r s : List Char} (h : ∀ a ∈ as, ∀ b ∈ bs, Separates text R a b)
    (htext : as.flatMap (',' :: text ·) ++ last :: r = bs.flatMap (',' :: text ·) ++ last :: s) :
    List.Forall₂ R as bs ∧ r = s := by
  have hcomma : ',' ≠ last := by rcases hlast with rfl | rfl <;> decide
  have hends : ∀ (cs : List α) (t : List Char),
      EndsValue (cs.flatMap (',' :: text ·) ++ last :: t) := by
    intro cs t
    cases cs with
    | nil => exact endsValue_cons (.inr hlast) t
    | cons c rest => exact endsValue_cons (.inl rfl) _
  induction as generalizing bs with
  | nil =>
    cases bs with
    | nil => exact ⟨.nil, (List.cons.inj htext).2⟩
    | cons b bs => exact absurd (List.cons.inj htext).1.symm hcomma
  | cons a as ih =>
    cases bs with
    | nil => exact absurd (List.cons.inj htext).1 hcomma
    | cons b bs =>
      simp only [List.flatMap_cons, List.cons_append, List.append_assoc, List.cons.injEq,
        true_and] at htext
      obtain ⟨hab, hrest⟩ := h a (.head _) b (.head _) _ _ (hends as r) (hends bs s) htext
      obtain ⟨htail, hrs⟩ := ih (fun c hc d hd => h c (.tail _ hc) d (.tail _ hd)) hrest
      exact ⟨.cons hab htail, hrs⟩

/-- Parts with commas between them are parts behind commas but for the first comma. -/
theorem cons_intercalate (a : α) (as : List α) :
    ',' :: List.intercalate [','] ((a :: as).map text) = (a :: as).flatMap (',' :: text ·) := by
  induction as generalizing a with
  | nil => simp
  | cons b as ih =>
    rw [List.flatMap_cons, ← ih b]
    simp [List.intercalate_cons_cons]

/-- Things between two brackets are told apart one by one, if no text starts with the closing
bracket. -/
theorem separates_enclosed {first last : Char} (hlast : last = ']' ∨ last = '}') {as bs : List α}
    (h : ∀ a ∈ as, ∀ b ∈ bs, Separates text R a b)
    (hstart : ∀ a ∈ as ++ bs, ∃ c r, text a = c :: r ∧ c ≠ last) {r s : List Char}
    (htext : enclosed first last (as.map text) ++ r = enclosed first last (bs.map text) ++ s) :
    List.Forall₂ R as bs ∧ r = s := by
  have hinner : List.intercalate [','] (as.map text) ++ last :: r
      = List.intercalate [','] (bs.map text) ++ last :: s := by
    simpa [enclosed] using htext
  -- what is written for something is not the end of nothing
  have hne : ∀ (c : α) (cs : List α) (t t' : List Char), c ∈ as ++ bs →
      List.intercalate [','] ((c :: cs).map text) ++ t ≠ last :: t' := by
    intro c cs t t' hc heq
    obtain ⟨d, u, hd, hdlast⟩ := hstart c hc
    cases cs with
    | nil =>
      rw [List.map_cons, List.map_nil, List.intercalate_singleton, hd] at heq
      exact hdlast (List.cons.inj heq).1
    | cons c' cs =>
      rw [List.map_cons, List.map_cons, List.intercalate_cons_cons, hd] at heq
      exact hdlast (List.cons.inj heq).1
  cases as with
  | nil =>
    cases bs with
    | nil => exact ⟨.nil, (List.cons.inj hinner).2⟩
    | cons b bs => exact absurd hinner.symm (hne b bs _ _ (.head _))
  | cons a as =>
    cases bs with
    | nil => exact absurd hinner (hne a as _ _ (.head _))
    | cons b bs =>
      refine separates_rest hlast h ?_
      rw [← cons_intercalate, ← cons_intercalate, List.cons_append, List.cons_append, hinner]

/-! ### Texts -/

theorem separates_string {t u : String} {r s : List Char}
    (h : string t.toList ++ r = string u.toList ++ s) : t = u ∧ r = s := by
  have hread : ∀ (t : String) (r : List Char), ∃ cs, string t.toList ++ r = '"' :: cs
      ∧ readString none cs = some (t.toList, r) := by
    intro t r
    obtain ⟨body, htext, hread⟩ := readString_of_isString (isString_string t.toList)
    exact ⟨body ++ r, by rw [htext, List.cons_append], hread r⟩
  obtain ⟨cs, ht, hcs⟩ := hread t r
  obtain ⟨ds, hu, hds⟩ := hread u s
  rw [ht, hu] at h
  cases (List.cons.inj h).2
  rw [hcs, Option.some.injEq, Prod.mk.injEq, String.toList_inj] at hds
  exact hds

/-! ### Null, booleans and numbers -/

/-- Whether a value is null, a boolean or a number. -/
def isScalar : Value → Bool
  | .null | .bool _ | .int _ | .float _ => true
  | _ => false

/-- Whether a character is none of those that open or close a text, a list, a document or one of
its parts. -/
def isBare (c : Char) : Bool :=
  !(c == '"' || c == '[' || c == ']' || c == '{' || c == '}' || c == ',')

/-- Whether a character occurs in integers. -/
def isIntegral (c : Char) : Bool := isDigit c || c == '-'

theorem all_signedDigits {p : Char → Bool} (hdigit : ∀ c, isDigit c = true → p c = true)
    (hminus : p '-' = true) (n : Int) : (signedDigits n).all p = true := by
  have hdigits : ∀ n, (digits n).all p = true := fun n =>
    List.all_eq_true.2 fun c hc => hdigit c (isDigit_of_mem_digits hc)
  cases n with
  | ofNat n => exact hdigits n
  | negSucc n =>
    rw [signedDigits, List.all_cons, hminus, hdigits]
    rfl

theorem signedDigits_injective {m n : Int} (h : signedDigits m = signedDigits n) : m = n := by
  have hne : ∀ k l, digits k ≠ '-' :: digits l := by
    intro k l he
    have hdigit : isDigit '-' = true := isDigit_of_mem_digits (n := k) (he ▸ .head _)
    cases hdigit
  have hdigits : ∀ {k l}, digits k = digits l → k = l := by
    intro k l he
    rw [← ofDigits_digits k, he, ofDigits_digits]
  cases m with
  | ofNat m =>
    cases n with
    | ofNat n => rw [hdigits h]
    | negSucc n => exact absurd h (hne m _)
  | negSucc m =>
    cases n with
    | ofNat n => exact absurd h.symm (hne n _)
    | negSucc n => rw [Nat.succ.inj (hdigits (List.cons.inj h).2)]

end Json

namespace WrittenNumeral

variable (w : WrittenNumeral)

theorem all_render {p : Char → Bool} (hdigit : ∀ c, isDigit c = true → p c = true)
    (hsigns : ∀ c ∈ ['.', 'e', 'E', '+', '-'], p c = true) : w.render.all p = true := by
  have hwhole : w.whole.all p = true :=
    List.all_eq_true.2 fun c hc => hdigit c (w.isDigit_whole c hc)
  have hfraction : w.fractionText.all p = true := by
    unfold fractionText
    split
    · rfl
    · rw [List.all_cons, hsigns '.' (by simp), Bool.true_and]
      exact List.all_eq_true.2 fun c hc => hdigit c (w.isDigit_fraction c hc)
  have hexponent : w.exponentText.all p = true := by
    unfold exponentText
    split
    · rfl
    · next e _ =>
      have hletter : p e.letter = true := by
        rcases e.letter_eq with he | he <;> rw [he] <;> exact hsigns _ (by simp)
      have hsign : e.signText.all p = true := by
        unfold WrittenExponent.signText
        split
        · rfl
        all_goals simp [hsigns]
      have hdigits : e.digits.all p = true :=
        List.all_eq_true.2 fun c hc => hdigit c (e.isDigit c hc)
      rw [WrittenExponent.render, List.all_cons, List.all_append, hletter, hsign, hdigits]
      rfl
  rw [render, List.all_append, List.all_append, hwhole, hfraction, hexponent]
  rfl

/-- A numeral that stands for a double has a point or the letter of an exponent. -/
theorem not_all_isIntegral (h : w.IsFloat) : w.render.all Json.isIntegral = false := by
  rw [List.all_eq_false]
  rcases h with h | h
  · refine ⟨'.', ?_, by decide⟩
    rw [render, fractionText, if_neg h]
    simp
  · obtain ⟨e, he⟩ := Option.isSome_iff_exists.1 h
    refine ⟨e.letter, ?_, ?_⟩
    · rw [render, exponentText, he]
      simp [WrittenExponent.render]
    · rcases e.letter_eq with he | he <;> rw [he] <;> decide

end WrittenNumeral

namespace Json

open Value

variable {v w : Value}

theorem print_eq_json (h : isScalar v = true) (sorted : Bool) : print sorted v = v.json := by
  cases v with
  | null => rw [json, print, print]
  | bool b => rw [json, print, print]
  | int n => rw [json, print, print]
  | float x => rw [json, print, print]
  | _ => cases h

/-- Scalars are written in bare characters. -/
theorem all_isBare_json (h : isScalar v = true) : v.json ≠ [] ∧ v.json.all isBare = true := by
  have hdigit : ∀ c, isDigit c = true → isBare c = true := by
    intro c hc
    have hne : ∀ d, isDigit d = false → (c == d) = false := fun d hd =>
      beq_eq_false_iff_ne.2 (ne_of_isDigit hc hd)
    simp only [isBare, hne _ (show isDigit '"' = false from rfl),
      hne _ (show isDigit '[' = false from rfl), hne _ (show isDigit ']' = false from rfl),
      hne _ (show isDigit '{' = false from rfl), hne _ (show isDigit '}' = false from rfl),
      hne _ (show isDigit ',' = false from rfl)]
    rfl
  cases v with
  | null => rw [json, print]; decide
  | bool b => rw [json, print]; cases b <;> decide
  | int n =>
    rw [json, print]
    refine ⟨?_, all_signedDigits hdigit rfl n⟩
    cases n <;> simp [signedDigits, digits_ne_nil]
  | float x =>
    cases x with
    | finite x =>
      obtain ⟨w, -, hw, -⟩ := x.exists_written
      obtain ⟨c, r, hr, -⟩ := w.exists_head
      rw [json, print_finite, hw, List.all_append, w.all_render hdigit (by simp [isBare])]
      refine ⟨by simp [hr], ?_⟩
      cases x.negative <;> rfl
    | infinite negative => rw [json, print]; cases negative <;> decide
    | nan object =>
      rw [json, print]
      exact ⟨List.cons_ne_nil _ _, rfl⟩
  | _ => cases h

/-- Of all scalars only integers are written in digits and a sign alone. -/
theorem all_isIntegral_json (h : isScalar v = true) :
    v.json.all isIntegral = true ↔ ∃ n, v = .int n := by
  have hinteger : ∀ n, (int n).json.all isIntegral = true := by
    intro n
    rw [json, print]
    exact all_signedDigits (fun c hc => by simp [isIntegral, hc]) rfl n
  constructor
  · intro hall
    cases v with
    | int n => exact ⟨n, rfl⟩
    | null =>
      rw [json, print] at hall
      exact absurd hall (by decide)
    | bool b =>
      rw [json, print] at hall
      cases b <;> exact absurd hall (by decide)
    | float x =>
      rw [json] at hall
      cases x with
      | finite x =>
        obtain ⟨w, hfloat, hw, -⟩ := x.exists_written
        rw [print_finite, hw, List.all_append, w.not_all_isIntegral hfloat, Bool.and_false] at hall
        cases hall
      | infinite negative =>
        rw [print] at hall
        cases negative <;> exact absurd hall (by decide)
      | nan object =>
        rw [print] at hall
        cases hall
    | _ => cases h
  · rintro ⟨n, rfl⟩
    exact hinteger n

/-- Scalars are written alike only if they are read as the same. -/
theorem reread_eq_of_json_eq (hv : isScalar v = true) (hw : isScalar w = true)
    (h : v.json = w.json) : v.reread = w.reread := by
  by_cases hint : ∃ n, v = .int n
  · obtain ⟨m, rfl⟩ := hint
    obtain ⟨n, rfl⟩ := (all_isIntegral_json hw).1 (h ▸ (all_isIntegral_json hv).2 ⟨m, rfl⟩)
    rw [json, json, print, print] at h
    rw [signedDigits_injective h]
  · have hint' : ¬ ∃ n, w = .int n := fun hn =>
      hint ((all_isIntegral_json hv).1 (h ▸ (all_isIntegral_json hw).2 hn))
    -- what is no integer is read back
    have hread : ∀ u : Value, isScalar u = true → (¬ ∃ n, u = .int n) →
        Json.read u.json = some u.reread := by
      intro u hu hn
      refine read_json ?_
      cases u with
      | null => exact .null
      | bool b => exact .bool b
      | int n => exact absurd ⟨n, rfl⟩ hn
      | float x => exact .float x trivial
      | _ => cases hu
    have hv' := hread v hv hint
    rw [h, hread w hw hint'] at hv'
    exact (Option.some.inj hv').symm

/-- What is written for a scalar ends where the bare characters end. -/
theorem takeWhile_isBare (h : isScalar v = true) {r : List Char} (hr : EndsValue r) :
    (print true v ++ r).takeWhile isBare = print true v := by
  have hbare := (all_isBare_json h).2
  have hafter : ∀ c s, r = c :: s → isBare c = false := by
    intro c s hs
    obtain rfl | rfl | rfl := hr c s hs <;> rfl
  rw [print_eq_json h]
  exact (takeWhile_dropWhile_run (List.all_eq_true.1 hbare) hafter).1

theorem separates_scalar (hv : isScalar v = true) (hw : isScalar w = true) :
    Separates (print true) (fun v w => v.reread = w.reread) v w := by
  intro r s hr hs h
  have htext : print true v = print true w := by
    rw [← takeWhile_isBare hv hr, h, takeWhile_isBare hw hs]
  rw [htext] at h
  rw [print_eq_json hv, print_eq_json hw] at htext
  exact ⟨reread_eq_of_json_eq hv hw htext, List.append_cancel_left h⟩

/-- What the text of a double reads as: only finite doubles have one that is JSON. -/
theorem read_text (x : Double) :
    Json.read x.text = if x.isFinite then some (.float x) else none := by
  cases x with
  | finite x =>
    have hread := read_json (v := .float (.finite x)) (.float _ trivial)
    rwa [json, print_finite] at hread
  | infinite negative => cases negative <;> rfl
  | nan object => rfl

/-- Doubles of the same text are written alike as JSON. -/
theorem float_eq_of_text_eq {x y : Double} (h : x.text = y.text) : float x = float y := by
  have hread := read_text x
  rw [h, read_text y] at hread
  cases x with
  | finite x =>
    cases y with
    | finite y => rw [Value.float.inj (Option.some.inj hread)]
    | _ => cases hread
  | infinite negative =>
    cases y with
    | finite y => cases hread
    | infinite negative' => cases negative <;> cases negative' <;> first | rfl | cases h
    | nan object => cases negative <;> cases h
  | nan object =>
    cases y with
    | finite y => cases hread
    | infinite negative => cases negative <;> cases h
    | nan object' => rfl

/-- Scalars that are read as the same have the same content. -/
theorem sameContent_of_reread_eq (hv : isScalar v = true) (hw : isScalar w = true)
    (h : v.reread = w.reread) : v.SameContent w := by
  have htext : ∀ x : Double, ∃ y, (Value.float x).reread = .float y ∧ y.text = x.text := by
    intro x
    cases x with
    | nan object => exact ⟨notANumber, rfl, rfl⟩
    | _ => exact ⟨_, rfl, rfl⟩
  cases v with
  | float x =>
    obtain ⟨x', hx, hxtext⟩ := htext x
    rw [hx] at h
    cases w with
    | float y =>
      obtain ⟨y', hy, hytext⟩ := htext y
      rw [hy] at h
      cases h
      exact .float (hxtext.symm.trans hytext)
    | null | bool _ | int _ => cases h
    | _ => cases hw
  | null | bool _ | int _ =>
    cases w with
    | float y =>
      obtain ⟨y', hy, -⟩ := htext y
      rw [hy] at h
      cases h
    | null | bool _ | int _ => cases h <;> constructor
    | _ => cases hw
  | _ => cases hv

/-! ### The kinds of values -/

/-- The character that opens the text of a text, a list or a document. -/
def opening? : Value → Option Char
  | .text _ => some '"'
  | .list _ => some '['
  | .document _ => some '{'
  | _ => none

theorem print_sorted_list (items : List Value) :
    print true (.list items) = enclosed '[' ']' (items.map (print true)) := by
  rw [print, bracketed, printItems_eq_map, enclosed]

/-- What is written for a field: its name before its value. -/
def fieldText (field : String × Value) : List Char :=
  string field.1.toList ++ ':' :: print true field.2

theorem print_sorted_document (fields : List (String × Value)) :
    print true (.document fields) = enclosed '{' '}' ((sortedByName fields).map fieldText) := by
  have hsort : sortedByName (fields.map fun f => (f.1, print true f.2))
      = (sortedByName fields).map fun f => (f.1, print true f.2) := by
    rw [sortedByName, sortedByName, List.map_mergeSort]
    exact fun _ _ _ _ => rfl
  rw [print, printFields_eq_map, if_pos rfl, hsort, braced, List.map_map, enclosed]
  rfl

/-- The texts of all values begin with a character that tells their kinds apart. -/
theorem exists_head_sorted {v : Value} (h : v.IsProper) : ∃ c r, print true v = c :: r
    ∧ (isScalar v = true ∧ isBare c = true ∨ opening? v = some c) := by
  have hscalar : ∀ v, isScalar v = true → ∃ c r, print true v = c :: r
      ∧ (isScalar v = true ∧ isBare c = true ∨ opening? v = some c) := by
    intro v hv
    obtain ⟨hne, hbare⟩ := all_isBare_json hv
    obtain ⟨c, r, hr⟩ := List.exists_cons_of_ne_nil hne
    rw [hr, List.all_cons, Bool.and_eq_true] at hbare
    exact ⟨c, r, (print_eq_json hv true).trans hr, .inl ⟨hv, hbare.1⟩⟩
  cases h with
  | text s => exact ⟨'"', _, by rw [print, string], .inr rfl⟩
  | list items => exact ⟨'[', _, by rw [print_sorted_list, enclosed], .inr rfl⟩
  | document fields => exact ⟨'{', _, by rw [print_sorted_document, enclosed], .inr rfl⟩
  | _ => exact hscalar _ rfl

/-- Values whose texts begin alike are both scalars, or are texts, lists or documents alike. -/
theorem opening?_eq {a b : Value} (ha : a.IsProper) (hb : b.IsProper) {r s : List Char}
    (h : print true a ++ r = print true b ++ s) : opening? a = opening? b := by
  have hnone : ∀ v, isScalar v = true → opening? v = none := by
    intro v hv
    cases v <;> first | rfl | cases hv
  have hmark : ∀ v c, opening? v = some c → isBare c = false := by
    intro v c hv
    cases v <;> cases hv <;> rfl
  obtain ⟨c, t, hat, hac⟩ := exists_head_sorted ha
  obtain ⟨d, u, hbu, hbd⟩ := exists_head_sorted hb
  rw [hat, hbu, List.cons_append, List.cons_append] at h
  obtain rfl := (List.cons.inj h).1
  rcases hac with ⟨hascalar, hbare⟩ | hac <;> rcases hbd with ⟨hbscalar, hbare'⟩ | hbd
  · rw [hnone a hascalar, hnone b hbscalar]
  · rw [hmark b c hbd] at hbare
    cases hbare
  · rw [hmark a c hac] at hbare'
    cases hbare'
  · rw [hac, hbd]

theorem head_ne_bracket {v : Value} (hv : v.IsProper) :
    ∃ c r, print true v = c :: r ∧ c ≠ ']' := by
  obtain ⟨c, r, hr, hc⟩ := exists_head_sorted hv
  refine ⟨c, r, hr, ?_⟩
  rintro rfl
  rcases hc with ⟨-, hbare⟩ | hopening
  · cases hbare
  · cases v <;> cases hopening

theorem isScalar_of_opening? {v : Value} (hv : v.IsProper) (h : opening? v = none) :
    isScalar v = true := by
  cases hv <;> first | rfl | cases h

/-- A value and a scalar are told apart, or are the same. -/
theorem separates_of_isScalar {a b : Value} (ha : a.IsProper) (hb : b.IsProper)
    (hscalar : isScalar a = true) : Separates (print true) SameContent a b := by
  intro r s hr hs h
  have hopening : opening? b = none := by
    rw [← opening?_eq ha hb h]
    cases a <;> first | rfl | cases hscalar
  have hscalar' := isScalar_of_opening? hb hopening
  obtain ⟨hread, hrs⟩ := separates_scalar hscalar hscalar' r s hr hs h
  exact ⟨sameContent_of_reread_eq hscalar hscalar' hread, hrs⟩

/-! ### Fields -/

/-- Fields of the same names and contents, place by place. -/
theorem forall₂_fields {fields others : List (String × Value)} :
    List.Forall₂ (fun f g => f.1 = g.1 ∧ SameContent f.2 g.2) fields others ↔
      Assoc.keys fields = Assoc.keys others
        ∧ List.Forall₂ SameContent (fields.map (·.2)) (others.map (·.2)) := by
  induction fields generalizing others with
  | nil => cases others <;> simp [Assoc.keys]
  | cons f fields ih =>
    cases others with
    | nil => simp [Assoc.keys]
    | cons g others =>
      rw [List.forall₂_cons, ih]
      simp only [Assoc.keys, List.map_cons, List.cons.injEq, List.forall₂_cons]
      tauto

theorem separates_field {f g : String × Value}
    (h : Separates (print true) SameContent f.2 g.2) :
    Separates fieldText (fun f g => f.1 = g.1 ∧ SameContent f.2 g.2) f g := by
  intro r s hr hs htext
  rw [fieldText, fieldText, List.append_assoc, List.append_assoc] at htext
  obtain ⟨hname, hrest⟩ := separates_string htext
  obtain ⟨hsame, hrs⟩ := h r s hr hs (List.cons.inj hrest).2
  exact ⟨⟨hname, hsame⟩, hrs⟩

/-! ### Values -/

/-- From two texts of values that are the same, whatever follows, the values have the same
content. -/
theorem separates_print {a b : Value} (ha : a.IsProper) (hb : b.IsProper) :
    Separates (print true) SameContent a b := by
  induction ha generalizing b with
  | null => exact separates_of_isScalar .null hb rfl
  | bool c => exact separates_of_isScalar (.bool c) hb rfl
  | int n hn => exact separates_of_isScalar (.int n hn) hb rfl
  | float x hx => exact separates_of_isScalar (.float x hx) hb rfl
  | text t =>
    intro r s hr hs h
    have hopening := opening?_eq (.text t) hb h
    cases hb with
    | text u =>
      rw [print, print] at h
      obtain ⟨rfl, hrs⟩ := separates_string h
      exact ⟨.text t, hrs⟩
    | _ => cases hopening
  | list items hitems ih =>
    intro r s hr hs h
    have hopening := opening?_eq (.list items hitems) hb h
    cases hb with
    | list others hothers =>
      rw [print_sorted_list, print_sorted_list] at h
      have hstart : ∀ v ∈ items ++ others, ∃ c r, print true v = c :: r ∧ c ≠ ']' :=
        fun v hv => head_ne_bracket ((List.mem_append.1 hv).elim (hitems v) (hothers v))
      obtain ⟨hsame, hrs⟩ := separates_enclosed (.inl rfl)
        (fun v hv w hw => ih v hv (hothers w hw)) hstart h
      exact ⟨.list hsame, hrs⟩
    | _ => cases hopening
  | document fields hnodup hfields ih =>
    intro r s hr hs h
    have hopening := opening?_eq (.document fields hnodup hfields) hb h
    cases hb with
    | document others hnodup' hothers =>
      rw [print_sorted_document, print_sorted_document] at h
      have hown := isSorted_sortedByName hnodup
      have hother := isSorted_sortedByName hnodup'
      obtain ⟨hsame, hrs⟩ := separates_enclosed (.inr rfl)
        (fun f hf g hg => separates_field
          (ih f (hown.perm.mem_iff.1 hf) (hothers g (hother.perm.mem_iff.1 hg))))
        (fun f _ => ⟨'"', _, rfl, by decide⟩) h
      obtain ⟨hkeys, hvalues⟩ := forall₂_fields.1 hsame
      exact ⟨.document hown hother hkeys hvalues, hrs⟩
    | _ => cases hopening

theorem map_eq_of_forall₂ {β : Type} {f : α → β} {as bs : List α}
    (h : ∀ a ∈ as, ∀ b, R a b → f a = f b) (hrel : List.Forall₂ R as bs) :
    as.map f = bs.map f := by
  induction hrel with
  | nil => rfl
  | cons hab _ ih =>
    rw [List.map_cons, List.map_cons, h _ (.head _) _ hab, ih fun c hc => h c (.tail _ hc)]

/-- Values of the same content have the same text. -/
theorem print_eq_of_sameContent {a b : Value} (ha : a.IsProper) (h : a.SameContent b) :
    print true a = print true b := by
  induction ha generalizing b with
  | null => cases h; rfl
  | bool c => cases h; rfl
  | int n => cases h; rfl
  | text s => cases h; rfl
  | float x =>
    cases h with
    | float hxy => rw [print, print, float_eq_of_text_eq hxy]
  | list items _ ih =>
    cases h with
    | list hitems =>
      have hmap := map_eq_of_forall₂ ih hitems
      rw [print_sorted_list, print_sorted_list, hmap]
  | document fields _ _ ih =>
    cases h with
    | document hown hother hkeys hvalues =>
      obtain rfl := hown.eq_sortedByName
      obtain rfl := hother.eq_sortedByName
      have htexts : ∀ f ∈ sortedByName fields, ∀ g,
          f.1 = g.1 ∧ SameContent f.2 g.2 → fieldText f = fieldText g := by
        rintro f hf g ⟨hname, hsame⟩
        rw [fieldText, fieldText, hname, ih f (hown.perm.mem_iff.1 hf) hsame]
      have hmap := map_eq_of_forall₂ htexts (forall₂_fields.2 ⟨hkeys, hvalues⟩)
      rw [print_sorted_document, print_sorted_document, hmap]

end Json

namespace Value

/-- Lists and documents count as the same exactly if they have the same content: the order of fields
is the only difference that is passed over. -/
theorem alike_iff_sameContent {a b : Value} (ha : a.IsProper) (hb : b.IsProper)
    (hja : a.isJson = true) (hjb : b.isJson = true) : a.alike b = true ↔ a.SameContent b := by
  have halike : a.alike b = (a.sortedJson == b.sortedJson) := by
    cases ha with
    | list items | document fields =>
      cases hb with
      | list others | document others => rfl
      | _ => cases hjb
    | _ => cases hja
  rw [halike, beq_iff_eq, sortedJson, sortedJson]
  refine ⟨fun h => ?_, Json.print_eq_of_sameContent ha⟩
  exact (Json.separates_print ha hb [] [] Json.endsValue_nil Json.endsValue_nil
    (congrArg (· ++ []) h)).1

/-- Two values whose integers are within the limit on digits are compared, and the answer is whether
they have the same content. The comparison with a value that cannot be written fails. -/
theorem compare_documents {a b : Value} (ha : a.IsProper) (hb : b.IsProper)
    (hja : a.isJson = true) (hjb : b.isJson = true) :
    (a.IsReadable ∧ b.IsReadable ∧ ∃ r, a.compare b = .ok r ∧ (r = true ↔ a.SameContent b))
    ∨ (¬ (a.IsReadable ∧ b.IsReadable) ∧ a.compare b = .error .tooManyDigits) := by
  by_cases hread : a.IsReadable ∧ b.IsReadable
  · exact .inl ⟨hread.1, hread.2, _, compare_eq_ok hread.1.holdsLong hread.2.holdsLong,
      alike_iff_sameContent ha hb hja hjb⟩
  · refine .inr ⟨hread, (compare_eq_error_iff ha hb).2 ⟨rfl, hread, ?_, ?_, .inl hja⟩⟩
    · rintro rfl
      cases hja
    · rintro rfl
      cases hjb

variable {a b : String} {v v' w w' : Value}

theorem isProper_pair (hab : a ≠ b) (hv : v.IsProper) (hw : w.IsProper) :
    IsProper (.document [(a, v), (b, w)]) := by
  refine .document _ (by simpa [Assoc.keys]) ?_
  simp only [List.forall_mem_cons]
  exact ⟨hv, hw, List.forall_mem_nil _⟩

/-- Two fields may stand in either order. -/
theorem sameContent_swap (hab : a < b) (hv : v.SameContent v') (hw : w.SameContent w') :
    SameContent (.document [(b, w), (a, v)]) (.document [(a, v'), (b, w')]) := by
  have hordered : ∀ v w : Value, (Assoc.keys [(a, v), (b, w)]).Pairwise (· < ·) := fun _ _ =>
    .cons (fun _ hc => List.mem_singleton.1 hc ▸ hab) (List.pairwise_singleton _ _)
  exact .document ⟨.swap .., hordered v w⟩ ⟨.refl _, hordered v' w'⟩ rfl
    (.cons hv (.cons hw .nil))

/-- Fields in another order at two levels are passed over, and a double in the place of an integer
is not. -/
theorem compare_documents_nested :
    (document [("b", .list [.document [("d", .text "\""), ("c", .null)]]), ("a", .bool true)]).compare
        (document [("a", .bool true), ("b", .list [.document [("c", .null), ("d", .text "\"")]])])
      = .ok true
    ∧ (list [.int 0]).compare (list [.float (.zero false)]) = .ok false := by
  have hdc : IsProper (.document [("d", .text "\""), ("c", .null)]) :=
    isProper_pair (by decide) (.text _) .null
  have hcd : IsProper (.document [("c", .null), ("d", .text "\"")]) :=
    isProper_pair (by decide) .null (.text _)
  have hsingle : ∀ {v : Value}, v.IsProper → IsProper (.list [v]) := fun hv =>
    .list _ fun w hw => List.mem_singleton.1 hw ▸ hv
  have hanswer : ∀ {a b : Value} {p : Prop}, a.IsReadable → b.IsReadable →
      (a.IsReadable ∧ b.IsReadable ∧ ∃ r, a.compare b = .ok r ∧ (r = true ↔ p))
        ∨ (¬ (a.IsReadable ∧ b.IsReadable) ∧ a.compare b = .error .tooManyDigits) →
      ∃ r, a.compare b = .ok r ∧ (r = true ↔ p) := fun ha hb h =>
    h.elim (·.2.2) fun h => absurd ⟨ha, hb⟩ h.1
  constructor
  · have hleft := isProper_pair (a := "b") (b := "a") (by decide) (hsingle hdc) (.bool true)
    have hright := isProper_pair (a := "a") (b := "b") (by decide) (.bool true) (hsingle hcd)
    obtain ⟨r, hcompare, hr⟩ := hanswer ((isReadable_iff hleft).2 rfl)
      ((isReadable_iff hright).2 rfl) (compare_documents hleft hright rfl rfl)
    rw [hcompare, hr.2]
    exact sameContent_swap (by decide) (.bool true)
      (.list (.cons (sameContent_swap (by decide) .null (.text _)) .nil))
  · have hleft := hsingle (.int 0 trivial)
    have hright := hsingle (.float (.zero false) trivial)
    obtain ⟨r, hcompare, hr⟩ := hanswer ((isReadable_iff hleft).2 (by decide))
      ((isReadable_iff hright).2 rfl) (compare_documents hleft hright rfl rfl)
    rw [hcompare]
    congr 1
    rw [← Bool.not_eq_true, hr]
    rintro (_ | _ | _ | _ | _ | h | _)
    cases h with
    | cons h _ => cases h

/-- A list with an integer of too many digits has the content that it has, but it is not compared
even with itself. -/
theorem compare_longItem :
    ¬ ∀ a b : Value, a.IsProper → b.IsProper → a.isJson = true → b.isJson = true →
      (a.compare b = .ok true ↔ a.SameContent b) := by
  intro hall
  have hproper : IsProper (.list [.int longInteger]) :=
    .list _ fun v hv => List.mem_singleton.1 hv ▸ .int longInteger trivial
  have hsame := (hall _ _ hproper hproper rfl rfl).2 (.list (.cons (.int longInteger) .nil))
  have hlong : (list [.int longInteger]).holdsLong = true := by
    rw [holdsLong, holdsLongItem, holdsLong_longInteger]
    rfl
  rw [compare, hlong] at hsame
  cases hsame

end Value

end StagedTable
