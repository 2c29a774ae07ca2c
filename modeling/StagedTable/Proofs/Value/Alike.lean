import StagedTable.Proofs.Value.Redisplay
import StagedTable.Proofs.Value.SortedText

/-!
# What counts as the same content

The comparison by which an edit is told from a repetition is a cascade over the kinds of both
values. It is reflexive on all values, not-a-number among them, and symmetric (`alike_comm`). It
passes over no edit of null, of a text or of an integer, and a boolean counts as the same as nothing
else but the text that displays it (`alike_bool_iff`). Where it comes to a text that cannot be
written it fails, in either order of the values (`compare_laws`).
-/

namespace StagedTable

open Text

namespace Value

variable {v w : Value}

/-- The comparison of values that are not null: by sorted JSON if that is the form of both, and else
by equality or by the text. -/
theorem alike_eq (hv : v.IsProper) (hw : w.IsProper) (hvn : v ≠ .null) (hwn : w ≠ .null) :
    v.alike w = if v.isJson && w.isJson then v.sortedJson == w.sortedJson
      else (v.isBool == w.isBool && v.equal w) || v.plainText == w.plainText := by
  cases hv with
  | null => exact absurd rfl hvn
  | list items | document fields =>
    cases hw with
    | null => exact absurd rfl hwn
    | text s => simp [alike, isJson, isBool, equal, number?, plainText, display]
    | _ => rfl
  | text s =>
    cases hw with
    | null => exact absurd rfl hwn
    | list items | document fields =>
      simp [alike, isJson, isBool, equal, number?, plainText, display]
    | _ => rfl
  | _ =>
    cases hw with
    | null => exact absurd rfl hwn
    | _ => rfl

/-- Unless both are lists or documents, equality of values is symmetric for not-a-number too. -/
theorem equal_comm_of_isJson (hv : v.IsProper) (hw : w.IsProper)
    (hjson : (v.isJson && w.isJson) = false) : v.equal w = w.equal v := by
  cases hv with
  | null => cases hw <;> rfl
  | text s =>
    cases hw with
    | text t =>
      show (s == t) = (t == s)
      exact Bool.beq_comm
    | _ => rfl
  | list items | document fields =>
    cases hw with
    | list others | document others => cases hjson
    | _ => rfl
  | _ =>
    cases hw with
    | bool _ | int _ | float _ =>
      simp only [equal, number?, Number.equal] <;>
        first | exact Bool.beq_comm | exact Double.same_comm _ _
    | _ => rfl

/-- The order of two values in the comparison makes no difference. -/
theorem alike_comm (hv : v.IsProper) (hw : w.IsProper) : v.alike w = w.alike v := by
  by_cases hvn : v = .null
  · subst hvn
    cases hw <;> rfl
  · by_cases hwn : w = .null
    · subst hwn
      cases hv <;> rfl
    · rw [alike_eq hv hw hvn hwn, alike_eq hw hv hwn hvn, Bool.and_comm w.isJson]
      cases hjson : v.isJson && w.isJson with
      | true =>
        show (v.sortedJson == w.sortedJson) = (w.sortedJson == v.sortedJson)
        exact Bool.beq_comm
      | false =>
        rw [equal_comm_of_isJson hv hw hjson, Bool.beq_comm (a := v.isBool),
          Bool.beq_comm (a := v.plainText)]
        rfl

theorem alike_null_iff : v.alike .null = true ↔ v = .null := by
  cases v <;> simp [alike]

theorem alike_text_text_iff {s t : String} : (text s).alike (.text t) = true ↔ s = t := by
  simp [alike, isJson, isBool, equal, plainText, display, String.toList_inj]

theorem alike_int_int_iff {m n : Int} : (int m).alike (.int n) = true ↔ m = n := by
  have hdisplay : (int m).plainText = (int n).plainText ↔ m = n :=
    ⟨Json.signedDigits_injective, congrArg signedDigits⟩
  have hequal : (int m).equal (.int n) = true ↔ m = n := beq_iff_eq
  simp [alike, isJson, isBool, hdisplay, hequal]

/-- No value but a boolean and the text of one is displayed as a boolean. -/
theorem eq_text_of_plainText_eq {b : Bool} (hv : v.IsProper) (hbool : v.isBool = false)
    (h : v.plainText = (bool b).plainText) : v = .text (String.ofList (bool b).plainText) := by
  obtain ⟨c, r, hr, hc⟩ : ∃ c r, (bool b).plainText = c :: r ∧ (c = 't' ∨ c = 'f') := by
    cases b <;> exact ⟨_, _, rfl, by decide⟩
  have hjson : (bool b).json = (bool b).plainText := by rw [json, Json.print]; rfl
  cases hv with
  | text s =>
    have hs : s.toList = (bool b).plainText := h
    rw [← hs, String.ofList_toList]
  | null =>
    rw [hr] at h
    cases h
  | bool c => cases hbool
  | int n =>
    have hn : (int n).json = (bool b).json := by
      rw [hjson, ← h, json, Json.print]
      rfl
    cases Json.reread_eq_of_json_eq rfl rfl hn
  | float x =>
    have hread : Json.read x.text = some (.bool b) := by
      have hx : x.text = (bool b).json := by rw [hjson, ← h]; rfl
      rw [hx, Json.read_json (.bool b)]
      rfl
    rw [Json.read_text] at hread
    split at hread <;> cases hread
  | list items =>
    have hlist : (list items).plainText = '[' :: _ := Json.print_list items
    rw [h, hr] at hlist
    rcases hc with rfl | rfl <;> cases hlist
  | document fields =>
    have hdocument : (document fields).plainText = '{' :: _ := Json.print_document fields
    rw [h, hr] at hdocument
    rcases hc with rfl | rfl <;> cases hdocument

theorem alike_bool_iff {b : Bool} (hv : v.IsProper) (hbool : v.isBool = false) :
    (bool b).alike v = true ↔ v = .text (String.ofList (bool b).plainText) := by
  constructor
  · intro h
    have hvn : v ≠ .null := by
      rintro rfl
      cases h
    rw [alike_eq (.bool b) hv nofun hvn, hbool] at h
    exact eq_text_of_plainText_eq hv hbool (beq_iff_eq.1 h).symm
  · rintro rfl
    rw [alike_comm (.bool b) hv]
    exact alike_plainText nofun

/-- In either order of the values the comparison gives the same answer or fails. -/
theorem compare_comm (hv : v.IsProper) (hw : w.IsProper) : v.compare w = w.compare v := by
  have htexts : v.comparesTexts w = w.comparesTexts v := by
    rw [Bool.eq_iff_iff, comparesTexts_iff, comparesTexts_iff]
    cases hjson : v.isJson && w.isJson with
    | false => rw [equal_comm_of_isJson hv hw hjson, eq_comm (a := v.isBool)]; tauto
    | true =>
      rw [Bool.and_eq_true] at hjson
      simp [hjson.1, hjson.2, and_comm]
  rw [compare, compare, htexts, Bool.or_comm, alike_comm hv hw]

/-- The comparison is symmetric. It answers for all values whose integers are within the limit on
digits, and then a value is the same as itself. For any others it fails if it comes to their texts:
if one is a list or a document, or if they differ; null is always told. Wherever there is an answer,
null counts as the same as null only, a text and an integer each as the same as itself only among
texts and among integers, and a boolean as the same as no other value than the text that displays
it. -/
theorem compare_laws (hv : v.IsProper) (hw : w.IsProper) :
    v.compare w = w.compare v
    ∧ (v.IsReadable → w.IsReadable → ∃ r, v.compare w = .ok r)
    ∧ (v.compare v = .ok true ∨ v.isJson = true ∧ ¬ v.IsReadable)
    ∧ (∀ e, v.compare w = .error e ↔ e = .tooManyDigits ∧ ¬ (v.IsReadable ∧ w.IsReadable)
      ∧ v ≠ .null ∧ w ≠ .null
      ∧ (v.isJson = true ∨ w.isJson = true ∨ ¬ (v.isBool = w.isBool ∧ v.equal w = true)))
    ∧ (v.compare w = .ok true →
      (v = .null ↔ w = .null)
      ∧ (∀ s t, v = .text s → w = .text t → s = t)
      ∧ (∀ m n, v = .int m → w = .int n → m = n)
      ∧ ∀ b, v = .bool b → w.isBool = false → w = .text (String.ofList v.plainText)) := by
  refine ⟨compare_comm hv hw, fun hv hw => ⟨_, compare_eq_ok hv.holdsLong hw.holdsLong⟩, ?_,
    fun e => compare_eq_error_iff hv hw, fun hcompare => ?_⟩
  · cases hself : v.compare v with
    | ok r =>
      rw [← alike_of_compare hself, alike_refl]
      exact .inl rfl
    | error e =>
      obtain ⟨-, hlong, -, -, htexts⟩ := (compare_eq_error_iff hv hv).1 hself
      rw [and_self] at hlong
      refine .inr ⟨?_, hlong⟩
      -- a value that is no list or document equals itself, unless it can be written
      by_contra hjson
      have hdiffer : ¬ v.equal v = true := by tauto
      cases hv with
      | int n => exact hdiffer (beq_self_eq_true n)
      | list | document => exact hjson rfl
      | _ => exact hlong (by constructor <;> trivial)
  · have h := alike_of_compare hcompare
    refine ⟨?_, ?_, ?_, ?_⟩
    · constructor
      · rintro rfl
        rwa [alike_comm hv hw, alike_null_iff] at h
      · rintro rfl
        rwa [alike_null_iff] at h
    · rintro s t rfl rfl
      exact alike_text_text_iff.1 h
    · rintro m n rfl rfl
      exact alike_int_int_iff.1 h
    · rintro b rfl hbool
      exact (alike_bool_iff hw hbool).1 h

/-- Not-a-number inside a list is no edit, a list and its text are compared either way, and a
boolean is not taken for the integer that it counts as. -/
theorem compare_laws_readings :
    (list [.float (.nan 1)]).compare (.list [.float (.nan 1)]) = .ok true
    ∧ (list [.float (.nan 1)]).compare (.text "[NaN]")
      = (text "[NaN]").compare (.list [.float (.nan 1)])
    ∧ (bool true).compare (.int 1) = .ok false := by
  have hlist : IsProper (.list [.float (.nan 1)]) :=
    .list _ fun v hv => List.mem_singleton.1 hv ▸ .float (.nan 1) trivial
  obtain ⟨hcomm, -, hself, -⟩ := compare_laws hlist (.text "[NaN]")
  obtain ⟨-, hanswers, -, -, htrue⟩ := compare_laws (.bool true) (.int 1 trivial)
  obtain ⟨r, hr⟩ := hanswers (.bool true) ((isReadable_iff (.int 1 trivial)).2 (by decide))
  refine ⟨hself.resolve_right fun h => h.2 ((isReadable_iff hlist).2 rfl), hcomm, ?_⟩
  cases r with
  | false => exact hr
  | true => exact nomatch (htrue hr).2.2.2 true rfl rfl

/-- Integers of too many digits are not told from others, and a list of one is not compared even
with itself. -/
theorem compare_longInteger :
    ¬ (∀ v : Value, v.IsProper → v.compare v = .ok true)
    ∧ ¬ ∀ m n : Int, ∃ r, (int m).compare (.int n) = .ok r ∧ (r = true → m = n) := by
  constructor
  · intro hall
    have hself := hall (.list [.int longInteger]) (.list _ fun v hv =>
      List.mem_singleton.1 hv ▸ .int longInteger trivial)
    have hlong : (list [.int longInteger]).holdsLong = true := by
      rw [holdsLong, holdsLongItem, holdsLong_longInteger]
      rfl
    rw [compare, hlong] at hself
    cases hself
  · intro hall
    obtain ⟨r, hr, -⟩ := hall longInteger 0
    have hdiffer : (int longInteger).equal (.int 0) = false :=
      beq_eq_false_iff_ne.2 (by rw [longInteger]; positivity)
    have htexts : (int longInteger).comparesTexts (.int 0) = true := by
      simp [comparesTexts, isJson, hdiffer]
    rw [compare, holdsLong_longInteger, htexts] at hr
    cases hr

end Value

end StagedTable
