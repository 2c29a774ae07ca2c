import StagedTable.Proofs.Number.Nearest
import StagedTable.Proofs.Value.Cell
import StagedTable.Value.Text

/-!
# Equality of cell values

On cell values both equalities are symmetric and transitive: `equal_symm` and `equal_trans`, and for
`same`, which tells booleans from numbers, `same_symm` and `same_trans`. A value is equal to itself
unless it is not-a-number (`equal_refl`, `same_refl`); inside a list or a document even that is
(`equalInside_refl`), as it is the same object.

Numbers are compared by the rational number or the infinity that they are (`magnitude?`), which
not-a-number lacks, so that for them nothing is left to show. Lists and documents go by induction on
the value; a document is found in another field by field (`equalFields_iff`), and as no name is
repeated the other one has no further fields (`keys_subset_of_equalFields`).
-/

namespace StagedTable

/-! ### Numbers -/

/-- A finite double as a rational number. -/
def FiniteDouble.toRat (x : FiniteDouble) : ℚ :=
  if x.negative then -quotient x.numerator x.denominator else quotient x.numerator x.denominator

namespace FiniteDouble

variable {x y : FiniteDouble}

theorem isZero_iff : x.isZero = true ↔ x.toRat = 0 := by
  have hzero : quotient x.numerator x.denominator = 0 ↔ x.mantissa = 0 := by
    have hpower : Nat.pow 2 x.exponent.toNat ≠ 0 := Nat.ne_of_gt (Nat.pow_pos (by decide))
    have hd : (x.denominator : ℚ) ≠ 0 := Nat.cast_ne_zero.2 (Nat.ne_of_gt x.denominator_pos)
    rw [quotient, div_eq_zero_iff, or_iff_left hd, Nat.cast_eq_zero, numerator,
      Nat.mul_eq_zero, or_iff_left hpower]
  rw [isZero, beq_iff_eq, toRat]
  split
  · rw [neg_eq_zero, hzero]
  · exact hzero.symm

theorem negative_iff (h : x.isZero = false) : x.negative = true ↔ x.toRat < 0 := by
  have h0 : x.mantissa ≠ 0 := by simpa [isZero] using h
  have hpos := quotient_pos (numerator_pos h0) x.denominator_pos
  unfold toRat
  cases x.negative with
  | true => simp [hpos]
  | false => simp [hpos.le]

/-- Doubles are equal if they are the same number. -/
theorem same_iff : x.same y = true ↔ x.toRat = y.toRat := by
  rw [same, Bool.or_eq_true, Bool.and_eq_true, beq_iff_eq]
  constructor
  · rintro (⟨hx, hy⟩ | rfl)
    · rw [isZero_iff.1 hx, isZero_iff.1 hy]
    · rfl
  · intro h
    cases hx : x.isZero with
    | true => exact .inl ⟨rfl, isZero_iff.2 (h ▸ isZero_iff.1 hx)⟩
    | false =>
      refine .inr ?_
      have hy : y.isZero = false := by
        cases hy : y.isZero with
        | false => rfl
        | true =>
          rw [isZero_iff.2 (h.trans (isZero_iff.1 hy))] at hx
          cases hx
      have hsign : x.negative = y.negative := by
        rw [Bool.eq_iff_iff, negative_iff hx, negative_iff hy, h]
      have hquotient : quotient x.numerator x.denominator
          = quotient y.numerator y.denominator := by
        unfold toRat at h
        rw [hsign] at h
        split at h
        · exact neg_inj.1 h
        · exact h
      -- the double nearest to the quotient is either of the two
      have hnearest := Double.nearest_eq_finite y x.denominator_pos (by simpa [isZero] using hy)
        hquotient
      have hself := Double.nearest_eq_finite x x.denominator_pos (by simpa [isZero] using hx) rfl
      rw [hsign, hnearest] at hself
      cases hself
      rfl

theorem sameInt_iff {n : Int} : x.sameInt n = true ↔ x.toRat = n := by
  unfold sameInt
  cases hx : x.isZero with
  | true =>
    rw [if_pos rfl, isZero_iff.1 hx, beq_iff_eq, eq_comm (a := (0 : ℚ)), Int.cast_eq_zero]
  | false =>
    have hmagnitude : quotient x.numerator x.denominator = n.natAbs
        ↔ x.numerator = n.natAbs * x.denominator := by
      have hone : quotient n.natAbs 1 = n.natAbs := by rw [quotient, Nat.cast_one, div_one]
      have h := quotient_eq_iff (a := x.numerator) (c := n.natAbs) x.denominator_pos one_pos
      rwa [hone, Nat.mul_one] at h
    rw [if_neg Bool.false_ne_true, Bool.and_eq_true, beq_iff_eq, beq_iff_eq, ← hmagnitude]
    -- the signs agree, or else one of the numbers is not below zero and the other is
    rcases lt_or_ge n 0 with hn | hn
    · have hcast : (n : ℚ) = -(n.natAbs : ℚ) := by
        rw [← Int.cast_natCast, ← Int.cast_neg, Int.cast_inj]
        omega
      rw [decide_eq_true hn, hcast]
      constructor
      · rintro ⟨hnegative, hquotient⟩
        rw [toRat, if_pos hnegative, hquotient]
      · intro h
        have hlow : x.toRat < 0 := by
          rw [h, ← hcast]
          exact_mod_cast hn
        have hnegative := (negative_iff hx).2 hlow
        rw [toRat, if_pos hnegative, neg_inj] at h
        exact ⟨hnegative, h⟩
    · have hcast : (n : ℚ) = (n.natAbs : ℚ) := by
        rw [← Int.cast_natCast, Int.cast_inj]
        omega
      rw [decide_eq_false (by omega), hcast]
      constructor
      · rintro ⟨hnegative, hquotient⟩
        rw [toRat, hnegative, if_neg Bool.false_ne_true, hquotient]
      · intro h
        have hhigh : ¬ x.toRat < 0 := by
          rw [h]
          exact not_lt.2 (Nat.cast_nonneg _)
        have hnegative : x.negative = false := by
          rw [← Bool.not_eq_true, negative_iff hx]
          exact hhigh
        rw [toRat, hnegative, if_neg Bool.false_ne_true] at h
        exact ⟨hnegative, h⟩

end FiniteDouble

namespace Number

/-- The number as a rational number, or as an infinity with its sign. Not-a-number has none. -/
def magnitude? : Number → Option (ℚ ⊕ Bool)
  | .int n => some (.inl n)
  | .float (.finite x) => some (.inl x.toRat)
  | .float (.infinite negative) => some (.inr negative)
  | _ => none

/-- Whether the number is one of those that a cell value may be. -/
def isBinary : Number → Bool
  | .decimal _ => false
  | _ => true

/-- Integers and doubles are equal if they are the same number. -/
theorem equal_iff {x y : Number} (hx : x.isBinary = true) (hy : y.isBinary = true) :
    x.equal y = true ↔ x.magnitude?.isSome ∧ x.magnitude? = y.magnitude? := by
  cases x with
  | int m =>
    cases y with
    | int n => simp [equal, magnitude?]
    | float y =>
      cases y with
      | finite y =>
        show y.sameInt m = true ↔ true = true ∧ some (Sum.inl (m : ℚ)) = some (.inl y.toRat)
        rw [FiniteDouble.sameInt_iff, Option.some_inj, Sum.inl.injEq, eq_comm, and_iff_right rfl]
      | infinite negative => simp [equal, magnitude?, Double.sameInt]
      | nan object => simp [equal, magnitude?, Double.sameInt]
    | decimal d => cases hy
  | float x =>
    cases x with
    | finite x =>
      cases y with
      | int n => simp [equal, magnitude?, Double.sameInt, FiniteDouble.sameInt_iff]
      | float y => cases y <;> simp [equal, magnitude?, Double.same, FiniteDouble.same_iff]
      | decimal d => cases hy
    | infinite sign =>
      cases y with
      | int n => simp [equal, magnitude?, Double.sameInt]
      | float y => cases y <;> simp [equal, magnitude?, Double.same]
      | decimal d => cases hy
    | nan object =>
      cases y with
      | int n => simp [equal, magnitude?, Double.sameInt]
      | float y => simp [equal, magnitude?, Double.not_same_nan]
      | decimal d => cases hy
  | decimal d => cases hx

end Number

/-! ### Values -/

namespace Value

/-- The number that a cell value counts as. -/
def magnitude? (v : Value) : Option (ℚ ⊕ Bool) := v.number?.bind Number.magnitude?

variable {a b c : Value}

theorem IsCellOf.isBinary (ha : a.IsProper) {x : Number} (hx : a.number? = some x) :
    x.isBinary = true := by
  cases ha <;> cases hx <;> rfl

theorem equal_of_number (ha : a.IsProper) (hb : b.IsProper) {x : Number}
    (hx : a.number? = some x) :
    a.equal b = b.number?.any x.equal ∧ b.equal a = b.number?.any fun y => y.equal x := by
  cases ha <;> cases hx <;> cases hb <;> exact ⟨rfl, rfl⟩

/-- A number is equal to what counts as the same number. -/
theorem equal_iff_magnitude (ha : a.IsProper) (hb : b.IsProper) (h : a.number?.isSome) :
    (a.equal b = true ↔ a.magnitude?.isSome ∧ a.magnitude? = b.magnitude?)
      ∧ (b.equal a = true ↔ b.magnitude?.isSome ∧ b.magnitude? = a.magnitude?) := by
  obtain ⟨x, hx⟩ := Option.isSome_iff_exists.1 h
  rw [(equal_of_number ha hb hx).1, (equal_of_number ha hb hx).2, magnitude?, magnitude?, hx]
  cases hy : b.number? with
  | none => simp [← Option.isSome_iff_ne_none]
  | some y =>
    exact ⟨Number.equal_iff (ha.isBinary hx) (hb.isBinary hy),
      Number.equal_iff (hb.isBinary hy) (ha.isBinary hx)⟩

/-- A number but not-a-number is equal to itself. -/
theorem equal_self_of_number (ha : a.IsProper) (hsome : a.number?.isSome)
    (hnan : a.isNan = false) : a.equal a = true := by
  refine (equal_iff_magnitude ha ha hsome).1.2 ?_
  cases ha with
  | float x _ =>
    cases x with
    | nan object => cases hnan
    | _ => exact ⟨rfl, rfl⟩
  | bool b => exact ⟨rfl, rfl⟩
  | int n _ => exact ⟨rfl, rfl⟩
  | _ => cases hsome

/-! ### Lists and documents -/

theorem equalItems_iff {as bs : List Value} :
    equalItems as bs = true ↔ List.Forall₂ (fun a b => a.equalInside b = true) as bs := by
  induction as generalizing bs with
  | nil =>
    cases bs with
    | nil => exact ⟨fun _ => .nil, fun _ => rfl⟩
    | cons b rest => exact ⟨fun h => (by cases h), fun h => (by cases h)⟩
  | cons a rest ih =>
    cases bs with
    | nil => exact ⟨fun h => (by cases h), fun h => (by cases h)⟩
    | cons b bs =>
      rw [equalItems, Bool.and_eq_true, List.forall₂_cons, ih, equalInside]

theorem equalFields_iff {as bs : List (String × Value)} :
    equalFields as bs = true
      ↔ ∀ field ∈ as, ∃ b, Assoc.get? field.1 bs = some b ∧ field.2.equalInside b = true := by
  induction as with
  | nil => exact ⟨fun _ _ h => (nomatch h), fun _ => rfl⟩
  | cons field rest ih =>
    obtain ⟨name, a⟩ := field
    rw [equalFields, Bool.and_eq_true, ih, List.forall_mem_cons]
    apply and_congr_left
    intro _
    cases Assoc.get? name bs with
    | none => simp
    | some b => simp [equalInside]

/-- A document of as many fields as one that is found in it has no further names. -/
theorem keys_subset_of_equalFields {as bs : List (String × Value)}
    (has : (Assoc.keys as).Nodup) (hlength : as.length = bs.length)
    (h : equalFields as bs = true) : Assoc.keys bs ⊆ Assoc.keys as := by
  have hsubset : Assoc.keys as ⊆ Assoc.keys bs := by
    intro name hname
    obtain ⟨field, hfield, rfl⟩ := List.mem_map.1 hname
    obtain ⟨b, hb, -⟩ := equalFields_iff.1 h field hfield
    exact Assoc.isSome_get?_iff.1 (by rw [hb]; rfl)
  have hlength' : (Assoc.keys bs).length ≤ (Assoc.keys as).length := by
    rw [Assoc.keys, Assoc.keys, List.length_map, List.length_map, hlength]
  exact ((has.subperm hsubset).perm_of_length_le hlength').symm.subset

/-! ### Objects -/

/-- Only not-a-number is looked at as an object. -/
theorem sameNan_iff : a.sameNan b = true ↔ ∃ object, a = .float (.nan object) ∧ b = a := by
  constructor
  · intro h
    unfold sameNan at h
    split at h
    · next i j =>
      cases beq_iff_eq.1 h
      exact ⟨i, rfl, rfl⟩
    · cases h
  · rintro ⟨object, rfl, rfl⟩
    exact beq_self_eq_true object

theorem equalInside_iff : a.equalInside b = true ↔ a.sameNan b = true ∨ a.equal b = true :=
  Bool.or_eq_true_iff

theorem isNan_iff : a.isNan = true ↔ ∃ object, a = .float (.nan object) := by
  constructor
  · intro h
    cases a with
    | float x =>
      cases x with
      | nan object => exact ⟨object, rfl⟩
      | _ => cases h
    | _ => cases h
  · rintro ⟨object, rfl⟩
    rfl

/-- Not-a-number is equal to nothing. -/
theorem not_equal_nan (ha : a.IsProper) (object : Nat) :
    a.equal (.float (.nan object)) = false := by
  cases ha with
  | float x _ => cases x <;> rfl
  | _ => rfl

/-! ### Symmetry and transitivity -/

theorem equalInside_self_of_number (ha : a.IsProper) (hsome : a.number?.isSome) :
    a.equalInside a = true := by
  rw [equalInside_iff]
  cases hnan : a.isNan with
  | true =>
    obtain ⟨object, rfl⟩ := isNan_iff.1 hnan
    exact .inl (sameNan_iff.2 ⟨object, rfl, rfl⟩)
  | false => exact .inr (equal_self_of_number ha hsome hnan)

/-- Inside a list or a document every value is equal to itself. -/
theorem equalInside_refl (ha : a.IsProper) : a.equalInside a = true := by
  induction ha with
  | null => rfl
  | text s => exact equalInside_iff.2 (.inr (beq_iff_eq.2 rfl))
  | list items _ ih =>
    exact equalInside_iff.2 (.inr (equalItems_iff.2 (List.forall₂_same.2 ih)))
  | document fields hnodup _ ih =>
    have hfields : equalFields fields fields = true :=
      equalFields_iff.2 fun field hfield =>
        ⟨field.2, Assoc.get?_of_mem hnodup hfield, ih field hfield⟩
    rw [equalInside_iff, equal, hfields, beq_self_eq_true]
    exact .inr rfl
  | bool b => exact equalInside_self_of_number (.bool b) rfl
  | int n hn => exact equalInside_self_of_number (.int n hn) rfl
  | float x hx => exact equalInside_self_of_number (.float x hx) rfl

/-- Every value but not-a-number is equal to itself. -/
theorem equal_refl (ha : a.IsProper) (hnan : a.isNan = false) : a.equal a = true := by
  rcases equalInside_iff.1 (equalInside_refl ha) with hsame | hequal
  · obtain ⟨object, rfl, -⟩ := sameNan_iff.1 hsame
    cases hnan
  · exact hequal

theorem equal_symm_of_number (ha : a.IsProper) (hb : b.IsProper) (hsome : a.number?.isSome)
    (h : a.equal b = true) : b.equal a = true := by
  obtain ⟨hab, hba⟩ := equal_iff_magnitude ha hb hsome
  obtain ⟨hmagnitude, heq⟩ := hab.1 h
  exact hba.2 ⟨heq ▸ hmagnitude, heq.symm⟩

/-- What is known of equal values holds of values that are one object too. -/
theorem equalInside_symm_of (hequal : a.equal b = true → b.equal a = true)
    (h : a.equalInside b = true) : b.equalInside a = true := by
  rcases equalInside_iff.1 h with hsame | hab
  · obtain ⟨object, rfl, rfl⟩ := sameNan_iff.1 hsame
    exact h
  · exact equalInside_iff.2 (.inr (hequal hab))

theorem equal_symm (ha : a.IsProper) (hb : b.IsProper) (h : a.equal b = true) :
    b.equal a = true := by
  induction ha generalizing b with
  | null => cases hb <;> first | rfl | cases h
  | text s =>
    cases hb with
    | text t => exact beq_iff_eq.2 (beq_iff_eq.1 h).symm
    | _ => cases h
  | list items _ ih =>
    cases hb with
    | list others hothers =>
      -- each pair of items is turned around by itself
      have hpairs := (List.forall₂_and_left _ _).2 ⟨fun v hv => @ih v hv, equalItems_iff.1 h⟩
      have hflipped := (List.forall₂_and_left _ _).2 ⟨hothers, hpairs.flip⟩
      refine equalItems_iff.2 (hflipped.imp ?_)
      rintro b a ⟨hb, hsymm, hab⟩
      exact equalInside_symm_of (hsymm hb) hab
    | _ => cases h
  | document fields hnodup _ ih =>
    cases hb with
    | document others hothers hproper =>
      rw [equal, Bool.and_eq_true, beq_iff_eq] at h ⊢
      obtain ⟨hlength, hfields⟩ := h
      refine ⟨hlength.symm, equalFields_iff.2 ?_⟩
      intro field hfield
      -- the name is one of the first document too, and so is found there
      have hname : field.1 ∈ Assoc.keys fields :=
        keys_subset_of_equalFields hnodup hlength hfields (List.mem_map_of_mem hfield)
      obtain ⟨value, hvalue⟩ := Option.isSome_iff_exists.1 (Assoc.isSome_get?_iff.2 hname)
      have hmem := Assoc.mem_of_get? hvalue
      obtain ⟨b, hb, hequal⟩ := equalFields_iff.1 hfields _ hmem
      rw [Assoc.get?_of_mem hothers hfield] at hb
      cases hb
      exact ⟨value, hvalue, equalInside_symm_of (ih _ hmem (hproper _ hfield)) hequal⟩
    | _ => cases h
  | bool s => exact equal_symm_of_number (.bool s) hb rfl h
  | int n hn => exact equal_symm_of_number (.int n hn) hb rfl h
  | float x hx => exact equal_symm_of_number (.float x hx) hb rfl h

theorem equal_trans_of_number (ha : a.IsProper) (hb : b.IsProper) (hc : c.IsProper)
    (hsome : a.number?.isSome) (hab : a.equal b = true) (hbc : b.equal c = true) :
    a.equal c = true := by
  obtain ⟨hmagnitude, heq⟩ := (equal_iff_magnitude ha hb hsome).1.1 hab
  -- what equals a number is a number
  have hsome' : b.number?.isSome := by
    cases hnumber : b.number? with
    | some y => rfl
    | none =>
      rw [heq, magnitude?, hnumber] at hmagnitude
      cases hmagnitude
  have heq' := ((equal_iff_magnitude hb hc hsome').1.1 hbc).2
  exact (equal_iff_magnitude ha hc hsome).1.2 ⟨hmagnitude, heq.trans heq'⟩

@[inherit_doc equalInside_symm_of]
theorem equalInside_trans_of
    (hequal : a.equal b = true → b.equal c = true → a.equal c = true)
    (hab : a.equalInside b = true) (hbc : b.equalInside c = true) : a.equalInside c = true := by
  rcases equalInside_iff.1 hab with hsame | hab'
  · obtain ⟨object, rfl, rfl⟩ := sameNan_iff.1 hsame
    exact hbc
  · rcases equalInside_iff.1 hbc with hsame | hbc'
    · obtain ⟨object, rfl, rfl⟩ := sameNan_iff.1 hsame
      exact hab
    · exact equalInside_iff.2 (.inr (hequal hab' hbc'))

theorem equal_trans (ha : a.IsProper) (hb : b.IsProper) (hc : c.IsProper)
    (hab : a.equal b = true) (hbc : b.equal c = true) : a.equal c = true := by
  induction ha generalizing b c with
  | null => cases hb <;> first | exact hbc | cases hab
  | text s =>
    cases hb with
    | text t =>
      cases beq_iff_eq.1 hab
      exact hbc
    | _ => cases hab
  | list items _ ih =>
    cases hb with
    | list others hothers =>
      cases hc with
      | list last hlast =>
        refine equalItems_iff.2 ?_
        have hab := equalItems_iff.1 hab
        have hbc := equalItems_iff.1 hbc
        clear * - ih hothers hlast hab hbc
        -- the three lists are gone through side by side
        induction hab generalizing last with
        | nil => exact hbc
        | cons hhead _ iht =>
          cases hbc with
          | cons hhead' htail' =>
            have htrans := ih _ (.head _) (hothers _ (.head _)) (hlast _ (.head _))
            refine .cons (equalInside_trans_of htrans hhead hhead') ?_
            exact iht (fun v hv => ih v (.tail _ hv)) (fun v hv => hothers v (.tail _ hv)) _
              (fun v hv => hlast v (.tail _ hv)) htail'
      | _ => cases hbc
    | _ => cases hab
  | document fields hnodup _ ih =>
    cases hb with
    | document others hothers hproper =>
      cases hc with
      | document last hlast hproper' =>
        rw [equal, Bool.and_eq_true, beq_iff_eq] at hab hbc ⊢
        refine ⟨hab.1.trans hbc.1, equalFields_iff.2 ?_⟩
        intro field hfield
        -- its name is looked up in the second document, and from there in the third
        obtain ⟨b, hb, hequal⟩ := equalFields_iff.1 hab.2 field hfield
        have hmem := Assoc.mem_of_get? hb
        obtain ⟨c, hc, hequal'⟩ := equalFields_iff.1 hbc.2 _ hmem
        have htrans := ih field hfield (hproper _ hmem) (hproper' _ (Assoc.mem_of_get? hc))
        exact ⟨c, hc, equalInside_trans_of htrans hequal hequal'⟩
      | _ => cases hbc
    | _ => cases hab
  | bool s => exact equal_trans_of_number (.bool s) hb hc rfl hab hbc
  | int n hn => exact equal_trans_of_number (.int n hn) hb hc rfl hab hbc
  | float x hx => exact equal_trans_of_number (.float x hx) hb hc rfl hab hbc

/-! ### Strict equality -/

/-- Values are the same if they are equal and both or neither are booleans. -/
theorem same_iff (ha : a.IsProper) (hb : b.IsProper) :
    a.same b = true ↔ a.isBool = b.isBool ∧ a.equal b = true := by
  cases ha with
  | bool s =>
    cases hb with
    | bool t =>
      have hequal : (bool s).equal (.bool t) = true ↔ s = t := by
        rw [(equal_iff_magnitude (.bool s) (.bool t) rfl).1]
        cases s <;> cases t <;> simp [magnitude?, number?, Number.magnitude?]
      rw [hequal]
      exact ⟨fun h => ⟨rfl, beq_iff_eq.1 h⟩, fun h => beq_iff_eq.2 h.2⟩
    | _ => exact ⟨fun h => (by cases h), fun h => (by cases h.1)⟩
  | _ =>
    cases hb with
    | bool t => exact ⟨fun h => (by cases h), fun h => (by cases h.1)⟩
    | _ => exact ⟨fun h => ⟨rfl, h⟩, fun h => h.2⟩

theorem same_refl (ha : a.IsProper) (hnan : a.isNan = false) : a.same a = true :=
  (same_iff ha ha).2 ⟨rfl, equal_refl ha hnan⟩

theorem same_symm (ha : a.IsProper) (hb : b.IsProper) (h : a.same b = true) :
    b.same a = true := by
  obtain ⟨hbool, hequal⟩ := (same_iff ha hb).1 h
  exact (same_iff hb ha).2 ⟨hbool.symm, equal_symm ha hb hequal⟩

theorem same_trans (ha : a.IsProper) (hb : b.IsProper) (hc : c.IsProper)
    (hab : a.same b = true) (hbc : b.same c = true) : a.same c = true := by
  obtain ⟨hbool, hequal⟩ := (same_iff ha hb).1 hab
  obtain ⟨hbool', hequal'⟩ := (same_iff hb hc).1 hbc
  exact (same_iff ha hc).2 ⟨hbool.trans hbool', equal_trans ha hb hc hequal hequal'⟩

/-- What is the same as some value is not not-a-number. -/
theorem isNan_eq_false_of_same (ha : a.IsProper) (hb : b.IsProper) (h : a.same b = true) :
    b.isNan = false := by
  rw [Bool.eq_false_iff]
  intro hnan
  obtain ⟨object, rfl⟩ := isNan_iff.1 hnan
  have hequal := ((same_iff ha hb).1 h).2
  rw [not_equal_nan ha object] at hequal
  cases hequal

end Value

end StagedTable
