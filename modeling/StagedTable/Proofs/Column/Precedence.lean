import StagedTable.Column.Kind
import StagedTable.Proofs.StableSort
import Mathlib.Data.Int.Order.Basic
import Mathlib.Data.List.Induction

/-!
# Which rule decides

Rules are added to a registry one by one, and each goes behind all rules of its priority or a higher
one. That is the place where it ends up if the rules are sorted anew, stably and in descending order
of priority, each time that one has been added (`ofRules_eq_resorted`). What one addition does to
the first rule that accepts a name is `find?_register`: the new rule takes the place of the old one
only if it accepts the name too and has a higher priority. Hence the run: the rule of highest
priority decides, and among equals the one that was added first (`kind_ofCalls`).
-/

namespace StagedTable

/-! ### Calls -/

/-- What a rule asks of a base name. -/
inductive NameTest
  | exact (names : List String)
  | startingWith (start : String)
  | endingWith (ending : String)
  | custom (accepts : List Char → Bool)

namespace NameTest

/-- Whether a name passes the test. -/
def Passes (name : List Char) : NameTest → Prop
  | exact names => String.ofList name ∈ names
  | startingWith start => start.toList <+: name
  | endingWith ending => ending.toList <:+ name
  | custom accepts => accepts name = true

/-- The priority of a rule with this test, unless another is given. -/
def usualPriority : NameTest → Int
  | exact _ => KindRule.exactPriority
  | startingWith _ | endingWith _ => KindRule.affixPriority
  | custom _ => KindRule.customPriority

end NameTest

/-- A call that adds a rule to a registry. -/
structure RuleCall where
  test : NameTest
  kind : Kind
  priority? : Option Int

namespace RuleCall

/-- The priority that the rule gets. -/
def priority (c : RuleCall) : Int := c.priority?.getD c.test.usualPriority

/-- The rule that is added. -/
def rule (c : RuleCall) : KindRule :=
  match c.test with
  | .exact names => .exact names c.kind c.priority
  | .startingWith start => .startingWith start c.kind c.priority
  | .endingWith ending => .endingWith ending c.kind c.priority
  | .custom accepts => ⟨c.priority, accepts, c.kind⟩

@[simp] theorem priority_rule (c : RuleCall) : c.rule.priority = c.priority := by
  unfold rule
  split <;> rfl

@[simp] theorem kind_rule (c : RuleCall) : c.rule.kind = c.kind := by
  unfold rule
  split <;> rfl

theorem accepts_rule_iff {c : RuleCall} {name : List Char} :
    c.rule.accepts name = true ↔ c.test.Passes name := by
  unfold rule
  cases c.test with
  | exact names =>
    simp only [KindRule.exact, NameTest.Passes, List.any_eq_true, beq_iff_eq]
    constructor
    · rintro ⟨s, hs, rfl⟩
      rwa [String.ofList_toList]
    · exact fun h => ⟨_, h, String.toList_ofList⟩
  | startingWith start => exact List.isPrefixOf_iff_prefix
  | endingWith ending => exact List.isSuffixOf_iff_suffix
  | custom accepts => exact Iff.rfl

/-- Among the calls, one whose rule accepts a name, while no rule of a higher priority accepts it,
nor one of the same priority that was added before. -/
def Decides (calls : List RuleCall) (name : List Char) (c : RuleCall) : Prop :=
  ∃ before after, calls = before ++ c :: after ∧ c.test.Passes name
    ∧ (∀ d ∈ before, d.test.Passes name → d.priority < c.priority)
    ∧ ∀ d ∈ after, d.test.Passes name → d.priority ≤ c.priority

end RuleCall

/-! ### Adding a rule -/

namespace KindRegistry

/-- Whether the priorities descend. -/
def Ordered (registry : KindRegistry) : Prop :=
  registry.Pairwise fun a b => b.priority ≤ a.priority

variable {registry : KindRegistry} {rule : KindRule}

theorem mem_register {r : KindRule} : r ∈ register rule registry ↔ r = rule ∨ r ∈ registry := by
  induction registry with
  | nil => simp [register]
  | cons first rest ih =>
    unfold register
    split
    · rw [List.mem_cons]
    · rw [List.mem_cons, ih, List.mem_cons, or_left_comm]

theorem Ordered.register (h : Ordered registry) : Ordered (register rule registry) := by
  induction registry with
  | nil => exact List.pairwise_singleton _ _
  | cons first rest ih =>
    obtain ⟨hfirst, hrest⟩ := List.pairwise_cons.1 h
    unfold KindRegistry.register
    split
    · next hlt =>
      refine List.pairwise_cons.2 ⟨fun r hr => ?_, h⟩
      rcases List.mem_cons.1 hr with rfl | hr
      · exact le_of_lt hlt
      · exact le_trans (hfirst r hr) (le_of_lt hlt)
    · next hle =>
      refine List.pairwise_cons.2 ⟨fun r hr => ?_, ih hrest⟩
      rcases mem_register.1 hr with rfl | hr
      · exact not_lt.1 hle
      · exact hfirst r hr

/-- The new rule, if it passes a test and is of a higher priority than the one found so far, else
the latter. -/
def preferred (p : KindRule → Bool) (rule : KindRule) (found : Option KindRule) : Option KindRule :=
  if p rule = true ∧ ∀ r ∈ found, r.priority < rule.priority then some rule else found

/-- The first rule that passes a test stays the first unless the new one passes it too and has a
higher priority. -/
theorem find?_register (h : Ordered registry) (p : KindRule → Bool) :
    (register rule registry).find? p = preferred p rule (registry.find? p) := by
  unfold preferred
  induction registry with
  | nil => cases hp : p rule <;> simp [KindRegistry.register, hp]
  | cons first rest ih =>
    obtain ⟨hfirst, hrest⟩ := List.pairwise_cons.1 h
    unfold KindRegistry.register
    split
    · next hlt =>
      -- the new rule comes first, and all others have lower priorities
      have hbelow : ∀ r ∈ (first :: rest).find? p, r.priority < rule.priority := by
        intro r hr
        rcases List.mem_cons.1 (List.mem_of_find?_eq_some hr) with rfl | hr
        · exact hlt
        · exact lt_of_le_of_lt (hfirst r hr) hlt
      cases hp : p rule with
      | true => rw [List.find?_cons_of_pos hp, if_pos ⟨rfl, hbelow⟩]
      | false => rw [List.find?_cons_of_neg (by simp [hp]), if_neg (by simp)]
    · next hle =>
      cases hp : p first with
      | true =>
        have hkept : ¬(p rule = true
            ∧ ∀ r ∈ (first :: rest).find? p, r.priority < rule.priority) :=
          fun hnew => hle (hnew.2 first (List.find?_cons_of_pos hp))
        rw [if_neg hkept, List.find?_cons_of_pos hp, List.find?_cons_of_pos hp]
      | false =>
        have hskip : ¬ p first = true := by simp [hp]
        rw [List.find?_cons_of_neg hskip, List.find?_cons_of_neg hskip, ih hrest]

/-! ### Sorting anew -/

/-- The rules in descending order of priority, equals in the order that they had. -/
def sorted (rules : List KindRule) : KindRegistry :=
  rules.mergeSort fun a b => decide (b.priority ≤ a.priority)

theorem sorted_eq (rules : List KindRule) :
    sorted rules = rules.mergeSort fun a b => decide (-a.priority ≤ -b.priority) := by
  simp only [sorted, Int.neg_le_neg_iff]

/-- Under each priority a rule is added behind the others. -/
theorem filter_register (h : Ordered registry) (n : Int) :
    (register rule registry).filter (-·.priority = n)
      = (registry ++ [rule]).filter (-·.priority = n) := by
  induction registry with
  | nil => rfl
  | cons first rest ih =>
    obtain ⟨hfirst, hrest⟩ := List.pairwise_cons.1 h
    unfold KindRegistry.register
    split
    · next hlt =>
      by_cases hn : -rule.priority = n
      · -- no other rule has the priority of the new one
        have hnone : (first :: rest).filter (-·.priority = n) = [] := by
          refine List.filter_eq_nil_iff.2 fun r hr => ?_
          have hr : r.priority ≤ first.priority := by
            rcases List.mem_cons.1 hr with rfl | hr
            · exact le_refl _
            · exact hfirst r hr
          simp only [decide_eq_true_eq]
          omega
        rw [List.filter_append, hnone, List.filter_cons_of_pos (by simpa using hn), hnone,
          List.filter_cons_of_pos (by simpa using hn)]
        rfl
      · have hskip : [rule].filter (-·.priority = n) = [] := by simp [hn]
        rw [List.filter_append, hskip, List.append_nil, List.filter_cons_of_neg (by simpa using hn)]
    · rw [List.cons_append, List.filter_cons, List.filter_cons, ih hrest]

/-- A rule is added where it stands when the rules are sorted anew. -/
theorem register_eq_sorted (h : Ordered registry) :
    register rule registry = sorted (registry ++ [rule]) := by
  have hdescends : (register rule registry).Pairwise (-·.priority ≤ -·.priority) :=
    h.register.imp Int.neg_le_neg
  rw [sorted_eq]
  apply eq_of_filter_eq hdescends (pairwise_sorted (-·.priority) (registry ++ [rule]))
  intro n
  rw [filter_register h, filter_sorted]

/-! ### All rules -/

theorem ofRules_concat (rules : List KindRule) (rule : KindRule) :
    ofRules (rules ++ [rule]) = register rule (ofRules rules) := by
  rw [ofRules, List.foldl_append]
  rfl

theorem ordered_ofRules (rules : List KindRule) : Ordered (ofRules rules) := by
  induction rules using List.reverseRecOn with
  | nil => exact List.Pairwise.nil
  | append_singleton rules rule ih =>
    rw [ofRules_concat]
    exact ih.register

theorem mem_ofRules {rules : List KindRule} {r : KindRule} : r ∈ ofRules rules ↔ r ∈ rules := by
  induction rules using List.reverseRecOn with
  | nil => rfl
  | append_singleton rules rule ih =>
    rw [ofRules_concat, mem_register, ih, List.mem_append, List.mem_singleton, or_comm]

/-- Rules that are added in order stand as if all were sorted anew each time. -/
theorem ofRules_eq_resorted (rules : List KindRule) :
    ofRules rules = rules.foldl (fun registry rule => sorted (registry ++ [rule])) [] := by
  induction rules using List.reverseRecOn with
  | nil => rfl
  | append_singleton rules rule ih =>
    rw [ofRules_concat, register_eq_sorted (ordered_ofRules rules), List.foldl_append, ← ih]
    rfl

end KindRegistry

open KindRegistry RuleCall

namespace RuleCall

variable {calls : List RuleCall} {name : List Char} {c d : RuleCall}

/-- The one that decides has the highest priority of all that accept the name. -/
theorem Decides.priority_le (h : Decides calls name c) (hd : d ∈ calls)
    (hpasses : d.test.Passes name) : d.priority ≤ c.priority := by
  obtain ⟨before, after, rfl, -, hbefore, hafter⟩ := h
  rcases List.mem_append.1 hd with hd | hd
  · exact le_of_lt (hbefore d hd hpasses)
  rcases List.mem_cons.1 hd with rfl | hd
  · exact le_refl _
  · exact hafter d hd hpasses

/-- A call that is added decides if all others that accept the name have lower priorities. -/
theorem decides_concat_self (hpasses : c.test.Passes name)
    (h : ∀ d ∈ calls, d.test.Passes name → d.priority < c.priority) :
    Decides (calls ++ [c]) name c :=
  ⟨calls, [], rfl, hpasses, h, nofun⟩

/-- What decides still decides when a call is added that does not accept the name, or with no higher
priority. -/
theorem Decides.concat (h : Decides calls name c)
    (hd : d.test.Passes name → d.priority ≤ c.priority) : Decides (calls ++ [d]) name c := by
  obtain ⟨before, after, rfl, hpasses, hbefore, hafter⟩ := h
  refine ⟨before, after ++ [d], by simp, hpasses, hbefore, ?_⟩
  intro e he
  rcases List.mem_append.1 he with he | he
  · exact hafter e he
  · obtain rfl := List.mem_singleton.1 he
    exact hd

end RuleCall

namespace KindRegistry

open RuleCall

/-- The registry after calls on one without rules. -/
def ofCalls (calls : List RuleCall) : KindRegistry := ofRules (calls.map (·.rule))

/-- What the first rule that accepts a name says about the calls: it is that of the call that
decides, and if there is none no call accepts the name. -/
def Agrees (calls : List RuleCall) (name : List Char) : Option KindRule → Prop
  | some r => ∃ c, Decides calls name c ∧ c.rule = r
  | none => ∀ c ∈ calls, ¬ c.test.Passes name

/-- One call more. -/
theorem Agrees.concat {calls : List RuleCall} {name : List Char} {found : Option KindRule}
    {c : RuleCall} (h : Agrees calls name found) :
    Agrees (calls ++ [c]) name (preferred (·.accepts name) c.rule found) := by
  unfold preferred
  split
  · next hnew =>
    obtain ⟨haccepts, hlower⟩ := hnew
    have hpasses := accepts_rule_iff.1 haccepts
    refine ⟨c, decides_concat_self hpasses fun d hd hd' => ?_, rfl⟩
    cases found with
    | none => exact absurd hd' (h d hd)
    | some r =>
      obtain ⟨best, hbest, rfl⟩ := h
      have hlt := hlower _ rfl
      rw [priority_rule, priority_rule] at hlt
      exact lt_of_le_of_lt (hbest.priority_le hd hd') hlt
  · next hold =>
    cases found with
    | none =>
      intro d hd
      rcases List.mem_append.1 hd with hd | hd
      · exact h d hd
      · obtain rfl := List.mem_singleton.1 hd
        exact fun hpasses => hold ⟨accepts_rule_iff.2 hpasses, nofun⟩
    | some r =>
      obtain ⟨best, hbest, rfl⟩ := h
      refine ⟨best, hbest.concat fun hpasses => not_lt.1 fun hlt => ?_, rfl⟩
      refine hold ⟨accepts_rule_iff.2 hpasses, fun r hr => ?_⟩
      cases hr
      rwa [priority_rule, priority_rule]

theorem ofCalls_concat (calls : List RuleCall) (c : RuleCall) :
    ofCalls (calls ++ [c]) = register c.rule (ofCalls calls) := by
  rw [ofCalls, List.map_append]
  exact ofRules_concat _ _

theorem agrees_find?_ofCalls (calls : List RuleCall) (name : List Char) :
    Agrees calls name ((ofCalls calls).find? (·.accepts name)) := by
  induction calls using List.reverseRecOn with
  | nil => exact fun c hc => absurd hc List.not_mem_nil
  | append_singleton calls c ih =>
    have hordered : Ordered (ofCalls calls) := ordered_ofRules _
    rw [ofCalls_concat, find?_register hordered]
    exact ih.concat

/-- The kind of a type is that of the rule of highest priority among those that accept its base
name, of the one that was added first among equals, and text if none accepts it. -/
theorem kind_ofCalls (calls : List RuleCall) (dataType : List Char) :
    (∃ c, Decides calls (TypeName.base dataType) c ∧ (ofCalls calls).kind dataType = c.kind)
    ∨ ((∀ c ∈ calls, ¬ c.test.Passes (TypeName.base dataType))
      ∧ (ofCalls calls).kind dataType = .text) := by
  have hagrees := agrees_find?_ofCalls calls (TypeName.base dataType)
  unfold kind
  cases hfound : (ofCalls calls).find? (·.accepts (TypeName.base dataType)) with
  | none =>
    rw [hfound] at hagrees
    exact .inr ⟨hagrees, rfl⟩
  | some r =>
    rw [hfound] at hagrees
    obtain ⟨c, hdecides, rfl⟩ := hagrees
    exact .inl ⟨c, hdecides, kind_rule c⟩

-- A rule for a whole name against one for its start that was added before.
example : (ofCalls [⟨.startingWith "int", .integer, some 10⟩,
    ⟨.exact ["interval"], .text, some 90⟩]).kind "interval".toList = .text := by decide

end KindRegistry

end StagedTable
