import PageCompiler.Proofs.Page.Run

/-!
# Conditions in any order

A conditional is decided from one value. Its conditions are looked at in their order, and a
comparison of two things without an order ends the test. Where all conditions must hold, this comes
to the same as a condition that does not hold. Where one is enough, it does not: a condition that
holds shows the node only if no comparison before it fails. So the order of the conditions matters
exactly if there are conditions of both sorts (`ConditionSet.Torn`).

* `ValueTest.fails_iff`: the comparisons that fail.
* `ConditionSet.isMet_iff`: when conditions are met.
* `Conditional.isShown_reorder`: a conditional with its conditions in another order.
* `sizedNote_reordered`: two conditions whose order matters.
-/

namespace PageCompiler

variable {value : Json}

/-! ## Tests that fail -/

/-- A test that a value passes. -/
def ValueTest.Passes (t : ValueTest) (value : Json) : Prop := t.holds value = .ok true

/-- A test that fails on a value. -/
def ValueTest.Fails (t : ValueTest) (value : Json) : Prop := ∃ e, t.holds value = .error e

/-- A value and a constant that have an order: two numbers or two texts. -/
def Json.Comparable (value : Json) (operand : Literal) : Prop :=
  (∃ a b, value = .number a ∧ operand = .number b) ∨ ∃ a b, value = .string a ∧ operand = .text b

/-- A comparison that asks for an order. -/
def Comparison.IsRelational (c : Comparison) : Prop := c ≠ .equal ∧ c ≠ .notEqual

theorem Json.exists_order_eq_error_iff {operand : Literal} :
    (∃ e, value.order operand = .error e) ↔ ¬ value.Comparable operand := by
  cases value <;> cases operand <;> simp [Json.order, Json.Comparable]

theorem exists_map_eq_error_iff {ε α β : Type} {x : Except ε α} {f : α → β} :
    (∃ e, x.map f = .error e) ↔ ∃ e, x = .error e := by
  cases x <;> simp [Except.map]

/-- **A test fails exactly if it asks for an order that there is none of.** -/
theorem ValueTest.fails_iff {t : ValueTest} : t.Fails value ↔
    ∃ c operand, t = .comparison c operand ∧ c.IsRelational ∧ ¬ value.Comparable operand := by
  cases t with
  | comparison c operand =>
    have hsame : (∃ c' operand', comparison c operand = comparison c' operand' ∧
        c'.IsRelational ∧ ¬ value.Comparable operand') ↔
        c.IsRelational ∧ ¬ value.Comparable operand :=
      ⟨by rintro ⟨_, _, ⟨⟩, h⟩; exact h, fun h => ⟨c, operand, rfl, h⟩⟩
    rw [hsame]
    cases c <;> simp [Fails, holds, Comparison.IsRelational, exists_map_eq_error_iff,
      Json.exists_order_eq_error_iff]
  | _ => simp [Fails, holds]

/-! ## Tests in a row -/

/-- All tests hold if each of them does. -/
theorem allHold_eq_ok_true_iff {tests : List ValueTest} :
    allHold value tests = .ok true ↔ ∀ t ∈ tests, t.Passes value := by
  induction tests with
  | nil => simp [allHold]
  | cons t rest ih =>
    rw [List.forall_mem_cons, ← ih, allHold, ValueTest.Passes]
    rcases t.holds value with e | _ | _ <;> simp [bind, Except.bind]

/-- One of the tests holds if there is one that does and none before it fails. -/
theorem someHolds_eq_ok_true_iff {tests : List ValueTest} : someHolds value tests = .ok true ↔
    ∃ before t after, tests = before ++ t :: after ∧ t.Passes value ∧
      ∀ u ∈ before, ¬ u.Fails value := by
  constructor
  · intro h
    induction tests with
    | nil => cases h
    | cons t rest ih =>
      rw [someHolds] at h
      rcases ht : t.holds value with e | _ | _ <;> rw [ht] at h
      · cases h
      · obtain ⟨before, u, after, rfl, hu, hbefore⟩ := ih h
        refine ⟨t :: before, u, after, rfl, hu, List.forall_mem_cons.2 ⟨?_, hbefore⟩⟩
        simp [ValueTest.Fails, ht]
      · exact ⟨[], t, rest, rfl, ht, by simp⟩
  · rintro ⟨before, t, after, rfl, ht, hbefore⟩
    induction before with
    | nil =>
      rw [List.nil_append, someHolds, ht]
      rfl
    | cons u rest ih =>
      obtain ⟨hu, hrest⟩ := List.forall_mem_cons.1 hbefore
      rw [List.cons_append, someHolds]
      rcases hholds : u.holds value with e | _ | _
      · exact absurd ⟨e, hholds⟩ hu
      · exact ih hrest
      · rfl

namespace ConditionSet

variable {s : ConditionSet}

/-- What it takes to meet conditions. Where one of them is enough, the first one that settles the
answer ends the test. -/
def IsMet (s : ConditionSet) (value : Json) : Prop :=
  if s.all then s.tests ≠ [] ∧ ∀ t ∈ s.tests, t.Passes value
  else ∃ before t after, s.tests = before ++ t :: after ∧ t.Passes value ∧
    ∀ u ∈ before, ¬ u.Fails value

/-- **The conditions are met.** -/
theorem isMet_iff : s.holds value = .ok true ↔ s.IsMet value := by
  rw [holds, IsMet]
  by_cases hnil : s.tests = []
  · simp [hnil]
  · rw [if_neg (by simpa using hnil)]
    split
    · rw [allHold_eq_ok_true_iff]
      exact (and_iff_right hnil).symm
    · exact someHolds_eq_ok_true_iff

/-- One condition is enough, and there is one that holds, but another one fails. -/
def Torn (s : ConditionSet) (value : Json) : Prop :=
  s.all = false ∧ (∃ t ∈ s.tests, t.Passes value) ∧ ∃ t ∈ s.tests, t.Fails value

/-- Conditions that are not torn are met whatever their order. -/
theorem isMet_perm (h : ¬ s.Torn value) {tests : List ValueTest} (hperm : tests.Perm s.tests) :
    IsMet ⟨tests, s.all⟩ value ↔ s.IsMet value := by
  rw [IsMet, IsMet]
  dsimp only
  cases hall : s.all with
  | true => simp [hperm.mem_iff, Ne, ← List.length_eq_zero_iff, hperm.length_eq]
  | false =>
    -- with a condition that holds, nothing fails, so any place before it will do
    have hmet : ∀ {ts : List ValueTest}, ts.Perm s.tests →
        ((∃ before t after, ts = before ++ t :: after ∧ t.Passes value ∧
          ∀ u ∈ before, ¬ u.Fails value) ↔ ∃ t ∈ s.tests, t.Passes value) := by
      intro ts hts
      constructor
      · rintro ⟨before, t, after, rfl, ht, -⟩
        exact ⟨t, hts.subset (by simp), ht⟩
      · rintro ⟨t, ht, hpasses⟩
        obtain ⟨before, after, rfl⟩ := List.append_of_mem (hts.mem_iff.2 ht)
        refine ⟨before, t, after, rfl, hpasses, fun u hu hfails => ?_⟩
        exact h ⟨hall, ⟨t, ht, hpasses⟩, u, hts.subset (List.mem_append_left _ hu), hfails⟩
    simp only [Bool.false_eq_true, if_false]
    rw [hmet hperm, hmet (.refl _)]

/-- A condition that holds shows the node when it comes first. -/
theorem isMet_of_first {t : ValueTest} {rest : List ValueTest} (ht : t.Passes value) :
    IsMet ⟨t :: rest, false⟩ value :=
  ⟨[], t, rest, rfl, ht, by simp⟩

/-- A comparison that fails keeps the conditions from being met when it comes first. -/
theorem not_isMet_of_first {t : ValueTest} {rest : List ValueTest} (ht : t.Fails value) :
    ¬ IsMet ⟨t :: rest, false⟩ value := by
  obtain ⟨e, ht⟩ := ht
  rw [← isMet_iff, holds]
  simp [someHolds, ht, bind, Except.bind]

end ConditionSet

/-! ## Conditionals -/

namespace Conditional

variable {q : Conditional} {ds : Definitions}

/-- The value that a conditional is decided from, if there is one: the default of a prop, or what
the path of the reference leads to in it. -/
def subject? (q : Conditional) (ds : Definitions) : Option Json :=
  match q.reference with
  | .dynamic r =>
    if r.scope = .prop then
      match (Dict.get? ds.props r.id).bind (·.default) with
      | some (.value default) => some ((r.path.bind fun path => default.at? path).getD default)
      | _ => none
    else none
  | _ => none

/-- The conditions of a conditional. -/
def conditions (q : Conditional) : List Condition :=
  (q.condition.map (·.conditions)).getD []

/-- A conditional with other conditions. -/
def withConditions (q : Conditional) (conditions : List Condition) : Conditional :=
  { q with condition := q.condition.map ({ · with conditions }) }

/-- A conditional shows its node when the value it is decided from meets its conditions. -/
theorem isShown_iff : q.isShown ds ↔
    ∃ value ∈ q.subject? ds, (ConditionSet.ofConditional q).IsMet value := by
  simp only [← ConditionSet.isMet_iff]
  rw [isShown, subject?]
  cases q.reference with
  | dynamic r =>
    dsimp only
    split
    · rcases (Dict.get? ds.props r.id).bind (·.default) with _ | node | default
      · simp
      · simp
      · dsimp only
        split
        · rename_i shown hholds
          simp [hholds]
        · rename_i e hholds
          simp [hholds]
    · simp
  | _ => simp

/-- The order of the conditions of a conditional matters. -/
def Torn (q : Conditional) (ds : Definitions) : Prop :=
  ∃ value ∈ q.subject? ds, (ConditionSet.ofConditional q).Torn value

theorem ofConditional_withConditions {conditions : List Condition}
    (h : conditions.Perm q.conditions) :
    ∃ tests, tests.Perm (ConditionSet.ofConditional q).tests ∧
      ConditionSet.ofConditional (q.withConditions conditions)
        = ⟨tests, (ConditionSet.ofConditional q).all⟩ := by
  rcases q with ⟨node, reference, _ | value, _ | group⟩
  · exact ⟨_, .refl _, rfl⟩
  · exact ⟨conditions.map .ofCondition, h.map _, rfl⟩
  · exact ⟨_, .refl _, rfl⟩
  · exact ⟨_, .refl _, rfl⟩

/-- A conditional that is torn has conditions that it is decided by. -/
theorem Torn.exists_conditions (h : q.Torn ds) :
    ∃ value ∈ q.subject? ds, (∀ conditions, ConditionSet.ofConditional (q.withConditions conditions)
        = ⟨conditions.map .ofCondition, false⟩) ∧
      (∃ p ∈ q.conditions, (ValueTest.ofCondition p).Passes value) ∧
        ∃ p ∈ q.conditions, (ValueTest.ofCondition p).Fails value := by
  obtain ⟨value, hvalue, hall, ⟨t, ht, hpasses⟩, u, hu, hfails⟩ := h
  refine ⟨value, hvalue, ?_⟩
  rcases q with ⟨node, reference, _ | constant, _ | group⟩
  · cases ht
  · obtain ⟨p, hp, rfl⟩ := List.mem_map.1 ht
    obtain ⟨p', hp', rfl⟩ := List.mem_map.1 hu
    exact ⟨fun conditions => congrArg (ConditionSet.mk _) hall, ⟨p, hp, hpasses⟩, p', hp', hfails⟩
  all_goals
    cases List.mem_singleton.1 hu
    obtain ⟨_, hfails⟩ := hfails
    cases hfails

/-- A condition of a conditional can come first. -/
theorem exists_perm_of_mem {p : Condition} (h : p ∈ q.conditions) :
    ∃ rest, (p :: rest).Perm q.conditions := by
  obtain ⟨before, after, hsplit⟩ := List.append_of_mem h
  exact ⟨before ++ after, hsplit ▸ List.perm_middle.symm⟩

/-- **The order of conditions.** A conditional shows its node or not whatever the order of its
conditions, unless it is torn; then there are orders of both sorts. What a conditional that is not
torn comes to on the page is the same as well, and so is what its generation leaves behind. -/
theorem isShown_reorder (at' : Surroundings) (q : Conditional) :
    ((∀ conditions, conditions.Perm q.conditions →
        (q.withConditions conditions).isShown at'.definitions = q.isShown at'.definitions) ↔
      ¬ q.Torn at'.definitions) ∧
    (¬ q.Torn at'.definitions → ∀ conditions, conditions.Perm q.conditions →
      ∀ (env : Environment) (fuel : Nat) (c : Context),
        let reordered := generateNode env fuel at' (.conditional (q.withConditions conditions)) c
        let run := generateNode env fuel at' (.conditional q) c
        reordered.1.2 = run.1.2 ∧ reordered.2 = run.2) := by
  have hsame (htorn : ¬ q.Torn at'.definitions) (conditions : List Condition)
      (hperm : conditions.Perm q.conditions) :
      (q.withConditions conditions).isShown at'.definitions = q.isShown at'.definitions := by
    obtain ⟨tests, htests, hreordered⟩ := ofConditional_withConditions hperm
    rw [Bool.eq_iff_iff, isShown_iff, isShown_iff, hreordered]
    refine exists_congr fun value => and_congr_right fun hvalue => ?_
    exact ConditionSet.isMet_perm (fun h => htorn ⟨value, hvalue, h⟩) htests
  refine ⟨⟨fun hall htorn => ?_, hsame⟩, fun htorn conditions hperm env fuel c => ?_⟩
  · obtain ⟨value, hvalue, hdecided, ⟨p, hp, hpasses⟩, p', hp', hfails⟩ := htorn.exists_conditions
    obtain ⟨rest, hrest⟩ := exists_perm_of_mem hp
    obtain ⟨rest', hrest'⟩ := exists_perm_of_mem hp'
    have hshown : (q.withConditions (p :: rest)).isShown at'.definitions = true :=
      isShown_iff.2 ⟨value, hvalue, hdecided _ ▸ ConditionSet.isMet_of_first hpasses⟩
    rw [hall _ hrest, ← hall _ hrest', isShown_iff] at hshown
    obtain ⟨_, hvalue', hmet⟩ := hshown
    cases Option.mem_unique hvalue hvalue'
    exact ConditionSet.not_isMet_of_first hfails (hdecided _ ▸ hmet)
  · cases fuel with
    | zero => exact ⟨rfl, rfl⟩
    | succ fuel =>
      rw [generateNode_conditional, generateNode_conditional, hsame htorn conditions hperm]
      split <;> exact ⟨rfl, rfl⟩

end Conditional

/-! ## A note for one size -/

/-- A prop with a text as its default. -/
def sizeProps : Definitions where
  props := [("size", { kind := "string", default := some (.value (.string "large")) })]

/-- The condition that the size is above two. -/
def isWide : Condition := ⟨">", some (.number (.ofInt 2))⟩

/-- The condition that the size is `large`. -/
def isLarge : Condition := ⟨"===", some (.text "large")⟩

/-- A note that is shown for some sizes. -/
def sizedNote (criteria : Option String) (conditions : List Condition) : Conditional where
  node := .constant (.text "big")
  reference := .dynamic ⟨.prop, "size", none⟩
  condition := some { conditions, criteria }

/-- When all conditions must hold, a comparison that fails can stand anywhere. -/
theorem sizedNote_all_reordered :
    ¬ (sizedNote (some "all") [isLarge, isWide]).Torn sizeProps ∧
    [isWide, isLarge].Perm [isLarge, isWide] ∧
    (sizedNote (some "all") [isWide, isLarge]).isShown sizeProps
      = (sizedNote (some "all") [isLarge, isWide]).isShown sizeProps ∧
    ∀ (env : Environment) (fuel : Nat) (c : Context),
      (generateNode env fuel ⟨sizeProps, []⟩
          (.conditional (sizedNote (some "all") [isWide, isLarge])) c).1.2
        = (generateNode env fuel ⟨sizeProps, []⟩
          (.conditional (sizedNote (some "all") [isLarge, isWide])) c).1.2 := by
  have htorn : ¬ (sizedNote (some "all") [isLarge, isWide]).Torn sizeProps := by
    rintro ⟨_, -, hall, -⟩
    cases hall
  have hperm : [isWide, isLarge].Perm [isLarge, isWide] := .swap _ _ _
  obtain ⟨hshown, hrun⟩ := Conditional.isShown_reorder ⟨sizeProps, []⟩
    (sizedNote (some "all") [isLarge, isWide])
  exact ⟨htorn, hperm, hshown.2 htorn _ hperm,
    fun env fuel c => (hrun htorn _ hperm env fuel c).1⟩

/-- **The order of conditions can matter.** One of the two conditions is enough, and the size is
`large`, but the note is not shown when the size is compared with a number first. -/
theorem sizedNote_reordered :
    (¬ ∀ (ds : Definitions) (q : Conditional) (conditions : List Condition),
      conditions.Perm q.conditions → (q.withConditions conditions).isShown ds = q.isShown ds) ∧
    (sizedNote none [isLarge, isWide]).isShown sizeProps = true ∧
    (sizedNote none [isWide, isLarge]).isShown sizeProps = false ∧
    ∀ (env : Environment) (c : Context),
      (generateNode env 2 ⟨sizeProps, []⟩ (.conditional (sizedNote none [isLarge, isWide])) c).1.2
        = .ok (.text "big") ∧
      (generateNode env 2 ⟨sizeProps, []⟩ (.conditional (sizedNote none [isWide, isLarge])) c).1.2
        = .ok (.comment conditionalPlaceholder) := by
  have hfirst : (sizedNote none [isLarge, isWide]).isShown sizeProps = true := by decide
  have hlast : (sizedNote none [isWide, isLarge]).isShown sizeProps = false := by decide
  refine ⟨fun hall => ?_, hfirst, hlast, fun env c => ⟨?_, ?_⟩⟩
  · have hsame := hall sizeProps (sizedNote none [isLarge, isWide]) [isWide, isLarge] (.swap _ _ _)
    exact absurd (hlast.symm.trans (hsame.trans hfirst)) (by decide)
  · rw [generateNode_conditional, if_pos hfirst]
    rfl
  · rw [generateNode_conditional, if_neg (by simp [hlast])]

end PageCompiler
