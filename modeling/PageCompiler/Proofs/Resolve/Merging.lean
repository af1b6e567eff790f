import PageCompiler.Mapping.Targets
import PageCompiler.Proofs.Document.Tidy
import PageCompiler.Resolve.Component

/-!
# Merging mappings

When mappings are merged, the later one decides about the keys that it has, and the lists of refused
names grow by the names that are new to them. Mappings can be grouped as one likes: only their order
matters. Mappings that were merged in different groups may still differ in how often the lists of
their first operand repeat a name, but not in which names they refuse (`Mapping.Agrees`), and the
resolution of a component sees no more than that. So it makes no difference whether a mapping comes
with the options or was merged over the mapping of the generator before.

* `Mapping.merge_assoc`, `Mapping.merge_self`, `Mapping.merge_empty`: the laws of merging.
* `Mapping.Grouped.agrees`: all groupings of a row of mappings agree.
* `Component.resolveWith_agrees`, `Component.resolveWith_own`: what a resolution sees of a mapping.
* `Mapping.merge_composes`: the laws, and what follows for resolutions.
-/

namespace PageCompiler

/-! ## Lists of refused names -/

section Names

variable {names more : List String} {name : String}

theorem addName_of_mem (h : name ∈ names) : addName names name = names := by
  rw [addName, if_pos (List.contains_iff_mem.2 h)]

theorem addName_of_notMem (h : name ∉ names) : addName names name = names ++ [name] := by
  rw [addName, if_neg (mt List.contains_iff_mem.1 h)]

theorem mem_addName {x : String} : x ∈ addName names name ↔ x ∈ names ∨ x = name := by
  by_cases h : name ∈ names
  · rw [addName_of_mem h]
    exact ⟨Or.inl, fun hx => hx.elim id fun heq => heq ▸ h⟩
  · rw [addName_of_notMem h, List.mem_append, List.mem_singleton]

theorem mem_addNames {x : String} : x ∈ addNames names more ↔ x ∈ names ∨ x ∈ more := by
  induction more generalizing names with
  | nil => simp [addNames]
  | cons name more ih =>
    rw [addNames, List.foldl_cons, ← addNames, ih, mem_addName, List.mem_cons, or_assoc]

theorem addNames_of_subset (h : more ⊆ names) : addNames names more = names := by
  induction more with
  | nil => rfl
  | cons name more ih =>
    rw [List.cons_subset] at h
    rw [addNames, List.foldl_cons, ← addNames, addName_of_mem h.1, ih h.2]

/-- Adding a name before or after the others comes to the same. -/
theorem addNames_addName (names more : List String) (name : String) :
    addNames names (addName more name) = addName (addNames names more) name := by
  by_cases h : name ∈ more
  · rw [addName_of_mem h, addName_of_mem (mem_addNames.2 (Or.inr h))]
  · rw [addName_of_notMem h, addNames, List.foldl_append]
    rfl

theorem addNames_assoc (names more others : List String) :
    addNames (addNames names more) others = addNames names (addNames more others) := by
  induction others generalizing more with
  | nil => rfl
  | cons name others ih =>
    calc addNames (addNames names more) (name :: others)
        = addNames (addName (addNames names more) name) others := rfl
      _ = addNames (addNames names (addName more name)) others := by rw [addNames_addName]
      _ = addNames names (addNames more (name :: others)) := ih _

/-- A list of names has grown by further names: it has the names of both lists, the first list
stands at its start as it was, and behind it each new name stands once. -/
def GrownBy (names more grown : List String) : Prop :=
  (∀ x, x ∈ grown ↔ x ∈ names ∨ x ∈ more) ∧
    ∃ added, grown = names ++ added ∧ added.Nodup ∧ ∀ x ∈ added, x ∉ names

theorem grownBy_addNames (names more : List String) :
    GrownBy names more (addNames names more) := by
  refine ⟨fun _ => mem_addNames, ?_⟩
  induction more generalizing names with
  | nil => exact ⟨[], (List.append_nil names).symm, List.nodup_nil, List.forall_mem_nil _⟩
  | cons name more ih =>
    rw [addNames, List.foldl_cons, ← addNames]
    by_cases h : name ∈ names
    · rw [addName_of_mem h]
      exact ih names
    · rw [addName_of_notMem h]
      obtain ⟨added, hadded, hnodup, hnew⟩ := ih (names ++ [name])
      have hnot : ∀ x ∈ added, x ∉ names ∧ x ≠ name := by simpa using hnew
      refine ⟨name :: added, by rw [hadded, List.append_assoc, List.singleton_append], ?_, ?_⟩
      · exact List.nodup_cons.2 ⟨fun hmem => (hnot name hmem).2 rfl, hnodup⟩
      · exact List.forall_mem_cons.2 ⟨h, fun x hx => (hnot x hx).1⟩

end Names

/-! ## Tables -/

namespace Dict

variable {α : Type} {a b c : Dict α}

/-- Later entries win, in whichever order three tables are put together. -/
theorem merge_assoc (ha : Sorted a) (hb : Sorted b) (hc : Sorted c) :
    merge (merge a b) c = merge a (merge b c) := by
  refine ((ha.merge b).merge c).ext (ha.merge _) fun key => ?_
  rw [get?_merge _ hc, get?_merge _ hb, get?_merge _ (hb.merge c), get?_merge _ hc, Option.or_assoc]

theorem merge_self (ha : Sorted a) : merge a a = a := by
  refine (ha.merge a).ext ha fun key => ?_
  rw [get?_merge _ ha, Option.or_self]

/-- A table has been put over another one: its own entries win, key by key. -/
def PutOver (base later merged : Dict α) : Prop :=
  Sorted merged ∧ ∀ key, get? merged key = (get? later key).or (get? base key)

theorem putOver_merge (ha : Sorted a) (hb : Sorted b) : PutOver a b (merge a b) :=
  ⟨ha.merge b, get?_merge a hb⟩

end Dict

/-! ## Mappings -/

namespace Mapping

/-- The tables of a mapping are in order. -/
structure Sorted (m : Mapping) : Prop where
  elements : Dict.Sorted m.elements
  events : Dict.Sorted m.events
  attributes : Dict.Sorted m.attributes

theorem sorted_iff {m : Mapping} : m.Sorted ↔
    Dict.Sorted m.elements ∧ Dict.Sorted m.events ∧ Dict.Sorted m.attributes :=
  ⟨fun h => ⟨h.elements, h.events, h.attributes⟩, fun ⟨h₁, h₂, h₃⟩ => ⟨h₁, h₂, h₃⟩⟩

instance (m : Mapping) : Decidable m.Sorted := decidable_of_iff' _ sorted_iff

theorem sorted_empty : Sorted {} := ⟨.nil, .nil, .nil⟩

theorem Sorted.merge {base : Mapping} (h : base.Sorted) (later : Mapping) :
    (base.merge later).Sorted :=
  ⟨h.elements.merge _, h.events.merge _, h.attributes.merge _⟩

section Reading

open Json

theorem sorted_of_table? {α : Type} {read : Json → Option α} {members : List (String × Json)}
    {name : String} {d : Dict α} (h : defaulted members name [] (table? read) = some d) :
    Dict.Sorted d := by
  rw [defaulted] at h
  split at h
  · cases h
    exact .nil
  · rename_i value _
    cases value with
    | object members => exact (exists_member_of_table h).1
    | _ => cases h

/-- The tables of a mapping that was read are in order. -/
theorem sorted_of_read {j : Json} {m : Mapping} (h : ofJson? j = some m) : m.Sorted := by
  obtain ⟨members, -, h⟩ := Option.bind_eq_some_iff.1 h
  obtain ⟨elements, helements, h⟩ := Option.bind_eq_some_iff.1 h
  obtain ⟨events, hevents, h⟩ := Option.bind_eq_some_iff.1 h
  obtain ⟨attributes, hattributes, h⟩ := Option.bind_eq_some_iff.1 h
  obtain ⟨classNames, -, h⟩ := Option.bind_eq_some_iff.1 h
  obtain ⟨propNames, -, h⟩ := Option.bind_eq_some_iff.1 h
  cases h
  exact ⟨sorted_of_table? helements, sorted_of_table? hevents, sorted_of_table? hattributes⟩

end Reading

/-- What a mapping has when another one was merged over it. -/
structure MergedFrom (base later merged : Mapping) : Prop where
  elements : Dict.PutOver base.elements later.elements merged.elements
  events : Dict.PutOver base.events later.events merged.events
  attributes : Dict.PutOver base.attributes later.attributes merged.attributes
  classNames : GrownBy base.illegalClassNames later.illegalClassNames merged.illegalClassNames
  propNames : GrownBy base.illegalPropNames later.illegalPropNames merged.illegalPropNames

section Laws

variable {a b c : Mapping}

theorem mergedFrom_merge (ha : a.Sorted) (hb : b.Sorted) : MergedFrom a b (a.merge b) where
  elements := Dict.putOver_merge ha.elements hb.elements
  events := Dict.putOver_merge ha.events hb.events
  attributes := Dict.putOver_merge ha.attributes hb.attributes
  classNames := grownBy_addNames _ _
  propNames := grownBy_addNames _ _

theorem merge_assoc (ha : a.Sorted) (hb : b.Sorted) (hc : c.Sorted) :
    (a.merge b).merge c = a.merge (b.merge c) := by
  simp only [merge, mk.injEq]
  exact ⟨Dict.merge_assoc ha.elements hb.elements hc.elements,
    Dict.merge_assoc ha.events hb.events hc.events,
    Dict.merge_assoc ha.attributes hb.attributes hc.attributes,
    addNames_assoc _ _ _, addNames_assoc _ _ _⟩

theorem merge_self (ha : a.Sorted) : a.merge a = a := by
  rw [merge, Dict.merge_self ha.elements, Dict.merge_self ha.events, Dict.merge_self ha.attributes,
    addNames_of_subset (List.Subset.refl _), addNames_of_subset (List.Subset.refl _)]

theorem merge_empty (a : Mapping) : a.merge {} = a := rfl

end Laws

/-! ## Mappings that agree -/

/-- Two mappings with the same entries that refuse the same names. -/
structure Agrees (a b : Mapping) : Prop where
  elements : a.elements = b.elements
  events : a.events = b.events
  attributes : a.attributes = b.attributes
  classNames : ∀ name, name ∈ a.illegalClassNames ↔ name ∈ b.illegalClassNames
  propNames : ∀ name, name ∈ a.illegalPropNames ↔ name ∈ b.illegalPropNames

namespace Agrees

variable {a a' b b' c : Mapping}

theorem refl (a : Mapping) : a.Agrees a := ⟨rfl, rfl, rfl, fun _ => .rfl, fun _ => .rfl⟩

theorem symm (h : a.Agrees b) : b.Agrees a :=
  ⟨h.elements.symm, h.events.symm, h.attributes.symm, fun name => (h.classNames name).symm,
    fun name => (h.propNames name).symm⟩

theorem trans (h : a.Agrees b) (h' : b.Agrees c) : a.Agrees c :=
  ⟨h.elements.trans h'.elements, h.events.trans h'.events, h.attributes.trans h'.attributes,
    fun name => (h.classNames name).trans (h'.classNames name),
    fun name => (h.propNames name).trans (h'.propNames name)⟩

theorem merge (h : a.Agrees a') (h' : b.Agrees b') : (a.merge b).Agrees (a'.merge b') where
  elements := congrArg₂ Dict.merge h.elements h'.elements
  events := congrArg₂ Dict.merge h.events h'.events
  attributes := congrArg₂ Dict.merge h.attributes h'.attributes
  classNames name := by
    simp only [Mapping.merge, mem_addNames, h.classNames, h'.classNames]
  propNames name := by
    simp only [Mapping.merge, mem_addNames, h.propNames, h'.propNames]

end Agrees

/-- Merged over the empty mapping, a mapping only loses repetitions of names. -/
theorem agrees_empty_merge {a : Mapping} (ha : a.Sorted) : (merge {} a).Agrees a where
  elements := ha.elements.ofList_eq
  events := ha.events.ofList_eq
  attributes := ha.attributes.ofList_eq
  classNames name := by simp [merge, mem_addNames]
  propNames name := by simp [merge, mem_addNames]

/-- A mapping that comes about by merging a row of mappings in groups of any kind. -/
inductive Grouped : List Mapping → Mapping → Prop
  | empty : Grouped [] {}
  | single (m : Mapping) : Grouped [m] m
  | merge {ms ns : List Mapping} {a b : Mapping} (first : Grouped ms a) (second : Grouped ns b) :
      Grouped (ms ++ ns) (a.merge b)

/-- The mappings of a row merged one after the other. -/
def mergeAll (ms : List Mapping) : Mapping := ms.foldl Mapping.merge {}

theorem sorted_mergeAll (ms : List Mapping) : (mergeAll ms).Sorted := by
  induction ms using List.reverseRecOn with
  | nil => exact sorted_empty
  | append_singleton ms m ih =>
    rw [mergeAll, List.foldl_append]
    exact ih.merge m

/-- A row of mappings can be merged before it is merged over another mapping. -/
theorem foldl_merge {ms : List Mapping} {a : Mapping} (ha : a.Sorted) (hms : ∀ m ∈ ms, m.Sorted) :
    ms.foldl Mapping.merge a = a.merge (mergeAll ms) := by
  induction ms using List.reverseRecOn with
  | nil => rfl
  | append_singleton ms m ih =>
    rw [List.forall_mem_append, List.forall_mem_singleton] at hms
    calc (ms ++ [m]).foldl Mapping.merge a
        = (ms.foldl Mapping.merge a).merge m := by rw [List.foldl_append]; rfl
      _ = (a.merge (mergeAll ms)).merge m := by rw [ih hms.1]
      _ = a.merge ((mergeAll ms).merge m) := merge_assoc ha (sorted_mergeAll ms) hms.2
      _ = a.merge (mergeAll (ms ++ [m])) := by
        rw [mergeAll, mergeAll, List.foldl_append]
        rfl

namespace Grouped

variable {ms : List Mapping} {a b : Mapping}

/-- **Groups make no difference.** -/
theorem agrees_mergeAll (h : Grouped ms a) (hms : ∀ m ∈ ms, m.Sorted) : a.Agrees (mergeAll ms) := by
  induction h with
  | empty => exact .refl _
  | single m => exact (agrees_empty_merge (hms m List.mem_cons_self)).symm
  | @merge ms ns a b _ _ ihms ihns =>
    rw [List.forall_mem_append] at hms
    rw [mergeAll, List.foldl_append, ← mergeAll, foldl_merge (sorted_mergeAll ms) hms.2]
    exact (ihms hms.1).merge (ihns hms.2)

theorem agrees (h : Grouped ms a) (h' : Grouped ms b) (hms : ∀ m ∈ ms, m.Sorted) : a.Agrees b :=
  (h.agrees_mergeAll hms).trans (h'.agrees_mergeAll hms).symm

end Grouped

end Mapping

/-! ## Resolutions -/

section Agreeing

variable {a b : Mapping}

theorem Component.checkNames_agrees (h : a.Agrees b) (c : Component) :
    c.checkNames a = c.checkNames b := by
  have hclass : a.illegalClassNames.contains = b.illegalClassNames.contains :=
    funext fun name => Bool.eq_iff_iff.2 (by simpa using h.classNames name)
  have hprop : a.illegalPropNames.contains = b.illegalPropNames.contains :=
    funext fun name => Bool.eq_iff_iff.2 (by simpa using h.propNames name)
  rw [checkNames, checkNames, illegalName?, illegalName?, hclass, hprop]

theorem Component.applyMapping_agrees (h : a.Agrees b) (c : Component) (o : Options) :
    c.applyMapping a o = c.applyMapping b o := by
  have helement : Element.applyMapping a o = Element.applyMapping b o := by
    funext e
    simp only [Element.applyMapping, h.elements, h.events, h.attributes]
  have hdepth : a.depthBound = b.depthBound := by
    funext depth
    rw [Mapping.depthBound, Mapping.depthBound, h.elements]
  have hnode : Node.applyMapping a o = Node.applyMapping b o := by
    funext node
    rw [Node.applyMapping, Node.applyMapping, helement, hdepth]
  rw [applyMapping, applyMapping, hnode]

theorem Options.effectiveMapping_agrees (h : a.Agrees b) (o : Options) :
    (o.effectiveMapping a).Agrees (o.effectiveMapping b) := by
  rw [effectiveMapping, effectiveMapping]
  cases o.mapping with
  | none => exact h
  | some own => exact h.merge (.refl own)

/-- **Mappings that agree resolve alike.** -/
theorem Component.resolveWith_agrees (h : a.Agrees b) (steps : List AbilityStep) (c : Component)
    (o : Options) : c.resolveWith steps a o = c.resolveWith steps b o := by
  have heffective := o.effectiveMapping_agrees h
  simp only [resolveWith, checkNames_agrees heffective, applyMapping_agrees heffective]

end Agreeing

/-- A step for abilities that does not look at the mapping of the options. -/
def AbilityStep.IgnoresMapping (step : AbilityStep) : Prop :=
  ∀ c o m, step c { o with mapping := m } = step c o

theorem Node.wrapLinks_mapping (node : Node) (o : Options) (m : Option Mapping) :
    node.wrapLinks { o with mapping := m } = node.wrapLinks o := by
  -- the options are a parameter of the recursion, which reads nothing but their routes
  delta Node.wrapLinks
  rfl

theorem linkStep_ignoresMapping : linkStep.IgnoresMapping := by
  intro c o m
  rw [linkStep, linkStep, Component.wrapLinks, Component.wrapLinks, c.node.wrapLinks_mapping]

theorem Component.carryOut_ignoresMapping {steps : List AbilityStep}
    (h : ∀ step ∈ steps, step.IgnoresMapping) (c : Component) (o : Options) (m : Option Mapping) :
    c.carryOut steps { o with mapping := m } = c.carryOut steps o := by
  induction steps generalizing c with
  | nil => rfl
  | cons step steps ih =>
    rw [List.forall_mem_cons] at h
    rw [carryOut, carryOut, List.foldlM_cons, List.foldlM_cons, h.1 c o m]
    exact congrArg _ (funext fun c' => ih h.2 c')

/-- **A mapping that comes with the options** is merged over that of the generator. -/
theorem Component.resolveWith_own {steps : List AbilityStep}
    (h : ∀ step ∈ steps, step.IgnoresMapping) (c : Component) (base own : Mapping) (o : Options) :
    c.resolveWith steps base { o with mapping := some own } =
      c.resolveWith steps (base.merge own) { o with mapping := none } := by
  simp only [resolveWith, carryOut_ignoresMapping h]
  rfl

/-- **Mappings compose.** Merging mappings is associative; a mapping merged into itself, or the
empty one merged into it, changes nothing. In a merged mapping the later entry of each key wins, and
each list of refused names has the names of both operands, with the first list as it was at its
start and each new name once behind it. So a mapping that comes with the options resolves every
component as if it had been merged over the mapping of the generator, in whichever groups this one
was put together: with the links carried out, and with any steps for abilities that do not look at
the mapping of the options themselves. -/
theorem Mapping.merge_composes {a b c : Mapping} (ha : a.Sorted) (hb : b.Sorted) (hc : c.Sorted) :
    (a.merge b).merge c = a.merge (b.merge c) ∧ a.merge a = a ∧ a.merge {} = a ∧
    MergedFrom a b (a.merge b) ∧
    ∀ (ms : List Mapping) (base base' : Mapping), (∀ m ∈ ms, m.Sorted) →
      Grouped ms base → Grouped ms base' → ∀ (component : Component) (o : Options),
      component.resolve base { o with mapping := some a } =
        component.resolve (base'.merge a) { o with mapping := none } ∧
      ∀ steps : List AbilityStep, (∀ step ∈ steps, step.IgnoresMapping) →
        component.resolveWith steps base { o with mapping := some a } =
          component.resolveWith steps (base'.merge a) { o with mapping := none } := by
  refine ⟨merge_assoc ha hb hc, merge_self ha, merge_empty a, mergedFrom_merge ha hb,
    fun ms base base' hms hbase hbase' component o => ?_⟩
  have hsteps : ∀ steps : List AbilityStep, (∀ step ∈ steps, step.IgnoresMapping) →
      component.resolveWith steps base { o with mapping := some a } =
        component.resolveWith steps (base'.merge a) { o with mapping := none } := by
    intro steps hsteps
    rw [Component.resolveWith_own hsteps]
    exact Component.resolveWith_agrees ((hbase.agrees hbase' hms).merge (.refl a)) _ _ _
  exact ⟨hsteps [linkStep] (List.forall_mem_singleton.2 linkStep_ignoresMapping), hsteps⟩

/-- A mapping of a caller: texts become paragraphs, and a name is refused twice. -/
def paragraphMapping : Mapping where
  elements := [("text", .renamed "p")]
  attributes := [("class", "className")]
  illegalPropNames := ["state", "key", "state"]

theorem paragraphMapping_composes :
    (Mapping.react.merge paragraphMapping).merge .vue =
      Mapping.react.merge (paragraphMapping.merge .vue) ∧
    (Mapping.react.merge paragraphMapping).illegalPropNames =
      ["key", "ref", "children", "dangerouslySetInnerHTML", "state"] ∧
    ∀ component : Component, component.resolve paragraphMapping { mapping := some .react } =
      component.resolve (({} : Mapping).merge paragraphMapping |>.merge .react) {} := by
  have hreact : Mapping.react.Sorted := by decide +kernel
  have hown : paragraphMapping.Sorted := by decide +kernel
  have hvue : Mapping.vue.Sorted := by decide +kernel
  obtain ⟨hassoc, -, -, -, hresolve⟩ := Mapping.merge_composes hreact hown hvue
  refine ⟨hassoc, by decide +kernel, fun component => ?_⟩
  have hgrouped : Mapping.Grouped [paragraphMapping] (({} : Mapping).merge paragraphMapping) :=
    Mapping.Grouped.empty.merge (.single paragraphMapping)
  exact (hresolve _ _ _ (List.forall_mem_singleton.2 hown) (.single paragraphMapping) hgrouped
    component {}).1

end PageCompiler
