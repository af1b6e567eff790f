import PageCompiler.Proofs.Page.Filling
import PageCompiler.Proofs.Page.Reaching

/-!
# The steps of a generation

The generation of a node calls that of its parts, each with the context that the parts before it
leave behind. What a call does to the context itself is little: a tag is made and registered, keys
are reserved, the stages of an instance run. However a run ends, the context that it leaves behind is
reached by such steps, one after the other, each taken by a call that it leads to.

* `Makes`, `Leads`: a call makes another one, and leads to more of them.
* `Acts`: what a call does to the context itself.
* `Call.steps`: a run is a row of steps, whether or not it succeeds.
* `Steps.related`: a preorder of contexts that each step keeps is kept by all of them.
-/

namespace PageCompiler

/-! ## Calls -/

/-- What is generated by a call: a node, the value of a reference, or an element. -/
inductive Task where
  | node (node : Node)
  | reference (r : Reference)
  | element (e : Element)

/-- A call of the generation. -/
structure Call where
  fuel : Nat
  place : Surroundings
  task : Task
  context : Context

/-- A call makes another one. An instance calls the generation of the elements among its attributes,
and then that of its wrapper. -/
inductive Makes (env : Environment) : Call → Call → Prop
  | content {fuel : Nat} {at' : Surroundings} {e : Element} {c : Context} :
      Makes env ⟨fuel + 1, at', .node (.element e), c⟩ ⟨fuel, at', .element e, c⟩
  | reference {fuel : Nat} {at' : Surroundings} {r : Reference} {c : Context} :
      Makes env ⟨fuel + 1, at', .node (.dynamic r), c⟩ ⟨fuel, at', .reference r, c⟩
  | body {fuel : Nat} {at' : Surroundings} {q : Conditional} {c : Context}
      (shown : q.isShown at'.definitions) :
      Makes env ⟨fuel + 1, at', .node (.conditional q), c⟩ ⟨fuel, at', .node q.node, c⟩
  | default {fuel : Nat} {at' : Surroundings} {r : Reference} {v : ReferredValue} {node : Node}
      {c : Context} (value : at'.definitions.value r = .ok v) (kind : v.kind = "element")
      (default : v.default = some (.node node)) (new : node.registered? c = none) :
      Makes env ⟨fuel + 1, at', .reference r, c⟩ ⟨fuel, at', .node node, c⟩
  | child {fuel : Nat} {at' : Surroundings} {e : Element} {child : Node} {c there : Context}
      (tag : e.isInstance = false)
      (reaches : EachReaches (generateNode env fuel at') child there e.children
        (c.noteDependency e)) :
      Makes env ⟨fuel + 1, at', .element e, c⟩ ⟨fuel, at', .node child, there⟩
  | given {fuel : Nat} {at' : Surroundings} {e x : Element} {external : Component}
      {states : Dict StateDefinition} {c there : Context} (isInstance : e.isInstance = true)
      (component : Dict.get? env.externals e.componentName = some external)
      (accepted : (Dict.merge at'.definitions.states (c.instantiate external).states).mapM
        (instanceState e.attrs) = .ok states)
      (reaches : PropsReach (generateElement env fuel at') at'.definitions x there e.attrs
        (combineProps at'.definitions.props (c.instantiate external).props)
        (c.reserve (c.instantiate external).node.keys)) :
      Makes env ⟨fuel + 2, at', .element e, c⟩ ⟨fuel, at', .element x, there⟩
  | wrapper {fuel : Nat} {at' : Surroundings} {e : Element} {entry : Entry} {c : Context}
      (isInstance : e.isInstance = true) (entered : enter? env fuel at' e c = some entry) :
      Makes env ⟨fuel + 2, at', .element e, c⟩ ⟨fuel, entry.inside,
        .element (wrapperElement entry.key (entry.component.node.withChildren e.children)),
        entry.context⟩

/-- A call leads to another one. -/
abbrev Leads (env : Environment) : Call → Call → Prop := Relation.ReflTransGen (Makes env)

/-- What a call comes to. -/
def Call.run (env : Environment) (call : Call) : Except Diagnostic Unit × Context :=
  match call.task with
  | .node node =>
    let r := generateNode env call.fuel call.place node call.context
    (r.1.2.map fun _ => (), r.2)
  | .reference r =>
    let r := generateReference env call.fuel call.place r call.context
    (r.1.map fun _ => (), r.2)
  | .element e =>
    let r := generateElement env call.fuel call.place e call.context
    (r.1.2.map fun _ => (), r.2)

theorem Makes.fuel_lt {env : Environment} {call inner : Call} (h : Makes env call inner) :
    inner.fuel < call.fuel := by
  cases h <;> dsimp only <;> omega

/-! ## Instances that are entered -/

section Enter

variable {env : Environment} {fuel : Nat}

theorem enter?_of_run {at' : Surroundings} {e : Element} {external : Component} {c c' : Context}
    {states : Dict StateDefinition} {props : Dict PropDefinition} {attrs : Attributes} {key : String}
    (hexternal : Dict.get? env.externals e.componentName = some external)
    (hstates : (Dict.merge at'.definitions.states (c.instantiate external).states).mapM
      (instanceState e.attrs) = .ok states)
    (hprops : generateProps (generateElement env fuel at') at'.definitions e.attrs
        (combineProps at'.definitions.props (c.instantiate external).props)
        (c.reserve (c.instantiate external).node.keys) = ((attrs, .ok props), c'))
    (hkey : wrapperKey? c' e.componentName e.key = some key) :
    enter? env fuel at' e c = some ⟨c.instantiate external, attrs,
      ⟨⟨props, states⟩, at'.hierarchy ++ [e.componentName]⟩, key, c'⟩ := by
  unfold enter?
  rw [hexternal]
  dsimp only
  rw [hstates]
  dsimp only
  rw [hprops]
  dsimp only
  rw [hkey]
  rfl

theorem expandInstance_entered {at' : Surroundings} {e : Element} {c : Context} {entry : Entry}
    (h : enter? env fuel at' e c = some entry) :
    expandInstance env (fuel + 1) at' e c
      = finishInstance env e entry (generateElement env fuel entry.inside
          (wrapperElement entry.key (entry.component.node.withChildren e.children))
          entry.context) := by
  cases e
  exact expandInstance_of_enter h _

end Enter

/-! ## Steps -/

/-- What a call does to the context itself, before, between and after the calls that it makes. -/
inductive Acts (env : Environment) : Call → Context → Context → Prop
  /-- A slot that nothing fills is a tag. -/
  | slot {fuel : Nat} {at' : Surroundings} {s : Slot} {c : Context} :
      Acts env ⟨fuel + 1, at', .node (.slot s), c⟩ c (createTag { name := "slot" } c).2
  /-- There are no texts of locales. -/
  | locale {fuel : Nat} {at' : Surroundings} {r : Reference} {c : Context}
      (scope : r.scope = .locale) :
      Acts env ⟨fuel + 1, at', .reference r, c⟩ c
        (spanWith (.comment ("Content for locale " ++ r.id)) c).2
  /-- There is no element to be shown. -/
  | empty {fuel : Nat} {at' : Surroundings} {r : Reference} {v : ReferredValue} {c : Context}
      (value : at'.definitions.value r = .ok v) (kind : v.kind = "element")
      (empty : ∀ node, v.default ≠ some (.node node)) :
      Acts env ⟨fuel + 1, at', .reference r, c⟩ c
        (spanWith (.comment ("Content for slot " ++ r.id)) c).2
  /-- A text is shown. -/
  | text {fuel : Nat} {at' : Surroundings} {r : Reference} {v : ReferredValue} {c : Context}
      (value : at'.definitions.value r = .ok v) :
      Acts env ⟨fuel + 1, at', .reference r, c⟩ c (spanWith (.text v.plain.text) c).2
  /-- The dependency of a tag is noted before its children are generated. -/
  | note {fuel : Nat} {at' : Surroundings} {e : Element} {c : Context}
      (tag : e.isInstance = false) :
      Acts env ⟨fuel + 1, at', .element e, c⟩ c (c.noteDependency e)
  /-- A tag is made of its children and registered. -/
  | finish {fuel : Nat} {at' : Surroundings} {e : Element} {children : List Node}
      {pieces : List Piece} {c there : Context} (tag : e.isInstance = false)
      (generated : generateEach (generateNode env fuel at') e.children (c.noteDependency e)
        = ((children, .ok pieces), there)) :
      Acts env ⟨fuel + 1, at', .element e, c⟩ there
        (finishTag env at' { e with children } pieces there).2
  /-- The keys of the copy that an instance is made of are reserved. -/
  | reserve {fuel : Nat} {at' : Surroundings} {e : Element} {external : Component} {c : Context}
      (isInstance : e.isInstance = true)
      (component : Dict.get? env.externals e.componentName = some external) :
      Acts env ⟨fuel + 2, at', .element e, c⟩ c (c.reserve (c.instantiate external).node.keys)
  /-- The stages of an instance run on its wrapper, and it is registered. -/
  | settle {fuel : Nat} {at' : Surroundings} {e : Element} {entry : Entry}
      {r : Generated Element Nat × Context} {c : Context} (isInstance : e.isInstance = true)
      (entered : enter? env fuel at' e c = some entry)
      (generated : generateElement env fuel entry.inside
        (wrapperElement entry.key (entry.component.node.withChildren e.children)) entry.context = r) :
      Acts env ⟨fuel + 2, at', .element e, c⟩ r.2 (finishInstance env e entry r).2
  /-- A comment is put in front of what an instance has become. -/
  | title {fuel : Nat} {at' : Surroundings} {e e' : Element} {id : Nat} {c there : Context}
      (isInstance : e.isInstance = true)
      (expanded : expandInstance env (fuel + 1) at' e c = ((e', .ok id), there)) :
      Acts env ⟨fuel + 2, at', .element e, c⟩ there (withTitle ((e', .ok id), there)).2

/-- Steps of the calls that a call leads to, one after the other. -/
abbrev Steps (env : Environment) (call : Call) : Context → Context → Prop :=
  Relation.ReflTransGen fun c c' => ∃ inner, Leads env call inner ∧ Acts env inner c c'

section Steps

variable {env : Environment} {call inner : Call} {c c' : Context}

theorem Acts.steps (h : Acts env call c c') : Steps env call c c' := .single ⟨call, .refl, h⟩

theorem Steps.made (hmakes : Makes env call inner) (h : Steps env inner c c') :
    Steps env call c c' :=
  h.lift id fun _ _ ⟨below, hleads, hacts⟩ => ⟨below, .head hmakes hleads, hacts⟩

/-- A preorder that each step keeps is kept by all of them. -/
theorem Steps.related {R : Context → Context → Prop} (hrefl : ∀ c, R c c)
    (htrans : ∀ {c c' c''}, R c c' → R c' c'' → R c c'')
    (hacts : ∀ inner, Leads env call inner → ∀ {c c'}, Acts env inner c c' → R c c')
    (h : Steps env call c c') : R c c' := by
  induction h with
  | refl => exact hrefl c
  | tail _ hstep ih =>
    obtain ⟨inner, hleads, hacts'⟩ := hstep
    exact htrans ih (hacts inner hleads hacts')

end Steps

/-! ## Runs -/

/-- The calls that a call makes go by steps. -/
def Call.PartsStep (env : Environment) (call : Call) : Prop :=
  ∀ inner, Makes env call inner → Steps env call inner.context (inner.run env).2

section Runs

variable {env : Environment} {fuel : Nat} {at' : Surroundings} {c : Context}

theorem generateNode_steps {node : Node} (ih : Call.PartsStep env ⟨fuel + 1, at', .node node, c⟩) :
    Steps env ⟨fuel + 1, at', .node node, c⟩ c (generateNode env (fuel + 1) at' node c).2 := by
  cases node with
  | element e =>
    rw [generateNode_element]
    exact ih _ .content
  | dynamic r =>
    rw [generateNode_dynamic]
    exact ih _ .reference
  | conditional q =>
    rw [generateNode_conditional]
    split
    · rename_i hshown
      exact ih _ (.body hshown)
    · exact .refl
  | slot s =>
    rw [generateNode]
    exact Acts.slot.steps
  | constant _ | raw _ | inject _ | expr _ | repetition _ =>
    rw [generateNode]
    exact .refl

theorem generateReference_steps {r : Reference}
    (ih : Call.PartsStep env ⟨fuel + 1, at', .reference r, c⟩) :
    Steps env ⟨fuel + 1, at', .reference r, c⟩ c (generateReference env (fuel + 1) at' r c).2 := by
  rw [generateReference_succ]
  split
  · rename_i hscope
    exact (Acts.locale hscope).steps
  rcases hvalue : at'.definitions.value r with d | v
  · exact .refl
  dsimp only
  unfold generateValue
  split
  · exact .refl
  split
  · rename_i hkind
    rcases hdefault : v.default with _ | node | value
    · exact (Acts.empty hvalue hkind (by simp [hdefault])).steps
    · dsimp only
      rw [bind_run, get_run]
      dsimp only
      rcases hregistered : node.registered? c with _ | id
      · exact ih _ (.default hvalue hkind hdefault hregistered)
      · exact .refl
    · exact (Acts.empty hvalue hkind (by simp [hdefault])).steps
  · exact (Acts.text hvalue).steps

theorem generateElement_tag_steps {e : Element} (he : e.isInstance = false)
    (ih : Call.PartsStep env ⟨fuel + 1, at', .element e, c⟩) :
    Steps env ⟨fuel + 1, at', .element e, c⟩ c (generateElement env (fuel + 1) at' e c).2 := by
  have hchildren : Steps env ⟨fuel + 1, at', .element e, c⟩ (c.noteDependency e)
      (generateEach (generateNode env fuel at') e.children (c.noteDependency e)).2 :=
    generateEach_related (fun _ => .refl) .trans fun _ _ hreaches => ih _ (.child he hreaches)
  replace hchildren := (Acts.note he).steps.trans hchildren
  rw [generateElement_tag env fuel at' c he]
  rcases hrun : generateEach (generateNode env fuel at') e.children (c.noteDependency e) with
    ⟨⟨children, d | pieces⟩, c'⟩
  · rw [hrun] at hchildren
    exact hchildren
  · rw [hrun] at hchildren
    exact hchildren.trans (Acts.finish he hrun).steps

/-- The elements among the attributes of an instance are generated when the keys of its copy are
reserved. -/
theorem generateProps_steps {e : Element} (he : e.isInstance = true) {external : Component}
    (hexternal : Dict.get? env.externals e.componentName = some external)
    {states : Dict StateDefinition}
    (hstates : (Dict.merge at'.definitions.states (c.instantiate external).states).mapM
      (instanceState e.attrs) = .ok states)
    (ih : Call.PartsStep env ⟨fuel + 2, at', .element e, c⟩) :
    Steps env ⟨fuel + 2, at', .element e, c⟩ c
      (generateProps (generateElement env fuel at') at'.definitions e.attrs
        (combineProps at'.definitions.props (c.instantiate external).props)
        (c.reserve (c.instantiate external).node.keys)).2 :=
  (Acts.reserve he hexternal).steps.trans (generateProps_related (fun _ => .refl) .trans
    fun _ _ hreaches => ih _ (.given he hexternal hstates hreaches))

theorem expandInstance_steps {e : Element} (he : e.isInstance = true)
    (ih : Call.PartsStep env ⟨fuel + 2, at', .element e, c⟩) :
    Steps env ⟨fuel + 2, at', .element e, c⟩ c (expandInstance env (fuel + 1) at' e c).2 := by
  have hexpand := expandInstance_succ env fuel at' c e
  rcases hexternal : Dict.get? env.externals e.componentName with _ | external
  · rw [hexpand, hexternal]
  rw [hexternal] at hexpand
  dsimp only at hexpand
  rcases hstates : (Dict.merge at'.definitions.states (c.instantiate external).states).mapM
    (instanceState e.attrs) with d | states
  · rw [hexpand, hstates]
    exact (Acts.reserve he hexternal).steps
  rw [hstates] at hexpand
  dsimp only at hexpand
  have hprops := generateProps_steps he hexternal hstates ih
  rcases hgiven : generateProps (generateElement env fuel at') at'.definitions e.attrs
    (combineProps at'.definitions.props (c.instantiate external).props)
    (c.reserve (c.instantiate external).node.keys) with ⟨⟨attrs, d | props⟩, c'⟩
  · rw [hgiven] at hexpand hprops
    rw [hexpand]
    exact hprops
  rw [hgiven] at hexpand hprops
  rcases hwrapper : wrapperKey? c' e.componentName e.key with _ | wrapper
  · have hnone : wrapperKey? c' (Element.componentName { e with children := [], attrs }) e.key
        = none := hwrapper
    rw [hexpand]
    dsimp only
    rw [enterInstance_run, hnone]
    exact hprops
  obtain ⟨entry, hentry, rfl⟩ : ∃ entry, enter? env fuel at' e c = some entry ∧
      entry.context = c' := ⟨_, enter?_of_run hexternal hstates hgiven hwrapper, rfl⟩
  rw [expandInstance_entered hentry]
  exact (hprops.trans (ih _ (.wrapper he hentry))).trans (Acts.settle he hentry rfl).steps

theorem generateElement_instance_steps {e : Element} (he : e.isInstance = true)
    (ih : Call.PartsStep env ⟨fuel + 2, at', .element e, c⟩) :
    Steps env ⟨fuel + 2, at', .element e, c⟩ c (generateElement env (fuel + 2) at' e c).2 := by
  have hexpand := expandInstance_steps he ih
  have hrun : generateElement env (fuel + 2) at' e c
      = withTitle (expandInstance env (fuel + 1) at' e c) :=
    generateElement_instance env (fuel + 1) at' c he
  rcases hexpanded : expandInstance env (fuel + 1) at' e c with ⟨⟨e', d | id⟩, c'⟩
  · rw [hexpanded] at hexpand hrun
    rw [hrun]
    exact hexpand
  · rw [hexpanded] at hexpand hrun
    rw [hrun]
    exact hexpand.trans (Acts.title he hexpanded).steps

end Runs

/-- **A run is a row of steps** of the calls that it leads to, however it ends. -/
theorem Call.steps (env : Environment) (call : Call) :
    Steps env call call.context (call.run env).2 := by
  induction hfuel : call.fuel using Nat.strong_induction_on generalizing call with
  | h fuel ih =>
    have hparts : call.PartsStep env := fun inner hmakes =>
      (ih inner.fuel (hfuel ▸ hmakes.fuel_lt) inner rfl).made hmakes
    rcases call with ⟨_ | fuel, at', node | r | e, c⟩
    · rw [run]
      dsimp only
      rw [generateNode]
      exact .refl
    · rw [run]
      dsimp only
      rw [generateReference]
      exact .refl
    · rw [run]
      dsimp only
      rw [generateElement]
      exact .refl
    · exact generateNode_steps hparts
    · exact generateReference_steps hparts
    · by_cases he : e.isInstance
      · rcases fuel with _ | fuel
        · rw [run]
          dsimp only
          rw [generateElement_instance env 0 at' c he, expandInstance]
          exact .refl
        · exact generateElement_instance_steps he hparts
      · exact generateElement_tag_steps (by simpa using he) hparts

/-- A call that is made goes on where steps of the one that makes it lead. -/
theorem Makes.steps {env : Environment} {call inner : Call} (h : Makes env call inner) :
    Steps env call call.context inner.context := by
  have hparts : call.PartsStep env := fun inner hmakes => (inner.steps env).made hmakes
  cases h with
  | content | reference | body _ | default _ _ _ _ => exact .refl
  | child tag reaches =>
    exact (Acts.note tag).steps.trans (reaches.related (fun _ => .refl) .trans
      fun _ _ hreaches => hparts _ (.child tag hreaches))
  | given isInstance component accepted reaches =>
    exact (Acts.reserve isInstance component).steps.trans (reaches.related (fun _ => .refl) .trans
      fun _ _ hreaches => hparts _ (.given isInstance component accepted hreaches))
  | wrapper isInstance entered =>
    obtain ⟨external, hexternal, hcomponent, hstates, hprops, -, -⟩ := enter?_eq_some entered
    rw [hcomponent] at hstates hprops
    have hgiven := generateProps_steps isInstance hexternal hstates hparts
    rw [hprops] at hgiven
    exact hgiven

theorem Leads.steps {env : Environment} {call inner : Call} (h : Leads env call inner) :
    Steps env call call.context inner.context := by
  induction h using Relation.ReflTransGen.head_induction_on with
  | refl => exact .refl
  | head hmakes _ ih => exact hmakes.steps.trans (ih.made hmakes)

end PageCompiler
