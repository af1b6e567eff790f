import PageCompiler.Proofs.Page.Steps

/-!
# Contexts that are extended

Whatever is generated, and whether or not it succeeds, the context only gets more: a key stays with
its element, the chunks so far come first, and neither a dependency nor a reserved key is lost.

* `Context.Extends`: a context that has all that another one has.
* `Acts.extends`, `generate_extends`: each step of a generation, and with it the generation.
* `generate_registers`: a generated element is registered under its key.
-/

namespace PageCompiler

/-- A context that has all that another one has. -/
structure Context.Extends (c c' : Context) : Prop where
  lookup : ∀ {key id}, Dict.get? c.lookup key = some id → Dict.get? c'.lookup key = some id
  reserved : ∀ {key}, c.Reserved key → c'.Reserved key
  chunks : c.chunks <+: c'.chunks
  dependencies : ∀ {name}, Dict.contains c.dependencies name → Dict.contains c'.dependencies name

namespace Context.Extends

variable {c c' c'' : Context}

theorem refl (c : Context) : c.Extends c :=
  ⟨fun h => h, fun h => h, List.prefix_rfl, fun h => h⟩

theorem trans (h : c.Extends c') (h' : c'.Extends c'') : c.Extends c'' where
  lookup hget := h'.lookup (h.lookup hget)
  reserved hkey := h'.reserved (h.reserved hkey)
  chunks := h.chunks.trans h'.chunks
  dependencies hname := h'.dependencies (h.dependencies hname)

theorem registered (h : c.Extends c') {key : String} (hkey : c.Registered key) :
    c'.Registered key := by
  obtain ⟨id, hid⟩ := Option.isSome_iff_exists.1 hkey
  exact Option.isSome_iff_exists.2 ⟨id, h.lookup hid⟩

theorem used (h : c.Extends c') {key : String} (hkey : c.Used key) : c'.Used key :=
  hkey.imp h.registered h.reserved

/-- Changes to the markup lose nothing. -/
theorem canvas (c : Context) (canvas : Canvas) : c.Extends { c with canvas } :=
  ⟨fun h => h, fun h => h, List.prefix_rfl, fun h => h⟩

theorem reserve (c : Context) (keys : List String) : c.Extends (c.reserve keys) where
  lookup h := h
  reserved h := (reserved_reserve keys).2 (Or.inr h)
  chunks := List.prefix_rfl
  dependencies h := h

theorem addDependency (c : Context) (name : String) (d : Dependency) :
    c.Extends (c.addDependency name d) where
  lookup h := h
  reserved h := h
  chunks := List.prefix_rfl
  dependencies h := (Dict.contains_insert _ _ _ _).2 (Or.inr h)

theorem noteDependency (c : Context) (e : Element) : c.Extends (c.noteDependency e) := by
  unfold Context.noteDependency
  split
  · exact .addDependency _ _ _
  · exact .refl c

end Context.Extends

theorem Dict.contains_merge {α : Type} {base later : Dict α} {name : String}
    (h : Dict.contains base name) : Dict.contains (Dict.merge base later) name := by
  unfold Dict.merge
  induction later generalizing base with
  | nil => exact h
  | cons entry rest ih => exact ih ((Dict.contains_insert _ _ _ _).2 (Or.inr h))

/-! ## Steps -/

theorem createTag_extends (t : Tag) (c : Context) : c.Extends (createTag t c).2 :=
  .canvas c _

theorem registerElement_extends (key : String) (e : Element) (id : Nat) (hierarchy : List String)
    (c : Context) : c.Extends (registerElement key e id hierarchy c).2 := by
  rcases registerElement_run key e id hierarchy c with ⟨hnew, hrun⟩ | ⟨-, d, -, hrun⟩
  · rw [hrun]
    refine ⟨fun {other id'} hget => ?_, fun h => h, List.prefix_rfl, fun h => h⟩
    have hne : other ≠ key := by
      rintro rfl
      exact hnew (Option.isSome_iff_exists.2 ⟨id', hget⟩)
    exact (Dict.get?_insert_of_ne _ _ hne).trans hget
  · rw [hrun]
    exact .refl c

/-- A registration that succeeds files the element under its key. -/
theorem get?_of_registerElement {key : String} {e : Element} {id : Nat} {hierarchy : List String}
    {c : Context} {result : Unit} (h : (registerElement key e id hierarchy c).1 = .ok result) :
    Dict.get? (registerElement key e id hierarchy c).2.lookup key = some id := by
  rcases registerElement_run key e id hierarchy c with ⟨-, hrun⟩ | ⟨-, d, -, hrun⟩
  · rw [hrun]
    exact Dict.get?_insert_self _ _ _
  · rw [hrun] at h
    cases h

theorem runInstanceStages_extends (env : Environment) (component : Component) (id : Nat)
    (c : Context) : c.Extends (runInstanceStages env component id c).2 := by
  rw [runInstanceStages_run]
  rcases runStages (env.styleStage :: env.stages) _ with ⟨_ | _, done⟩
  · exact .canvas c _
  · exact ⟨fun h => h, fun h => h, List.prefix_append _ _, Dict.contains_merge⟩

theorem finishTag_extends (env : Environment) (at' : Surroundings) (e : Element)
    (pieces : List Piece) (c : Context) : c.Extends (finishTag env at' e pieces c).2 := by
  rw [finishTag_run]
  rcases e.settleStyles at'.definitions with ⟨styled, d | _⟩
  · exact .refl c
  dsimp only
  rcases pageAttributes env.options env.folder at'.definitions styled.elementType styled.attrs with
    ⟨attrs, d | _⟩
  · exact .refl c
  · exact (createTag_extends _ c).trans (registerElement_extends _ _ _ _ _)

theorem finishInstance_extends (env : Environment) (e : Element) (entry : Entry)
    (r : Generated Element Nat × Context) : r.2.Extends (finishInstance env e entry r).2 := by
  rcases r with ⟨⟨wrapper, d | id⟩, c⟩
  · exact .refl c
  have hstages := runInstanceStages_extends env (entry.styled wrapper) id c
  unfold finishInstance
  dsimp only
  rcases hrun : runInstanceStages env (entry.styled wrapper) id c with ⟨d | _, c'⟩
  · rw [hrun] at hstages
    exact hstages
  · rw [hrun] at hstages
    exact hstages.trans (registerElement_extends _ _ _ _ _)

/-- A step loses nothing. -/
theorem Acts.extends {env : Environment} {call : Call} {c c' : Context} (h : Acts env call c c') :
    c.Extends c' := by
  cases h with
  | slot | locale _ | empty _ _ _ | text _ => exact createTag_extends _ c
  | note _ => exact .noteDependency c _
  | reserve _ _ => exact .reserve c _
  | finish _ _ => exact finishTag_extends env _ _ _ c
  | settle _ _ _ => exact finishInstance_extends env _ _ _
  | title _ _ => exact .canvas c _

/-! ## Runs -/

section Runs

variable {env : Environment} {call inner : Call} {c c' : Context}

theorem Steps.extends (h : Steps env call c c') : c.Extends c' :=
  h.related .refl .trans fun _ _ _ _ hacts => hacts.extends

/-- A call goes on from the context of the one that makes it. -/
theorem Makes.extends (h : Makes env call inner) : call.context.Extends inner.context :=
  h.steps.extends

theorem Leads.extends (h : Leads env call inner) : call.context.Extends inner.context :=
  h.steps.extends

end Runs

/-- The generation to some depth extends the context. -/
structure Extending (env : Environment) (fuel : Nat) : Prop where
  node : ∀ at' node (c : Context), c.Extends (generateNode env fuel at' node c).2
  reference : ∀ at' r (c : Context), c.Extends (generateReference env fuel at' r c).2
  element : ∀ at' e (c : Context), c.Extends (generateElement env fuel at' e c).2

/-- **The context is only extended,** however the generation ends. -/
theorem generate_extends (env : Environment) (fuel : Nat) : Extending env fuel where
  node at' node c := (Call.steps env ⟨fuel, at', .node node, c⟩).extends
  reference at' r c := (Call.steps env ⟨fuel, at', .reference r, c⟩).extends
  element at' e c := (Call.steps env ⟨fuel, at', .element e, c⟩).extends

theorem generateProps_extends {generate : Element → StateM Context (Generated Element Nat)}
    (h : ∀ e (c : Context), c.Extends (generate e c).2) (caller : Definitions)
    (props : Dict PropDefinition) (attrs : Attributes) (c : Context) :
    c.Extends (generateProps generate caller attrs props c).2 :=
  generateProps_related .refl .trans fun e there _ => h e there

/-! ## Registered elements -/

section Registers

variable {env : Environment}

/-- A run leaves what it comes to registered under the key of its element, if it succeeds. -/
def Registers (e : Element) (r : Generated Element Nat × Context) : Prop :=
  ∀ id, r.1.2 = .ok id → r.1.1.key = e.key ∧ Dict.get? r.2.lookup e.key = some id

theorem Registers.failed {e : Element} (e' : Element) (d : Diagnostic) (c : Context) :
    Registers e ((e', .error d), c) := fun _ hok => by cases hok

theorem finishTag_registers (env : Environment) (at' : Surroundings) (e : Element)
    (pieces : List Piece) (c : Context) : Registers e (finishTag env at' e pieces c) := by
  obtain ⟨hkey, -, -⟩ := e.settleStyles_run at'.definitions
  rw [finishTag_run]
  rcases hsettled : e.settleStyles at'.definitions with ⟨styled, d | _⟩
  · exact .failed _ _ _
  rw [hsettled] at hkey
  dsimp only at hkey ⊢
  rcases pageAttributes env.options env.folder at'.definitions styled.elementType styled.attrs with
    ⟨attrs, d | _⟩
  · exact .failed _ _ _
  · intro id hok
    obtain ⟨_, hregister, rfl⟩ := exists_of_map_eq_ok hok
    exact ⟨hkey, hkey ▸ get?_of_registerElement hregister⟩

theorem enterInstance_registers (fuel : Nat) (at' : Surroundings) (e : Element)
    (component : Component) (root : Node) (ds : Definitions) (c : Context) :
    Registers e (enterInstance env fuel at' e component root ds c) := by
  rw [enterInstance_run]
  rcases wrapperKey? c e.componentName e.key with _ | key
  · exact .failed _ _ _
  dsimp only
  rcases generateElement env fuel _ (wrapperElement key root) c with ⟨⟨wrapper, d | id⟩, c'⟩
  · exact .failed _ _ _
  dsimp only
  rcases runInstanceStages env _ id c' with ⟨d | _, c''⟩
  · exact .failed _ _ _
  · intro id hok
    obtain ⟨_, hregister, rfl⟩ := exists_of_map_eq_ok hok
    exact ⟨rfl, get?_of_registerElement hregister⟩

theorem expandInstance_registers (env : Environment) (fuel : Nat) (at' : Surroundings)
    (e : Element) (c : Context) : Registers e (expandInstance env fuel at' e c) := by
  cases fuel with
  | zero =>
    rw [expandInstance]
    exact .failed _ _ _
  | succ fuel =>
    rw [expandInstance_succ]
    rcases Dict.get? env.externals e.componentName with _ | external
    · exact .failed _ _ _
    dsimp only
    rcases (Dict.merge at'.definitions.states (c.instantiate external).states).mapM
      (instanceState e.attrs) with d | states
    · exact .failed _ _ _
    dsimp only
    rcases generateProps (generateElement env fuel at') at'.definitions e.attrs
      (combineProps at'.definitions.props (c.instantiate external).props)
      (c.reserve (c.instantiate external).node.keys) with ⟨⟨attrs, d | props⟩, c'⟩
    · exact .failed _ _ _
    · exact enterInstance_registers fuel at' { e with children := [], attrs } _ _ _ c'

/-- **A generated element** is registered under its key. -/
theorem generate_registers (env : Environment) (fuel : Nat) (at' : Surroundings) (e : Element)
    (c : Context) : Registers e (generateElement env fuel at' e c) := by
  cases fuel with
  | zero =>
    rw [generateElement]
    exact .failed _ _ _
  | succ fuel =>
    by_cases he : e.isInstance
    · have hexpand := expandInstance_registers env fuel at' e c
      rw [generateElement_instance env fuel at' c he]
      rcases hrun : expandInstance env fuel at' e c with ⟨⟨e', d | id⟩, c'⟩
      · exact .failed _ _ _
      · rw [hrun] at hexpand
        intro id' hid'
        cases hid'
        exact hexpand id rfl
    · rw [generateElement_tag env fuel at' c (by simpa using he)]
      rcases generateEach (generateNode env fuel at') e.children (c.noteDependency e) with
        ⟨⟨children, d | pieces⟩, c'⟩
      · exact .failed _ _ _
      · exact finishTag_registers env at' { e with children } pieces c'

end Registers

end PageCompiler
