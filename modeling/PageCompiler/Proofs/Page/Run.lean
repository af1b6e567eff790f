import PageCompiler.Page.Template

/-!
# Runs of the generation

The steps of the generation of a page, with the context handed from one to the next: one equation
for each kind of part. The expansion of an instance falls into a first half, which makes the copy
of the component and the definitions that its references name, and a second one, which generates
the copy inside its wrapper (`enterInstance`).
-/

namespace PageCompiler

theorem bind_run {σ α β : Type} (x : StateM σ α) (f : α → StateM σ β) (s : σ) :
    (x >>= f) s = f (x s).1 (x s).2 := rfl

theorem modify_run {σ : Type} (f : σ → σ) (s : σ) :
    (modify f : StateM σ PUnit) s = (⟨⟩, f s) := rfl

theorem get_run {σ : Type} (s : σ) : (get : StateM σ σ) s = (s, s) := rfl

/-! ## Lists of parts -/

section Lists

variable {α β : Type} (generate : α → StateM Context (Generated α β)) (c : Context)

theorem generateEach_nil : generateEach generate [] c = (([], .ok []), c) := rfl

theorem generateEach_cons (part : α) (rest : List α) :
    generateEach generate (part :: rest) c =
      let r := generate part c
      match r.1.2 with
      | .error d => ((r.1.1 :: rest, .error d), r.2)
      | .ok result =>
        let rs := generateEach generate rest r.2
        ((r.1.1 :: rs.1.1, rs.1.2.map (result :: ·)), rs.2) := by
  rw [generateEach, bind_run]
  rcases generate part c with ⟨⟨part', _ | result⟩, c'⟩ <;> rfl

/-- A list that is generated without a failure: first its first part, then the rest. -/
theorem generateEach_ok_cons {generate : α → StateM Context (Generated α β)} {part : α}
    {rest parts : List α} {results : List β} {c c' : Context}
    (h : generateEach generate (part :: rest) c = ((parts, .ok results), c')) :
    ∃ part' result there rest' results', generate part c = ((part', .ok result), there) ∧
      parts = part' :: rest' ∧ results = result :: results' ∧
      generateEach generate rest there = ((rest', .ok results'), c') := by
  rw [generateEach_cons] at h
  rcases hpart : generate part c with ⟨⟨part', d | result⟩, there⟩
  · rw [hpart] at h
    cases h
  rw [hpart] at h
  dsimp only at h
  rcases hrest : generateEach generate rest there with ⟨⟨rest', d | results'⟩, c''⟩
  · rw [hrest] at h
    cases h
  · rw [hrest] at h
    cases h
    exact ⟨part', result, there, rest', results', rfl, rfl, rfl, hrest⟩

end Lists

/-! ## Props of an instance -/

section Props

variable {generate : Element → StateM Context (Generated Element Nat)} {caller : Definitions}
  {attrs : Attributes} {name : String} {own : PropDefinition} {rest : Dict PropDefinition}
  {c : Context}

theorem generateProps_nil : generateProps generate caller attrs [] c = ((attrs, .ok []), c) := by
  rw [generateProps]
  rfl

theorem generateProps_none (h : Dict.get? attrs name = none) :
    generateProps generate caller attrs ((name, own) :: rest) c =
      let rs := generateProps generate caller attrs rest c
      ((rs.1.1, rs.1.2.map ((name, own) :: ·)), rs.2) := by
  rw [generateProps, h]
  rfl

theorem generateProps_element {e : Element} (h : Dict.get? attrs name = some (.element e)) :
    generateProps generate caller attrs ((name, own) :: rest) c =
      let r := generate e c
      let attrs := Dict.insert attrs name (.element r.1.1)
      match r.1.2 with
      | .error d => ((attrs, .error d), r.2)
      | .ok _ =>
        let rs := generateProps generate caller attrs rest r.2
        ((rs.1.1, rs.1.2.map
          ((name, { own with default := some (.node (.element r.1.1)) }) :: ·)), rs.2) := by
  rw [generateProps, h]
  dsimp only
  rw [bind_run]
  rcases generate e c with ⟨⟨e', _ | id⟩, c'⟩ <;> rfl

theorem generateProps_plain {value : Attribute} (h : Dict.get? attrs name = some value)
    (hplain : ∀ e, value ≠ .element e) :
    generateProps generate caller attrs ((name, own) :: rest) c =
      match instanceProp caller value own with
      | .error d => ((attrs, .error d), c)
      | .ok definition =>
        let rs := generateProps generate caller attrs rest c
        ((rs.1.1, rs.1.2.map ((name, definition) :: ·)), rs.2) := by
  rw [generateProps, h]
  cases value with
  | element e => exact absurd rfl (hplain e)
  | _ =>
    dsimp only
    cases instanceProp caller _ own <;> rfl

/-! What is left of props that are generated without a failure, one case for each kind of
attribute. -/

variable {attrs' : Attributes} {out : Dict PropDefinition} {c' : Context}

theorem generateProps_ok_nil
    (h : generateProps generate caller attrs [] c = ((attrs', .ok out), c')) :
    attrs' = attrs ∧ out = [] ∧ c' = c := by
  rw [generateProps_nil] at h
  cases h
  exact ⟨rfl, rfl, rfl⟩

theorem generateProps_ok_none (hvalue : Dict.get? attrs name = none)
    (h : generateProps generate caller attrs ((name, own) :: rest) c = ((attrs', .ok out), c')) :
    ∃ out', out = (name, own) :: out' ∧
      generateProps generate caller attrs rest c = ((attrs', .ok out'), c') := by
  rw [generateProps_none hvalue] at h
  rcases hrest : generateProps generate caller attrs rest c with ⟨⟨attrs'', d | out'⟩, c''⟩
  · rw [hrest] at h
    cases h
  · rw [hrest] at h
    cases h
    exact ⟨out', rfl, rfl⟩

theorem generateProps_ok_element {e : Element} (hvalue : Dict.get? attrs name = some (.element e))
    (h : generateProps generate caller attrs ((name, own) :: rest) c = ((attrs', .ok out), c')) :
    ∃ e' id there out', generate e c = ((e', .ok id), there) ∧
      out = (name, { own with default := some (.node (.element e')) }) :: out' ∧
      generateProps generate caller (Dict.insert attrs name (.element e')) rest there
        = ((attrs', .ok out'), c') := by
  rw [generateProps_element hvalue] at h
  rcases he : generate e c with ⟨⟨e', d | id⟩, there⟩
  · rw [he] at h
    cases h
  rw [he] at h
  dsimp only at h
  rcases hrest : generateProps generate caller (Dict.insert attrs name (.element e')) rest there
    with ⟨⟨attrs'', d | out'⟩, c''⟩
  · rw [hrest] at h
    cases h
  · rw [hrest] at h
    cases h
    exact ⟨e', id, there, out', rfl, rfl, hrest⟩

theorem generateProps_ok_plain {value : Attribute} (hvalue : Dict.get? attrs name = some value)
    (hplain : ∀ e, value ≠ .element e)
    (h : generateProps generate caller attrs ((name, own) :: rest) c = ((attrs', .ok out), c')) :
    ∃ definition out', instanceProp caller value own = .ok definition ∧
      out = (name, definition) :: out' ∧
      generateProps generate caller attrs rest c = ((attrs', .ok out'), c') := by
  rw [generateProps_plain hvalue hplain] at h
  rcases hprop : instanceProp caller value own with d | definition
  · rw [hprop] at h
    cases h
  rw [hprop] at h
  dsimp only at h
  rcases hrest : generateProps generate caller attrs rest c with ⟨⟨attrs'', d | out'⟩, c''⟩
  · rw [hrest] at h
    cases h
  · rw [hrest] at h
    cases h
    exact ⟨definition, out', rfl, rfl, rfl⟩

end Props

/-! ## Nodes -/

section Nodes

variable (env : Environment) (fuel : Nat) (at' : Surroundings) (c : Context)

theorem generateNode_element (e : Element) :
    generateNode env (fuel + 1) at' (.element e) c =
      let r := generateElement env fuel at' e c
      ((.element r.1.1, r.1.2.map .element), r.2) := by
  rw [generateNode]
  rfl

theorem generateNode_dynamic (r : Reference) :
    generateNode env (fuel + 1) at' (.dynamic r) c =
      let result := generateReference env fuel at' r c
      ((.dynamic r, result.1), result.2) := by
  rw [generateNode]
  rfl

theorem generateNode_conditional (q : Conditional) :
    generateNode env (fuel + 1) at' (.conditional q) c =
      if q.isShown at'.definitions then
        let r := generateNode env fuel at' q.node c
        ((.conditional { q with node := r.1.1 }, r.1.2), r.2)
      else ((.conditional q, .ok (.comment conditionalPlaceholder)), c) := by
  rw [generateNode]
  split <;> rfl

/-- Take the value of a reference that has one. -/
def generateValue (v : ReferredValue) (r : Reference) : StateM Context (Except Diagnostic Piece) :=
  if v.kind = "object" || v.kind = "array" then return .ok (.text (v.text r))
  else if v.kind = "element" then
    match v.default with
    | some (.node node) => do
      match node.registered? (← get) with
      | some id => return .ok (.element id)
      | none => return (← generateNode env fuel at' node).2
    | _ => spanWith (.comment ("Content for slot " ++ r.id))
  else spanWith (.text v.plain.text)

theorem generateReference_succ (r : Reference) :
    generateReference env (fuel + 1) at' r c =
      if r.scope = .locale then spanWith (.comment ("Content for locale " ++ r.id)) c
      else match at'.definitions.value r with
        | .error d => (.error d, c)
        | .ok v => generateValue env fuel at' v r c := by
  rw [generateReference]
  split
  · rfl
  · cases at'.definitions.value r with
    | error d => rfl
    | ok v => rfl

end Nodes

/-! ## Elements -/

section Elements

variable (env : Environment) (fuel : Nat) (at' : Surroundings) (c : Context)

theorem generateElement_instance {e : Element} (he : e.isInstance = true) :
    generateElement env (fuel + 1) at' e c =
      let r := expandInstance env fuel at' e c
      match r.1.2 with
      | .error d => ((r.1.1, .error d), r.2)
      | .ok id =>
        let title := (r.1.1.semanticType.or r.1.1.name).getD ""
        ((r.1.1, .ok id),
          { r.2 with canvas := r.2.canvas.prepend id (.comment (title ++ " component")) }) := by
  rw [generateElement, if_pos he, bind_run]
  rcases expandInstance env fuel at' e c with ⟨⟨e', _ | id⟩, c'⟩ <;> rfl

/-- The context with the dependency of an element, if it has one. -/
def Context.noteDependency (c : Context) (e : Element) : Context :=
  match e.dependency with
  | some d => c.addDependency (e.name.getD e.elementType) d
  | none => c

/-- What is left of the generation of a tag when its children are generated. -/
def finishTag (e : Element) (pieces : List Piece) : StateM Context (Generated Element Nat) := do
  let (e, outcome) := e.settleStyles at'.definitions
  match outcome with
  | .error d => return (e, .error d)
  | .ok _ =>
    let (attrs, outcome) :=
      pageAttributes env.options env.folder at'.definitions e.elementType e.attrs
    match outcome with
    | .error d => return (e, .error d)
    | .ok _ =>
      let id ← createTag { name := e.elementType, attrs, children := pieces }
      return (e, (← registerElement e.key e id at'.hierarchy).map fun _ => id)

theorem finishTag_run (e : Element) (pieces : List Piece) :
    finishTag env at' e pieces c =
      let styled := e.settleStyles at'.definitions
      match styled.2 with
      | .error d => ((styled.1, .error d), c)
      | .ok _ =>
        let attrs := pageAttributes env.options env.folder at'.definitions styled.1.elementType
          styled.1.attrs
        match attrs.2 with
        | .error d => ((styled.1, .error d), c)
        | .ok _ =>
          let tag := createTag
            { name := styled.1.elementType, attrs := attrs.1, children := pieces } c
          let t := registerElement styled.1.key styled.1 tag.1 at'.hierarchy tag.2
          ((styled.1, t.1.map fun _ => tag.1), t.2) := by
  unfold finishTag
  rcases e.settleStyles at'.definitions with ⟨styled, d | _⟩
  · rfl
  dsimp only
  rcases pageAttributes env.options env.folder at'.definitions styled.elementType styled.attrs with
    ⟨attrs, d | _⟩ <;> rfl

theorem generateElement_tag {e : Element} (he : e.isInstance = false) :
    generateElement env (fuel + 1) at' e c =
      let r := generateEach (generateNode env fuel at') e.children (c.noteDependency e)
      let e := { e with children := r.1.1 }
      match r.1.2 with
      | .error d => ((e, .error d), r.2)
      | .ok pieces => finishTag env at' e pieces r.2 := by
  rw [generateElement, if_neg (by simp [he]), Context.noteDependency]
  cases e.dependency with
  | none =>
    dsimp only
    rw [bind_run]
    rcases generateEach (generateNode env fuel at') e.children c with
      ⟨⟨children, _ | pieces⟩, c'⟩ <;> rfl
  | some d =>
    dsimp only
    rw [bind_run, modify_run]
    dsimp only
    rw [bind_run]
    rcases generateEach (generateNode env fuel at') e.children _ with
      ⟨⟨children, _ | pieces⟩, c'⟩ <;> rfl

/-! ## Instances -/

/-- What the stages of an instance start from: its markup, and what the page has so far. -/
def Context.forInstance (c : Context) (id : Nat) : Context where
  chunks := [{
    name := templateChunkName
    kind := .markup
    fileType := htmlFile
    content := .markup (.element id)
    lookup := some c.lookup }]
  dependencies := c.dependencies
  canvas := c.canvas

theorem runInstanceStages_run (component : Component) (id : Nat) :
    runInstanceStages env component id c =
      let r := runStages (env.styleStage :: env.stages)
        { component, options := env.options, context := c.forInstance id }
      let c := { c with canvas := r.2.context.canvas }
      match r.1 with
      | .error d => (.error d, c)
      | .ok _ =>
        let sheets := r.2.context.chunks.filter (·.fileType = cssFile)
        (.ok (), { c with chunks := c.chunks ++ sheets }.addDependencies
          r.2.context.dependencies) := by
  rw [runInstanceStages, bind_run, get_run]
  dsimp only [Context.forInstance]
  rcases runStages (env.styleStage :: env.stages) _ with ⟨_ | _, done⟩ <;> rfl

/-- The copy of a component that an instance is made of: its keys are not used yet. -/
def Context.instantiate (c : Context) (external : Component) : Component :=
  (external.assignKeys (.seeded (Dict.keys c.lookup ++ Dict.keys c.reserved))).1

/-- The tree of a component with the children of an instance in the place of its first slot. -/
def Node.withChildren (node : Node) (children : List Node) : Node :=
  if children.isEmpty then node else (node.fillSlot children).getD node

/-- Generate the copy of a component inside its wrapper and register the instance. -/
def enterInstance (e : Element) (component : Component) (root : Node) (ds : Definitions) :
    StateM Context (Generated Element Nat) := do
  match wrapperKey? (← get) e.componentName e.key with
  | none => return (e, .error .endless)
  | some key =>
    let hierarchy := at'.hierarchy ++ [e.componentName]
    let (wrapper, outcome) ←
      generateElement env fuel { definitions := ds, hierarchy } (wrapperElement key root)
    match outcome with
    | .error d => return (e, .error d)
    | .ok id =>
      let component :=
        { component with node := .element wrapper, props := ds.props, states := ds.states }
      match ← runInstanceStages env component id with
      | .error d => return (e, .error d)
      | .ok _ => return (e, (← registerElement e.key e id hierarchy).map fun _ => id)

theorem enterInstance_run (e : Element) (component : Component) (root : Node) (ds : Definitions) :
    enterInstance env fuel at' e component root ds c =
      match wrapperKey? c e.componentName e.key with
      | none => ((e, .error .endless), c)
      | some key =>
        let hierarchy := at'.hierarchy ++ [e.componentName]
        let r := generateElement env fuel { definitions := ds, hierarchy }
          (wrapperElement key root) c
        match r.1.2 with
        | .error d => ((e, .error d), r.2)
        | .ok id =>
          let component :=
            { component with node := .element r.1.1, props := ds.props, states := ds.states }
          let s := runInstanceStages env component id r.2
          match s.1 with
          | .error d => ((e, .error d), s.2)
          | .ok _ =>
            let t := registerElement e.key e id hierarchy s.2
            ((e, t.1.map fun _ => id), t.2) := by
  rw [enterInstance, bind_run, get_run]
  dsimp only
  rcases wrapperKey? c e.componentName e.key with _ | key
  · rfl
  dsimp only
  rw [bind_run]
  rcases generateElement env fuel _ (wrapperElement key root) c with ⟨⟨wrapper, _ | id⟩, c'⟩
  · rfl
  dsimp only
  rw [bind_run]
  rcases runInstanceStages env _ id c' with ⟨_ | _, c''⟩ <;> rfl

theorem expandInstance_succ (e : Element) :
    expandInstance env (fuel + 1) at' e c =
      match Dict.get? env.externals e.componentName with
      | none => ((e, .error (.missingExternal e.componentName)), c)
      | some external =>
        let component := c.instantiate external
        let c := c.reserve component.node.keys
        let root := component.node.withChildren e.children
        match (Dict.merge at'.definitions.states component.states).mapM
            (instanceState e.attrs) with
        | .error d => (({ e with children := [] }, .error d), c)
        | .ok states =>
          let r := generateProps (generateElement env fuel at') at'.definitions e.attrs
            (combineProps at'.definitions.props component.props) c
          let e := { e with children := [], attrs := r.1.1 }
          match r.1.2 with
          | .error d => ((e, .error d), r.2)
          | .ok props => enterInstance env fuel at' e component root { props, states } r.2 := by
  rw [expandInstance]
  dsimp only [Context.instantiate]
  cases Dict.get? env.externals e.componentName with
  | none => rfl
  | some external =>
    dsimp only
    rw [bind_run, get_run]
    dsimp only
    rw [bind_run, modify_run]
    dsimp only
    rcases List.mapM (instanceState e.attrs) _ with d | states
    · rfl
    dsimp only
    rw [bind_run]
    rcases generateProps (generateElement env fuel at') at'.definitions e.attrs _ _ with
      ⟨⟨attrs, _ | props⟩, c'⟩ <;> rfl

end Elements

/-! What is left of a generation that succeeds. -/

section Ok

variable {env : Environment} {fuel : Nat} {at' : Surroundings} {e e' : Element} {id : Nat}
  {c c' : Context}

theorem generateElement_ok (h : generateElement env fuel at' e c = ((e', .ok id), c')) :
    ∃ below, fuel = below + 1 := by
  cases fuel with
  | zero =>
    rw [generateElement] at h
    cases h
  | succ below => exact ⟨below, rfl⟩

/-- An instance was expanded, and a comment was put in front of what it has become. -/
theorem generateElement_ok_instance (he : e.isInstance = true)
    (h : generateElement env fuel at' e c = ((e', .ok id), c')) : ∃ below there,
      fuel = below + 2 ∧ expandInstance env (below + 1) at' e c = ((e', .ok id), there) ∧
      c' = { there with
        canvas := there.canvas.prepend id
          (.comment ((e'.semanticType.or e'.name).getD "" ++ " component")) } := by
  obtain ⟨above, rfl⟩ := generateElement_ok h
  rw [generateElement_instance env above at' c he] at h
  rcases hexpand : expandInstance env above at' e c with ⟨⟨x, d | found⟩, there⟩
  · rw [hexpand] at h
    cases h
  rw [hexpand] at h
  cases h
  cases above with
  | zero =>
    rw [expandInstance] at hexpand
    cases hexpand
  | succ below => exact ⟨below, there, rfl, hexpand, rfl⟩

theorem generateNode_ok_element {node' : Node} {piece : Piece}
    (h : generateNode env fuel at' (.element e) c = ((node', .ok piece), c')) : ∃ below e' id,
      fuel = below + 1 ∧ generateElement env below at' e c = ((e', .ok id), c') ∧
      node' = .element e' ∧ piece = .element id := by
  cases fuel with
  | zero =>
    rw [generateNode] at h
    cases h
  | succ below =>
    rw [generateNode_element] at h
    rcases helement : generateElement env below at' e c with ⟨⟨e', d | id⟩, there⟩
    · rw [helement] at h
      cases h
    · rw [helement] at h
      cases h
      exact ⟨below, e', id, rfl, helement, rfl, rfl⟩

end Ok

end PageCompiler
