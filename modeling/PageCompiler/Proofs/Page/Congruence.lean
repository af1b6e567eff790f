import PageCompiler.Proofs.Page.Agreement

/-!
# Generation in scopes that agree

The generation of a node looks at its scope only through what the node uses. So in two scopes that
agree on the names it asks for, a node is generated in the same way, from any context and with the
same outcome, and so are the instances in it, provided that the stages of an instance do not look at
its scope.

* `Stage.IgnoresScope`: a stage that looks at the trees of a component only;
  `stylesheetStage_ignoresScope`.
* `generate_agreeing`: the generation of nodes, by induction on its depth.
-/

namespace PageCompiler

/-! ## Stages that do not look at the scope -/

/-- Two components that differ in their definitions only, and not in the elements among these. -/
structure Component.SameButScope (c c' : Component) : Prop where
  eq : c' = { c with props := c'.props, states := c'.states }
  defaults : defaultNodes c'.props = defaultNodes c.props

/-- Two compilations of such components. -/
structure Compilation.SameButScope (c c' : Compilation) : Prop where
  component : c.component.SameButScope c'.component
  options : c'.options = c.options
  context : c'.context = c.context

/-- A stage that does the same for components which differ in their definitions only. -/
def Stage.IgnoresScope (stage : Stage) : Prop := ∀ c c' : Compilation, c.SameButScope c' →
  (stage.run c').1 = (stage.run c).1 ∧ (stage.run c).2.SameButScope (stage.run c').2

theorem runStages_ignoresScope {stages : List Stage}
    (h : ∀ stage ∈ stages, stage.IgnoresScope) {c c' : Compilation} (hsame : c.SameButScope c') :
    (runStages stages c').1 = (runStages stages c).1 ∧
      (runStages stages c).2.SameButScope (runStages stages c').2 := by
  induction stages generalizing c c' with
  | nil => exact ⟨rfl, hsame⟩
  | cons stage rest ih =>
    obtain ⟨houtcome, hafter⟩ := h stage List.mem_cons_self c c' hsame
    rw [runStages, runStages]
    rcases hrun : stage.run c with ⟨outcome, done⟩
    rcases hrun' : stage.run c' with ⟨outcome', done'⟩
    rw [hrun, hrun'] at houtcome hafter
    obtain rfl : outcome' = outcome := houtcome
    cases outcome' with
    | error d => exact ⟨rfl, hafter⟩
    | ok _ => exact ih (fun stage hstage => h stage (List.mem_cons_of_mem _ hstage)) hafter

theorem runInstanceStages_ignoresScope {env : Environment}
    (h : ∀ stage ∈ env.styleStage :: env.stages, stage.IgnoresScope) {component component' : Component}
    (hsame : component.SameButScope component') (id : Nat) (c : Context) :
    runInstanceStages env component' id c = runInstanceStages env component id c := by
  have hsame : Compilation.SameButScope
      { component, options := env.options, context := c.forInstance id }
      { component := component', options := env.options, context := c.forInstance id } :=
    ⟨hsame, rfl, rfl⟩
  obtain ⟨houtcome, hafter⟩ := runStages_ignoresScope h hsame
  rw [runInstanceStages_run, runInstanceStages_run]
  dsimp only
  rw [houtcome, hafter.context]

/-- **A style sheet** is made from the trees of a component. -/
theorem stylesheetStage_ignoresScope (template : String) (chunkName : Option String) :
    (stylesheetStage template chunkName).IgnoresScope := by
  rintro ⟨component, options, context⟩ ⟨component', options', context'⟩ ⟨hsame, hoptions, hcontext⟩
  dsimp only at hsame
  obtain ⟨heq, hdefaults⟩ := id hsame
  obtain rfl : options' = options := hoptions
  obtain rfl : context' = context := hcontext
  have hstyleSets : component'.styleSets = component.styleSets := by rw [heq]
  have hname : component'.name = component.name := by rw [heq]
  have helements : component'.elements = component.elements := by
    have hnode : component'.node = component.node := by rw [heq]
    rw [Component.elements, Component.elements, Component.trees, Component.trees, hnode, hdefaults]
  have hsheet : component'.stylesheet = component.stylesheet := by
    rw [Component.stylesheet, Component.stylesheet, Component.rules, Component.rules, helements,
      hstyleSets]
  unfold stylesheetStage Compilation.findChunk
  dsimp only
  rcases context'.chunks.find? _ with _ | chunk
  · exact ⟨rfl, hsame, rfl, rfl⟩
  · dsimp only
    rw [hstyleSets, helements, hsheet, hname]
    exact ⟨rfl, hsame, rfl, rfl⟩

/-! ## Parts of nodes -/

theorem generateEach_congr {generate generate' : Node → StateM Context (Generated Node Piece)}
    {nodes : List Node} (h : ∀ node ∈ nodes, ∀ c, generate node c = generate' node c)
    (c : Context) : generateEach generate nodes c = generateEach generate' nodes c := by
  induction nodes generalizing c with
  | nil => rfl
  | cons node rest ih =>
    rw [generateEach_cons, generateEach_cons, h node List.mem_cons_self]
    dsimp only
    rcases (generate' node c).1.2 with d | piece
    · rfl
    · dsimp only
      rw [ih fun node hnode => h node (List.mem_cons_of_mem _ hnode)]

theorem finishTag_congr (env : Environment) {names : NameSet} {a b : Definitions}
    (h : SameOn names a b) (hierarchy : List String) {e : Element} (htag : e.isInstance = false)
    (he : ∀ u ∈ e.uses, u.Within env.externals names) (pieces : List Piece) (c : Context) :
    finishTag env ⟨a, hierarchy⟩ e pieces c = finishTag env ⟨b, hierarchy⟩ e pieces c := by
  have hstyles : ∀ u ∈ e.styleUses, u.Within env.externals names := fun u hu =>
    he u (Element.mem_uses.2 (Or.inl (by rwa [Element.ownUses_tag htag])))
  obtain ⟨-, style, referencedStyles, heq⟩ := e.settleStyles_uses b
  have hattrs : ∀ u ∈ attributesUses (e.settleStyles b).1.attrs,
      u.Within env.externals names := by
    intro u hu
    rw [heq] at hu
    exact he u (Element.mem_uses.2 (Or.inr (Or.inl hu)))
  rw [finishTag_run, finishTag_run]
  dsimp only
  rw [h.settleStyles hstyles, h.pageAttributes hattrs]

theorem wrapperElement_uses (key : String) (root : Node) :
    (wrapperElement key root).uses = root.uses := by
  rw [Element.uses_eq]
  change [] ++ ([] ++ (root.uses ++ [])) = root.uses
  simp

/-! ## Nodes -/

section Generate

variable {env : Environment} {good : NameSet → Use → Prop} {names : NameSet} {a b : Definitions}

/-- The generation to some depth does the same in scopes that agree. -/
structure Agreeing (env : Environment) (good : NameSet → Use → Prop) (fuel : Nat) : Prop where
  node : ∀ {names a b}, Agree good names a b → ∀ hierarchy {node}, (∀ u ∈ node.uses, good names u) →
    ∀ c, generateNode env fuel ⟨a, hierarchy⟩ node c = generateNode env fuel ⟨b, hierarchy⟩ node c
  reference : ∀ {names a b}, Agree good names a b → ∀ hierarchy {r}, good names (.shown r) →
    ∀ c, generateReference env fuel ⟨a, hierarchy⟩ r c
      = generateReference env fuel ⟨b, hierarchy⟩ r c
  element : ∀ {names a b}, Agree good names a b → ∀ hierarchy {e}, (∀ u ∈ e.uses, good names u) →
    ∀ c, generateElement env fuel ⟨a, hierarchy⟩ e c = generateElement env fuel ⟨b, hierarchy⟩ e c
  expand : ∀ {names a b}, Agree good names a b → ∀ hierarchy {e}, e.isInstance →
    (∀ u ∈ e.uses, good names u) →
    ∀ c, expandInstance env fuel ⟨a, hierarchy⟩ e c = expandInstance env fuel ⟨b, hierarchy⟩ e c

variable {fuel : Nat}

theorem generateNode_agree (ih : Agreeing env good fuel) (hclosed : Closed env.externals good)
    (h : Agree good names a b) (hierarchy : List String) {node : Node}
    (huses : ∀ u ∈ node.uses, good names u) (c : Context) :
    generateNode env (fuel + 1) ⟨a, hierarchy⟩ node c
      = generateNode env (fuel + 1) ⟨b, hierarchy⟩ node c := by
  cases node with
  | element e => rw [generateNode_element, generateNode_element, ih.element h hierarchy huses]
  | dynamic r =>
    rw [generateNode_dynamic, generateNode_dynamic,
      ih.reference h hierarchy (huses _ List.mem_cons_self)]
  | conditional q =>
    rw [Node.uses, Conditional.uses_eq] at huses
    have hcondition : ∀ u ∈ conditionUses q.reference, u.Within env.externals names :=
      fun u hu => hclosed.within (huses u (List.mem_append_left _ hu))
    have hnode : ∀ u ∈ q.node.uses, good names u := fun u hu =>
      huses u (List.mem_append_right _ hu)
    rw [generateNode_conditional, generateNode_conditional, ih.node h hierarchy hnode]
    dsimp only
    rw [h.isShown hcondition]
  | constant _ | raw _ | inject _ | slot _ | expr _ | repetition _ =>
    rw [generateNode, generateNode]

theorem generateReference_agree (ih : Agreeing env good fuel) (hclosed : Closed env.externals good)
    (h : Agree good names a b) (hierarchy : List String) {r : Reference}
    (huse : good names (.shown r)) (c : Context) :
    generateReference env (fuel + 1) ⟨a, hierarchy⟩ r c
      = generateReference env (fuel + 1) ⟨b, hierarchy⟩ r c := by
  have hr : names.Has r := hclosed.within huse
  rw [generateReference_succ, generateReference_succ]
  dsimp only
  rw [← h.value hr]
  split
  · rfl
  rcases hvalue : a.value r with d | v
  · rfl
  dsimp only
  unfold generateValue
  split
  · rfl
  split
  · rename_i hkind
    rcases hdefault : v.default with _ | node | value
    · rfl
    · have hnode := h.found hr (Definitions.value_ok hvalue) hkind node hdefault
      dsimp only
      rw [bind_run, bind_run, get_run]
      dsimp only
      rcases node.registered? c with _ | id
      · dsimp only
        rw [bind_run, bind_run, ih.node h hierarchy hnode]
      · rfl
    · rfl
  · rfl

theorem enterInstance_agree (ih : Agreeing env good fuel)
    (hstages : ∀ stage ∈ env.styleStage :: env.stages, stage.IgnoresScope) {ds ds' : Definitions}
    (h : Agree good names ds ds') (hdefaults : defaultNodes ds'.props = defaultNodes ds.props)
    (hierarchy : List String) (e : Element) (component : Component) {root : Node}
    (hroot : ∀ u ∈ root.uses, good names u) (c : Context) :
    enterInstance env fuel ⟨a, hierarchy⟩ e component root ds c
      = enterInstance env fuel ⟨b, hierarchy⟩ e component root ds' c := by
  rw [enterInstance_run, enterInstance_run]
  rcases wrapperKey? c e.componentName e.key with _ | key
  · rfl
  have hwrapper : ∀ u ∈ (wrapperElement key root).uses, good names u := by
    rwa [wrapperElement_uses]
  dsimp only
  rw [ih.element h (hierarchy ++ [e.componentName]) hwrapper c]
  rcases generateElement env fuel _ (wrapperElement key root) c with ⟨⟨wrapper, d | id⟩, c'⟩
  · rfl
  have hsame : Component.SameButScope
      { component with node := .element wrapper, props := ds.props, states := ds.states }
      { component with node := .element wrapper, props := ds'.props, states := ds'.states } :=
    ⟨rfl, hdefaults⟩
  dsimp only
  rw [runInstanceStages_ignoresScope hstages hsame]

theorem expandInstance_agree (ih : Agreeing env good fuel) (hclosed : Closed env.externals good)
    (hstages : ∀ stage ∈ env.styleStage :: env.stages, stage.IgnoresScope)
    (h : Agree good names a b) (hierarchy : List String) {e : Element} (he : e.isInstance)
    (huses : ∀ u ∈ e.uses, good names u) (c : Context) :
    expandInstance env (fuel + 1) ⟨a, hierarchy⟩ e c
      = expandInstance env (fuel + 1) ⟨b, hierarchy⟩ e c := by
  rw [expandInstance_succ, expandInstance_succ]
  rcases hexternal : Dict.get? env.externals e.componentName with _ | external
  · rfl
  have hstates := mapM_instanceState_agree hclosed h hexternal he huses c
  have hcombined := combineProps_agree h c external
  dsimp only at hstates ⊢
  rcases map_eq_map_cases hstates with ⟨d, hfailed, hfailed'⟩ | ⟨states, states', hok, hok', hsame⟩
  · rw [hfailed, hfailed']
  rw [hok, hok']
  dsimp only
  have htrace := (traces_use env fuel).element ⟨a, hierarchy⟩
  have hattrs : ∀ u ∈ attributesUses e.attrs, good names u := fun u hu =>
    huses u (Element.mem_uses.2 (Or.inr (Or.inl hu)))
  have hcongr := generateProps_congr (fun e c huses => ih.element h hierarchy huses c) htrace
    (fun value own hvalue => h.instanceProp (fun u hu => hclosed.within (hvalue u hu)) own) hattrs
    (combineProps b.props (c.instantiate external).props)
    (c.reserve (c.instantiate external).node.keys)
  -- what both instances make of the names in sight is one run on the common part of their props
  have hrestrict := fun props => @generateProps_restrict
    (generateElement env fuel ⟨a, hierarchy⟩) a (isAmong (names.declare external).props) e.attrs
    (fun name value hvalue hname => plain_of_notMem hclosed hexternal he huses hvalue
      (mt isAmong_iff.2 hname)) props
    (c.reserve (c.instantiate external).node.keys)
  have hpart := hrestrict (combineProps a.props (c.instantiate external).props)
  have hpart' := hrestrict (combineProps b.props (c.instantiate external).props)
  rw [hcongr] at hpart'
  rw [Dict.part, Dict.part] at hcombined
  rw [hcombined, hpart'] at hpart
  have hsorted := sorted_combineProps h.sorted.props (c.instantiate external).props
  have hsorted' := sorted_combineProps h.sorted'.props (c.instantiate external).props
  have hgiven := fun out => @generateProps_given (generateElement env fuel ⟨a, hierarchy⟩) e.attrs a
    _ out (c.reserve (c.instantiate external).node.keys) hsorted.nodup_keys
  have hgiven' := fun out => @generateProps_given (generateElement env fuel ⟨b, hierarchy⟩) e.attrs b
    _ out (c.reserve (c.instantiate external).node.keys) hsorted'.nodup_keys
  rcases hrun : generateProps (generateElement env fuel ⟨a, hierarchy⟩) a e.attrs _ _ with
    ⟨⟨attrs, outcome⟩, c₁⟩
  rcases hrun' : generateProps (generateElement env fuel ⟨b, hierarchy⟩) b e.attrs _ _ with
    ⟨⟨attrs', outcome'⟩, c₁'⟩
  rw [hrun, hrun'] at hpart
  rw [hrun] at hgiven
  rw [hrun'] at hgiven'
  obtain ⟨hpart, rfl⟩ := Prod.mk.inj hpart
  obtain ⟨rfl, houtcome⟩ := Prod.mk.inj hpart
  rcases map_eq_map_cases houtcome with ⟨d, rfl, rfl⟩ | ⟨props', props, rfl, rfl, hprops⟩
  · rfl
  obtain ⟨hinside, hdefaults⟩ : Agree good (names.declare external) ⟨props, states⟩
      ⟨props', states'⟩ ∧ defaultNodes props' = defaultNodes props :=
    Agree.instance hclosed h hexternal he huses htrace (hgiven props rfl) (hgiven' props' rfl) hok
      hok' hprops.symm hsame
  refine enterInstance_agree ih hstages hinside hdefaults hierarchy _ _ (fun u hu => ?_) c₁'
  rcases mem_uses_withChildren hu with hown | hcopy
  · exact hclosed.widen external
      (huses u (Element.mem_uses.2 (Or.inr (Or.inr hown))))
  · exact good_copy hclosed hexternal he huses (mem_uses_copy c external (Or.inl rfl) hcopy)

theorem generateElement_agree (ih : Agreeing env good fuel) (hclosed : Closed env.externals good)
    (h : Agree good names a b) (hierarchy : List String) {e : Element}
    (huses : ∀ u ∈ e.uses, good names u) (c : Context) :
    generateElement env (fuel + 1) ⟨a, hierarchy⟩ e c
      = generateElement env (fuel + 1) ⟨b, hierarchy⟩ e c := by
  by_cases he : e.isInstance
  · rw [generateElement_instance env fuel _ c he, generateElement_instance env fuel _ c he,
      ih.expand h hierarchy he huses]
  · have he : e.isInstance = false := by simpa using he
    have hchildren : ∀ node ∈ e.children, ∀ c, generateNode env fuel ⟨a, hierarchy⟩ node c
        = generateNode env fuel ⟨b, hierarchy⟩ node c := fun node hnode =>
      ih.node h hierarchy fun u hu => huses u (Element.mem_uses.2
        (Or.inr (Or.inr (mem_nodesUses.2 ⟨node, hnode, hu⟩))))
    have htrace := generateEach_uses ((traces_use env fuel).node ⟨b, hierarchy⟩) e.children
      (c.noteDependency e)
    rw [generateElement_tag env fuel _ c he, generateElement_tag env fuel _ c he,
      generateEach_congr hchildren]
    rcases hrun : generateEach (generateNode env fuel ⟨b, hierarchy⟩) e.children
      (c.noteDependency e) with ⟨⟨children, d | pieces⟩, c'⟩
    · rfl
    · rw [hrun] at htrace
      have htag : Element.isInstance { e with children } = false := he
      exact finishTag_congr env h.toSameOn hierarchy htag
        (fun u hu => hclosed.within (huses u (Element.uses_withChildren he htrace hu))) pieces c'

/-- **Generation looks at what is used.** In two scopes that agree, what may be used there is
generated in the same way. -/
theorem generate_agreeing (hclosed : Closed env.externals good)
    (hstages : ∀ stage ∈ env.styleStage :: env.stages, stage.IgnoresScope) (fuel : Nat) :
    Agreeing env good fuel := by
  induction fuel with
  | zero =>
    refine ⟨fun _ _ _ _ c => ?_, fun _ _ _ _ c => ?_, fun _ _ _ _ c => ?_, fun _ _ _ _ _ c => ?_⟩
    · rw [generateNode, generateNode]
    · rw [generateReference, generateReference]
    · rw [generateElement, generateElement]
    · rw [expandInstance, expandInstance]
  | succ fuel ih =>
    exact ⟨generateNode_agree ih hclosed, generateReference_agree ih hclosed,
      generateElement_agree ih hclosed, expandInstance_agree ih hclosed hstages⟩

end Generate

end PageCompiler
