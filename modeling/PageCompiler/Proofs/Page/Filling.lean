import PageCompiler.Proofs.Page.Scope

/-!
# Generating a filled tree

The children of an instance are generated where the slot of its component stands. What comes before
the slot is generated without them, and what comes after them depends on what became of them, not on
the children themselves.

* `enter?`: the expansion of an instance as far as the generation of its tree.
* `Reaches`: the generation of a tree comes to its first slot.
* `Reaches.fills`, `expandInstance_fills`: the generation goes on from that of the children.
-/

namespace PageCompiler

theorem generateEach_append {α β : Type} (generate : α → StateM Context (Generated α β))
    (before behind : List α) (c : Context) :
    generateEach generate (before ++ behind) c =
      let r := generateEach generate before c
      match r.1.2 with
      | .error d => ((r.1.1 ++ behind, .error d), r.2)
      | .ok results =>
        let rs := generateEach generate behind r.2
        ((r.1.1 ++ rs.1.1, rs.1.2.map (results ++ ·)), rs.2) := by
  induction before generalizing c with
  | nil =>
    rcases hrun : generateEach generate behind c with ⟨⟨trace, d | results⟩, c'⟩
    · rw [List.nil_append, hrun]
      dsimp only [generateEach_nil]
      rw [hrun]
      rfl
    · rw [List.nil_append, hrun]
      dsimp only [generateEach_nil]
      rw [hrun]
      rfl
  | cons part rest ih =>
    rw [List.cons_append, generateEach_cons, generateEach_cons]
    rcases generate part c with ⟨⟨part', d | result⟩, c'⟩
    · rfl
    dsimp only
    rw [ih]
    rcases generateEach generate rest c' with ⟨⟨trace, d | results⟩, c''⟩
    · rfl
    dsimp only [Except.map]
    rcases generateEach generate behind c'' with ⟨⟨trace', d | results'⟩, c₃⟩ <;> rfl

theorem Element.fillSlot_eq (e : Element) (own : List Node) :
    e.fillSlot own = (nodesFillSlot own e.children).map fun children => { e with children } := by
  cases e
  rfl

/-! ## Entering an instance -/

/-- An instance whose expansion has come to the generation of its tree: the copy of the component,
the attributes with their elements generated, where the tree is generated, the key of the wrapper,
and the context by then. -/
structure Entry where
  component : Component
  attrs : Attributes
  inside : Surroundings
  key : String
  context : Context

/-- The component that the stages of the instance run on. -/
def Entry.styled (entry : Entry) (wrapper : Element) : Component :=
  { entry.component with
    node := .element wrapper
    props := entry.inside.definitions.props
    states := entry.inside.definitions.states }

section Enter

variable (env : Environment) (fuel : Nat) (at' : Surroundings) (e : Element) (c : Context)

/-- Expand an instance as far as the generation of its tree. -/
def enter? : Option Entry :=
  match Dict.get? env.externals e.componentName with
  | none => none
  | some external =>
    let component := c.instantiate external
    match (Dict.merge at'.definitions.states component.states).mapM (instanceState e.attrs) with
    | .error _ => none
    | .ok states =>
      match generateProps (generateElement env fuel at') at'.definitions e.attrs
          (combineProps at'.definitions.props component.props)
          (c.reserve component.node.keys) with
      | ((attrs, .ok props), context) =>
        (wrapperKey? context e.componentName e.key).map fun key => {
          component, attrs, key, context
          inside := {
            definitions := { props, states }
            hierarchy := at'.hierarchy ++ [e.componentName] } }
      | _ => none

variable {fuel at' e c}

/-- Run the stages of an instance on its wrapper and register the instance. -/
def finishInstance (e : Element) (entry : Entry) (r : Generated Element Nat × Context) :
    Generated Element Nat × Context :=
  let e := { e with children := [], attrs := entry.attrs }
  match r.1.2 with
  | .error d => ((e, .error d), r.2)
  | .ok id =>
    let s := runInstanceStages env (entry.styled r.1.1) id r.2
    match s.1 with
    | .error d => ((e, .error d), s.2)
    | .ok _ =>
      let t := registerElement e.key e id entry.inside.hierarchy s.2
      ((e, t.1.map fun _ => id), t.2)

variable {env}

theorem enter?_eq_some {entry : Entry} (h : enter? env fuel at' e c = some entry) :
    ∃ external, Dict.get? env.externals e.componentName = some external ∧
      entry.component = c.instantiate external ∧
      (Dict.merge at'.definitions.states entry.component.states).mapM (instanceState e.attrs)
        = .ok entry.inside.definitions.states ∧
      generateProps (generateElement env fuel at') at'.definitions e.attrs
          (combineProps at'.definitions.props entry.component.props)
          (c.reserve entry.component.node.keys)
        = ((entry.attrs, .ok entry.inside.definitions.props), entry.context) ∧
      wrapperKey? entry.context e.componentName e.key = some entry.key ∧
      entry.inside.hierarchy = at'.hierarchy ++ [e.componentName] := by
  unfold enter? at h
  split at h
  · cases h
  rename_i external hexternal
  dsimp only at h
  split at h
  · cases h
  rename_i states hstates
  split at h
  · rename_i attrs props context hprops
    obtain ⟨key, hkey, rfl⟩ := Option.map_eq_some_iff.1 h
    exact ⟨external, hexternal, rfl, hstates, hprops, hkey, rfl⟩
  · cases h

/-- The components that instances can stand for have their definitions in order. -/
def SortedExternals (externals : Dict Component) : Prop :=
  ∀ name c, Dict.get? externals name = some c → c.props.Sorted ∧ c.states.Sorted

theorem Inside.of_enter (hexternals : SortedExternals env.externals) {fuel : Nat}
    {at' : Surroundings} (hsorted : at'.definitions.Sorted) {e : Element} {c : Context}
    {entry : Entry} (h : enter? env fuel at' e c = some entry) :
    Inside (generateElement env fuel at') e.attrs at'.definitions entry.component
      entry.inside.definitions := by
  obtain ⟨external, hexternal, hcomponent, hstates, hprops, -, -⟩ := enter?_eq_some h
  obtain ⟨hsortedProps, hsortedStates⟩ := hexternals _ _ hexternal
  refine .of_run (c := c.reserve entry.component.node.keys) hsorted ?_ ?_ hstates ?_
  · rw [hcomponent]
    exact hsortedProps.of_keys (c.copy_props_keys external)
  · rwa [hcomponent, c.copy_states external]
  · rw [hprops]

/-- **Expanding an instance** that is entered, with any children. -/
theorem expandInstance_of_enter {entry : Entry} (h : enter? env fuel at' e c = some entry)
    (children : List Node) :
    expandInstance env (fuel + 1) at' { e with children } c
      = finishInstance env e entry (generateElement env fuel entry.inside
          (wrapperElement entry.key (entry.component.node.withChildren children)) entry.context) := by
  obtain ⟨external, hexternal, hcomponent, hstates, hprops, hkey, hhierarchy⟩ := enter?_eq_some h
  have hexternal' : Dict.get? env.externals (Element.componentName { e with children })
      = some external := hexternal
  obtain ⟨component, attrs, ⟨⟨props, states⟩, hierarchy⟩, key, context⟩ := entry
  dsimp only at hcomponent hstates hprops hkey hhierarchy
  subst hcomponent
  subst hhierarchy
  have hkey' : wrapperKey? context
      (Element.componentName { e with children := [], attrs }) e.key = some key := hkey
  rw [expandInstance_succ, hexternal']
  dsimp only
  rw [hstates]
  dsimp only
  rw [hprops]
  dsimp only
  rw [enterInstance_run, hkey']
  rfl

end Enter

/-! ## The way to the slot -/

/-- The generation of a node comes to the first slot below it, through tags, through conditionals
that are shown, and through instances that hand the slot on as one of their children. It comes
there `inside` some instance, in the context `there`, so deep that `depth` is left. -/
inductive Reaches (env : Environment) (depth : Nat) (inside : Surroundings) (there : Context) :
    Nat → Surroundings → Node → Context → Prop
  | slot {e : Element} {before behind trace : List Node} {s : Slot} {pieces : List Piece}
      {c : Context} (tag : e.isInstance = false) (children : e.children = before ++ .slot s :: behind)
      (first : nodesFillSlot [] before = none)
      (generated : generateEach (generateNode env depth inside) before (c.noteDependency e)
        = ((trace, .ok pieces), there)) : Reaches env depth inside there (depth + 2) inside (.element e) c
  | tag {fuel : Nat} {at' : Surroundings} {e : Element} {before behind trace : List Node}
      {node : Node} {pieces : List Piece} {c c' : Context} (tag : e.isInstance = false)
      (children : e.children = before ++ node :: behind) (first : nodesFillSlot [] before = none)
      (generated : generateEach (generateNode env fuel at') before (c.noteDependency e)
        = ((trace, .ok pieces), c'))
      (reaches : Reaches env depth inside there fuel at' node c') :
      Reaches env depth inside there (fuel + 2) at' (.element e) c
  | conditional {fuel : Nat} {at' : Surroundings} {q : Conditional} {c : Context}
      (shown : q.isShown at'.definitions) (reaches : Reaches env depth inside there fuel at' q.node c) :
      Reaches env depth inside there (fuel + 1) at' (.conditional q) c
  | handed {fuel : Nat} {at' : Surroundings} {e : Element} {c : Context} {entry : Entry}
      (isInstance : e.isInstance = true) (entered : enter? env (fuel + 1) at' e c = some entry)
      (slot : nodesFillSlot [] e.children ≠ none)
      (reaches : Reaches env depth inside there fuel entry.inside
        (entry.component.node.withChildren e.children) entry.context) :
      Reaches env depth inside there (fuel + 4) at' (.element e) c

section Fill

variable (env : Environment) (at' : Surroundings)

/-! ## The way on -/

/-- Go on behind some nodes, in a list that has others before them. -/
def goOn (fuel : Nat) (before : List Node) (pieces : List Piece) (behind : List Node)
    (r : Generated (List Node) (List Piece) × Context) :
    Generated (List Node) (List Piece) × Context :=
  match r.1.2 with
  | .error d => ((before ++ (r.1.1 ++ behind), .error d), r.2)
  | .ok own =>
    let rs := generateEach (generateNode env fuel at') behind r.2
    ((before ++ (r.1.1 ++ rs.1.1), rs.1.2.map fun more => pieces ++ (own ++ more)), rs.2)

/-- Make a tag of the children it has got. -/
def finishChildren (e : Element) (r : Generated (List Node) (List Piece) × Context) :
    Generated Element Nat × Context :=
  match r.1.2 with
  | .error d => (({ e with children := r.1.1 }, .error d), r.2)
  | .ok pieces => finishTag env at' { e with children := r.1.1 } pieces r.2

/-- A generated element as a node. -/
def asNode (r : Generated Element Nat × Context) : Generated Node Piece × Context :=
  ((.element r.1.1, r.1.2.map .element), r.2)

/-- A generated node as a list of nodes. -/
def asList (r : Generated Node Piece × Context) : Generated (List Node) (List Piece) × Context :=
  (([r.1.1], r.1.2.map ([·])), r.2)

variable {env at'}

theorem generateEach_goOn {fuel : Nat} {before trace : List Node} {pieces : List Piece}
    {c c' : Context}
    (h : generateEach (generateNode env fuel at') before c = ((trace, .ok pieces), c'))
    (own behind : List Node) :
    generateEach (generateNode env fuel at') (before ++ (own ++ behind)) c
      = goOn env at' fuel trace pieces behind (generateEach (generateNode env fuel at') own c') := by
  rw [generateEach_append, h]
  dsimp only
  rw [generateEach_append]
  rcases generateEach (generateNode env fuel at') own c' with ⟨⟨own', d | results⟩, c''⟩
  · rfl
  dsimp only [goOn]
  rcases generateEach (generateNode env fuel at') behind c'' with ⟨⟨trace', d | results'⟩, c₃⟩ <;> rfl

theorem generateEach_singleton (fuel : Nat) (node : Node) (c : Context) :
    generateEach (generateNode env fuel at') [node] c = asList (generateNode env fuel at' node c) := by
  rw [generateEach_cons]
  rcases generateNode env fuel at' node c with ⟨⟨node', d | piece⟩, c'⟩ <;> rfl

theorem generateElement_finishChildren {fuel : Nat} {e : Element} (he : e.isInstance = false)
    (children : List Node) (c : Context) :
    generateElement env (fuel + 1) at' { e with children } c
      = finishChildren env at' e
        (generateEach (generateNode env fuel at') children (c.noteDependency e)) :=
  generateElement_tag env fuel at' c he

/-! ## Traces on the way -/

theorem elements_goOn (fuel : Nat) (before : List Node) (pieces : List Piece) (behind : List Node)
    (r : Generated (List Node) (List Piece) × Context) :
    nodesElements r.1.1 ⊆ nodesElements (goOn env at' fuel before pieces behind r).1.1 := by
  have hsub : ∀ rest, nodesElements r.1.1 ⊆ nodesElements (before ++ (r.1.1 ++ rest)) := by
    intro rest
    rw [nodesElements_append, nodesElements_append]
    exact List.subset_append_of_subset_right _ (List.subset_append_left _ _)
  rcases r with ⟨⟨own, d | results⟩, c⟩
  · exact hsub behind
  · exact hsub _

theorem elements_finishChildren (e : Element) (r : Generated (List Node) (List Piece) × Context) :
    nodesElements r.1.1 ⊆ (finishChildren env at' e r).1.1.elements := by
  rcases r with ⟨⟨children, d | pieces⟩, c⟩
  · exact Element.children_subset { e with children }
  · obtain ⟨-, style, referencedStyles, heq⟩ :=
      Element.settleStyles_uses at'.definitions { e with children }
    dsimp only [finishChildren]
    rw [finishTag_trace, heq]
    exact Element.children_subset { e with children, style, referencedStyles }

theorem elements_asList (r : Generated Node Piece × Context) :
    r.1.1.elements ⊆ nodesElements (asList r).1.1 := List.subset_append_left _ _

/-! ## Filled trees -/

theorem withChildren_eq {node filled : Node} {own : List Node} (hown : own ≠ [])
    (h : node.fillSlot own = some filled) : node.withChildren own = filled := by
  rw [Node.withChildren, if_neg (by simpa using hown), h]
  rfl

/-- The children of an instance with a slot among them, which is filled. -/
theorem withChildren_handed {node filled : Node} {own children children' : List Node}
    (hown : own ≠ []) (hchildren : nodesFillSlot own children = some children')
    (h : (node.withChildren children).fillSlot own = some filled) :
    node.withChildren children' = filled := by
  refine withChildren_eq (nodesFillSlot_ne_nil hown hchildren) ?_
  have hne : children ≠ [] := by
    rintro rfl
    cases hchildren
  rw [Node.withChildren, if_neg (by simpa using hne)] at h
  rcases hnode : node.fillSlot children with _ | node'
  · rw [hnode, Option.getD_none, Node.fillSlot_eq_none own hnode] at h
    cases h
  · rw [hnode, Option.getD_some, Node.fillSlot_fillSlot hchildren hnode] at h
    exact h

variable {depth fuel : Nat} {inside : Surroundings} {there c : Context} {node : Node}

variable (env depth inside there) in
/-- What a generation goes on with after the children of an instance: there is a last instance that
they are handed to. Its wrapper is generated with the children in it, and then its stages run, with
the style sets of its component. -/
def RunsStages {β : Type} (goes : Generated (List Node) (List Piece) × Context → β) : Prop :=
  ∃ (fuel : Nat) (at' : Surroundings) (e : Element) (c : Context) (entry : Entry)
    (external : Component) (children : List Node → List Node)
    (inner : Generated (List Node) (List Piece) × Context → Generated Element Nat × Context)
    (outer : Generated Element Nat × Context → β),
    enter? env fuel at' e c = some entry ∧ entry.inside = inside ∧
      Dict.get? env.externals e.componentName = some external ∧
      (∀ wrapper, (entry.styled wrapper).styleSets = external.styleSets) ∧
      (∀ own, own ≠ [] → generateElement env fuel inside
          (wrapperElement entry.key (entry.component.node.withChildren (children own))) entry.context
        = inner (generateEach (generateNode env depth inside) own there)) ∧
      (∀ r, nodesElements r.1.1 ⊆ (inner r).1.1.elements) ∧
      goes = fun r => outer (finishInstance env e entry (inner r))

theorem RunsStages.comp {β γ : Type} {goes : Generated (List Node) (List Piece) × Context → β}
    (h : RunsStages env depth inside there goes) (f : β → γ) :
    RunsStages env depth inside there fun r => f (goes r) := by
  obtain ⟨fuel, at', e, c, entry, external, children, inner, outer, hentry, hinside, hexternal, hsets,
    hrun, htrace, rfl⟩ := h
  exact ⟨fuel, at', e, c, entry, external, children, inner, fun r => f (outer r), hentry, hinside,
    hexternal, hsets, hrun, htrace, rfl⟩

variable (env depth inside there at') in
/-- What the generation of a tree goes on with: the children become part of the tree, or of the
wrapper of an instance that they are handed to. -/
def Keeps (goes : Generated (List Node) (List Piece) × Context → Generated Node Piece × Context) :
    Prop :=
  at' = inside ∧ (∀ r, nodesElements r.1.1 ⊆ (goes r).1.1.elements) ∨
    RunsStages env depth inside there goes

theorem Keeps.finishChildren
    {goes : Generated (List Node) (List Piece) × Context → Generated Node Piece × Context}
    (h : Keeps env at' depth inside there goes) (e : Element) (fuel : Nat) (before : List Node)
    (pieces : List Piece) (behind : List Node) :
    Keeps env at' depth inside there fun r => asNode (finishChildren env at' e
      (goOn env at' fuel before pieces behind (asList (goes r)))) := by
  rcases h with ⟨hinside, htrace⟩ | hruns
  · refine Or.inl ⟨hinside, fun r => ?_⟩
    exact List.Subset.trans (List.Subset.trans (htrace r) (elements_asList _))
      (List.Subset.trans (elements_goOn _ _ _ _ _) (elements_finishChildren e _))
  · exact Or.inr (hruns.comp fun r => asNode (PageCompiler.finishChildren env at' e
      (goOn env at' fuel before pieces behind (asList r))))

/-- An instance goes on with what the generation of its tree goes on with. -/
theorem expandInstance_goes {e : Element} {entry : Entry}
    (hentry : enter? env (fuel + 1) at' e c = some entry) {children : List Node → List Node}
    {goes : Generated (List Node) (List Piece) × Context → Generated Node Piece × Context}
    (hkeeps : Keeps env entry.inside depth inside there goes)
    (hgoes : ∀ own, own ≠ [] → generateNode env fuel entry.inside
        (entry.component.node.withChildren (children own)) entry.context
      = goes (generateEach (generateNode env depth inside) own there)) :
    ∃ goes', RunsStages env depth inside there goes' ∧ ∀ own, own ≠ [] →
      expandInstance env (fuel + 2) at' { e with children := children own } c
        = goes' (generateEach (generateNode env depth inside) own there) := by
  have hwrapper : ∀ own, own ≠ [] → generateElement env (fuel + 1) entry.inside
      (wrapperElement entry.key (entry.component.node.withChildren (children own))) entry.context
        = finishChildren env entry.inside (wrapperElement entry.key entry.component.node)
          (asList (goes (generateEach (generateNode env depth inside) own there))) := by
    intro own hown
    rw [← hgoes own hown, ← generateEach_singleton]
    exact generateElement_tag env fuel entry.inside entry.context rfl
  refine ⟨fun r => finishInstance env e entry (finishChildren env entry.inside
      (wrapperElement entry.key entry.component.node) (asList (goes r))), ?_, fun own hown => ?_⟩
  · rcases hkeeps with ⟨rfl, htrace⟩ | hruns
    · obtain ⟨external, hexternal, hcomponent, -⟩ := enter?_eq_some hentry
      have hsets : ∀ wrapper, (entry.styled wrapper).styleSets = external.styleSets := fun wrapper =>
        (congrArg Component.styleSets hcomponent :)
      refine ⟨fuel + 1, at', e, c, entry, external, children, _, id, hentry, rfl, hexternal, hsets,
        hwrapper, fun r => ?_, rfl⟩
      exact List.Subset.trans (List.Subset.trans (htrace r) (elements_asList _))
        (elements_finishChildren _ _)
    · exact hruns.comp fun r => finishInstance env e entry (finishChildren env entry.inside
        (wrapperElement entry.key entry.component.node) (asList r))
  · rw [expandInstance_of_enter hentry, hwrapper own hown]

/-- What becomes of an instance that is expanded. -/
def withTitle (r : Generated Element Nat × Context) : Generated Element Nat × Context :=
  match r.1.2 with
  | .error d => ((r.1.1, .error d), r.2)
  | .ok id =>
    let title := (r.1.1.semanticType.or r.1.1.name).getD ""
    ((r.1.1, .ok id),
      { r.2 with canvas := r.2.canvas.prepend id (.comment (title ++ " component")) })

/-- **The generation of a filled tree** comes to the slot, generates the children there, and goes
on with what has become of them, whichever they are. -/
theorem Reaches.fills (h : Reaches env depth inside there fuel at' node c) :
    ∃ goes, Keeps env at' depth inside there goes ∧ ∀ own, own ≠ [] → ∃ filled,
      node.fillSlot own = some filled ∧ generateNode env fuel at' filled c
        = goes (generateEach (generateNode env depth inside) own there) := by
  induction h with
  | @slot e before behind trace s pieces c tag children first generated =>
    refine ⟨fun r => asNode (finishChildren env inside e (goOn env inside depth trace pieces behind r)),
      Or.inl ⟨rfl, fun r => List.Subset.trans (elements_goOn _ _ _ _ r) (elements_finishChildren e _)⟩,
      fun own _ => ⟨.element { e with children := before ++ (own ++ behind) }, ?_, ?_⟩⟩
    · rw [Node.fillSlot, e.fillSlot_eq, children,
        nodesFillSlot_append_none (nodesFillSlot_eq_none own first), nodesFillSlot]
      rfl
    · rw [generateNode_element, generateElement_finishChildren tag, generateEach_goOn generated]
      rfl
  | @tag fuel at' e before behind trace node pieces c c' tag children first generated reaches ih =>
    obtain ⟨goes, hkeeps, hgoes⟩ := ih
    refine ⟨_, hkeeps.finishChildren e fuel trace pieces behind, fun own hown => ?_⟩
    obtain ⟨filled, hfilled, hrun⟩ := hgoes own hown
    have hslot : ∀ slot, node ≠ .slot slot := by
      rintro slot rfl
      cases reaches
    refine ⟨.element { e with children := before ++ ([filled] ++ behind) }, ?_, ?_⟩
    · rw [Node.fillSlot, e.fillSlot_eq, children,
        nodesFillSlot_append_none (nodesFillSlot_eq_none own first), nodesFillSlot_cons hslot, hfilled]
      rfl
    · rw [generateNode_element, generateElement_finishChildren tag, generateEach_goOn generated,
        generateEach_singleton, hrun]
      rfl
  | @conditional fuel at' q c shown reaches ih =>
    obtain ⟨goes, hkeeps, hgoes⟩ := ih
    refine ⟨fun r => ((Node.conditional { q with node := (goes r).1.1 }, (goes r).1.2), (goes r).2),
      ?_, fun own hown => ?_⟩
    · exact hkeeps.imp_right fun hruns => hruns.comp
        fun r => ((Node.conditional { q with node := r.1.1 }, r.1.2), r.2)
    obtain ⟨filled, hfilled, hrun⟩ := hgoes own hown
    obtain ⟨inner, reference, value, condition⟩ := q
    dsimp only at hfilled
    refine ⟨.conditional ⟨filled, reference, value, condition⟩, ?_, ?_⟩
    · rw [Node.fillSlot, Conditional.fillSlot, hfilled]
      rfl
    · have hshown : Conditional.isShown at'.definitions ⟨filled, reference, value, condition⟩
          = true := shown
      rw [generateNode_conditional, if_pos hshown, hrun]
  | @handed fuel at' e c entry isInstance entered slot reaches ih =>
    obtain ⟨goes, hkeeps, hgoes⟩ := ih
    have hchildren : ∀ own, ∃ children, nodesFillSlot own e.children = some children := fun own =>
      Option.ne_none_iff_exists'.1 fun hnone => slot (nodesFillSlot_eq_none [] hnone)
    choose children hchildren using hchildren
    -- the tree of the component takes the children of the instance, with the slot among them filled
    have hroot : ∀ own, own ≠ [] → generateNode env fuel entry.inside
        (entry.component.node.withChildren (children own)) entry.context
          = goes (generateEach (generateNode env depth inside) own there) := by
      intro own hown
      obtain ⟨filled, hfilled, hrun⟩ := hgoes own hown
      rw [withChildren_handed hown (hchildren own) hfilled, hrun]
    obtain ⟨goes', hruns, hexpand⟩ := expandInstance_goes entered hkeeps hroot
    refine ⟨fun r => asNode (withTitle (goes' r)),
      Or.inr (hruns.comp fun r => asNode (withTitle r)),
      fun own hown => ⟨.element { e with children := children own }, ?_, ?_⟩⟩
    · rw [Node.fillSlot, e.fillSlot_eq, hchildren]
      rfl
    · have hinstance : Element.isInstance { e with children := children own } = true := isInstance
      rw [generateNode_element, generateElement_instance env _ at' c hinstance, hexpand own hown]
      rfl

/-- **An instance whose slot is reached** generates its children where the slot stands. -/
theorem expandInstance_fills {e : Element} {entry : Entry}
    (hentry : enter? env (fuel + 1) at' e c = some entry)
    (hreaches : Reaches env depth inside there fuel entry.inside entry.component.node
      entry.context) :
    ∃ goes, RunsStages env depth inside there goes ∧ ∀ own, own ≠ [] →
      expandInstance env (fuel + 2) at' { e with children := own } c
        = goes (generateEach (generateNode env depth inside) own there) := by
  obtain ⟨goes, hkeeps, hgoes⟩ := hreaches.fills
  refine expandInstance_goes hentry hkeeps fun own hown => ?_
  obtain ⟨filled, hfilled, hrun⟩ := hgoes own hown
  rwa [withChildren_eq hown hfilled]

end Fill

end PageCompiler
