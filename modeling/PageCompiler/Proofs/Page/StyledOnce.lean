import PageCompiler.Proofs.Page.Sources
import PageCompiler.Proofs.Page.Styles

/-!
# Elements that are styled once

With the account of a run, an element in a tree is the only one of its key in all trees that are
styled, and it gets one rule there. Beside the trees, the style stage visits the defaults of the
props in each scope that it comes to. An element that a component is given as an attribute is one of
them, while it keeps its place among the attributes: it gets one rule for its place, and another one
for each scope that it is passed to.

* `InTree.subset_trees`: what is left of a call in a tree is in a tree that is styled.
* `Passes.default`: what becomes of an element that an instance is given.
* `Leads.scopeNodes`: the nodes that the scopes of a run have as defaults.
* `generate_styleCount`: how often an element is styled.
-/

namespace PageCompiler

/-! ## Elements among attributes -/

section Props

variable {generate : Element → StateM Context (Generated Element Nat)} {caller : Definitions}
  {attrs attrs' : Attributes} {props out : Dict PropDefinition} {c c' there : Context} {x : Element}

/-- An attribute stays as it is if no prop has its name. -/
theorem get?_generateProps {name : String} (hname : name ∉ Dict.keys props)
    (h : generateProps generate caller attrs props c = ((attrs', .ok out), c')) :
    Dict.get? attrs' name = Dict.get? attrs name := by
  induction props generalizing attrs c out with
  | nil =>
    obtain ⟨rfl, -, -⟩ := generateProps_ok_nil h
    rfl
  | cons entry rest ih =>
    obtain ⟨other, own⟩ := entry
    have hne : name ≠ other := fun heq => hname (heq ▸ List.mem_cons_self)
    replace hname : name ∉ Dict.keys rest := fun hmem => hname (List.mem_cons_of_mem _ hmem)
    rcases hvalue : Dict.get? attrs other with _ | value
    · obtain ⟨out', -, hrest⟩ := generateProps_ok_none hvalue h
      exact ih hname hrest
    by_cases helement : ∃ e, value = .element e
    · obtain ⟨e, rfl⟩ := helement
      obtain ⟨e', id, there, out', -, -, hrest⟩ := generateProps_ok_element hvalue h
      exact (ih hname hrest).trans (Dict.get?_insert_of_ne _ _ hne)
    · obtain ⟨definition, out', -, -, hrest⟩ :=
        generateProps_ok_plain hvalue (by simpa using helement) h
      exact ih hname hrest

/-- An element among the attributes that is generated is put back there. -/
theorem PropsReach.kept (hnames : (Dict.keys props).Nodup)
    (h : PropsReach generate caller x there attrs props c)
    (hrun : generateProps generate caller attrs props c = ((attrs', .ok out), c')) :
    ∃ name, Dict.get? attrs' name = some (.element (generate x there).1.1) := by
  induction h generalizing out with
  | @here attrs name own rest value =>
    obtain ⟨x', id, after, out', hx, -, hrest⟩ := generateProps_ok_element value hrun
    refine ⟨name, ?_⟩
    rw [get?_generateProps (List.nodup_cons.1 hnames).1 hrest, Dict.get?_insert_self, hx]
  | none value _ ih =>
    obtain ⟨out', -, hrest⟩ := generateProps_ok_none value hrun
    exact ih (List.nodup_cons.1 hnames).2 hrest
  | element value run _ ih =>
    obtain ⟨e', id, after, out', he, -, hrest⟩ := generateProps_ok_element value hrun
    cases run.symm.trans he
    exact ih (List.nodup_cons.1 hnames).2 hrest
  | plain given plain _ _ ih =>
    obtain ⟨definition, out', -, -, hrest⟩ := generateProps_ok_plain given plain hrun
    exact ih (List.nodup_cons.1 hnames).2 hrest

end Props

/-! ## Calls in trees -/

/-- An instance is given an element among its attributes, which is generated for one of its props. -/
inductive Passes (env : Environment) : Call → Call → Prop
  | given {fuel : Nat} {at' : Surroundings} {e x : Element} {external : Component}
      {states : Dict StateDefinition} {c there : Context} (isInstance : e.isInstance = true)
      (component : Dict.get? env.externals e.componentName = some external)
      (accepted : (Dict.merge at'.definitions.states (c.instantiate external).states).mapM
        (instanceState e.attrs) = .ok states)
      (reaches : PropsReach (generateElement env fuel at') at'.definitions x there e.attrs
        (combineProps at'.definitions.props (c.instantiate external).props)
        (c.reserve (c.instantiate external).node.keys)) :
      Passes env ⟨fuel + 2, at', .element e, c⟩ ⟨fuel, at', .element x, there⟩

/-- A call stands in a tree of the run that a call begins: in the tree that the run leaves, among the
attributes of an instance there, or in the tree of an instance that is expanded on the way. What a
reference shows stands in no tree. -/
inductive InTree (env : Environment) (root : Call) : Call → Prop
  | root : InTree env root root
  | part {call inner : Call} (tree : InTree env root call) (whole : call.task.IsWhole)
      (makes : Makes env call inner) : InTree env root inner
  | given {call inner : Call} (tree : InTree env root call) (passes : Passes env call inner) :
      InTree env root inner
  | wrapper {fuel : Nat} {at' : Surroundings} {e : Element} {entry : Entry} {c : Context}
      (leads : Leads env root ⟨fuel + 2, at', .element e, c⟩) (isInstance : e.isInstance = true)
      (entered : enter? env fuel at' e c = some entry) :
      InTree env root ⟨fuel, entry.inside,
        .element (wrapperElement entry.key (entry.component.node.withChildren e.children)),
        entry.context⟩

section Trees

variable {env : Environment} {root call inner : Call} {c' : Context}

theorem Passes.makes (h : Passes env call inner) : Makes env call inner := by
  cases h with
  | given isInstance component accepted reaches =>
    exact .given isInstance component accepted reaches

theorem InTree.leads (h : InTree env root call) : Leads env root call := by
  induction h with
  | root => exact .refl
  | part _ _ makes ih => exact ih.tail makes
  | given _ passes ih => exact ih.tail passes.makes
  | wrapper leads isInstance entered => exact leads.tail (.wrapper isInstance entered)

theorem Leads.ends (hplain : env.Plain) (h : Leads env root call) (hends : root.Ends env c') :
    ∃ there, call.Ends env there := by
  induction h with
  | refl => exact ⟨c', hends⟩
  | tail _ makes ih =>
    obtain ⟨there, hcall⟩ := ih
    obtain ⟨before, -, hinner, -, -⟩ := makes.ends hplain hcall
    exact ⟨before, hinner⟩

/-- An element that an instance is given keeps its place among the attributes. -/
theorem Passes.trace_subset (h : Passes env call inner) (hcall : call.Ordered)
    (hends : call.Ends env c') : inner.trace env ⊆ call.trace env := by
  cases h with
  | @given fuel at' e x external states c there isInstance component accepted reaches =>
    obtain ⟨entry, wrapper, hrun⟩ := exists_instanceRun isInstance hends
    obtain ⟨external', hexternal, hcomponent, -, hprops, -, -⟩ := enter?_eq_some hrun.entered
    cases component.symm.trans hexternal
    have hnames := (sorted_combineProps hcall.scope.sorted.props
      (c.instantiate external).props).nodup_keys
    rw [hcomponent] at hprops
    obtain ⟨name, hkept⟩ := reaches.kept hnames hprops
    rw [hrun.trace, Element.elements_eq]
    intro y hy
    exact List.mem_cons_of_mem _ (List.mem_append_left _
      (attribute_subset_of_mem (Dict.mem_of_get? hkept) hy))

/-- **An element that an instance is given** is in a default of the component that is styled. -/
theorem Passes.default (h : Passes env call inner) (hends : call.Ends env c') :
    ∃ component, call.styled? env = some component ∧
      inner.trace env ⊆ (defaultNodes component.props).flatMap Node.elements := by
  cases h with
  | @given fuel at' e x external states c there isInstance component accepted reaches =>
    obtain ⟨entry, wrapper, hrun⟩ := exists_instanceRun isInstance hends
    obtain ⟨external', hexternal, hcomponent, -, hprops, -, -⟩ := enter?_eq_some hrun.entered
    cases component.symm.trans hexternal
    rw [hcomponent] at hprops
    exact ⟨_, hrun.styled?_eq isInstance, fun y hy =>
      List.mem_flatMap.2 ⟨_, reaches.default hprops, hy⟩⟩

/-- **What is left of a call in a tree** is in one of the trees of the run. -/
theorem InTree.subset_trees (hplain : env.Plain) (hexternals : TidyExternals env.externals)
    (hroot : root.Ordered) (hends : root.Ends env c') (h : InTree env root call) :
    call.trace env ⊆ root.trees env := by
  induction h with
  | root => exact List.subset_append_right _ _
  | part tree whole makes ih =>
    obtain ⟨there, hcall⟩ := tree.leads.ends hplain hends
    exact List.Subset.trans (makes.trace_subset whole hcall) ih
  | given tree passes ih =>
    obtain ⟨there, hcall⟩ := tree.leads.ends hplain hends
    exact List.Subset.trans (passes.trace_subset (tree.leads.ordered hexternals hroot) hcall) ih
  | @wrapper fuel at' e entry c leads isInstance entered =>
    have hstyled : Call.styledTree env ⟨fuel + 2, at', .element e, c⟩
        = Call.trace env ⟨fuel, entry.inside,
          .element (wrapperElement entry.key (entry.component.node.withChildren e.children)),
          entry.context⟩ := by
      rw [Call.styledTree, Call.styled?, if_pos isInstance, entered]
      exact List.flatMap_singleton _ _
    refine fun x hx => List.mem_append_left _ (List.mem_flatMap.2 ⟨_, mem_finished.2 leads, ?_⟩)
    rw [hstyled]
    exact hx

end Trees

/-! ## Defaults of scopes -/

/-- A node that a scope of a run can have as a default: it is one where the run begins, or one of a
copy that is expanded on the way, or an element that an instance is given. -/
inductive ScopeNode (env : Environment) (root : Call) : Node → Prop
  | ownProp {name : String} {d : PropDefinition} {node : Node}
      (get : Dict.get? root.place.definitions.props name = some d)
      (default : d.default = some (.node node)) : ScopeNode env root node
  | ownState {name : String} {d : StateDefinition} {node : Node}
      (get : Dict.get? root.place.definitions.states name = some d)
      (default : d.default = some (.node node)) : ScopeNode env root node
  | copyProp {call : Call} {external : Component} {name : String} {d : PropDefinition} {node : Node}
      (leads : Leads env root call) (expands : call.expanded? env = some external)
      (get : Dict.get? (call.context.instantiate external).props name = some d)
      (default : d.default = some (.node node)) : ScopeNode env root node
  | copyState {call : Call} {external : Component} {name : String} {d : StateDefinition}
      {node : Node} (leads : Leads env root call) (expands : call.expanded? env = some external)
      (get : Dict.get? (call.context.instantiate external).states name = some d)
      (default : d.default = some (.node node)) : ScopeNode env root node
  | passed {whole : Call} {fuel : Nat} {at' : Surroundings} {x : Element} {c : Context}
      (leads : Leads env root whole) (passes : Passes env whole ⟨fuel, at', .element x, c⟩) :
      ScopeNode env root (.element (generateElement env fuel at' x c).1.1)

/-- All nodes that the definitions of a scope have as defaults are such nodes of a run. -/
structure ScopeNodes (env : Environment) (root : Call) (ds : Definitions) : Prop where
  prop : ∀ {name d node}, Dict.get? ds.props name = some d → d.default = some (.node node) →
    ScopeNode env root node
  state : ∀ {name d node}, Dict.get? ds.states name = some d → d.default = some (.node node) →
    ScopeNode env root node

section Scopes

variable {env : Environment} {root call : Call}

/-- **The scope of an instance** has nodes of its caller and of its copy, and elements that it is
given. -/
theorem ScopeNodes.enter (hexternals : TidyExternals env.externals) {fuel : Nat}
    {at' : Surroundings} {e : Element} {entry : Entry} {c : Context}
    (hsorted : at'.definitions.Sorted) (hleads : Leads env root ⟨fuel + 2, at', .element e, c⟩)
    (he : e.isInstance = true) (hentry : enter? env fuel at' e c = some entry)
    (h : ScopeNodes env root at'.definitions) : ScopeNodes env root entry.inside.definitions := by
  have hinside := Inside.of_enter hexternals.sorted hsorted hentry
  obtain ⟨external, hexternal, hcomponent, hstates, hrun, -, -⟩ := enter?_eq_some hentry
  have hexpands : (Call.mk (fuel + 2) at' (.element e) c).expanded? env = some external :=
    (if_pos he).trans hexternal
  refine ⟨fun {name d node} hget hdefault => ?_, fun {name d node} hget hdefault => ?_⟩
  · cases hinside.prop_stems hsorted.props hrun hget hdefault with
    | own own => exact .copyProp hleads hexpands (hcomponent ▸ own) hdefault
    | outer outer _ => exact h.prop outer hdefault
    | @given x x' value node_eq _ _ =>
      obtain ⟨x', id, there, there', hreaches, hx, -, hdefault', -⟩ := generateProps_registers
        ((generate_extends env fuel).element at') (generate_registers env fuel at')
        (sorted_combineProps hsorted.props entry.component.props).nodup_keys hrun
        (Dict.mem_of_get? hget) value
      rw [hdefault] at hdefault'
      cases hdefault'
      rw [hcomponent] at hstates hreaches
      have hnode : x' = (generateElement env fuel at' x there).1.1 := by rw [hx]
      exact hnode ▸ .passed hleads (.given he hexternal hstates hreaches)
    | passedProp _ _ get _ default => exact h.prop get default
    | passedState _ _ get _ default => exact h.state get default
  · rcases hinside.state_stems hget hdefault with hstate | hcaller
    · exact .copyState hleads hexpands (hcomponent ▸ hstate) hdefault
    · exact h.state hcaller hdefault

/-- **The scopes of a run** have nothing else as defaults. -/
theorem Leads.scopeNodes (hexternals : TidyExternals env.externals) (hroot : root.Ordered)
    (h : Leads env root call) : ScopeNodes env root call.place.definitions := by
  induction h with
  | refl => exact ⟨.ownProp, .ownState⟩
  | @tail call inner hleads hmakes ih =>
    replace hleads : Leads env root call := hleads
    have hsorted := (hleads.ordered hexternals hroot).scope.sorted
    cases hmakes with
    | content | reference | body | default | child | given => exact ih
    | wrapper isInstance entered => exact ih.enter hexternals hsorted hleads isInstance entered

end Scopes

/-! ## Visits -/

/-- The elements of the defaults of props that the style stage visits. -/
def styledDefaults (visited : List Component) : List Element :=
  visited.flatMap fun component => (defaultNodes component.props).flatMap Node.elements

/-- How many rules outside blocks have a plain class as their selector, in the sheets of some
components. -/
def plainRules (key : String) (visited : List Component) : ℕ :=
  (visited.flatMap (·.stylesheet.rules)).countP (·.selector = "." ++ key)

/-- No style set of some components has a class. -/
def FreeOfSets (key : String) (visited : List Component) : Prop :=
  ∀ component ∈ visited, ∀ s ∈ Dict.values component.styleSets, s.cssClass ≠ key

section Visits

variable {key : String} {visited : List Component}

/-- The style stage visits trees and defaults. -/
theorem countP_elements (q : Element → Bool) (visited : List Component) :
    (visited.flatMap (·.elements)).countP q
      = (visited.flatMap (·.node.elements)).countP q + (styledDefaults visited).countP q := by
  rw [styledDefaults, ← List.countP_append]
  exact (List.flatMap_append_perm visited _ _).symm.countP_eq q

/-- **The rules under a plain class** are as many as the elements of the key that are visited with
declarations, if no style set has the class. -/
theorem plainRules_eq (hkey : ':' ∉ key.toList) (hsets : FreeOfSets key visited) :
    plainRules key visited = (visited.flatMap (·.elements)).countP (·.IsStyled key) := by
  rw [plainRules, List.countP_flatMap, List.countP_flatMap]
  refine congrArg List.sum (List.map_congr_left fun component hcomponent => ?_)
  exact component.countP_rules hkey (hsets component hcomponent)

/-- The trees that the style stage visits are those of the run. -/
theorem PageGenerator.visited_trees (p : PageGenerator) (page : Component) (o : Options) :
    (p.visited page o).flatMap (·.node.elements)
      = (p.pageCall page o).trees (p.environment page o) := by
  rw [visited, Call.trees, List.flatMap_append, List.flatMap_singleton]
  refine congrArg (· ++ _) ?_
  induction (p.pageCall page o).finished (p.environment page o) with
  | nil => rfl
  | cons call rest ih =>
    rw [List.filterMap_cons, List.flatMap_cons, ← ih, Call.styledTree]
    rcases call.styled? (p.environment page o) with _ | component
    · rfl
    · exact congrArg (· ++ _) (List.flatMap_singleton _ _).symm

/-- **The defaults that the style stage visits** are nodes of the scopes of the run. -/
theorem PageGenerator.exists_of_styledDefaults {p : PageGenerator} {page : Component} {o : Options}
    (hexternals : TidyExternals p.externals) (hroot : (p.pageCall page o).Ordered) {x : Element}
    (hx : x ∈ styledDefaults (p.visited page o)) :
    ∃ node, ScopeNode (p.environment page o) (p.pageCall page o) node ∧ x ∈ node.elements := by
  obtain ⟨component, hcomponent, hx⟩ := List.mem_flatMap.1 hx
  obtain ⟨node, hnode, hx⟩ := List.mem_flatMap.1 hx
  obtain ⟨⟨name, d⟩, hentry, hdefault⟩ := mem_defaultNodes.1 hnode
  refine ⟨node, ?_, hx⟩
  rcases List.mem_append.1 hcomponent with hinstance | hpage
  · obtain ⟨call, hcall, hstyled⟩ := List.mem_filterMap.1 hinstance
    have hleads := mem_finished.1 hcall
    rcases call with ⟨_ | _ | fuel, at', node | r | e, c⟩ <;> try cases hstyled
    have he : e.isInstance := by
      by_contra he
      cases hstyled.symm.trans (if_neg he)
    obtain ⟨entry, hentered, rfl⟩ := Option.map_eq_some_iff.1 ((if_pos he).symm.trans hstyled)
    have hsorted := (hleads.ordered hexternals hroot).scope.sorted
    have hscope := (hleads.scopeNodes hexternals hroot).enter hexternals hsorted hleads he hentered
    have hinside := Inside.of_enter hexternals.sorted hsorted hentered
    exact hscope.prop (hinside.sorted.props.get?_eq_some_iff.2 hentry) hdefault
  · cases List.mem_singleton.1 hpage
    exact .ownProp (hroot.scope.sorted.props.get?_eq_some_iff.2 hentry) hdefault

end Visits

/-! ## Counts -/

section Counts

variable {env : Environment} {root : Call} {c c' : Context} {fuel : Nat} {at' : Surroundings}
  {e : Element}

theorem countP_isStyled_le (key : String) (es : List Element) :
    es.countP (·.IsStyled key) ≤ keyCount key es := by
  rw [keyCount, List.count, List.countP_map]
  refine List.countP_mono_left fun x _ hx => ?_
  rw [Element.IsStyled, Bool.and_eq_true, decide_eq_true_eq] at hx
  exact beq_iff_eq.2 hx.1

/-- What an element is left as has its key, so it is visited with declarations if it has some. -/
theorem isStyled_of_generated (hends : (Call.mk fuel at' (.element e) c).Ends env c')
    (hstyled : (generateElement env fuel at' e c).1.1.baseDeclarations ≠ []) :
    (generateElement env fuel at' e c).1.1.IsStyled e.key := by
  obtain ⟨e', id, hrun⟩ := Call.ends_element.1 hends
  have hkey : (generateElement env fuel at' e c).1.1.key = e.key :=
    (generate_registers env fuel at' e c id (by rw [hrun])).1
  simpa [Element.IsStyled, hkey] using hstyled

theorem mem_trace : (generateElement env fuel at' e c).1.1
    ∈ Call.trace env ⟨fuel, at', .element e, c⟩ :=
  Element.mem_elements _

/-- **An element in a tree** is the only one of its key that is styled in a tree. -/
theorem InTree.countP_trees (hplain : env.Plain) (hexternals : TidyExternals env.externals)
    (hroot : root.Ordered) (hends : root.Ends env c')
    (hown : keyCount e.key root.task.elements ≤ root.context.use e.key)
    (hapart : root.Apart env e.key) (h : InTree env root ⟨fuel, at', .element e, c⟩)
    (hstyled : (generateElement env fuel at' e c).1.1.baseDeclarations ≠ []) :
    (root.trees env).countP (·.IsStyled e.key) = 1 := by
  obtain ⟨there, hcall⟩ := h.leads.ends hplain hends
  have hmem := h.subset_trees hplain hexternals hroot hends mem_trace
  refine le_antisymm ?_ ?_
  · exact (countP_isStyled_le _ _).trans
      (hends.count_trees_le hplain hexternals hroot hown hapart)
  · exact List.one_le_countP_iff.2 ⟨_, hmem, isStyled_of_generated hcall hstyled⟩

/-- An element that an instance is given is styled in a default as well. -/
theorem Passes.countP_defaults {p : PageGenerator} {page : Component} {o : Options} {whole : Call}
    (hends : (p.pageCall page o).Ends (p.environment page o) c')
    (hleads : Leads (p.environment page o) (p.pageCall page o) whole)
    (h : Passes (p.environment page o) whole ⟨fuel, at', .element e, c⟩)
    (hstyled : (generateElement (p.environment page o) fuel at' e c).1.1.baseDeclarations ≠ []) :
    0 < (styledDefaults (p.visited page o)).countP (·.IsStyled e.key) := by
  have hplain := p.environment_plain page o
  obtain ⟨there, hwhole⟩ := hleads.ends hplain hends
  obtain ⟨after, hcall⟩ := Leads.ends hplain (hleads.tail h.makes) hends
  obtain ⟨component, hcomponent, hsubset⟩ := h.default hwhole
  refine List.countP_pos_iff.2 ⟨_, List.mem_flatMap.2 ⟨component, ?_, hsubset mem_trace⟩,
    isStyled_of_generated hcall hstyled⟩
  exact List.mem_append_left _ (List.mem_filterMap.2 ⟨whole, mem_finished.2 hleads, hcomponent⟩)

end Counts

/-! ## Pages -/

section Pages

variable {c page : Component} {o : Options}

/-- A tidy page is generated in the order of its attributes. -/
theorem PageGenerator.pageCall_ordered (p : PageGenerator) (o : Options) (h : page.Tidy) :
    (p.pageCall page o).Ordered :=
  ⟨.of_tidy h _, page.node.ordered h.node⟩

/-- A resolved page has a key in its tree once at most, and reserves it. -/
theorem PageGenerator.keyCount_pageCall (p : PageGenerator) (hpage : c.resolve .html o = .ok page)
    (key : String) :
    keyCount key (p.pageCall page o).task.elements ≤ (p.pageCall page o).context.use key := by
  have hnodup : page.node.keys.Nodup :=
    (List.nodup_append.1 (List.map_append ▸ Component.nodup_keys_resolveWith hpage)).1
  by_cases hmem : key ∈ page.node.keys
  · have hused : (p.pageCall page o).context.Used key :=
      Or.inr ((Context.reserved_reserve _).2 (Or.inl hmem))
    rw [Context.use_eq_one hused]
    exact List.nodup_iff_count_le_one.1 hnodup key
  · have hcount : keyCount key page.node.elements = 0 := List.count_eq_zero_of_not_mem hmem
    exact hcount.trans_le (Nat.zero_le _)

/-- No key in the tree of a resolved page has a colon. -/
theorem Component.colon_notMem_resolve (hpage : c.resolve .html o = .ok page) {x : Element}
    (hx : x ∈ page.node.elements) : ':' ∉ x.key.toList := by
  obtain ⟨e, hclaimable⟩ := claimable_resolveWith hpage (List.mem_append_left _ hx)
  exact hclaimable.colon_notMem

/-- **How often an element is styled.** The style sheets of a page that is compiled are those of the
components that the style stage runs for. Outside blocks, a plain class has as many rules there as
elements of its key are visited with declarations. An element that stands in a tree and has
declarations of its own gets one rule for its place: all trees together have no other element of its
key, if the key comes from sources of one kind. It gets further rules for its places among the
defaults of the scopes that are visited, which the scopes of the run can show. An element that an
instance is given is among them, so it gets two rules at least. -/
theorem generate_styleCount {externals : Dict Component} {compiled : Compiled} (hc : c.Tidy)
    (ho : (o.effectiveMapping .html).Tidy) (hexternals : TidyExternals externals)
    (h : (PageGenerator.ofExternals externals).generate c o = .ok compiled) :
    ∃ page done, c.resolve .html o = .ok page ∧
      runStages ((PageGenerator.ofExternals externals).template ::
          PageGenerator.standard.generator.stages) { component := page, options := o }
        = (.ok (), done) ∧
      let env := (PageGenerator.ofExternals externals).environment page o
      let root := (PageGenerator.ofExternals externals).pageCall page o
      let visited := (PageGenerator.ofExternals externals).visited page o
      done.context.css = visited.flatMap Component.css ∧
      (∀ key, ':' ∉ key.toList → FreeOfSets key visited →
        plainRules key visited = (visited.flatMap (·.elements)).countP (·.IsStyled key)) ∧
      (∀ x ∈ styledDefaults visited, ∃ node, ScopeNode env root node ∧ x ∈ node.elements) ∧
      ∀ fuel at' e there, InTree env root ⟨fuel, at', .element e, there⟩ →
        (generateElement env fuel at' e there).1.1.baseDeclarations ≠ [] →
        FreeOfSets e.key visited → root.Apart env e.key →
        plainRules e.key visited = (styledDefaults visited).countP (·.IsStyled e.key) + 1 ∧
          ∀ whole, Leads env root whole → Passes env whole ⟨fuel, at', .element e, there⟩ →
            2 ≤ plainRules e.key visited := by
  obtain ⟨page, done, code, hpage, hrun, -, -⟩ := exists_of_generate h
  have htidy : page.Tidy := Component.resolveWith_tidy
    (List.forall_mem_singleton.2 Component.linkStep_keepsTidy) ho hc hpage
  have hplain := (PageGenerator.ofExternals externals).environment_plain page o
  have hroot := (PageGenerator.ofExternals externals).pageCall_ordered o htidy
  obtain ⟨node, piece, there, hgenerated, -⟩ := exists_of_pageStages hrun
  have hends : ((PageGenerator.ofExternals externals).pageCall page o).Ends
      ((PageGenerator.ofExternals externals).environment page o) there :=
    Call.ends_node.2 ⟨node, piece, hgenerated⟩
  refine ⟨page, done, hpage, hrun, css_of_pageStages hrun, fun key => plainRules_eq,
    fun x => PageGenerator.exists_of_styledDefaults hexternals hroot,
    fun fuel at' e c htree hstyled hsets hapart => ?_⟩
  have hown := (PageGenerator.ofExternals externals).keyCount_pageCall hpage e.key
  have honce := htree.countP_trees hplain hexternals hroot hends hown hapart hstyled
  have hcolon : ':' ∉ e.key.toList := by
    have hmem := htree.subset_trees hplain hexternals hroot hends mem_trace
    obtain ⟨after, hcall⟩ := htree.leads.ends hplain hends
    obtain ⟨e', id, hrun'⟩ := Call.ends_element.1 hcall
    have hkey := (generate_registers _ fuel at' e c id (by rw [hrun'])).1
    rw [← hkey]
    exact hends.colon_notMem hplain hexternals hroot
      (fun x hx => Component.colon_notMem_resolve hpage hx) hmem (hkey ▸ hapart.shown)
  have hcount : plainRules e.key ((PageGenerator.ofExternals externals).visited page o)
      = (styledDefaults ((PageGenerator.ofExternals externals).visited page o)).countP
        (·.IsStyled e.key) + 1 := by
    rw [plainRules_eq hcolon hsets, countP_elements, PageGenerator.visited_trees, honce,
      Nat.add_comm]
  refine ⟨hcount, fun whole hleads hpasses => ?_⟩
  have hdefault := hpasses.countP_defaults hends hleads hstyled
  omega

end Pages

/-! ## A page that passes an element -/

/-- A short text with a color. -/
def coloredText (key color : String) : Element where
  key := key
  elementType := "span"
  name := some "text"
  semanticType := some "text"
  style := [("color", .text color)]
  children := [.constant (.text key)]

/-- A component that shows what stands in its slot, and an element that it is given. -/
def boxExternals : Dict Component := [("Box", {
  name := "Box"
  node := .element {
    elementType := "div", key := "body"
    children := [.slot {}, .dynamic (.toProp "icon")] }
  props := [("icon", { kind := "element" })] })]

/-- An instance with an element among its attributes and another one among its children. -/
def boxNode : Element := { Element.ofComponent "Box" "box" with
  attrs := [("icon", .element (coloredText "star" "red"))]
  children := [.element (coloredText "note" "blue")] }

/-- A resolved page with such an instance. -/
def boxPage : Component where
  name := "Page"
  node := .element boxNode
  output := some {
    className := some "Page"
    fileName := some "page"
    styleFileName := some "page"
    templateFileName := some "page" }

/-- The generator of pages with such instances. -/
abbrev boxPages : PageGenerator := .ofExternals boxExternals

/-- Its style sheet. -/
def boxSheet : String :=
  ".box-wrapper \x7b\n  display: contents;\n\x7d\n.note \x7b\n  color: blue;\n\x7d\n" ++
    ".star \x7b\n  color: red;\n\x7d\n\n.star \x7b\n  color: red;\n\x7d\n"

/-- A component that no step of resolving changes is resolved. -/
theorem Component.resolve_of_fixed {c : Component} {base : Mapping} {o : Options}
    (hnamed : (c.resolveStyleSets o.assets).nameOutput = c)
    (hlegal : c.illegalName? (o.effectiveMapping base) = none)
    (hplaced : (c.placeDefaults o.assets).carryOut [linkStep] o = .ok c)
    (hembedded : (c.resolveStyles o.assets).embed = .ok c)
    (hmapped : c.applyMapping (o.effectiveMapping base) o = .ok c)
    (hsourced : c.assignFreshKeys.nameDataSources = .ok c)
    (hhead : c.resolveHead o.assets = .ok c) : c.resolve base o = .ok c := by
  have hchecked : c.checkNames (o.effectiveMapping base) = .ok () := by
    rw [checkNames, hlegal]
  rw [resolve, resolveWith, hnamed]
  simp only [hchecked, hplaced, hembedded, hmapped, hsourced, hhead, bind, Except.bind]

theorem resolve_boxPage : boxPage.resolve .html {} = .ok boxPage :=
  Component.resolve_of_fixed rfl (by decide +kernel) rfl rfl rfl rfl rfl

theorem tidy_boxExternals : TidyExternals boxExternals := by
  intro name c h
  have hmem := Dict.mem_of_get? h
  rw [boxExternals, List.mem_singleton] at hmem
  cases hmem
  constructor <;> simp [Dict.Tidy, Dict.Sorted, Node.Tidy, Element.Tidy, nodesTidy, attributesTidy,
    abilitiesTidy, Slot.Tidy]
  · constructor <;> simp [Dict.Tidy, Dict.Sorted]

theorem tidy_coloredText (key color : String) : (coloredText key color).Tidy := by
  refine ⟨?_, trivial, trivial, trivial, trivial⟩
  constructor <;> simp [Dict.Tidy, Dict.Sorted]

theorem tidy_boxPage : boxPage.Tidy := by
  have htables : boxNode.TidyTables := by
    constructor <;> simp [boxNode, Element.ofComponent, Dict.Tidy, Dict.Sorted]
  have hnode : boxNode.Tidy := ⟨htables, ⟨tidy_coloredText _ _, trivial⟩, trivial,
    tidy_coloredText _ _, trivial⟩
  constructor <;> simp [boxPage, Dict.Tidy, Dict.Sorted, Node.Tidy, hnode]

section Box

/-- The environment of the page. -/
abbrev boxEnvironment : Environment := boxPages.environment boxPage {}

/-- The call with which its generation starts. -/
abbrev boxCall : Call := boxPages.pageCall boxPage {}

theorem boxNode_inTree :
    InTree boxEnvironment boxCall ⟨4912, boxCall.place, .element boxNode, boxCall.context⟩ :=
  .part .root trivial .content

theorem star_passes :
    Passes boxEnvironment ⟨4912, boxCall.place, .element boxNode, boxCall.context⟩
      ⟨4910, boxCall.place, .element (coloredText "star" "red"), boxCall.context.reserve ["body"]⟩ :=
  .given rfl rfl rfl (.here rfl)

/-- What stands in the slot of an instance stands in the tree of its component. -/
theorem note_inTree {c' : Context} (h : boxCall.Ends boxEnvironment c') : ∃ at' there,
    InTree boxEnvironment boxCall ⟨4906, at', .element (coloredText "note" "blue"), there⟩ := by
  obtain ⟨after, hends⟩ := boxNode_inTree.leads.ends (boxPages.environment_plain boxPage {}) h
  obtain ⟨entry, wrapper, hrun⟩ := exists_instanceRun rfl hends
  obtain ⟨external, hexternal, hcomponent, -, -, -, -⟩ := enter?_eq_some hrun.entered
  cases hexternal
  have hroot : entry.component.node.withChildren boxNode.children = .element {
      elementType := "div", key := "body"
      children := [.element (coloredText "note" "blue"), .dynamic (.toProp "icon")] } := by
    rw [hcomponent]
    rfl
  have hwrapper := InTree.wrapper boxNode_inTree.leads rfl hrun.entered
  rw [hroot] at hwrapper
  exact ⟨_, _, .part (.part (.part (.part hwrapper rfl (.child rfl .here)) trivial .content)
    rfl (.child rfl .here)) trivial .content⟩

theorem coloredText_styled {env : Environment} {root : Call} {c' there : Context} {fuel : Nat}
    {at' : Surroundings} {key color : String} (hplain : env.Plain) (hends : root.Ends env c')
    (h : InTree env root ⟨fuel, at', .element (coloredText key color), there⟩) :
    (generateElement env fuel at' (coloredText key color) there).1.1.baseDeclarations ≠ [] := by
  obtain ⟨after, hcall⟩ := h.leads.ends hplain hends
  obtain ⟨e', id, hrun⟩ := Call.ends_element.1 hcall
  obtain ⟨fuel, rfl⟩ := generateElement_ok hrun
  rw [hrun]
  exact (TagRun.of_run rfl hrun).baseDeclarations_ne_nil List.mem_cons_self

theorem boxPage_freeOfSets (key : String) : FreeOfSets key (boxPages.visited boxPage {}) := by
  have hnone : ∀ component ∈ boxPages.visited boxPage {}, Dict.keys component.styleSets = [] := by
    decide +kernel
  intro component hcomponent s hs
  rw [Dict.values, List.map_eq_nil_iff.1 (hnone component hcomponent)] at hs
  cases hs

theorem boxPage_apart : ∀ key ∈ ["note", "star"], boxCall.Apart boxEnvironment key := by
  intro key hkey
  have hshown : ∀ inner ∈ boxCall.finished boxEnvironment,
      (inner.shown boxEnvironment).map (·.key) = [] := by decide +kernel
  have hwrapped : ∀ inner ∈ boxCall.finished boxEnvironment, ∀ key ∈ ["note", "star"],
      key ∉ inner.wrapped boxEnvironment := by decide +kernel
  refine ⟨fun inner hinner x hx => ?_, Or.inl fun inner hinner => hwrapped inner hinner key hkey⟩
  rw [List.map_eq_nil_iff.1 (hshown inner hinner)] at hx
  cases hx

/-- A child of an instance is styled once, and an element that the instance is given is not. -/
theorem boxPage_styleCount : boxPage.Tidy ∧ (Options.effectiveMapping {} .html).Tidy ∧
    TidyExternals boxExternals ∧ ∃ compiled, boxPages.generate boxPage {} = .ok compiled ∧
      plainRules "note" (boxPages.visited boxPage {}) = 1 ∧
      2 ≤ plainRules "star" (boxPages.visited boxPage {}) := by
  obtain ⟨compiled, h⟩ := exists_of_isOk
    (by decide +kernel : (boxPages.generate boxPage {}).isOk = true)
  have hmapping : (Options.effectiveMapping {} .html).Tidy := Mapping.tidy_html
  obtain ⟨page, done, hpage, hrun, -, -, -, hcount⟩ :=
    generate_styleCount tidy_boxPage hmapping tidy_boxExternals h
  cases resolve_boxPage.symm.trans hpage
  obtain ⟨node, piece, c', hgenerated, -⟩ := exists_of_pageStages hrun
  have hends : boxCall.Ends boxEnvironment c' := Call.ends_node.2 ⟨node, piece, hgenerated⟩
  have hplain := boxPages.environment_plain boxPage {}
  obtain ⟨at', there, hnote⟩ := note_inTree hends
  have hstar := boxNode_inTree.given star_passes
  refine ⟨tidy_boxPage, hmapping, tidy_boxExternals, compiled, h, ?_, ?_⟩
  · obtain ⟨hone, -⟩ := hcount _ _ _ _ hnote (coloredText_styled hplain hends hnote)
      (boxPage_freeOfSets "note") (boxPage_apart "note" (by decide))
    have hdefaults : (styledDefaults (boxPages.visited boxPage {})).countP (·.IsStyled "note")
        = 0 := by decide +kernel
    exact hone.trans (congrArg (· + 1) hdefaults)
  · have hstar := hcount _ _ _ _ hstar (coloredText_styled hplain hends hstar)
      (boxPage_freeOfSets "star") (boxPage_apart "star" (by decide))
    exact hstar.2 _ boxNode_inTree.leads star_passes

/-- **An element that an instance is given is styled twice**: once for its place among the attributes,
and once for its place among the props. -/
theorem boxPage_styledTwice : ∃ compiled, boxPages.generate boxPage {} = .ok compiled ∧
    boxPage.resolve .html {} = .ok boxPage ∧
    ∃ fuel at' e there, InTree boxEnvironment boxCall ⟨fuel, at', .element e, there⟩ ∧
      (generateElement boxEnvironment fuel at' e there).1.1.baseDeclarations = [("color", "red")] ∧
      FreeOfSets e.key (boxPages.visited boxPage {}) ∧
      plainRules e.key (boxPages.visited boxPage {}) = 2 ∧
      (compiled.files.filter (·.fileType = cssFile)).map (·.content) = [boxSheet] := by
  obtain ⟨compiled, h⟩ := exists_of_isOk
    (by decide +kernel : (boxPages.generate boxPage {}).isOk = true)
  have hfiles : ∀ compiled ∈ (boxPages.generate boxPage {}).toOption,
      (compiled.files.filter (·.fileType = cssFile)).map (·.content) = [boxSheet] := by decide +kernel
  exact ⟨compiled, h, resolve_boxPage, _, _, _, _, boxNode_inTree.given star_passes, by rfl,
    boxPage_freeOfSets _, by decide +kernel, hfiles compiled (by rw [h]; rfl)⟩

end Box

end PageCompiler
