import PageCompiler.Proofs.Document.DocumentOrder
import PageCompiler.Proofs.Page.Descent
import PageCompiler.Proofs.Resolve.Tidy

/-!
# Attributes in order

In a tidy document the attributes of each element are in the order of their names. Components are
copied and filled with children on the way, but the attributes of whatever is generated stay in that
order. So an element that takes the place of another one among the attributes does so once.

* `Node.ordered`: the elements of a tidy tree have their attributes in order.
* `OrderedScope.enter`: the scope of an instance.
* `Leads.ordered`: every call of a run is for elements with their attributes in order.
-/

namespace PageCompiler

/-! ## Tidy trees -/

mutual

/-- The elements of a tidy tree have their attributes in order. -/
theorem Node.ordered : (node : Node) → node.Tidy → InOrder node.elements
  | .slot slot, h => slot.ordered h
  | .element e, h => e.ordered h
  | .conditional q, h => q.ordered h
  | .repetition r, h => r.ordered h
  | .constant _, _ => nofun
  | .dynamic _, _ => nofun
  | .raw _, _ => nofun
  | .inject _, _ => nofun
  | .expr _, _ => nofun

theorem Slot.ordered : (slot : Slot) → slot.Tidy → InOrder slot.elements
  | ⟨_, none⟩, _ => nofun
  | ⟨_, some node⟩, h => node.ordered h

theorem Conditional.ordered : (q : Conditional) → q.Tidy → InOrder q.elements
  | ⟨node, _, _, _⟩, h => node.ordered h.1

theorem Repetition.ordered : (r : Repetition) → r.Tidy → InOrder r.elements
  | ⟨node, _, _⟩, h => node.ordered h.1

theorem Element.ordered : (e : Element) → e.Tidy → InOrder e.elements
  | ⟨_, _, _, _, _, attrs, _, _, _, _, children, _⟩, h =>
    List.forall_mem_cons.2 ⟨h.1.attrs,
      List.forall_mem_append.2 ⟨attributes_ordered attrs h.2.1, nodes_ordered children h.2.2.2⟩⟩

theorem nodes_ordered : (nodes : List Node) → nodesTidy nodes → InOrder (nodesElements nodes)
  | [], _ => nofun
  | node :: rest, h => List.forall_mem_append.2 ⟨node.ordered h.1, nodes_ordered rest h.2⟩

theorem attributes_ordered : (attrs : List (String × Attribute)) → attributesTidy attrs →
    InOrder (attributesElements attrs)
  | [], _ => nofun
  | (_, value) :: rest, h =>
    List.forall_mem_append.2 ⟨value.ordered h.1, attributes_ordered rest h.2⟩

theorem Attribute.ordered : (value : Attribute) → value.Tidy → InOrder value.elements
  | .element e, h => e.ordered h
  | .constant _, _ => nofun
  | .dynamic _, _ => nofun
  | .raw _, _ => nofun
  | .imported _, _ => nofun
  | .expr _, _ => nofun
  | .object _, _ => nofun

end

/-- A tree that is filled with children has its attributes in order if both do. -/
theorem InOrder.withChildren {node : Node} {children : List Node} (hnode : InOrder node.elements)
    (hchildren : InOrder (nodesElements children)) :
    InOrder (node.withChildren children).elements := by
  intro x hx
  rcases mem_withChildren hx with hown | ⟨y, hy, hspliced⟩
  · exact hchildren x hown
  · have hattrs : x.attrs = y.attrs := by
      cases hspliced <;> rfl
    exact hattrs ▸ hnode y hy

/-! ## Scopes -/

/-- What the references of a scope can show has its attributes in order, unless it is registered
already. -/
structure OrderedScope (c : Context) (ds : Definitions) : Prop where
  sorted : ds.Sorted
  prop : ∀ {name d node}, Dict.get? ds.props name = some d → d.default = some (.node node) →
    InOrder node.elements ∨ ∃ e, node = .element e ∧ c.Registered e.key
  state : ∀ {name d node}, Dict.get? ds.states name = some d → d.default = some (.node node) →
    InOrder node.elements

section Scopes

variable {env : Environment} {c c' : Context}

theorem OrderedScope.mono {ds : Definitions} (h : OrderedScope c ds) (hextends : c.Extends c') :
    OrderedScope c' ds where
  sorted := h.sorted
  prop hget hdefault := (h.prop hget hdefault).imp_right fun ⟨e, hnode, hregistered⟩ =>
    ⟨e, hnode, hextends.registered hregistered⟩
  state := h.state

/-- The scope of a tidy component. -/
theorem OrderedScope.of_tidy {component : Component} (h : component.Tidy) (c : Context) :
    OrderedScope c ⟨component.props, component.states⟩ where
  sorted := ⟨h.props.1, h.states.1⟩
  prop {_ _ node} hget hdefault :=
    Or.inl (node.ordered (h.props.2 _ (Dict.mem_of_get? hget) _ hdefault))
  state {_ _ node} hget hdefault :=
    node.ordered (h.states.2 _ (Dict.mem_of_get? hget) _ hdefault)

/-- All components that instances can stand for are tidy. -/
def TidyExternals (externals : Dict Component) : Prop :=
  ∀ name c, Dict.get? externals name = some c → c.Tidy

theorem TidyExternals.sorted {externals : Dict Component} (h : TidyExternals externals) :
    SortedExternals externals := fun name c hget => ⟨(h name c hget).props.1, (h name c hget).states.1⟩

/-- **The scope of an instance** shows what its caller or its component can show, and elements that
are registered. -/
theorem OrderedScope.enter (hexternals : TidyExternals env.externals) {fuel : Nat}
    {at' : Surroundings} {e : Element} {entry : Entry} (hscope : OrderedScope c at'.definitions)
    (hentry : enter? env fuel at' e c = some entry) :
    OrderedScope entry.context entry.inside.definitions := by
  have hinside := Inside.of_enter hexternals.sorted hscope.sorted hentry
  have hextends := enter?_extends hentry
  obtain ⟨external, hexternal, hcomponent, -, hrun, -, -⟩ := enter?_eq_some hentry
  have htidy : entry.component.Tidy :=
    hcomponent ▸ Component.assignKeys_tidy (hexternals _ _ hexternal) _
  have hown := OrderedScope.of_tidy htidy entry.context
  refine ⟨hinside.sorted, fun {name d node} hget hdefault => ?_, fun {name d node} hget hdefault => ?_⟩
  · cases hinside.prop_stems hscope.sorted.props hrun hget hdefault with
    | own own => exact hown.prop own hdefault
    | outer outer _ => exact (hscope.mono hextends).prop outer hdefault
    | given _ node_eq _ registered => exact Or.inr ⟨_, node_eq, registered⟩
    | passedProp _ _ get _ default => exact (hscope.mono hextends).prop get default
    | passedState _ _ get _ default => exact Or.inl (hscope.state get default)
  · rcases hinside.state_stems hget hdefault with hstate | hcaller
    · exact hown.state hstate hdefault
    · exact hscope.state hcaller hdefault

end Scopes

/-! ## Runs -/

/-- What a call generates has its attributes in order. -/
structure Call.Ordered (call : Call) : Prop where
  scope : OrderedScope call.context call.place.definitions
  task : InOrder call.task.elements

variable {env : Environment} {call inner : Call}

/-- The elements among the attributes of an instance that are generated are its own. -/
theorem Call.Ordered.exists_of_given {fuel : Nat} {at' : Surroundings} {e x : Element}
    {external : Component} {c there : Context} (h : Call.Ordered ⟨fuel + 2, at', .element e, c⟩)
    (reaches : PropsReach (generateElement env fuel at') at'.definitions x there e.attrs
      (combineProps at'.definitions.props (c.instantiate external).props)
      (c.reserve (c.instantiate external).node.keys)) :
    ∃ name, Dict.get? e.attrs name = some (.element x) := by
  have hcombined := sorted_combineProps h.scope.sorted.props (c.instantiate external).props
  obtain ⟨name, -, hx⟩ := reaches.mem hcombined.nodup_keys
  exact ⟨name, hx⟩

/-- **A call with attributes in order** makes such calls only. -/
theorem Makes.ordered (hexternals : TidyExternals env.externals) (hmakes : Makes env call inner)
    (h : call.Ordered) : inner.Ordered := by
  have hextends := hmakes.extends
  cases hmakes with
  | content => exact ⟨h.scope, h.task⟩
  | reference => exact ⟨h.scope, nofun⟩
  | @body fuel at' q c shown =>
    cases q
    exact ⟨h.scope, h.task⟩
  | @default fuel at' r v node c value kind default new =>
    refine ⟨h.scope, ?_⟩
    rcases Definitions.find_ok (Definitions.value_ok value) with ⟨-, d, hd, rfl⟩ | ⟨-, d, hd, rfl⟩
    · rcases h.scope.prop hd default with hordered | ⟨e, rfl, hregistered⟩
      · exact hordered
      · obtain ⟨id, hid⟩ := Option.isSome_iff_exists.1 hregistered
        rw [Node.registered?, hid] at new
        cases new
    · exact h.scope.state hd default
  | @child fuel at' e child c there tag reaches =>
    exact ⟨h.scope.mono hextends, fun x hx =>
      h.task x (e.children_subset (elements_subset_of_mem reaches.mem hx))⟩
  | @given fuel at' e x external states c there isInstance component accepted reaches =>
    obtain ⟨name, hname⟩ := h.exists_of_given reaches
    refine ⟨h.scope.mono hextends, fun y hy => h.task y ?_⟩
    rw [Task.elements, e.elements_eq]
    exact List.mem_cons_of_mem _ (List.mem_append_left _
      (attribute_subset_of_mem (Dict.mem_of_get? hname) hy))
  | @wrapper fuel at' e entry c isInstance entered =>
    obtain ⟨external, hexternal, hcomponent, -, -, -, -⟩ := enter?_eq_some entered
    have htidy : entry.component.Tidy :=
      hcomponent ▸ Component.assignKeys_tidy (hexternals _ _ hexternal) _
    have hroot : InOrder (entry.component.node.withChildren e.children).elements :=
      InOrder.withChildren (entry.component.node.ordered htidy.node)
        fun x hx => h.task x (e.children_subset hx)
    refine ⟨h.scope.enter hexternals entered, ?_⟩
    rw [Task.elements, wrapperElement_elements]
    exact List.forall_mem_cons.2 ⟨List.Pairwise.nil, hroot⟩

theorem Leads.ordered (hexternals : TidyExternals env.externals) (h : Leads env call inner)
    (hcall : call.Ordered) : inner.Ordered := by
  induction h with
  | refl => exact hcall
  | tail _ hmakes ih => exact hmakes.ordered hexternals ih

end PageCompiler
