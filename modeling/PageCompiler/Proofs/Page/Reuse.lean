import PageCompiler.Proofs.Page.Calls
import PageCompiler.Proofs.Page.Collision
import PageCompiler.Proofs.Page.SlotScope

/-!
# Reused elements

A reference to a prop that stands for an element shows the element that is registered under its key,
and generates it only if there is none. The key of a default is not reserved, so that whatever is
generated before can take it. If nothing in sight has the key, or can bring it along, then all that
is registered under it was generated from the default.

* `Brings`: the keys that an instance of a component can bring along.
* `Clear`: a call in which a key belongs to some elements alone; `Makes.clear`.
* `reference_shows`: a reference shows what was generated from its own default.
* `starPage_confused`: a default whose key is taken.
-/

namespace PageCompiler

/-! ## Keys that are brought along -/

/-- The elements that are written in a component: in its tree or in a default. -/
def Component.Writes (c : Component) (x : Element) : Prop :=
  x ∈ c.elements ∨ ∃ node ∈ stateNodes c.states, x ∈ node.elements

/-- An instance of a component can bring a key along: for its wrapper, for an element of the
component, or by way of an instance in it. -/
inductive Brings (externals : Dict Component) (key : String) : String → Prop
  | wrapper {name : String} (wrapperKey : WrapperKey name key) : Brings externals key name
  | element {name : String} {c : Component} {x : Element}
      (external : Dict.get? externals name = some c) (writes : c.Writes x) (canHave : x.CanHave key) :
      Brings externals key name
  | inside {name : String} {c : Component} {x : Element}
      (external : Dict.get? externals name = some c) (writes : c.Writes x) (isInstance : x.isInstance)
      (brings : Brings externals key x.componentName) : Brings externals key name

/-- An element does not have a key, and does not bring it along. -/
structure Element.Spares (externals : Dict Component) (key : String) (x : Element) : Prop where
  key_ne : x.key ≠ key
  inst : x.isInstance → ¬ Brings externals key x.componentName

/-- All elements of a list spare a key. -/
def Spared (externals : Dict Component) (key : String) (es : List Element) : Prop :=
  ∀ x ∈ es, x.Spares externals key

/-- The elements inside an element: among its attributes and its children. -/
def Element.inside (e : Element) : List Element :=
  attributesElements e.attrs ++ nodesElements e.children

theorem Element.elements_eq_inside (e : Element) : e.elements = e :: e.inside := e.elements_eq

theorem elements_subset_of_mem {nodes : List Node} {node : Node} (h : node ∈ nodes) :
    node.elements ⊆ nodesElements nodes := by
  induction nodes with
  | nil => cases h
  | cons first rest ih =>
    rcases List.mem_cons.1 h with rfl | h
    · exact List.subset_append_left _ _
    · exact List.subset_append_of_subset_right _ (ih h)

theorem attribute_subset_of_mem {attrs : List (String × Attribute)} {name : String} {x : Element}
    (h : (name, .element x) ∈ attrs) : x.elements ⊆ attributesElements attrs := by
  induction attrs with
  | nil => cases h
  | cons first rest ih =>
    rcases List.mem_cons.1 h with rfl | h
    · exact List.subset_append_left _ _
    · exact List.subset_append_of_subset_right _ (ih h)

/-! ## Calls in which a key belongs to some elements alone -/

section Clear

variable (externals : Dict Component) (key : String) (own : Element → Prop)

/-- Some elements have a key, and nothing in them has it or brings it along. -/
structure Owners : Prop where
  key_eq : ∀ {e}, own e → e.key = key
  inside : ∀ {e}, own e → Spared externals key e.inside
  inst : ∀ {e}, own e → e.isInstance → ¬ Brings externals key e.componentName

/-- A node is one of the owners, or all elements in it spare the key. -/
def ClearNode (node : Node) : Prop :=
  (∃ e, node = .element e ∧ own e) ∨ Spared externals key node.elements

/-- The elements that a scope has are owners of the key, or spare it, or they are registered under
other keys. -/
structure ClearScope (c : Context) (ds : Definitions) : Prop where
  sorted : ds.Sorted
  prop : ∀ {name d node}, Dict.get? ds.props name = some d → d.default = some (.node node) →
    ClearNode externals key own node ∨ ∃ e, node = .element e ∧ e.key ≠ key ∧ c.Registered e.key
  state : ∀ {name d node}, Dict.get? ds.states name = some d → d.default = some (.node node) →
    Spared externals key node.elements

/-- What is generated is an owner of the key or spares it. -/
def ClearTask : Task → Prop
  | .node node => ClearNode externals key own node
  | .reference _ => True
  | .element e => own e ∨ Spared externals key e.elements

/-- A call in which a key belongs to some elements alone. -/
structure Clear (call : Call) : Prop where
  scope : ClearScope externals key own call.context call.place.definitions
  task : ClearTask externals key own call.task

end Clear

section Clear

variable {env : Environment} {key : String} {own : Element → Prop} {c c' : Context}

theorem ClearScope.mono {ds : Definitions} (h : ClearScope env.externals key own c ds)
    (hextends : c.Extends c') : ClearScope env.externals key own c' ds where
  sorted := h.sorted
  prop hget hdefault := (h.prop hget hdefault).imp_right fun ⟨e, hnode, hkey, hregistered⟩ =>
    ⟨e, hnode, hkey, hextends.registered hregistered⟩
  state := h.state

/-- The elements inside an element that is generated spare the key. -/
theorem ClearTask.inside (howners : Owners env.externals key own) {e : Element}
    (h : ClearTask env.externals key own (.element e)) : Spared env.externals key e.inside := by
  rcases h with hown | hspared
  · exact howners.inside hown
  · exact fun x hx => hspared x (by rw [e.elements_eq_inside]; exact List.mem_cons_of_mem _ hx)

theorem ClearTask.inst (howners : Owners env.externals key own) {e : Element}
    (h : ClearTask env.externals key own (.element e)) (he : e.isInstance) :
    ¬ Brings env.externals key e.componentName := by
  rcases h with hown | hspared
  · exact howners.inst hown he
  · exact (hspared e e.mem_elements).inst he

theorem Spared.attribute {e x : Element} {name : String} (h : Spared env.externals key e.inside)
    (hx : Dict.get? e.attrs name = some (.element x)) : Spared env.externals key x.elements :=
  fun y hy => h y (List.mem_append_left _ (attribute_subset_of_mem (Dict.mem_of_get? hx) hy))

/-- An element of a copy spares a key that its component does not bring along. -/
theorem spares_of_copy {name : String} {external : Component}
    (hexternal : Dict.get? env.externals name = some external)
    (hbrings : ¬ Brings env.externals key name) {x x' : Element} (hwrites : external.Writes x)
    (halike : x.SameKind x') (hkey : x.CanHave x'.key) : x'.Spares env.externals key where
  key_ne heq := hbrings (.element hexternal hwrites (heq ▸ hkey))
  inst hinstance hinside := by
    rw [halike.isInstance_eq] at hinstance
    rw [halike.componentName_eq] at hinside
    exact hbrings (.inside hexternal hwrites hinstance hinside)

theorem spares_spliced {children : List Node} {x x' : Element}
    (h : x.Spares env.externals key) (hspliced : x.Spliced children x') :
    x'.Spares env.externals key := by
  cases hspliced with
  | same => exact h
  | around _ => exact ⟨h.key_ne, h.inst⟩

/-! ## Instances -/

section Instance

variable {fuel : Nat} {at' : Surroundings} {e : Element} {entry : Entry}

/-- **The scope of an instance is clear** if the scope of the caller is, and the elements among the
attributes and the defaults of the component are owners of the key or spare it. -/
theorem clearScope_instance (hexternals : SortedExternals env.externals)
    (hscope : ClearScope env.externals key own c at'.definitions)
    (hentry : enter? env fuel at' e c = some entry)
    (hattrs : ∀ name x, Dict.get? e.attrs name = some (.element x) →
      Spared env.externals key x.elements)
    (hprops : ∀ name d node, Dict.get? entry.component.props name = some d →
      d.default = some (.node node) → ClearNode env.externals key own node)
    (hstates : ∀ name d node, Dict.get? entry.component.states name = some d →
      d.default = some (.node node) → Spared env.externals key node.elements) :
    ClearScope env.externals key own entry.context entry.inside.definitions := by
  have hinside := Inside.of_enter hexternals hscope.sorted hentry
  have hextends := enter?_extends hentry
  obtain ⟨-, -, -, -, hrun, -, -⟩ := enter?_eq_some hentry
  refine ⟨hinside.sorted, fun {name d node} hget hdefault => ?_, fun {name d node} hget hdefault => ?_⟩
  · cases hinside.prop_stems hscope.sorted.props hrun hget hdefault with
    | own own => exact Or.inl (hprops name d node own hdefault)
    | outer outer _ => exact (hscope.mono hextends).prop outer hdefault
    | @given x x' value node_eq key_eq registered =>
      refine Or.inr ⟨x', node_eq, ?_, registered⟩
      rw [key_eq]
      exact (hattrs name x value x x.mem_elements).key_ne
    | passedProp _ _ get _ default => exact (hscope.mono hextends).prop get default
    | passedState _ _ get _ default => exact Or.inl (Or.inr (hscope.state get default))
  · rcases hinside.state_stems hget hdefault with hown | houter
    · exact hstates name d node hown hdefault
    · exact hscope.state houter hdefault

/-- The wrapper of an instance spares a key if the tree of the component and the children do. -/
theorem spared_wrapper {wrapper : String} {root : Node} {children : List Node}
    (hwrapper : wrapper ≠ key) (htree : Spared env.externals key root.elements)
    (hchildren : Spared env.externals key (nodesElements children)) :
    Spared env.externals key (wrapperElement wrapper (root.withChildren children)).elements := by
  intro x hx
  rw [wrapperElement_elements] at hx
  rcases List.mem_cons.1 hx with rfl | hx
  · exact ⟨hwrapper, fun h => by cases h⟩
  · rcases mem_withChildren hx with hown | ⟨y, hy, hspliced⟩
    · exact hchildren x hown
    · exact spares_spliced (htree y hy) hspliced

/-- An instance that does not bring a key along is clear of it inside. -/
theorem clear_wrapper (hexternals : SortedExternals env.externals)
    (hscope : ClearScope env.externals key own c at'.definitions)
    (hentry : enter? env fuel at' e c = some entry)
    (hinside : Spared env.externals key e.inside)
    (hbrings : ¬ Brings env.externals key e.componentName) :
    Clear env.externals key own ⟨fuel, entry.inside,
      .element (wrapperElement entry.key (entry.component.node.withChildren e.children)),
      entry.context⟩ := by
  obtain ⟨external, hexternal, hcomponent, -, -, hkey, -⟩ := enter?_eq_some hentry
  refine ⟨clearScope_instance hexternals hscope hentry (fun name x hx => hinside.attribute hx)
    (fun name d node hget hdefault => Or.inr fun x' hx' => ?_)
    (fun name d node hget hdefault x hx => ?_), Or.inr (spared_wrapper ?_ (fun x' hx' => ?_)
      fun x hx => hinside x (List.mem_append_right _ hx))⟩
  · rw [hcomponent] at hget
    obtain ⟨original, horiginal, hcopy, -, -⟩ :=
      c.copy_default external (Dict.mem_of_get? hget) hdefault
    obtain ⟨x, hx, halike, hclaim⟩ := exists_of_forall₂_right hcopy hx'
    exact spares_of_copy hexternal hbrings (Or.inl (List.mem_flatMap.2
      ⟨original, List.mem_cons_of_mem _ horiginal, hx⟩)) halike.toSameKind (Or.inr hclaim)
  · rw [hcomponent] at hget
    exact spares_of_copy hexternal hbrings (Or.inr ⟨node, mem_stateNodes.2
      ⟨_, Dict.mem_of_get? hget, hdefault⟩, hx⟩) (.refl x) (Or.inl rfl)
  · rintro rfl
    exact hbrings (.wrapper (wrapperKey?_some hkey).2)
  · rw [hcomponent] at hx'
    obtain ⟨x, hx, halike, hclaim⟩ := exists_of_forall₂_right (c.copy_tree external).1 hx'
    exact spares_of_copy hexternal hbrings
      (Or.inl (List.mem_flatMap.2 ⟨_, List.mem_cons_self, hx⟩)) halike.toSameKind (Or.inr hclaim)

end Instance

/-! ## Calls that are made -/

theorem EachReaches.mem {α β : Type} {generate : α → StateM Context (Generated α β)} {part : α}
    {there : Context} {parts : List α} (h : EachReaches generate part there parts c) :
    part ∈ parts := by
  induction h with
  | here => exact List.mem_cons_self
  | later _ _ ih => exact List.mem_cons_of_mem _ ih

/-- The elements that the props of an instance come to are those among its attributes. -/
theorem PropsReach.mem {generate : Element → StateM Context (Generated Element Nat)}
    {caller : Definitions} {x : Element} {there : Context} {attrs : Attributes}
    {props : Dict PropDefinition} (hnames : (Dict.keys props).Nodup)
    (h : PropsReach generate caller x there attrs props c) :
    ∃ name ∈ Dict.keys props, Dict.get? attrs name = some (.element x) := by
  induction h with
  | here value => exact ⟨_, List.mem_cons_self, value⟩
  | none _ _ ih | plain _ _ _ _ ih =>
    obtain ⟨name, hname, hx⟩ := ih (List.nodup_cons.1 hnames).2
    exact ⟨name, List.mem_cons_of_mem _ hname, hx⟩
  | @element attrs other own rest e e' id c c' value run reaches ih =>
    obtain ⟨hother, hnames⟩ := List.nodup_cons.1 hnames
    obtain ⟨name, hname, hx⟩ := ih hnames
    have hne : name ≠ other := fun heq => hother (heq ▸ hname)
    rw [Dict.get?_insert_of_ne _ _ hne] at hx
    exact ⟨name, List.mem_cons_of_mem _ hname, hx⟩

variable {call inner : Call}

/-- **A call that is clear** makes clear calls only. -/
theorem Makes.clear (hexternals : SortedExternals env.externals)
    (howners : Owners env.externals key own) (hmakes : Makes env call inner)
    (h : Clear env.externals key own call) : Clear env.externals key own inner := by
  have hextends := hmakes.extends
  cases hmakes with
  | content =>
    refine ⟨h.scope, ?_⟩
    rcases h.task with ⟨e, heq, hown⟩ | hspared
    · cases heq
      exact Or.inl hown
    · exact Or.inr hspared
  | reference => exact ⟨h.scope, trivial⟩
  | @body fuel at' q c shown =>
    refine ⟨h.scope, Or.inr ?_⟩
    rcases h.task with ⟨e, heq, hown⟩ | hspared
    · cases heq
    · cases q
      exact hspared
  | @default fuel at' r v node c value kind default new =>
    refine ⟨h.scope, ?_⟩
    rcases Definitions.find_ok (Definitions.value_ok value) with ⟨-, d, hd, rfl⟩ | ⟨-, d, hd, rfl⟩
    · rcases h.scope.prop hd default with hclear | ⟨e, rfl, -, hregistered⟩
      · exact hclear
      · obtain ⟨id, hid⟩ := Option.isSome_iff_exists.1 hregistered
        rw [Node.registered?, hid] at new
        cases new
    · exact Or.inr (h.scope.state hd default)
  | @child fuel at' e child c there tag reaches =>
    refine ⟨h.scope.mono hextends, Or.inr fun x hx => ?_⟩
    exact h.task.inside howners x
      (List.mem_append_right _ (elements_subset_of_mem reaches.mem hx))
  | @given fuel at' e x external states c there isInstance component accepted reaches =>
    have hcombined := sorted_combineProps h.scope.sorted.props (c.instantiate external).props
    obtain ⟨name, -, hx⟩ := reaches.mem hcombined.nodup_keys
    exact ⟨h.scope.mono hextends, Or.inr ((h.task.inside howners).attribute hx)⟩
  | wrapper isInstance entered =>
    exact clear_wrapper hexternals h.scope entered (h.task.inside howners)
      (h.task.inst howners isInstance)

theorem Leads.clear (hexternals : SortedExternals env.externals)
    (howners : Owners env.externals key own) (hleads : Leads env call inner)
    (h : Clear env.externals key own call) : Clear env.externals key own inner := by
  induction hleads with
  | refl => exact h
  | tail _ hmakes ih => exact hmakes.clear hexternals howners ih

/-- What a clear call generates for a key is generated from the owners of the key. -/
theorem Clear.yields (hexternals : SortedExternals env.externals)
    (howners : Owners env.externals key own) (h : Clear env.externals key own call) {id : Nat}
    (hyields : Yields env call key id) : ∃ fuel at' e c, own e ∧
      Leads env call ⟨fuel, at', .element e, c⟩ ∧ (generateElement env fuel at' e c).1.2 = .ok id := by
  obtain ⟨fuel, at', e, c, hleads, hkey, hok⟩ := hyields
  rcases (hleads.clear hexternals howners h).task with hown | hspared
  · exact ⟨fuel, at', e, c, hown, hleads, hok⟩
  · exact absurd hkey (hspared e e.mem_elements).key_ne

/-- **A reference that shows an owner of a key** shows what was generated from an owner, or what was
registered under the key before. -/
theorem Clear.shows_own (hexternals : SortedExternals env.externals)
    (howners : Owners env.externals key own) (h : Clear env.externals key own call) {fuel : Nat}
    {at' : Surroundings} {r : Reference} (hleads : Leads env call ⟨fuel, at', .reference r, c⟩)
    {e : Element} (hvalue : at'.definitions.value r = .ok ⟨"element", some (.node (.element e))⟩)
    (hkey : e.key = key) {piece : Piece}
    (hok : (generateReference env fuel at' r c).1 = .ok piece) :
    ∃ id, piece = .element id ∧ (Dict.get? call.context.lookup key = some id ∨
      ∃ fuel at' e c, own e ∧ Leads env call ⟨fuel, at', .element e, c⟩ ∧
        (generateElement env fuel at' e c).1.2 = .ok id) := by
  cases fuel with
  | zero => cases hok
  | succ fuel =>
    rw [generateReference_of_element hvalue rfl rfl] at hok
    rcases hregistered : (Node.element e).registered? c with _ | id
    · rw [hregistered] at hok
      cases fuel with
      | zero => cases hok
      | succ fuel =>
        rw [generateNode_element] at hok
        obtain ⟨id, hid, rfl⟩ := exists_of_map_eq_ok hok
        have hcall : Leads env call ⟨fuel, at', .element e, c⟩ :=
          (hleads.tail (.default hvalue rfl rfl hregistered)).tail .content
        have hown : own e := (hcall.clear hexternals howners h).task.resolve_right fun hspared =>
          (hspared e e.mem_elements).key_ne hkey
        exact ⟨id, rfl, Or.inr ⟨fuel, at', e, c, hown, hcall, hid⟩⟩
    · rw [hregistered] at hok
      cases hok
      have hid : Dict.get? c.lookup key = some id := by rw [← hkey]; exact hregistered
      exact ⟨id, rfl, (hleads.stems hid).imp_right (h.yields hexternals howners)⟩

end Clear

/-! ## Defaults with distinct keys -/

section Distinct

variable {env : Environment} {component : Component} {e : Element}

/-- Where all keys of a component differ, nothing but the default of a prop itself has its key. -/
theorem keys_of_default (hkeys : (component.elements.map (·.key)).Nodup)
    (hdefault : .element e ∈ defaultNodes component.props) :
    (∀ x ∈ e.inside, x.key ≠ e.key) ∧ (∀ x ∈ component.node.elements, x.key ≠ e.key) ∧
      ∀ node ∈ defaultNodes component.props, node ≠ .element e → ∀ x ∈ node.elements,
        x.key ≠ e.key := by
  let keys (node : Node) : List String := node.elements.map (·.key)
  have hkeys' : ((component.node :: defaultNodes component.props).flatMap keys).Nodup := by
    rw [Component.elements, Component.trees, List.map_flatMap] at hkeys
    exact hkeys
  have hmem : e.key ∈ keys (.element e) := List.mem_map_of_mem e.mem_elements
  obtain ⟨heach, hdisjoint⟩ := List.nodup_flatMap.1 hkeys'
  obtain ⟨htree, hdefaults⟩ := List.pairwise_cons.1 hdisjoint
  refine ⟨fun x hx heq => ?_, fun x hx heq => ?_, fun node hnode hne x hx heq => ?_⟩
  · have hown : (e.elements.map (·.key)).Nodup := heach _ (List.mem_cons_of_mem _ hdefault)
    rw [e.elements_eq_inside, List.map_cons, List.nodup_cons] at hown
    exact hown.1 (heq ▸ List.mem_map_of_mem hx)
  · exact htree _ hdefault (heq ▸ List.mem_map_of_mem hx) hmem
  · have : Std.Symm (Function.onFun List.Disjoint keys) := ⟨fun _ _ h => h.symm⟩
    exact hdefaults.forall hnode hdefault hne (heq ▸ List.mem_map_of_mem hx) hmem

/-- The default of a prop has its key to itself if the keys of the component differ and no instance
in the component brings the key along. -/
theorem clear_of_default (hkeys : (component.elements.map (·.key)).Nodup)
    (hdefault : .element e ∈ defaultNodes component.props)
    (hspared : ∀ x ∈ component.elements, x.isInstance →
      ¬ Brings env.externals e.key x.componentName) :
    Owners env.externals e.key (· = e) ∧ Spared env.externals e.key component.node.elements ∧
      ∀ node ∈ defaultNodes component.props, ClearNode env.externals e.key (· = e) node := by
  obtain ⟨hinside, htree, hothers⟩ := keys_of_default hkeys hdefault
  have hmem : ∀ node ∈ component.node :: defaultNodes component.props, ∀ x ∈ node.elements,
      x ∈ component.elements := fun node hnode x hx => List.mem_flatMap.2 ⟨node, hnode, hx⟩
  have hown : ∀ x ∈ e.elements, x ∈ component.elements :=
    hmem (.element e) (List.mem_cons_of_mem _ hdefault)
  refine ⟨⟨?_, ?_, ?_⟩, fun x hx => ⟨htree x hx, hspared x (hmem _ List.mem_cons_self x hx)⟩,
    fun node hnode => ?_⟩
  · rintro _ rfl
    rfl
  · rintro _ rfl x hx
    refine ⟨hinside x hx, hspared x (hown x ?_)⟩
    rw [Element.elements_eq_inside]
    exact List.mem_cons_of_mem _ hx
  · rintro _ rfl
    exact hspared _ (hown _ (Element.mem_elements _))
  · by_cases heq : node = .element e
    · exact Or.inl ⟨e, heq, rfl⟩
    · exact Or.inr fun x hx => ⟨hothers node hnode heq x hx,
        hspared x (hmem node (List.mem_cons_of_mem _ hnode) x hx)⟩

end Distinct

/-! ## Where elements come from -/

/-- An element stands for a prop in the scope of a call, and nothing that the call leads to can take
its key: it is a default of the page, a default of a component in one of its instances, or what an
element among the attributes of an instance has become. It comes from the generation of `source`,
which `origin` leads to. -/
inductive Supplies (env : Environment) (page : Component) (e : Element) :
    (source : Element) → (origin call : Call) → Prop
  | page {fuel : Nat} {hierarchy : List String} {c : Context} {name : String} {d : PropDefinition}
      (sorted : Definitions.Sorted ⟨page.props, page.states⟩)
      (keys : (page.elements.map (·.key)).Nodup) (prop : Dict.get? page.props name = some d)
      (default : d.default = some (.node (.element e)))
      (spared : ∀ x, page.Writes x → x.isInstance → ¬ Brings env.externals e.key x.componentName)
      (states : ∀ node ∈ stateNodes page.states, ∀ x ∈ node.elements, x.key ≠ e.key)
      (new : ¬ c.Registered e.key) :
      Supplies env page e e
        ⟨fuel, ⟨⟨page.props, page.states⟩, hierarchy⟩, .node page.node, c⟩
        ⟨fuel, ⟨⟨page.props, page.states⟩, hierarchy⟩, .node page.node, c⟩
  | component {fuel : Nat} {at' : Surroundings} {inst : Element} {external : Component}
      {entry : Entry} {c : Context} {name : String} {d : PropDefinition}
      (found : Dict.get? env.externals inst.componentName = some external)
      (entered : enter? env fuel at' inst c = some entry)
      (prop : Dict.get? entry.component.props name = some d)
      (default : d.default = some (.node (.element e)))
      (wrapper : ¬ WrapperKey inst.componentName e.key)
      (spared : ∀ x, external.Writes x → x.isInstance →
        ¬ Brings env.externals e.key x.componentName)
      (states : ∀ node ∈ stateNodes external.states, ∀ x ∈ node.elements, x.key ≠ e.key)
      (around : Spared env.externals e.key inst.inside)
      (caller : ClearScope env.externals e.key (fun _ => False) c at'.definitions) :
      Supplies env page e e
        ⟨fuel, entry.inside,
          .element (wrapperElement entry.key (entry.component.node.withChildren inst.children)),
          entry.context⟩
        ⟨fuel, entry.inside,
          .element (wrapperElement entry.key (entry.component.node.withChildren inst.children)),
          entry.context⟩
  | given {fuel : Nat} {at' : Surroundings} {inst x : Element} {entry : Entry} {c : Context}
      {name : String} {d : PropDefinition} (isInstance : inst.isInstance = true)
      (entered : enter? env fuel at' inst c = some entry) (sorted : at'.definitions.props.Sorted)
      (value : Dict.get? inst.attrs name = some (.element x))
      (prop : Dict.get? entry.inside.definitions.props name = some d)
      (default : d.default = some (.node (.element e))) :
      Supplies env page e x ⟨fuel + 2, at', .element inst, c⟩
        ⟨fuel, entry.inside,
          .element (wrapperElement entry.key (entry.component.node.withChildren inst.children)),
          entry.context⟩

section Supplies

variable {env : Environment} {page : Component} {e source : Element} {origin call : Call}

/-- The default of a page has its key to itself. -/
theorem clear_page (hsorted : Definitions.Sorted ⟨page.props, page.states⟩)
    (hkeys : (page.elements.map (·.key)).Nodup)
    (hdefault : .element e ∈ defaultNodes page.props)
    (hspared : ∀ x, page.Writes x → x.isInstance → ¬ Brings env.externals e.key x.componentName)
    (hstates : ∀ node ∈ stateNodes page.states, ∀ x ∈ node.elements, x.key ≠ e.key) (fuel : Nat)
    (hierarchy : List String) (c : Context) :
    Owners env.externals e.key (· = e) ∧ Clear env.externals e.key (· = e)
      ⟨fuel, ⟨⟨page.props, page.states⟩, hierarchy⟩, .node page.node, c⟩ := by
  obtain ⟨howners, htree, hdefaults⟩ :=
    clear_of_default hkeys hdefault fun x hx => hspared x (Or.inl hx)
  refine ⟨howners, ⟨hsorted, fun hget hnode => Or.inl (hdefaults _ (mem_defaultNodes.2
    ⟨_, Dict.mem_of_get? hget, hnode⟩)), fun hget hnode x hx => ?_⟩, Or.inr htree⟩
  have hmem := mem_stateNodes.2 ⟨_, Dict.mem_of_get? hget, hnode⟩
  exact ⟨hstates _ hmem x hx, hspared x (Or.inr ⟨_, hmem, hx⟩)⟩

/-- The elements of a copy bring along what those of its component do. -/
theorem exists_writes_of_copy {c : Context} {external : Component} {x' : Element}
    (hx' : x' ∈ (c.instantiate external).elements) :
    ∃ x, external.Writes x ∧ x.SameKind x' := by
  obtain ⟨x, hx, halike, -⟩ :=
    exists_of_forall₂_right (external.assignKeys_claimed _).forall₂ hx'
  exact ⟨x, Or.inl hx, halike.toSameKind⟩

/-- The default of a component has its key to itself in an instance, if nothing around the instance
has it. -/
theorem clear_component (hexternals : SortedExternals env.externals) {fuel : Nat}
    {at' : Surroundings} {inst : Element} {external : Component} {entry : Entry} {c : Context}
    (hexternal : Dict.get? env.externals inst.componentName = some external)
    (hentry : enter? env fuel at' inst c = some entry)
    (hdefault : .element e ∈ defaultNodes entry.component.props)
    (hwrapper : ¬ WrapperKey inst.componentName e.key)
    (hspared : ∀ x, external.Writes x → x.isInstance →
      ¬ Brings env.externals e.key x.componentName)
    (hstates : ∀ node ∈ stateNodes external.states, ∀ x ∈ node.elements, x.key ≠ e.key)
    (haround : Spared env.externals e.key inst.inside)
    (hcaller : ClearScope env.externals e.key (fun _ => False) c at'.definitions) :
    Owners env.externals e.key (· = e) ∧ ¬ entry.context.Registered e.key ∧
      Clear env.externals e.key (· = e) ⟨fuel, entry.inside,
        .element (wrapperElement entry.key (entry.component.node.withChildren inst.children)),
        entry.context⟩ := by
  obtain ⟨external', hexternal', hcomponent, -, hrun, hkey, -⟩ := enter?_eq_some hentry
  obtain rfl := Option.some.inj (hexternal.symm.trans hexternal')
  have hkeys : (entry.component.elements.map (·.key)).Nodup := by
    rw [hcomponent]
    exact (external.assignKeys_claimed _).nodup_keys
  obtain ⟨howners, htree, hdefaults⟩ := clear_of_default hkeys hdefault fun x' hx' hinstance => by
    rw [hcomponent] at hx'
    obtain ⟨x, hwrites, hkind⟩ := exists_writes_of_copy hx'
    rw [hkind.componentName_eq]
    exact hspared x hwrites (hkind.isInstance_eq.symm.trans hinstance)
  refine ⟨howners, fun hregistered => ?_, clearScope_instance hexternals ?_ hentry
    (fun name x hx => haround.attribute hx) (fun name d node hget hnode => hdefaults _
      (mem_defaultNodes.2 ⟨_, Dict.mem_of_get? hget, hnode⟩)) (fun name d node hget hnode x hx => ?_),
    Or.inr (spared_wrapper ?_ htree fun x hx => haround x (List.mem_append_right _ hx))⟩
  · obtain ⟨id, hid⟩ := Option.isSome_iff_exists.1 hregistered
    have hcontext := congrArg (fun r => Dict.get? r.2.lookup e.key) hrun
    rcases generateProps_stems (hcontext.trans hid) with
      hbefore | ⟨x, there, hreaches, hyields⟩
    · -- the key of the copy was not used when it was made
      obtain ⟨member, hmember, hnode⟩ := mem_defaultNodes.1 hdefault
      rw [hcomponent] at hmember
      obtain ⟨-, -, -, -, hnew⟩ := c.copy_default external hmember hnode
      exact (hnew e e.mem_elements).1 (Or.inl (Option.isSome_iff_exists.2 ⟨id, hbefore⟩))
    · -- the elements among the attributes are generated in between, but they spare the key
      have hcombined := sorted_combineProps hcaller.sorted.props entry.component.props
      obtain ⟨name, -, hx⟩ := hreaches.mem hcombined.nodup_keys
      have hextends := (Context.Extends.reserve c entry.component.node.keys).trans hreaches.extends
      have hclear : Clear env.externals e.key (fun _ => False) ⟨fuel, at', .element x, there⟩ :=
        ⟨hcaller.mono hextends, Or.inr (haround.attribute hx)⟩
      obtain ⟨-, -, -, -, hfalse, -⟩ := hclear.yields hexternals ⟨nofun, nofun, nofun⟩ hyields
      exact hfalse
  · exact ⟨hcaller.sorted, fun hget hnode => (hcaller.prop hget hnode).imp_left fun hclear =>
      Or.inr (hclear.resolve_left fun ⟨_, _, hfalse⟩ => hfalse), hcaller.state⟩
  · rw [hcomponent] at hget
    have hmem := mem_stateNodes.2 ⟨_, Dict.mem_of_get? hget, hnode⟩
    exact ⟨hstates _ hmem x hx, hspared x (Or.inr ⟨_, hmem, hx⟩)⟩
  · rintro heq
    exact hwrapper (heq ▸ (wrapperKey?_some hkey).2)

/-- **A reference to a prop that stands for an element** shows what was generated from that element,
or from the element among the attributes that it has come from: in a page, in an instance of a
component, and where an element is given to an instance, unless something takes the key of the
default. -/
theorem reference_shows (hexternals : SortedExternals env.externals)
    (h : Supplies env page e source origin call) {fuel : Nat} {at' : Surroundings} {r : Reference}
    {c : Context} (hleads : Leads env call ⟨fuel, at', .reference r, c⟩)
    (hvalue : at'.definitions.value r = .ok ⟨"element", some (.node (.element e))⟩) {piece : Piece}
    (hok : (generateReference env fuel at' r c).1 = .ok piece) :
    ∃ id, piece = .element id ∧ ∃ fuel at' c, Leads env origin ⟨fuel, at', .element source, c⟩ ∧
      (generateElement env fuel at' source c).1.2 = .ok id := by
  have hshows : ∀ {call : Call}, Owners env.externals e.key (· = e) →
      Clear env.externals e.key (· = e) call → ¬ call.context.Registered e.key →
      Leads env call ⟨fuel, at', .reference r, c⟩ → ∃ id, piece = .element id ∧
        ∃ fuel at' c, Leads env call ⟨fuel, at', .element e, c⟩ ∧
          (generateElement env fuel at' e c).1.2 = .ok id := by
    intro call howners hclear hnew hleads
    obtain ⟨id, rfl, hid | ⟨fuel, at', _, c, rfl, hgenerated⟩⟩ :=
      hclear.shows_own hexternals howners hleads hvalue rfl hok
    · exact absurd (Option.isSome_iff_exists.2 ⟨id, hid⟩) hnew
    · exact ⟨id, rfl, fuel, at', c, hgenerated⟩
  cases h with
  | page sorted keys prop default spared states new =>
    have hmem := mem_defaultNodes.2 ⟨_, Dict.mem_of_get? prop, default⟩
    obtain ⟨howners, hclear⟩ := clear_page sorted keys hmem spared states _ _ _
    exact hshows howners hclear new hleads
  | component found entered prop default wrapper spared states around caller =>
    have hmem := mem_defaultNodes.2 ⟨_, Dict.mem_of_get? prop, default⟩
    obtain ⟨howners, hnew, hclear⟩ := clear_component hexternals found entered hmem wrapper spared
      states around caller
    exact hshows howners hclear hnew hleads
  | @given fuel' outer inst x entry c' name d isInstance entered sorted value prop default =>
    obtain ⟨external, hexternal, hcomponent, hstates, hrun, -, -⟩ := enter?_eq_some entered
    rw [hcomponent] at hstates hrun
    have hcombined := sorted_combineProps sorted (c'.instantiate external).props
    obtain ⟨x', id, there, there', hreaches, hx, -, hdefault, hid⟩ := generateProps_registers
      ((generate_extends env fuel').element outer) (generate_registers env fuel' outer)
      hcombined.nodup_keys hrun (Dict.mem_of_get? prop) value
    rw [default] at hdefault
    cases hdefault
    -- the element is registered before the wrapper is generated, and it stays registered
    have hregistered : (Node.element e).registered? c = some id := hleads.extends.lookup hid
    cases fuel with
    | zero => cases hok
    | succ fuel =>
      rw [generateReference_of_element hvalue rfl rfl, hregistered] at hok
      cases hok
      exact ⟨id, rfl, fuel', outer, there, .single (.given isInstance hexternal hstates hreaches),
        congrArg (·.1.2) hx⟩

end Supplies

/-! ## A star and a card -/

/-- A star, the default of a prop. -/
def star : Element where
  key := "icon"
  elementType := "span"
  children := [.constant (.text "star")]

/-- An instance of a card that is given nothing. -/
def emptyCard : Element := cardAround []

/-- A page with a card and its star. -/
def starPage : Component where
  name := "Page"
  node := .element {
    key := "container"
    elementType := "div"
    children := [.element emptyCard, .dynamic (.toProp "icon")] }
  props := [("icon", { kind := "element", default := some (.node (.element star)) })]

/-- The scope of `starPage`. -/
def starScope : Definitions := ⟨starPage.props, starPage.states⟩

/-- A card with a key for its only element. -/
def keyedCard (key : String) : Component where
  name := "Card"
  node := .element { key, elementType := "div", children := [.constant (.text "card")] }

/-- The element of a card has taken the key of the star, and it is shown once more in the place of
the star. -/
theorem starPage_confused :
    (starPage.elements.map (·.key)).Nodup ∧
      shown [("Card", keyedCard "icon")] starScope starPage.node
        = some ("<div><card-wrapper class=\"card-wrapper\"><!-- component--><div>card</div>"
          ++ "</card-wrapper><div>card</div></div>") ∧
      shown [("Card", keyedCard "icon")] starScope (.dynamic (.toProp "icon"))
        = some "<span>star</span>" := by
  decide +kernel

/-- Pages that can have a card whose key is out of the way. -/
def starEnvironment : Environment := pageEnvironment [("Card", keyedCard "paragraph")]

/-- Where `starPage` is generated. -/
def starPlace : Surroundings := ⟨starScope, []⟩

theorem Claimable.length_le {base key : String} (h : Claimable base key) :
    base.length ≤ key.length := by
  rcases h with rfl | ⟨n, rfl⟩
  · exact le_rfl
  · rw [numbered, String.append_assoc, String.length_append]
    exact Nat.le_add_right _ _

theorem WrapperKey.length_le {name key : String} (h : WrapperKey name key) :
    (dashCase (name ++ "-wrapper")).length ≤ key.length := by
  rcases h with rfl | ⟨seed, rfl⟩
  · exact le_rfl
  · rw [String.append_assoc, String.length_append]
    exact Nat.le_add_right _ _

theorem keyedCard_not_brings :
    ¬ Brings starEnvironment.externals "icon" "Card" := by
  intro h
  cases h with
  | wrapper wrapperKey => exact absurd wrapperKey.length_le (by decide +kernel)
  | element external writes canHave =>
    cases external
    rcases writes with hmem | ⟨node, hnode, -⟩
    · cases List.mem_singleton.1 hmem
      rcases canHave with heq | hclaim
      · exact absurd heq (by decide)
      · exact absurd hclaim.length_le (by decide +kernel)
    · cases hnode
  | inside external writes isInstance =>
    cases external
    rcases writes with hmem | ⟨node, hnode, -⟩
    · cases List.mem_singleton.1 hmem
      cases isInstance
    · cases hnode

/-- The generation of the page. -/
def starCall : Call := ⟨12, starPlace, .node starPage.node, {}⟩

theorem starCall_supplies : Supplies starEnvironment starPage star star starCall starCall := by
  have hicon : Dict.get? starPage.props "icon"
      = some { kind := "element", default := some (.node (.element star)) } := rfl
  refine .page ⟨by decide, by decide⟩ (by decide) hicon rfl (fun x hx hinstance => ?_) nofun nofun
  rcases hx with hmem | ⟨node, hnode, -⟩
  · have helements : starPage.elements = [_, emptyCard, star] := rfl
    simp only [helements, List.mem_cons, List.not_mem_nil, or_false] at hmem
    rcases hmem with rfl | rfl | rfl
    · cases hinstance
    · exact keyedCard_not_brings
    · cases hinstance
  · cases hnode

/-- What is there when the card has been generated. -/
def cardDone : Context := (generateNode starEnvironment 10 starPlace (.element emptyCard) {}).2

theorem star_reached :
    Leads starEnvironment starCall ⟨9, starPlace, .reference (.toProp "icon"), cardDone⟩ := by
  obtain ⟨result, hresult⟩ := exists_of_isOk (by decide +kernel :
    (generateNode starEnvironment 10 starPlace (.element emptyCard) {}).1.2.isOk)
  have hcard : generateNode starEnvironment 10 starPlace (.element emptyCard) {}
      = ((_, .ok result), cardDone) := Prod.ext (Prod.ext rfl hresult) rfl
  exact ((Relation.ReflTransGen.single .content).tail (.child rfl (.later hcard .here))).tail
    .reference

theorem starPage_shows :
    SortedExternals starEnvironment.externals ∧
      Supplies starEnvironment starPage star star starCall starCall ∧
      Leads starEnvironment starCall ⟨9, starPlace, .reference (.toProp "icon"), cardDone⟩ ∧
      starScope.value (.toProp "icon") = .ok ⟨"element", some (.node (.element star))⟩ ∧
      ∃ piece, (generateReference starEnvironment 9 starPlace (.toProp "icon") cardDone).1
          = .ok piece ∧
        ∃ id, piece = .element id ∧ ∃ fuel at' c,
          Leads starEnvironment starCall ⟨fuel, at', .element star, c⟩ ∧
          (generateElement starEnvironment fuel at' star c).1.2 = .ok id := by
  have hexternals : SortedExternals starEnvironment.externals := by
    intro name c hc
    cases List.mem_singleton.1 (Dict.mem_of_get? hc)
    exact ⟨by decide, by decide⟩
  obtain ⟨piece, hpiece⟩ := exists_of_isOk (by decide +kernel :
    (generateReference starEnvironment 9 starPlace (.toProp "icon") cardDone).1.isOk)
  exact ⟨hexternals, starCall_supplies, star_reached, rfl, piece, hpiece,
    reference_shows hexternals starCall_supplies star_reached rfl hpiece⟩

end PageCompiler
