import PageCompiler.Proofs.Page.Copy
import PageCompiler.Proofs.Page.Definitions
import PageCompiler.Proofs.Page.Growth

/-!
# What an instance is made of

An instance is generated from the copy of its component, with the children of the instance in the
slot, in a scope that is put together from the scope of the caller, the definitions of the
component and the attributes of the instance. Here are the conditions under which that goes well,
and why the parts of an instance meet them when the instance does.

* `Placed`: the elements stand where `Receives` says that they can stand.
* `Covers`: the keys that instances of some components can bring along.
* `FineDefault`: a default that can be generated where a reference stands.
* `placed_root`, `instanceNames_root`: the tree of an instance with its children.
* `fineDefault_copy`: the defaults of a copy.
-/

namespace PageCompiler

/-! ## Filled trees -/

section Root

variable {own : List Node} {e : Element} {node : Node}

theorem instanceNames_filled {es es' : List Element} (h : Filled own es es') {name : String}
    (hname : name ∈ instanceNames es') :
    name ∈ instanceNames (nodesElements own) ∨ name ∈ instanceNames es := by
  obtain ⟨x, hx, hinstance, rfl⟩ := mem_instanceNames.1 hname
  rcases h.mem hx with hown | ⟨y, hy, hspliced⟩
  · exact Or.inl (mem_instanceNames.2 ⟨x, hown, hinstance, rfl⟩)
  · refine Or.inr (mem_instanceNames.2 ⟨y, hy, ?_⟩)
    cases hspliced <;> exact ⟨hinstance, rfl⟩

theorem keys_withChildren (node : Node) (children : List Node) :
    (node.withChildren children).keys.Subperm
      (node.keys ++ (nodesElements children).map (·.key)) := by
  unfold Node.withChildren
  split
  · exact (List.sublist_append_left _ _).subperm
  · rcases hfill : node.fillSlot children with _ | filled
    · exact (List.sublist_append_left _ _).subperm
    · exact (Node.filled hfill).keys_subperm

theorem mem_withChildren {node : Node} {children : List Node} {x : Element}
    (hx : x ∈ (node.withChildren children).elements) :
    x ∈ nodesElements children ∨ ∃ y ∈ node.elements, y.Spliced children x := by
  unfold Node.withChildren at hx
  split at hx
  · exact Or.inr ⟨x, hx, .same x⟩
  · rcases hfill : node.fillSlot children with _ | filled
    · rw [hfill] at hx
      exact Or.inr ⟨x, hx, .same x⟩
    · rw [hfill] at hx
      exact (Node.filled hfill).mem hx

end Root

section Page

variable (externals : Dict Component) (page : Component)

/-- Every instance among some elements has children that it can be given. -/
def Placed (es : List Element) : Prop :=
  ∀ e ∈ es, e.isInstance → ∀ name ∈ instanceNames (nodesElements e.children),
    Receives externals page e.componentName name

/-- The keys that instances of some components can bring along are fresh or loose. -/
structure Covers (fresh : String → Prop) (names : List String) : Prop where
  element : ∀ {key}, TreeKey externals key ∨ DefaultKey externals page key → fresh key
  wrapper : ∀ {outer}, outer ∈ names → ∀ {name},
    Relation.ReflTransGen (Within externals page) outer name → ∀ {key}, WrapperKey name key →
      fresh key ∨ LooseKey externals page key

/-- A default that can be generated where a reference stands: it is registered, or a single
element that takes no key from another one, or all its keys are loose. -/
inductive FineDefault (c : Context) : Node → Prop
  | registered {e : Element} (h : c.Registered e.key) : FineDefault c (.element e)
  | leaf {e : Element} (leaf : (Node.element e).IsLeaf)
      (key : LooseKey externals page e.key ∨
        DefaultKey externals page e.key ∧ ¬ c.Reserved e.key) : FineDefault c (.element e)
  | loose {node : Node} (keys : ∀ e ∈ node.elements, LooseKey externals page e.key)
      (placed : Placed externals page node.elements)
      (wrappers : ∀ outer ∈ instanceNames node.elements, ∀ name,
        Relation.ReflTransGen (Within externals page) outer name → ∀ key, WrapperKey name key →
          LooseKey externals page key) : FineDefault c node

/-- A default that is a plain value, or a node that can be generated. -/
def FineValue (c : Context) (default : Option Default) : Prop :=
  ∀ node, default = some (.node node) → FineDefault externals page c node

/-- A scope in which every reference can be generated. -/
structure FineScope (c : Context) (ds : Definitions) : Prop where
  props : ∀ entry ∈ ds.props, FineValue externals page c entry.2.default
  states : ∀ entry ∈ ds.states, FineValue externals page c entry.2.default
  sorted : ds.props.Sorted

variable {externals page} {fresh : String → Prop} {es fs : List Element} {keys : List String}
  {c c' : Context}

/-! ## Parts of a whole -/

theorem Placed.subset (h : Placed externals page es) (hsub : fs ⊆ es) : Placed externals page fs :=
  fun e he => h e (hsub he)

theorem Covers.subset {names names' : List String} (h : Covers externals page fresh names)
    (hsub : names' ⊆ names) : Covers externals page fresh names' where
  element := h.element
  wrapper houter := h.wrapper (hsub houter)

theorem FineDefault.mono {node : Node} (h : FineDefault externals page c node)
    (hgrows : Grows (LooseKey externals page) (TreeKey externals) fresh keys c c') :
    FineDefault externals page c' node := by
  cases h with
  | registered h => exact .registered (hgrows.registered h)
  | @leaf e hleaf hkey =>
    refine .leaf hleaf ?_
    rcases hkey with hloose | ⟨hdefault, hfree⟩
    · exact Or.inl hloose
    · by_cases hreserved : c'.Reserved e.key
      · rcases hgrows.of_reserved hreserved with hold | htree
        · exact absurd hold hfree
        · exact Or.inl (.default hdefault htree)
      · exact Or.inr ⟨hdefault, hreserved⟩
  | loose hkeys hplaced hwrappers => exact .loose hkeys hplaced hwrappers

theorem FineValue.mono {default : Option Default} (h : FineValue externals page c default)
    (hgrows : Grows (LooseKey externals page) (TreeKey externals) fresh keys c c') :
    FineValue externals page c' default :=
  fun node hnode => (h node hnode).mono hgrows

theorem FineScope.mono {ds : Definitions} (h : FineScope externals page c ds)
    (hgrows : Grows (LooseKey externals page) (TreeKey externals) fresh keys c c') :
    FineScope externals page c' ds where
  props entry hentry := (h.props entry hentry).mono hgrows
  states entry hentry := (h.states entry hentry).mono hgrows
  sorted := h.sorted

/-! ## The tree of an instance -/

section Instance

variable {name : String} {external : Component} {e : Element}

/-- A name among the children of an element of the copy of a tree is received. -/
theorem receives_copy (hexternal : Dict.get? externals name = some external) {x : Element}
    (hx : x ∈ (c.instantiate external).node.elements) (hinstance : x.isInstance) {inner : String}
    (hinner : inner ∈ instanceNames (nodesElements x.children)) :
    Receives externals page x.componentName inner := by
  obtain ⟨y, hy, halike, -⟩ := exists_of_forall₂_right (c.copy_tree external).1 hx
  rw [instanceNames_eq halike.inside] at hinner
  rw [halike.componentName_eq]
  rw [halike.isInstance_eq] at hinstance
  exact .written ⟨external, Or.inr ⟨name, hexternal⟩,
    Or.inl (List.mem_flatMap.2 ⟨_, List.mem_cons_self, hy⟩)⟩ hinstance hinner

/-- **The tree of an instance, with its children,** has its instances where they can stand. -/
theorem placed_root (hexternal : Dict.get? externals e.componentName = some external)
    (hinstance : e.isInstance) (hplaced : Placed externals page e.elements) :
    Placed externals page
      ((c.instantiate external).node.withChildren e.children).elements := by
  intro x hx hx' inner hinner
  rcases mem_withChildren hx with hown | ⟨y, hy, hspliced⟩
  · exact hplaced x (e.children_subset hown) hx' inner hinner
  cases hspliced with
  | same => exact receives_copy hexternal hy hx' hinner
  | around hfill =>
    rcases instanceNames_filled (nodesFilled hfill) hinner with hown | hinner
    · -- the children went through `e` into an instance in the tree of its component
      have hreceived := hplaced e e.mem_elements hinstance inner hown
      obtain ⟨z, hz, halike, -⟩ := exists_of_forall₂_right (c.copy_tree external).1 hy
      have hslot : (nodesFillSlot e.children z.children).isSome := by
        rw [← halike.slot, hfill]
        rfl
      have hhanded : Receives externals page z.componentName inner :=
        .handed hexternal hz (halike.isInstance_eq.symm.trans hx') hslot hreceived
      rwa [← halike.componentName_eq] at hhanded
    · exact receives_copy hexternal hy hx' hinner

/-- The instances in the tree of an instance can stand inside its wrapper. -/
theorem within_root (hexternal : Dict.get? externals e.componentName = some external)
    (hinstance : e.isInstance) (hplaced : Placed externals page e.elements) {inner : String}
    (hinner : inner ∈ instanceNames
      ((c.instantiate external).node.withChildren e.children).elements) :
    Within externals page e.componentName inner := by
  obtain ⟨x, hx, hx', rfl⟩ := mem_instanceNames.1 hinner
  rcases mem_withChildren hx with hown | ⟨y, hy, hspliced⟩
  · exact Or.inr (hplaced e e.mem_elements hinstance _ (mem_instanceNames.2 ⟨x, hown, hx', rfl⟩))
  · have hcopy : x.componentName ∈ instanceNames (c.instantiate external).node.elements := by
      refine mem_instanceNames.2 ⟨y, hy, ?_⟩
      cases hspliced <;> exact ⟨hx', rfl⟩
    rw [instanceNames_eq ((c.copy_tree external).1.imp fun _ _ h => h.1.toSameKind)] at hcopy
    exact Or.inl ⟨external, hexternal, hcopy⟩

/-- The keys of a copy are keys of a tree. -/
theorem treeKey_copy (hexternal : Dict.get? externals name = some external) {key : String}
    (hkey : key ∈ (c.instantiate external).node.keys) : TreeKey externals key := by
  obtain ⟨x, hx, rfl⟩ := List.mem_map.1 hkey
  obtain ⟨y, hy, -, hclaim⟩ := exists_of_forall₂_right (c.copy_tree external).1 hx
  exact ⟨name, external, hexternal, y, hy, hclaim⟩

/-! ## The scope of an instance -/

theorem fineDefault_of_looseDefault {node node' : Node} (hloose : LooseDefault externals page node)
    (hwritten : ∀ x ∈ node.elements, Written externals page x)
    (hcopy : List.Forall₂ (fun x x' => x.Alike x' ∧ x.CanHave x'.key) node.elements node'.elements) :
    FineDefault externals page c node' := by
  refine .loose (fun x' hx' => ?_) (fun x' hx' hinstance inner hinner => ?_)
    fun outer houter inner hwithin key hkey => ?_
  · obtain ⟨x, hx, -, hkey⟩ := exists_of_forall₂_right hcopy hx'
    exact .inDefault hloose hx hkey
  · obtain ⟨x, hx, halike, -⟩ := exists_of_forall₂_right hcopy hx'
    rw [instanceNames_eq halike.inside] at hinner
    rw [halike.isInstance_eq] at hinstance
    rw [halike.componentName_eq]
    exact .written (hwritten x hx) hinstance hinner
  · rw [instanceNames_eq (hcopy.imp fun _ _ h => h.1.toSameKind)] at houter
    exact .wrapperInDefault hloose houter hwithin hkey

/-- The default of a state can be generated: its keys are loose. -/
theorem fineDefault_state {owner : Component} (howner : TakesPart externals page owner)
    {node : Node} (hnode : node ∈ stateNodes owner.states) : FineDefault externals page c node := by
  refine fineDefault_of_looseDefault ⟨owner, howner, Or.inl hnode⟩
    (fun x hx => ⟨owner, howner, Or.inr ⟨node, hnode, hx⟩⟩) ?_
  exact List.forall₂_same.2 fun x _ => ⟨.refl x, Or.inl rfl⟩

/-- The default of a prop of the page can be generated. -/
theorem fineDefault_page {node : Node} (hnode : node ∈ defaultNodes page.props)
    (hfree : ∀ x ∈ node.elements, ¬ c.Reserved x.key) : FineDefault externals page c node := by
  by_cases hleaf : node.IsLeaf
  · obtain ⟨x, rfl, -⟩ := id hleaf
    exact .leaf hleaf (Or.inr
      ⟨⟨page, Or.inl rfl, _, hnode, x, x.mem_elements, Or.inl rfl⟩, hfree x x.mem_elements⟩)
  · refine fineDefault_of_looseDefault ⟨page, Or.inl rfl, Or.inr ⟨hnode, hleaf⟩⟩
      (fun x hx => ⟨page, Or.inl rfl, Or.inl (List.mem_flatMap.2
        ⟨node, List.mem_cons_of_mem _ hnode, hx⟩)⟩) ?_
    exact List.forall₂_same.2 fun x _ => ⟨.refl x, Or.inl rfl⟩

/-- The default of a prop of a copy can be generated once the keys of its tree are reserved. -/
theorem fineDefault_copy (hexternal : Dict.get? externals name = some external)
    {entry : String × PropDefinition} (hentry : entry ∈ (c.instantiate external).props) :
    FineValue externals page (c.reserve (c.instantiate external).node.keys) entry.2.default := by
  intro node hnode
  obtain ⟨original, horiginal, hcopy, hleaf, hnew⟩ := c.copy_default external hentry hnode
  have htakes : TakesPart externals page external := Or.inr ⟨name, hexternal⟩
  by_cases hleaf' : original.IsLeaf
  · obtain ⟨x, rfl, -⟩ := id (hleaf hleaf')
    obtain ⟨y, hy, -, hclaim⟩ := exists_of_forall₂_right hcopy x.mem_elements
    refine .leaf (hleaf hleaf') (Or.inr
      ⟨⟨external, htakes, original, horiginal, y, hy, Or.inr hclaim⟩, ?_⟩)
    rw [Context.reserved_reserve]
    rintro (htree | hreserved)
    · exact (hnew x x.mem_elements).2 htree
    · exact (hnew x x.mem_elements).1 (Or.inr hreserved)
  · exact fineDefault_of_looseDefault ⟨external, htakes, Or.inr ⟨horiginal, hleaf'⟩⟩
      (fun x hx => ⟨external, htakes, Or.inl (List.mem_flatMap.2
        ⟨original, List.mem_cons_of_mem _ horiginal, hx⟩)⟩)
      (hcopy.imp fun _ _ h => ⟨h.1, Or.inr h.2⟩)

theorem mem_combineProps {caller own : Dict PropDefinition} {entry : String × PropDefinition}
    (h : entry ∈ combineProps caller own) :
    entry ∈ caller ∧ entry.2.kind ≠ "element" ∨ entry ∈ own := by
  refine (Dict.mem_merge h).imp_left fun hcaller => ?_
  obtain ⟨hmem, hkind⟩ := List.mem_filter.1 hcaller
  exact ⟨hmem, by simpa using hkind⟩

theorem sorted_combineProps {caller : Dict PropDefinition} (h : caller.Sorted)
    (own : Dict PropDefinition) : (combineProps caller own).Sorted :=
  (h.filter _).merge own

/-- A state of an instance has the default it had, or a plain value. -/
theorem fineValue_instanceState {attrs : Attributes} {entry entry' : String × StateDefinition}
    (h : instanceState attrs entry = .ok entry') (hentry : FineValue externals page c entry.2.default) :
    FineValue externals page c entry'.2.default := by
  rcases (instanceState_cases h).2 with ⟨content, hvalue⟩ | hsame
  · rw [hvalue]
    exact fun node hnode => by cases hnode
  · rwa [hsame]

/-- A prop of an instance that is no element has the default of a definition, or a plain value. -/
theorem fineValue_instanceProp {ds : Definitions} {value : Attribute} {own d : PropDefinition}
    (h : instanceProp ds value own = .ok d) (hscope : FineScope externals page c ds)
    (hown : FineValue externals page c own.default) : FineValue externals page c d.default := by
  rcases instanceProp_cases h with ⟨content, hvalue⟩ | rfl | ⟨r, -, hfind⟩
  · rw [hvalue]
    exact fun node hnode => by cases hnode
  · exact hown
  · rcases Definitions.find_ok hfind with ⟨-, found, hget, heq⟩ | ⟨-, found, hget, heq⟩
    · obtain ⟨-, hdefault⟩ := ReferredValue.mk.inj heq
      rw [hdefault]
      exact hscope.props _ (Dict.mem_of_get? hget)
    · obtain ⟨-, hdefault⟩ := ReferredValue.mk.inj heq
      rw [hdefault]
      exact hscope.states _ (Dict.mem_of_get? hget)

end Instance

end Page

end PageCompiler
