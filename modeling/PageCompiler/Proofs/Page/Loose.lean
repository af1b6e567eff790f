import PageCompiler.Proofs.Page.Context

/-!
# Keys that nothing protects

The expansion of instances keeps the keys of trees apart: the keys of the page are reserved, and so
are the keys that the copy of a component gets for its tree. Two sorts of keys are used without
being reserved: the key of a wrapper, from its choice until the wrapper is generated, and the keys
of the elements in defaults. `LooseKey` lists the ways in which such a key can meet another one.

* `Within`: an instance of one component can come to stand inside the wrapper of another one.
* `LooseKey`: the keys that can be doubled.
-/

namespace PageCompiler

/-! ## Instances among elements -/

/-- The names of the components that the instances among some elements stand for. -/
def instanceNames (es : List Element) : List String :=
  (es.filter (·.isInstance)).map (·.componentName)

theorem mem_instanceNames {es : List Element} {name : String} :
    name ∈ instanceNames es ↔ ∃ e ∈ es, e.isInstance ∧ e.componentName = name := by
  simp [instanceNames, and_assoc]

theorem instanceNames_subset {es fs : List Element} (h : fs ⊆ es) :
    instanceNames fs ⊆ instanceNames es := by
  intro name hname
  obtain ⟨e, he, hinstance, rfl⟩ := mem_instanceNames.1 hname
  exact mem_instanceNames.2 ⟨e, h he, hinstance, rfl⟩

theorem Element.SameKind.isInstance_eq {e e' : Element} (h : e.SameKind e') :
    e'.isInstance = e.isInstance := by
  rw [isInstance, isInstance, h.dependency]

theorem Element.SameKind.componentName_eq {e e' : Element} (h : e.SameKind e') :
    e'.componentName = e.componentName := by
  rw [componentName, componentName, h.semanticType, h.name, h.elementType]

theorem instanceNames_eq {es es' : List Element} (h : List.Forall₂ Element.SameKind es es') :
    instanceNames es' = instanceNames es := by
  induction h with
  | nil => rfl
  | cons hkind _ ih =>
    simp only [instanceNames, List.filter_cons, hkind.isInstance_eq] at ih ⊢
    split
    · rw [List.map_cons, List.map_cons, hkind.componentName_eq, ih]
    · exact ih

/-! ## Defaults -/

/-- The elements that defaults of states stand for. -/
def stateNodes (states : Dict StateDefinition) : List Node :=
  states.filterMap fun entry =>
    match entry.2.default with
    | some (.node node) => some node
    | _ => none

/-- A node whose generation registers nothing. -/
def Node.isInert : Node → Bool
  | .constant _ | .raw _ | .inject _ | .slot _ | .expr _ => true
  | _ => false

/-- A single element: no instance, and nothing in it that an element could come from. -/
def Node.IsLeaf (node : Node) : Prop :=
  ∃ e, node = .element e ∧ e.isInstance = false ∧ ∀ child ∈ e.children, child.isInert

/-- An element has a key or can claim it. -/
def Element.CanHave (e : Element) (key : String) : Prop := key = e.key ∨ Claimable e.baseKey key

section Page

variable (externals : Dict Component) (page : Component)

/-- A component that takes part in the generation of a page: the page, or one that instances can
stand for. -/
def TakesPart (c : Component) : Prop := c = page ∨ ∃ name, Dict.get? externals name = some c

/-- A key that an element in the tree of a component can claim. -/
def TreeKey (key : String) : Prop :=
  ∃ name c, Dict.get? externals name = some c ∧ ∃ e ∈ c.node.elements, Claimable e.baseKey key

/-- A key that an element in the default of a prop can have. -/
def DefaultKey (key : String) : Prop :=
  ∃ c, TakesPart externals page c ∧ ∃ node ∈ defaultNodes c.props, ∃ e ∈ node.elements,
    e.CanHave key

/-- A default that may be generated more than once, or whose parts may be: that of a state, or that
of a prop with more than a single element. -/
def LooseDefault (node : Node) : Prop :=
  ∃ c, TakesPart externals page c ∧
    (node ∈ stateNodes c.states ∨ node ∈ defaultNodes c.props ∧ ¬ node.IsLeaf)

/-- A key for the wrapper of an instance of a component. -/
def WrapperKey (name key : String) : Prop :=
  key = dashCase (name ++ "-wrapper") ∨
    ∃ seed, key = dashCase (name ++ "-wrapper") ++ "-" ++ Sha256.suffix seed

/-! ## Instances inside instances -/

/-- The elements that are written somewhere: in a tree or in a default. -/
def Written (e : Element) : Prop :=
  ∃ c, TakesPart externals page c ∧ (e ∈ c.elements ∨ ∃ node ∈ stateNodes c.states, e ∈ node.elements)

/-- An instance of the first component can be given an instance of the second one among its
children: there is such a reference, or one around the slot of a component that can be given the
instance. -/
inductive Receives : String → String → Prop
  | written {e : Element} {name : String} (written : Written externals page e)
      (isInstance : e.isInstance) (mem : name ∈ instanceNames (nodesElements e.children)) :
      Receives e.componentName name
  | handed {outer name : String} {c : Component} {e : Element} {own : List Node}
      (external : Dict.get? externals outer = some c) (mem : e ∈ c.node.elements)
      (isInstance : e.isInstance) (slot : (nodesFillSlot own e.children).isSome)
      (received : Receives outer name) : Receives e.componentName name

/-- An instance of the second component can come to stand directly inside the wrapper of an
instance of the first one: it is in its tree, or among the children it is given. -/
def Within (outer inner : String) : Prop :=
  (∃ c, Dict.get? externals outer = some c ∧ inner ∈ instanceNames c.node.elements) ∨
    Receives externals page outer inner

/-! ## Loose keys -/

/-- The keys that can be doubled. -/
inductive LooseKey (key : String) : Prop
  /-- The key of two wrappers, one of which can come to stand inside the other. -/
  | nested {outer inner : String} (within : Relation.TransGen (Within externals page) outer inner)
      (outerKey : WrapperKey outer key) (innerKey : WrapperKey inner key)
  /-- The key of a wrapper and of an element. -/
  | wrapper {name : String} (wrapperKey : WrapperKey name key)
      (elementKey : TreeKey externals key ∨ DefaultKey externals page key)
  /-- The key of an element in a tree and of one in a default. -/
  | default (defaultKey : DefaultKey externals page key) (treeKey : TreeKey externals key)
  /-- A key in a default that may be generated more than once. -/
  | inDefault {node : Node} {e : Element} (loose : LooseDefault externals page node)
      (mem : e ∈ node.elements) (canHave : e.CanHave key)
  /-- The key of a wrapper inside such a default. -/
  | wrapperInDefault {node : Node} {outer name : String}
      (loose : LooseDefault externals page node) (mem : outer ∈ instanceNames node.elements)
      (within : Relation.ReflTransGen (Within externals page) outer name)
      (wrapperKey : WrapperKey name key)

end Page

end PageCompiler
