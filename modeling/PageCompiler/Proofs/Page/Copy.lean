import PageCompiler.Proofs.Page.Loose

/-!
# Copies of components

The copy of a component that an instance gets differs from the component in its keys. The keys of
the copy were not used before, and those of its tree and of its defaults are all distinct.

* `Context.copy_tree`: the elements of the tree of a copy.
* `Context.copy_default`: the defaults of a copy.
-/

namespace PageCompiler

theorem mem_defaultNodes {props : Dict PropDefinition} {node : Node} :
    node ∈ defaultNodes props ↔ ∃ entry ∈ props, entry.2.default = some (.node node) := by
  rw [defaultNodes, List.mem_filterMap]
  refine exists_congr fun entry => and_congr_right fun _ => ?_
  rcases entry.2.default with _ | _ | _ <;> simp

theorem mem_stateNodes {states : Dict StateDefinition} {node : Node} :
    node ∈ stateNodes states ↔ ∃ entry ∈ states, entry.2.default = some (.node node) := by
  rw [stateNodes, List.mem_filterMap]
  refine exists_congr fun entry => and_congr_right fun _ => ?_
  rcases entry.2.default with _ | _ | _ <;> simp

/-! ## Defaults with new keys -/

theorem keys_claimDefaultKeys (props : Dict PropDefinition) (l : KeyLedger) :
    Dict.keys (claimDefaultKeys props l).1 = Dict.keys props := by
  induction props generalizing l with
  | nil => rfl
  | cons entry rest ih =>
    rw [claimDefaultKeys_cons]
    exact congrArg (entry.1 :: ·) (ih _)

theorem exists_of_mem_claimDefaultKeys {props : Dict PropDefinition} {l : KeyLedger}
    {entry' : String × PropDefinition} (h : entry' ∈ (claimDefaultKeys props l).1) {node' : Node}
    (hnode : entry'.2.default = some (.node node')) :
    ∃ node ∈ defaultNodes props, ∃ l', node' = (node.claimKeys l').1 := by
  induction props generalizing l with
  | nil => cases h
  | cons entry rest ih =>
    rw [claimDefaultKeys_cons] at h
    rcases List.mem_cons.1 h with rfl | h
    · obtain ⟨name, kind, default, isRequired⟩ := entry
      rcases default with _ | node | value
      · cases hnode
      · cases hnode
        exact ⟨node, mem_defaultNodes.2 ⟨_, List.mem_cons_self, rfl⟩, l, rfl⟩
      · cases hnode
    · obtain ⟨node, hmem, hclaim⟩ := ih h
      refine ⟨node, ?_, hclaim⟩
      obtain ⟨e, he, hdefault⟩ := mem_defaultNodes.1 hmem
      exact mem_defaultNodes.2 ⟨e, List.mem_cons_of_mem _ he, hdefault⟩

theorem isInert_claimKeys (node : Node) (l : KeyLedger) :
    (node.claimKeys l).1.isInert = node.isInert := by
  cases node <;> rfl

theorem inert_claimKeys {nodes : List Node} (h : ∀ node ∈ nodes, node.isInert) (l : KeyLedger) :
    ∀ node ∈ (nodesUpdateM (.ofElement claimKey) nodes l).1, node.isInert := by
  induction nodes generalizing l with
  | nil => exact h
  | cons node rest ih =>
    intro node' hnode'
    rcases List.mem_cons.1 hnode' with rfl | hrest
    · exact (isInert_claimKeys node l).trans (h node List.mem_cons_self)
    · exact ih (fun node hnode => h node (List.mem_cons_of_mem _ hnode)) _ node' hrest

theorem Node.IsLeaf.claimKeys {node : Node} (h : node.IsLeaf) (l : KeyLedger) :
    (node.claimKeys l).1.IsLeaf := by
  obtain ⟨e, rfl, hinstance, hinert⟩ := h
  obtain ⟨key, elementType, name, semanticType, dependency, attrs, events, style,
    referencedStyles, abilities, children, selfClosing⟩ := e
  refine ⟨_, rfl, hinstance, fun child hchild => ?_⟩
  exact inert_claimKeys hinert _ child hchild

/-! ## Copies -/

namespace Context

variable (c : Context) (external : Component)

theorem copy_states : (c.instantiate external).states = external.states := rfl

theorem copy_props_keys :
    Dict.keys (c.instantiate external).props = Dict.keys external.props :=
  keys_claimDefaultKeys _ _

/-- The ledger that the keys of a copy are claimed from. -/
def copyLedger : KeyLedger :=
  countElements (.seeded (Dict.keys c.lookup ++ Dict.keys c.reserved)) external.elements

theorem mem_taken_copyLedger {key : String} : key ∈ (c.copyLedger external).taken ↔ c.Used key := by
  rw [copyLedger, taken_countElements, KeyLedger.taken_seeded, mem_usedKeys]

/-- The tree of a copy: its keys are new, and its elements are those of the component. -/
theorem copy_tree :
    List.Forall₂ (fun e e' => e.Alike e' ∧ Claimable e.baseKey e'.key) external.node.elements
        (c.instantiate external).node.elements ∧
      (c.instantiate external).node.keys.Nodup ∧
      ∀ key ∈ (c.instantiate external).node.keys, ¬ c.Used key := by
  have h := external.node.claimed (c.copyLedger external)
  refine ⟨h.forall₂, h.nodup_keys, fun key hkey => ?_⟩
  rw [← mem_taken_copyLedger c external]
  exact h.notMem_taken hkey

/-- The default of a prop of a copy: its keys are new and differ from those of the tree. -/
theorem copy_default {entry : String × PropDefinition} {node : Node}
    (h : entry ∈ (c.instantiate external).props) (hnode : entry.2.default = some (.node node)) :
    ∃ original ∈ defaultNodes external.props,
      List.Forall₂ (fun e e' => e.Alike e' ∧ Claimable e.baseKey e'.key) original.elements
        node.elements ∧
      (original.IsLeaf → node.IsLeaf) ∧
      ∀ e ∈ node.elements, ¬ c.Used e.key ∧ e.key ∉ (c.instantiate external).node.keys := by
  obtain ⟨original, horiginal, l, rfl⟩ := exists_of_mem_claimDefaultKeys h hnode
  refine ⟨original, horiginal, (original.claimed l).forall₂, fun hleaf => hleaf.claimKeys l,
    fun e he => ?_⟩
  have htree := external.node.claimed (c.copyLedger external)
  have hdefaults := defaultNodes_claimed external.props
    (external.node.claimKeys (c.copyLedger external)).2
  have hmem : e.key ∈ ((defaultNodes (c.instantiate external).props).flatMap Node.elements).map
      (·.key) :=
    List.mem_map_of_mem (List.mem_flatMap.2 ⟨_, mem_defaultNodes.2 ⟨entry, h, hnode⟩, he⟩)
  have hnew := hdefaults.notMem_taken hmem
  rw [htree.mem_taken, not_or, mem_taken_copyLedger] at hnew
  exact ⟨hnew.2, hnew.1⟩

end Context

end PageCompiler
