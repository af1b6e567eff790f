import Mathlib
import PageCompiler.Page.Slot
import PageCompiler.Document.Walk

/-!
# Elements of a filled tree

Filling the first slot of a tree puts the elements of the children in the place of those of the
fallback. The elements around the slot get other children; all other elements stay.

* `Filled`: how the elements of a tree and of the filled tree belong together.
* `Node.filled`: a filled tree has its elements in this way.
-/

namespace PageCompiler

theorem nodesElements_append (nodes rest : List Node) :
    nodesElements (nodes ++ rest) = nodesElements nodes ++ nodesElements rest := by
  induction nodes with
  | nil => rfl
  | cons node nodes ih => simp [nodesElements, ih]

theorem nodesFillSlot_cons {own : List Node} {node : Node} {rest : List Node}
    (h : ∀ slot, node ≠ .slot slot) :
    nodesFillSlot own (node :: rest) =
      match node.fillSlot own with
      | some node => some (node :: rest)
      | none => (nodesFillSlot own rest).map (node :: ·) := by
  cases node with
  | slot slot => exact absurd rfl (h slot)
  | _ => rfl

theorem isSome_nodesFillSlot_cons {own : List Node} {node : Node} {rest : List Node}
    (h : ∀ slot, node ≠ .slot slot) :
    (nodesFillSlot own (node :: rest)).isSome
      = ((node.fillSlot own).isSome || (nodesFillSlot own rest).isSome) := by
  rw [nodesFillSlot_cons h]
  cases node.fillSlot own <;> simp

/-- An element of a filled tree in the place of an element of the tree: the same one, or one with
filled children. -/
inductive Element.Spliced (own : List Node) : Element → Element → Prop
  | same (e : Element) : Element.Spliced own e e
  | around {e : Element} {children : List Node} (h : nodesFillSlot own e.children = some children) :
    Element.Spliced own e { e with children }

theorem Element.Spliced.key_eq {own : List Node} {e e' : Element} (h : e.Spliced own e') :
    e'.key = e.key := by
  cases h <;> rfl

/-- The elements of a tree, and those of the tree with children in the place of its slot. -/
inductive Filled (own : List Node) : List Element → List Element → Prop
  | here (fallback rest : List Element) :
    Filled own (fallback ++ rest) (nodesElements own ++ rest)
  | there {e e' : Element} {rest rest' : List Element} (spliced : e.Spliced own e')
    (filled : Filled own rest rest') : Filled own (e :: rest) (e' :: rest')

namespace Filled

variable {own : List Node} {es es' : List Element}

theorem append_left (before : List Element) (h : Filled own es es') :
    Filled own (before ++ es) (before ++ es') := by
  induction before with
  | nil => exact h
  | cons e before ih => exact .there (.same e) ih

theorem append_right (behind : List Element) (h : Filled own es es') :
    Filled own (es ++ behind) (es' ++ behind) := by
  induction h with
  | here fallback rest =>
    rw [List.append_assoc, List.append_assoc]
    exact .here fallback (rest ++ behind)
  | there spliced _ ih => exact .there spliced ih

theorem mem (h : Filled own es es') {e' : Element} (he : e' ∈ es') :
    e' ∈ nodesElements own ∨ ∃ e ∈ es, e.Spliced own e' := by
  induction h with
  | here fallback rest =>
    rcases List.mem_append.1 he with hown | hrest
    · exact Or.inl hown
    · exact Or.inr ⟨e', List.mem_append_right _ hrest, .same e'⟩
  | there spliced _ ih =>
    rcases List.mem_cons.1 he with rfl | hrest
    · exact Or.inr ⟨_, List.mem_cons_self, spliced⟩
    · exact (ih hrest).imp_right fun ⟨e, he, hs⟩ => ⟨e, List.mem_cons_of_mem _ he, hs⟩

/-- The keys of the filled tree are keys of the tree and of the children, each in its place. -/
theorem keys_subperm (h : Filled own es es') :
    (es'.map (·.key)).Subperm (es.map (·.key) ++ (nodesElements own).map (·.key)) := by
  induction h with
  | here fallback rest =>
    rw [List.map_append, List.map_append, List.append_assoc]
    exact List.perm_append_comm.subperm.trans (List.sublist_append_right _ _).subperm
  | there spliced _ ih =>
    rw [List.map_cons, List.map_cons, List.cons_append, spliced.key_eq]
    exact (List.subperm_cons _).2 ih

end Filled

mutual

theorem Node.filled {own : List Node} : {node node' : Node} → node.fillSlot own = some node' →
    Filled own node.elements node'.elements
  | .element e, node', h => by
    rw [Node.fillSlot, Option.map_eq_some_iff] at h
    obtain ⟨e', he, rfl⟩ := h
    exact e.filled he
  | .conditional q, node', h => by
    rw [Node.fillSlot, Option.map_eq_some_iff] at h
    obtain ⟨q', hq, rfl⟩ := h
    exact q.filled hq
  | .repetition r, node', h => by
    rw [Node.fillSlot, Option.map_eq_some_iff] at h
    obtain ⟨r', hr, rfl⟩ := h
    exact r.filled hr

theorem Conditional.filled {own : List Node} : (q : Conditional) → {q' : Conditional} →
    q.fillSlot own = some q' → Filled own q.elements q'.elements
  | ⟨node, _, _, _⟩, q', h => by
    rw [Conditional.fillSlot, Option.map_eq_some_iff] at h
    obtain ⟨node', hnode, rfl⟩ := h
    exact Node.filled hnode

theorem Repetition.filled {own : List Node} : (r : Repetition) → {r' : Repetition} →
    r.fillSlot own = some r' → Filled own r.elements r'.elements
  | ⟨node, _, _⟩, r', h => by
    rw [Repetition.fillSlot, Option.map_eq_some_iff] at h
    obtain ⟨node', hnode, rfl⟩ := h
    exact Node.filled hnode

theorem Element.filled {own : List Node} : (e : Element) → {e' : Element} →
    e.fillSlot own = some e' → Filled own e.elements e'.elements
  | ⟨_, _, _, _, _, attrs, _, _, _, _, children, _⟩, e', h => by
    rw [Element.fillSlot, Option.map_eq_some_iff] at h
    obtain ⟨children', hchildren, rfl⟩ := h
    exact .there (.around hchildren) ((nodesFilled hchildren).append_left _)

theorem nodesFilled {own : List Node} : {nodes nodes' : List Node} →
    nodesFillSlot own nodes = some nodes' → Filled own (nodesElements nodes) (nodesElements nodes')
  | node :: rest, nodes', h => by
    by_cases hslot : ∃ slot, node = .slot slot
    · obtain ⟨slot, rfl⟩ := hslot
      rw [nodesFillSlot] at h
      cases h
      rw [nodesElements_append]
      exact .here slot.elements (nodesElements rest)
    · rw [nodesFillSlot_cons (by simpa using hslot)] at h
      split at h
      · rename_i node' hnode
        cases h
        exact (Node.filled hnode).append_right _
      · rw [Option.map_eq_some_iff] at h
        obtain ⟨rest', hrest, rfl⟩ := h
        exact (nodesFilled hrest).append_left _

end

/-! ## Filling twice -/

theorem nodesFillSlot_append_none {own before : List Node} (h : nodesFillSlot own before = none)
    (rest : List Node) :
    nodesFillSlot own (before ++ rest) = (nodesFillSlot own rest).map (before ++ ·) := by
  induction before with
  | nil => simp
  | cons node before ih =>
    have hslot : ∀ slot, node ≠ .slot slot := by
      rintro slot rfl
      rw [nodesFillSlot] at h
      cases h
    rw [nodesFillSlot_cons hslot] at h
    rw [List.cons_append, nodesFillSlot_cons hslot]
    rcases hnode : node.fillSlot own with _ | filled
    · rw [hnode, Option.map_eq_none_iff] at h
      dsimp only
      rw [ih h, Option.map_map]
      rfl
    · rw [hnode] at h
      cases h

theorem nodesFillSlot_append_some {own nodes nodes' : List Node}
    (h : nodesFillSlot own nodes = some nodes') (rest : List Node) :
    nodesFillSlot own (nodes ++ rest) = some (nodes' ++ rest) := by
  induction nodes generalizing nodes' with
  | nil => cases h
  | cons node nodes ih =>
    by_cases hslot : ∃ slot, node = .slot slot
    · obtain ⟨slot, rfl⟩ := hslot
      rw [nodesFillSlot] at h
      cases h
      rw [List.cons_append, nodesFillSlot, List.append_assoc]
    · have hslot : ∀ slot, node ≠ .slot slot := by simpa using hslot
      rw [nodesFillSlot_cons hslot] at h
      rw [List.cons_append, nodesFillSlot_cons hslot]
      rcases hnode : node.fillSlot own with _ | filled
      · rw [hnode, Option.map_eq_some_iff] at h
        obtain ⟨others, hothers, rfl⟩ := h
        dsimp only
        rw [ih hothers]
        rfl
      · rw [hnode] at h
        cases h
        rfl

theorem nodesFillSlot_ne_nil {own nodes nodes' : List Node} (hown : own ≠ [])
    (h : nodesFillSlot own nodes = some nodes') : nodes' ≠ [] := by
  cases nodes with
  | nil => cases h
  | cons node rest =>
    by_cases hslot : ∃ slot, node = .slot slot
    · obtain ⟨slot, rfl⟩ := hslot
      rw [nodesFillSlot] at h
      cases h
      exact List.append_ne_nil_of_left_ne_nil hown rest
    · rw [nodesFillSlot_cons (by simpa using hslot)] at h
      split at h
      · cases h
        exact List.cons_ne_nil _ _
      · obtain ⟨rest', -, rfl⟩ := Option.map_eq_some_iff.1 h
        exact List.cons_ne_nil _ _

section Fill

variable {own : List Node} (own' : List Node)

mutual

/-- Whether there is a slot does not depend on what it is filled with. -/
theorem Node.fillSlot_eq_none : {node : Node} → node.fillSlot own = none →
    node.fillSlot own' = none
  | .element e, h => by
    rw [Node.fillSlot, Option.map_eq_none_iff] at h ⊢
    exact e.fillSlot_eq_none h
  | .conditional q, h => by
    rw [Node.fillSlot, Option.map_eq_none_iff] at h ⊢
    exact q.fillSlot_eq_none h
  | .repetition r, h => by
    rw [Node.fillSlot, Option.map_eq_none_iff] at h ⊢
    exact r.fillSlot_eq_none h
  | .slot _, _ => rfl
  | .constant _, _ => rfl
  | .dynamic _, _ => rfl
  | .raw _, _ => rfl
  | .inject _, _ => rfl
  | .expr _, _ => rfl

theorem Conditional.fillSlot_eq_none : (q : Conditional) → q.fillSlot own = none →
    q.fillSlot own' = none
  | ⟨node, _, _, _⟩, h => by
    rw [Conditional.fillSlot, Option.map_eq_none_iff] at h ⊢
    exact Node.fillSlot_eq_none h

theorem Repetition.fillSlot_eq_none : (r : Repetition) → r.fillSlot own = none →
    r.fillSlot own' = none
  | ⟨node, _, _⟩, h => by
    rw [Repetition.fillSlot, Option.map_eq_none_iff] at h ⊢
    exact Node.fillSlot_eq_none h

theorem Element.fillSlot_eq_none : (e : Element) → e.fillSlot own = none → e.fillSlot own' = none
  | ⟨_, _, _, _, _, _, _, _, _, _, children, _⟩, h => by
    rw [Element.fillSlot, Option.map_eq_none_iff] at h ⊢
    exact nodesFillSlot_eq_none h

theorem nodesFillSlot_eq_none : {nodes : List Node} → nodesFillSlot own nodes = none →
    nodesFillSlot own' nodes = none
  | [], _ => rfl
  | node :: rest, h => by
    have hslot : ∀ slot, node ≠ .slot slot := by
      rintro slot rfl
      rw [nodesFillSlot] at h
      cases h
    rw [nodesFillSlot_cons hslot] at h ⊢
    rcases hnode : node.fillSlot own with _ | filled
    · rw [hnode, Option.map_eq_none_iff] at h
      rw [Node.fillSlot_eq_none hnode, nodesFillSlot_eq_none h]
      rfl
    · rw [hnode] at h
      cases h

end

end Fill

section Twice

variable {own children children' : List Node}

mutual

/-- **A slot handed on**: filling a tree with children and then the slot among these is filling it
with the filled children. -/
theorem Node.fillSlot_fillSlot (h : nodesFillSlot own children = some children') :
    {node node' : Node} → node.fillSlot children = some node' →
      node'.fillSlot own = node.fillSlot children'
  | .element e, node', hnode => by
    rw [Node.fillSlot, Option.map_eq_some_iff] at hnode
    obtain ⟨e', he, rfl⟩ := hnode
    rw [Node.fillSlot, Node.fillSlot, e.fillSlot_fillSlot h he]
  | .conditional q, node', hnode => by
    rw [Node.fillSlot, Option.map_eq_some_iff] at hnode
    obtain ⟨q', hq, rfl⟩ := hnode
    rw [Node.fillSlot, Node.fillSlot, q.fillSlot_fillSlot h hq]
  | .repetition r, node', hnode => by
    rw [Node.fillSlot, Option.map_eq_some_iff] at hnode
    obtain ⟨r', hr, rfl⟩ := hnode
    rw [Node.fillSlot, Node.fillSlot, r.fillSlot_fillSlot h hr]

theorem Conditional.fillSlot_fillSlot (h : nodesFillSlot own children = some children') :
    (q : Conditional) → {q' : Conditional} → q.fillSlot children = some q' →
      q'.fillSlot own = q.fillSlot children'
  | ⟨node, _, _, _⟩, q', hq => by
    rw [Conditional.fillSlot, Option.map_eq_some_iff] at hq
    obtain ⟨node', hnode, rfl⟩ := hq
    rw [Conditional.fillSlot, Conditional.fillSlot, Node.fillSlot_fillSlot h hnode]

theorem Repetition.fillSlot_fillSlot (h : nodesFillSlot own children = some children') :
    (r : Repetition) → {r' : Repetition} → r.fillSlot children = some r' →
      r'.fillSlot own = r.fillSlot children'
  | ⟨node, _, _⟩, r', hr => by
    rw [Repetition.fillSlot, Option.map_eq_some_iff] at hr
    obtain ⟨node', hnode, rfl⟩ := hr
    rw [Repetition.fillSlot, Repetition.fillSlot, Node.fillSlot_fillSlot h hnode]

theorem Element.fillSlot_fillSlot (h : nodesFillSlot own children = some children') :
    (e : Element) → {e' : Element} → e.fillSlot children = some e' →
      e'.fillSlot own = e.fillSlot children'
  | ⟨_, _, _, _, _, _, _, _, _, _, nodes, _⟩, e', he => by
    rw [Element.fillSlot, Option.map_eq_some_iff] at he
    obtain ⟨nodes', hnodes, rfl⟩ := he
    rw [Element.fillSlot, Element.fillSlot, nodesFillSlot_fillSlot h hnodes]

theorem nodesFillSlot_fillSlot (h : nodesFillSlot own children = some children') :
    {nodes nodes' : List Node} → nodesFillSlot children nodes = some nodes' →
      nodesFillSlot own nodes' = nodesFillSlot children' nodes
  | node :: rest, nodes', hnodes => by
    by_cases hslot : ∃ slot, node = .slot slot
    · obtain ⟨slot, rfl⟩ := hslot
      rw [nodesFillSlot] at hnodes ⊢
      cases hnodes
      exact nodesFillSlot_append_some h rest
    · have hslot : ∀ slot, node ≠ .slot slot := by simpa using hslot
      rw [nodesFillSlot_cons hslot] at hnodes ⊢
      rcases hnode : node.fillSlot children with _ | node'
      · rw [hnode, Option.map_eq_some_iff] at hnodes
        obtain ⟨rest', hrest, rfl⟩ := hnodes
        rw [nodesFillSlot_cons hslot, Node.fillSlot_eq_none own hnode,
          Node.fillSlot_eq_none children' hnode]
        dsimp only
        rw [nodesFillSlot_fillSlot h hrest]
      · rw [hnode] at hnodes
        cases hnodes
        have hslot' : ∀ slot, node' ≠ .slot slot := by
          rintro slot rfl
          cases node with
          | element _ | conditional _ | repetition _ =>
            rw [Node.fillSlot, Option.map_eq_some_iff] at hnode
            obtain ⟨_, -, hnode⟩ := hnode
            cases hnode
          | _ => cases hnode
        rw [nodesFillSlot_cons hslot', Node.fillSlot_fillSlot h hnode]
        rcases hfilled : node.fillSlot children' with _ | filled
        · rw [Node.fillSlot_eq_none children hfilled] at hnode
          cases hnode
        · rfl

end

end Twice

end PageCompiler
