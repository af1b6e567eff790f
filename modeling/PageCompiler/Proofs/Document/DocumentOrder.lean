import Mathlib
import PageCompiler.Document.Walk
import PageCompiler.Proofs.Dict

/-!
# The order of a document

A place in a tree is the row of steps that leads down to it: to an attribute by its name, to a
child by its number, or inside a conditional, a repetition or the fallback of a slot. A place comes
before the places below it, the attributes of an element come before its children, attributes are
in the order of their names, and children in the order of their numbers.

* `TreePlace.Before`: the order of places. `Node.element?`: what stands at a place.
* `InDocumentOrder`: a list of what stands at places, once for each place and in their order.
* `Node.inDocumentOrder_iff`: the list in document order of the elements of a tree is `elements`.
-/

namespace PageCompiler

/-! ## Places -/

/-- A step down a tree. -/
inductive TreeStep where
  /-- From an element to one of its attributes. -/
  | attribute (name : String)
  /-- From an element to one of its children. -/
  | child (i : ℕ)
  /-- Into the body of a conditional or of a repetition, or into the fallback of a slot. -/
  | inside

/-- Attributes come by name and before the children, children come one after the other. -/
inductive TreeStep.Before : TreeStep → TreeStep → Prop
  | names {a b : String} (h : a < b) : Before (.attribute a) (.attribute b)
  | child (name : String) (i : ℕ) : Before (.attribute name) (.child i)
  | children {i j : ℕ} (h : i < j) : Before (.child i) (.child j)

/-- A place in a tree: the steps that lead down to it. -/
abbrev TreePlace := List TreeStep

/-- The order of places: from above to below, and by the first step in which two places differ. -/
def TreePlace.Before : TreePlace → TreePlace → Prop := List.Lex TreeStep.Before

instance : Std.Asymm TreeStep.Before where
  asymm a b h h' := by
    cases h with
    | names h =>
      cases h' with
      | names h' => exact lt_asymm h h'
    | child => cases h'
    | children h =>
      cases h' with
      | children h' => exact lt_asymm h h'

theorem TreePlace.not_before_of_before {p q : TreePlace} (h : p.Before q) : ¬ q.Before p :=
  Std.Asymm.asymm (r := List.Lex TreeStep.Before) p q h

/-- The body of a conditional or of a repetition, and the fallback of a slot. -/
def Node.inner? : Node → Option Node
  | .conditional q => some q.node
  | .repetition r => some r.node
  | .slot s => s.fallback
  | _ => none

/-- The node that a step leads to. -/
def Node.step? : Node → TreeStep → Option Node
  | .element e, .attribute name =>
    match Dict.get? e.attrs name with
    | some (.element x) => some (.element x)
    | _ => none
  | .element e, .child i => e.children[i]?
  | node, .inside => node.inner?
  | _, _ => none

/-- The element at a place of a tree. -/
def Node.element? : Node → TreePlace → Option Element
  | .element e, [] => some e
  | _, [] => none
  | node, step :: place => (node.step? step).bind (·.element? place)

/-! ## Lists in document order -/

/-- What stands at places, once for each place that has something and in the order of the places. -/
def InDocumentOrder (stands : TreePlace → Element → Prop) (es : List Element) : Prop :=
  ∃ placed : List (TreePlace × Element), placed.map Prod.snd = es ∧
    placed.Pairwise (fun a b => a.1.Before b.1) ∧
    ∀ place e, (place, e) ∈ placed ↔ stands place e

namespace InDocumentOrder

variable {stands stands' : TreePlace → Element → Prop} {es fs : List Element}

theorem congr (h : InDocumentOrder stands es)
    (hstands : ∀ place e, stands place e ↔ stands' place e) : InDocumentOrder stands' es := by
  obtain ⟨placed, helements, hordered, hmem⟩ := h
  exact ⟨placed, helements, hordered, fun place e => (hmem place e).trans (hstands place e)⟩

theorem empty (h : ∀ place e, ¬ stands place e) : InDocumentOrder stands [] :=
  ⟨[], rfl, .nil, fun place e => iff_of_false nofun (h place e)⟩

/-- An element at the top. -/
theorem root (e : Element) : InDocumentOrder (fun place x => place = [] ∧ x = e) [e] :=
  ⟨[([], e)], rfl, List.pairwise_singleton _ _, fun place x => by
    rw [List.mem_singleton, Prod.mk.injEq]⟩

/-- What stands below a step. -/
theorem below (h : InDocumentOrder stands es) (step : TreeStep) :
    InDocumentOrder (fun place e => ∃ rest, place = step :: rest ∧ stands rest e) es := by
  obtain ⟨placed, helements, hordered, hmem⟩ := h
  refine ⟨placed.map fun a => (step :: a.1, a.2), ?_, ?_, fun place e => ?_⟩
  · rw [List.map_map, ← helements]
    rfl
  · exact List.pairwise_map.2 (hordered.imp fun hbefore => .cons hbefore)
  · rw [List.mem_map]
    constructor
    · rintro ⟨⟨rest, x⟩, hplaced, heq⟩
      obtain ⟨rfl, rfl⟩ := Prod.mk.inj heq
      exact ⟨rest, rfl, (hmem rest x).1 hplaced⟩
    · rintro ⟨rest, rfl, hstands⟩
      exact ⟨(rest, e), (hmem rest e).2 hstands, rfl⟩

/-- What stands before comes first. -/
theorem append (h : InDocumentOrder stands es) (h' : InDocumentOrder stands' fs)
    (hbefore : ∀ place e place' e', stands place e → stands' place' e' → place.Before place') :
    InDocumentOrder (fun place e => stands place e ∨ stands' place e) (es ++ fs) := by
  obtain ⟨placed, helements, hordered, hmem⟩ := h
  obtain ⟨placed', helements', hordered', hmem'⟩ := h'
  refine ⟨placed ++ placed', ?_, ?_, fun place e => ?_⟩
  · rw [List.map_append, helements, helements']
  · refine List.pairwise_append.2 ⟨hordered, hordered', fun a ha b hb => ?_⟩
    exact hbefore _ _ _ _ ((hmem a.1 a.2).1 ha) ((hmem' b.1 b.2).1 hb)
  · rw [List.mem_append, hmem, hmem']

theorem nodup_of_ordered {placed : List (TreePlace × Element)}
    (h : placed.Pairwise fun a b => a.1.Before b.1) : placed.Nodup := by
  refine List.Pairwise.imp (fun {a b} hbefore => ?_) h
  rintro rfl
  exact TreePlace.not_before_of_before hbefore hbefore

/-- **What stands where determines the list in document order.** -/
theorem unique (h : InDocumentOrder stands es) (h' : InDocumentOrder stands fs) : es = fs := by
  obtain ⟨placed, rfl, hordered, hmem⟩ := h
  obtain ⟨placed', rfl, hordered', hmem'⟩ := h'
  have hperm : placed.Perm placed' := by
    have hnodup := nodup_of_ordered hordered
    have hnodup' := nodup_of_ordered hordered'
    exact (List.perm_ext_iff_of_nodup hnodup hnodup').2 fun a =>
      (hmem a.1 a.2).trans (hmem' a.1 a.2).symm
  have heq : placed = placed' := hperm.eq_of_pairwise
    (fun a b _ _ hab hba => absurd hba (TreePlace.not_before_of_before hab)) hordered hordered'
  rw [heq]

end InDocumentOrder

/-! ## The elements of a tree -/

/-- The attributes of some elements are in the order of their names. -/
def InOrder (es : List Element) : Prop := ∀ x ∈ es, Dict.Sorted x.attrs

instance (es : List Element) : Decidable (InOrder es) :=
  inferInstanceAs (Decidable (∀ x ∈ es, Dict.Sorted x.attrs))

/-- What stands in the tree of an attribute. -/
def Attribute.Stands (value : Attribute) (place : TreePlace) (x : Element) : Prop :=
  ∃ e, value = .element e ∧ (Node.element e).element? place = some x

/-- What stands in a list of attributes. -/
def AttributesStand (attrs : List (String × Attribute)) (place : TreePlace) (x : Element) : Prop :=
  ∃ name value rest, place = .attribute name :: rest ∧ (name, value) ∈ attrs ∧ value.Stands rest x

/-- What stands in a list of children, the first of which has a number. -/
def NodesStand (first : ℕ) (nodes : List Node) (place : TreePlace) (x : Element) : Prop :=
  ∃ i node rest, place = .child (first + i) :: rest ∧ nodes[i]? = some node ∧
    node.element? rest = some x

theorem attributesStand_cons {name : String} {value : Attribute}
    {attrs : List (String × Attribute)} {place : TreePlace} {x : Element} :
    AttributesStand ((name, value) :: attrs) place x ↔
      (∃ rest, place = .attribute name :: rest ∧ value.Stands rest x) ∨
        AttributesStand attrs place x := by
  constructor
  · rintro ⟨name', value', rest, hplace, hmem, hstands⟩
    rcases List.mem_cons.1 hmem with heq | hmem
    · obtain ⟨rfl, rfl⟩ := Prod.mk.inj heq
      exact Or.inl ⟨rest, hplace, hstands⟩
    · exact Or.inr ⟨name', value', rest, hplace, hmem, hstands⟩
  · rintro (⟨rest, hplace, hstands⟩ | ⟨name', value', rest, hplace, hmem, hstands⟩)
    · exact ⟨name, value, rest, hplace, List.mem_cons_self, hstands⟩
    · exact ⟨name', value', rest, hplace, List.mem_cons_of_mem _ hmem, hstands⟩

theorem nodesStand_cons {first : ℕ} {node : Node} {nodes : List Node} {place : TreePlace}
    {x : Element} : NodesStand first (node :: nodes) place x ↔
      (∃ rest, place = .child first :: rest ∧ node.element? rest = some x) ∨
        NodesStand (first + 1) nodes place x := by
  constructor
  · rintro ⟨_ | i, node', rest, hplace, hnode, hstands⟩
    · obtain rfl := Option.some.inj hnode
      exact Or.inl ⟨rest, hplace, hstands⟩
    · have hnext : first + (i + 1) = first + 1 + i := by omega
      exact Or.inr ⟨i, node', rest, hnext ▸ hplace, hnode, hstands⟩
  · rintro (⟨rest, hplace, hstands⟩ | ⟨i, node', rest, hplace, hnode, hstands⟩)
    · exact ⟨0, node, rest, hplace, rfl, hstands⟩
    · have hnext : first + 1 + i = first + (i + 1) := by omega
      exact ⟨i + 1, node', rest, hnext ▸ hplace, hnode, hstands⟩

theorem element?_attribute {e x : Element} (hattrs : Dict.Sorted e.attrs) {name : String}
    {rest : TreePlace} : (Node.element e).element? (.attribute name :: rest) = some x ↔
      AttributesStand e.attrs (.attribute name :: rest) x := by
  rw [Node.element?, Option.bind_eq_some_iff]
  constructor
  · rintro ⟨node, hstep, hrest⟩
    rw [Node.step?] at hstep
    split at hstep
    · rename_i y hget
      obtain rfl := Option.some.inj hstep
      exact ⟨name, .element y, rest, rfl, Dict.mem_of_get? hget, y, rfl, hrest⟩
    · cases hstep
  · rintro ⟨name', value, rest', hplace, hmem, y, rfl, hrest⟩
    obtain ⟨hname, rfl⟩ := List.cons.inj hplace
    obtain rfl := TreeStep.attribute.inj hname
    refine ⟨.element y, ?_, hrest⟩
    rw [Node.step?, (hattrs.get?_eq_some_iff).2 hmem]

theorem element?_child {e x : Element} {i : ℕ} {rest : TreePlace} :
    (Node.element e).element? (.child i :: rest) = some x ↔
      NodesStand 0 e.children (.child i :: rest) x := by
  rw [Node.element?, Option.bind_eq_some_iff, Node.step?]
  constructor
  · rintro ⟨node, hnode, hrest⟩
    exact ⟨i, node, rest, by rw [Nat.zero_add], hnode, hrest⟩
  · rintro ⟨j, node, rest', hplace, hnode, hrest⟩
    obtain ⟨hi, rfl⟩ := List.cons.inj hplace
    obtain rfl : i = j := by rw [TreeStep.child.inj hi, Nat.zero_add]
    exact ⟨node, hnode, hrest⟩

/-- An element stands at the top of its tree, and below it stand its attributes and its
children. -/
theorem element?_element {e x : Element} (hattrs : Dict.Sorted e.attrs) (place : TreePlace) :
    ((place = [] ∧ x = e) ∨ AttributesStand e.attrs place x ∨ NodesStand 0 e.children place x) ↔
      (Node.element e).element? place = some x := by
  have hattribute : ∀ {step rest}, AttributesStand e.attrs (step :: rest) x →
      ∃ name, step = .attribute name := by
    rintro step rest ⟨name, _, _, hplace, -⟩
    exact ⟨name, (List.cons.inj hplace).1⟩
  have hchild : ∀ {step rest}, NodesStand 0 e.children (step :: rest) x → ∃ i, step = .child i := by
    rintro step rest ⟨i, _, _, hplace, -⟩
    exact ⟨_, (List.cons.inj hplace).1⟩
  match place with
  | [] =>
    refine ⟨?_, fun h => Or.inl ⟨rfl, (Option.some.inj h).symm⟩⟩
    rintro (⟨-, rfl⟩ | ⟨_, _, _, hplace, -⟩ | ⟨_, _, _, hplace, -⟩)
    · rfl
    · cases hplace
    · cases hplace
  | .attribute name :: rest =>
    rw [element?_attribute hattrs]
    refine ⟨?_, fun h => Or.inr (Or.inl h)⟩
    rintro (⟨hplace, -⟩ | h | h)
    · cases hplace
    · exact h
    · obtain ⟨_, heq⟩ := hchild h
      cases heq
  | .child i :: rest =>
    rw [element?_child]
    refine ⟨?_, fun h => Or.inr (Or.inr h)⟩
    rintro (⟨hplace, -⟩ | h | h)
    · cases hplace
    · obtain ⟨_, heq⟩ := hattribute h
      cases heq
    · exact h
  | .inside :: rest =>
    refine ⟨?_, fun h => by cases h⟩
    rintro (⟨hplace, -⟩ | h | h)
    · cases hplace
    · obtain ⟨_, heq⟩ := hattribute h
      cases heq
    · obtain ⟨_, heq⟩ := hchild h
      cases heq

/-- Apart from elements, what stands in a node is inside it. -/
theorem element?_of_ne {node : Node} (hnode : ∀ e, node ≠ .element e) {place : TreePlace}
    {x : Element} : node.element? place = some x ↔ ∃ inner, node.inner? = some inner ∧
      ∃ rest, place = .inside :: rest ∧ inner.element? rest = some x := by
  match place with
  | [] =>
    refine ⟨fun h => ?_, fun ⟨_, _, _, hplace, _⟩ => by cases hplace⟩
    cases node with
    | element e => exact absurd rfl (hnode e)
    | _ => cases h
  | .inside :: rest =>
    have hstep : node.step? .inside = node.inner? := by cases node <;> rfl
    rw [Node.element?, hstep, Option.bind_eq_some_iff]
    refine exists_congr fun inner => and_congr_right fun _ => ⟨fun h => ⟨rest, rfl, h⟩, ?_⟩
    rintro ⟨rest', hplace, h⟩
    rwa [(List.cons.inj hplace).2]
  | .attribute name :: rest | .child i :: rest =>
    refine ⟨fun h => ?_, fun ⟨_, _, _, hplace, _⟩ => by cases hplace⟩
    cases node with
    | element e => exact absurd rfl (hnode e)
    | _ => cases h

/-- The elements of a node are those of the node inside it. -/
theorem inDocumentOrder_inner {node inner : Node} {es : List Element}
    (hnode : ∀ e, node ≠ .element e) (hinner : node.inner? = some inner)
    (h : InDocumentOrder (fun place e => inner.element? place = some e) es) :
    InDocumentOrder (fun place e => node.element? place = some e) es := by
  refine (h.below .inside).congr fun place x => ?_
  rw [element?_of_ne hnode]
  refine ⟨fun h => ⟨inner, hinner, h⟩, ?_⟩
  rintro ⟨inner', hinner', h⟩
  obtain rfl := Option.some.inj (hinner.symm.trans hinner')
  exact h

/-- A node with nothing inside has no elements. -/
theorem inDocumentOrder_leaf {node : Node} (hnode : ∀ e, node ≠ .element e)
    (hinner : node.inner? = none) :
    InDocumentOrder (fun place e => node.element? place = some e) [] := by
  refine .empty fun place x h => ?_
  obtain ⟨inner, hsome, -⟩ := (element?_of_ne hnode).1 h
  rw [hinner] at hsome
  cases hsome

/-- An element comes first, then its attributes and then its children. -/
theorem inDocumentOrder_element {e : Element} (hown : Dict.Sorted e.attrs) {es fs : List Element}
    (hattrs : InDocumentOrder (AttributesStand e.attrs) es)
    (hchildren : InDocumentOrder (NodesStand 0 e.children) fs) :
    InDocumentOrder (fun place x => (Node.element e).element? place = some x)
      (e :: (es ++ fs)) := by
  have hbelow := hattrs.append hchildren <| by
    rintro _ _ _ _ ⟨name, _, _, rfl, -⟩ ⟨i, _, _, rfl, -⟩
    exact .rel (.child name (0 + i))
  refine ((InDocumentOrder.root e).append hbelow ?_).congr fun place _ =>
    element?_element hown place
  rintro _ _ _ _ ⟨rfl, -⟩ (⟨_, _, _, rfl, -⟩ | ⟨_, _, _, rfl, -⟩)
  · exact .nil
  · exact .nil

/-- A child comes before the children behind it. -/
theorem inDocumentOrder_nodes_cons {node : Node} {nodes : List Node} {es fs : List Element}
    (first : ℕ) (hnode : InDocumentOrder (fun place e => node.element? place = some e) es)
    (hnodes : InDocumentOrder (NodesStand (first + 1) nodes) fs) :
    InDocumentOrder (NodesStand first (node :: nodes)) (es ++ fs) := by
  refine ((hnode.below (.child first)).append hnodes ?_).congr fun _ _ => nodesStand_cons.symm
  rintro _ _ _ _ ⟨_, rfl, -⟩ ⟨i, _, _, rfl, -⟩
  exact .rel (.children (by omega))

/-- An attribute comes before the attributes whose names come after its own. -/
theorem inDocumentOrder_attributes_cons {name : String} {value : Attribute}
    {attrs : List (String × Attribute)} {es fs : List Element}
    (hfirst : ∀ entry ∈ attrs, name < entry.1) (hvalue : InDocumentOrder value.Stands es)
    (hattrs : InDocumentOrder (AttributesStand attrs) fs) :
    InDocumentOrder (AttributesStand ((name, value) :: attrs)) (es ++ fs) := by
  refine ((hvalue.below (.attribute name)).append hattrs ?_).congr fun _ _ =>
    attributesStand_cons.symm
  rintro _ _ _ _ ⟨_, rfl, -⟩ ⟨_, _, _, rfl, hmem, -⟩
  exact .rel (.names (hfirst _ hmem))

/-- A value that is not an element holds none. -/
theorem inDocumentOrder_value {value : Attribute} (h : ∀ e, value ≠ .element e) :
    InDocumentOrder value.Stands [] :=
  .empty fun _ _ ⟨e, heq, _⟩ => h e heq

mutual

/-- **The list of the elements of a tree is in document order.** When the attributes of its elements
are tables, every place of a tree that has an element is listed once, an element before the ones
below it, attributes by name before children, and children one after the other. -/
theorem Node.inDocumentOrder : (node : Node) → InOrder node.elements →
    InDocumentOrder (fun place e => node.element? place = some e) node.elements
  | .slot ⟨_, none⟩, _ => inDocumentOrder_leaf nofun rfl
  | .slot ⟨_, some node⟩, h => inDocumentOrder_inner nofun rfl (node.inDocumentOrder h)
  | .conditional ⟨node, _, _, _⟩, h => inDocumentOrder_inner nofun rfl (node.inDocumentOrder h)
  | .repetition ⟨node, _, _⟩, h => inDocumentOrder_inner nofun rfl (node.inDocumentOrder h)
  | .element e, h => e.inDocumentOrder h
  | .constant _, _ => inDocumentOrder_leaf nofun rfl
  | .dynamic _, _ => inDocumentOrder_leaf nofun rfl
  | .raw _, _ => inDocumentOrder_leaf nofun rfl
  | .inject _, _ => inDocumentOrder_leaf nofun rfl
  | .expr _, _ => inDocumentOrder_leaf nofun rfl

theorem Element.inDocumentOrder : (e : Element) → InOrder e.elements →
    InDocumentOrder (fun place x => (Node.element e).element? place = some x) e.elements
  | ⟨_, _, _, _, _, attrs, _, _, _, _, children, _⟩, h => by
    obtain ⟨hown, hbelow⟩ := List.forall_mem_cons.1 h
    obtain ⟨hattrs, hchildren⟩ := List.forall_mem_append.1 hbelow
    exact inDocumentOrder_element hown (attributesInDocumentOrder attrs hown hattrs)
      (nodesInDocumentOrder children hchildren 0)

-- The number of the first child is left open, since the children behind it go on from the next one.
theorem nodesInDocumentOrder : (nodes : List Node) →
    InOrder (nodesElements nodes) → (first : ℕ) →
    InDocumentOrder (NodesStand first nodes) (nodesElements nodes)
  | [], _, _ => .empty fun _ _ ⟨_, _, _, _, hnode, _⟩ => by cases hnode
  | node :: rest, h, first =>
    inDocumentOrder_nodes_cons first (node.inDocumentOrder (List.forall_mem_append.1 h).1)
      (nodesInDocumentOrder rest (List.forall_mem_append.1 h).2 (first + 1))

theorem attributesInDocumentOrder : (attrs : List (String × Attribute)) → Dict.Sorted attrs →
    InOrder (attributesElements attrs) →
    InDocumentOrder (AttributesStand attrs) (attributesElements attrs)
  | [], _, _ => .empty fun _ _ ⟨_, _, _, _, hmem, _⟩ => by cases hmem
  | (_, value) :: rest, hsorted, h =>
    inDocumentOrder_attributes_cons (List.pairwise_cons.1 hsorted).1
      (value.inDocumentOrder (List.forall_mem_append.1 h).1)
      (attributesInDocumentOrder rest (List.pairwise_cons.1 hsorted).2
        (List.forall_mem_append.1 h).2)

theorem Attribute.inDocumentOrder : (value : Attribute) →
    InOrder value.elements → InDocumentOrder value.Stands value.elements
  | .element e, h => (e.inDocumentOrder h).congr fun _ _ =>
    ⟨fun h => ⟨e, rfl, h⟩, fun ⟨_, heq, h⟩ => by cases heq; exact h⟩
  | .constant _, _ => inDocumentOrder_value nofun
  | .dynamic _, _ => inDocumentOrder_value nofun
  | .raw _, _ => inDocumentOrder_value nofun
  | .imported _, _ => inDocumentOrder_value nofun
  | .expr _, _ => inDocumentOrder_value nofun
  | .object _, _ => inDocumentOrder_value nofun

end

/-- **The elements of a tree in document order are those that `elements` lists.** -/
theorem Node.inDocumentOrder_iff {node : Node} (h : InOrder node.elements)
    {es : List Element} :
    InDocumentOrder (fun place e => node.element? place = some e) es ↔ es = node.elements := by
  have helements := node.inDocumentOrder h
  exact ⟨fun hes => hes.unique helements, fun heq => heq ▸ helements⟩

end PageCompiler
