import PageCompiler.Proofs.Page.Filling

/-!
# Where a slot is filled

A slot of a tree stands among the children of an element, or it is the body of a conditional or of a
repetition, or the tree itself. The children of an instance take the place of the first slot among
the children of an element (`SlotPlace`). Any other slot is passed over, also when it comes first in
the document: it stays where it is, and the children go to a later slot or are dropped.

* `SlotPlace.fillSlot_tree`: the first slot among the children of an element is filled.
* `Node.fillSlot_place`: where children go, for every tree.
-/

namespace PageCompiler

/-! ## Places in a tree -/

/-- What stands around a node: the element that it is a child of, with the children before it and
those behind it, or the conditional or repetition that it is the body of. -/
inductive Frame where
  | child (e : Element) (before behind : List Node)
  | body (q : Conditional)
  | item (r : Repetition)

namespace Frame

/-- Put a node into its frame. -/
def wrap : Frame → Node → Node
  | .child e before behind, node => .element { e with children := before ++ node :: behind }
  | .body q, node => .conditional { q with node }
  | .item r, node => .repetition { r with node }

/-- The nodes beside it that come before, in the order of the document. -/
def before : Frame → List Node
  | .child _ before _ => before
  | _ => []

/-- Whether the node is a child of an element. -/
def isChild : Frame → Bool
  | .child .. => true
  | _ => false

end Frame

/-- Put a node into frames inside one another, the outermost first. -/
def wrapAll (frames : List Frame) (node : Node) : Node := frames.foldr Frame.wrap node

/-- There is a slot in a tree, or it is one. -/
def Node.HasSlot (node : Node) : Prop := ∃ frames slot, wrapAll frames (.slot slot) = node

/-- A slot among the children of an element, somewhere in a tree. -/
structure SlotPlace where
  frames : List Frame
  parent : Element
  before : List Node
  slot : Slot
  behind : List Node

namespace SlotPlace

/-- The tree that the slot stands in. -/
def tree (p : SlotPlace) : Node :=
  wrapAll p.frames (.element { p.parent with children := p.before ++ .slot p.slot :: p.behind })

/-- The tree with children in the place of the slot. -/
def filled (p : SlotPlace) (own : List Node) : Node :=
  wrapAll p.frames (.element { p.parent with children := p.before ++ own ++ p.behind })

/-- The subtrees that come before the slot, in the order of the document. -/
def earlier (p : SlotPlace) : List Node := p.frames.flatMap Frame.before ++ p.before

/-- No slot that comes before is a child of an element. -/
def IsFirst (p : SlotPlace) : Prop :=
  ∀ node ∈ p.earlier, (∀ slot, node ≠ .slot slot) ∧ ∀ q : SlotPlace, q.tree ≠ node

theorem earlier_inside (p : SlotPlace) (f : Frame) :
    { p with frames := f :: p.frames }.earlier = f.before ++ p.earlier := by
  simp [earlier]

/-- A place is one among the frames of the slot. -/
theorem tree_eq (p : SlotPlace) :
    p.tree = wrapAll (p.frames ++ [.child p.parent p.before p.behind]) (.slot p.slot) := by
  rw [wrapAll, List.foldr_append]
  rfl

theorem earlier_eq (p : SlotPlace) :
    p.earlier = (p.frames ++ [Frame.child p.parent p.before p.behind]).flatMap Frame.before := by
  simp [earlier, Frame.before]

theorem hasSlot (p : SlotPlace) : p.tree.HasSlot := ⟨_, _, p.tree_eq.symm⟩

end SlotPlace

/-! ## Filling in a frame -/

variable {own : List Node}

theorem nodesFillSlot_eq_none_iff {nodes : List Node} : nodesFillSlot own nodes = none ↔
    ∀ node ∈ nodes, (∀ slot, node ≠ .slot slot) ∧ node.fillSlot own = none := by
  induction nodes with
  | nil => exact iff_of_true rfl nofun
  | cons node rest ih =>
    rw [List.forall_mem_cons, ← ih]
    by_cases hslot : ∃ slot, node = .slot slot
    · obtain ⟨slot, rfl⟩ := hslot
      simp [nodesFillSlot]
    · have hslot : ∀ slot, node ≠ .slot slot := not_exists.1 hslot
      rw [nodesFillSlot_cons hslot]
      rcases node.fillSlot own with _ | filled
      · simpa using fun _ => hslot
      · simp

theorem fillSlot_element (e : Element) (nodes : List Node) :
    Node.fillSlot own (.element { e with children := nodes })
      = (nodesFillSlot own nodes).map fun children => .element { e with children } := by
  rw [Node.fillSlot, Element.fillSlot, Option.map_map]
  rfl

theorem fillSlot_conditional (q : Conditional) (node : Node) :
    Node.fillSlot own (.conditional { q with node })
      = (node.fillSlot own).map fun node => .conditional { q with node } := by
  rw [Node.fillSlot, Conditional.fillSlot, Option.map_map]
  rfl

theorem fillSlot_repetition (r : Repetition) (node : Node) :
    Node.fillSlot own (.repetition { r with node })
      = (node.fillSlot own).map fun node => .repetition { r with node } := by
  rw [Node.fillSlot, Repetition.fillSlot, Option.map_map]
  rfl

theorem ne_slot_of_fillSlot {node node' : Node} (h : node.fillSlot own = some node') (slot : Slot) :
    node ≠ .slot slot := by
  rintro rfl
  cases h

/-- A frame is filled inside, when nothing that comes before takes the children. -/
theorem Frame.fillSlot_wrap {f : Frame} (hbefore : nodesFillSlot own f.before = none)
    {node node' : Node} (h : node.fillSlot own = some node') :
    (f.wrap node).fillSlot own = some (f.wrap node') := by
  cases f with
  | child e before behind =>
    rw [Frame.before] at hbefore
    rw [wrap, fillSlot_element, nodesFillSlot_append_none hbefore,
      nodesFillSlot_cons (ne_slot_of_fillSlot h), h]
    rfl
  | body q =>
    rw [wrap, fillSlot_conditional, h]
    rfl
  | item r =>
    rw [wrap, fillSlot_repetition, h]
    rfl

/-- A frame with nothing to fill inside can only be filled behind that. -/
theorem Frame.fillSlot_wrap_of_none {f : Frame} (hbefore : nodesFillSlot own f.before = none)
    {node : Node} (hslot : f.isChild → ∀ slot, node ≠ .slot slot) (h : node.fillSlot own = none) :
    (f.wrap node).fillSlot own = none ∨
      ∃ g : Frame, (f.wrap node).fillSlot own = some (g.wrap node) ∧ g.before = f.before := by
  cases f with
  | child e before behind =>
    have hchildren : (wrap (.child e before behind) node).fillSlot own
        = (nodesFillSlot own behind).map fun behind => wrap (.child e before behind) node := by
      rw [Frame.before] at hbefore
      rw [wrap, fillSlot_element, nodesFillSlot_append_none hbefore,
        nodesFillSlot_cons (hslot rfl), h, Option.map_map, Option.map_map]
      rfl
    rw [hchildren]
    rcases nodesFillSlot own behind with _ | behind'
    · exact Or.inl rfl
    · exact Or.inr ⟨.child e before behind', rfl, rfl⟩
  | body q =>
    refine Or.inl ?_
    rw [wrap, fillSlot_conditional, h]
    rfl
  | item r =>
    refine Or.inl ?_
    rw [wrap, fillSlot_repetition, h]
    rfl

/-- Where something is filled inside a frame, something of the frame is filled. -/
theorem Frame.fillSlot_wrap_ne_none (f : Frame) {node : Node} (h : node.fillSlot own ≠ none) :
    (f.wrap node).fillSlot own ≠ none := by
  obtain ⟨node', hnode⟩ := Option.ne_none_iff_exists'.1 h
  cases f with
  | child e before behind =>
    rcases hbefore : nodesFillSlot own before with _ | before'
    · rw [Frame.fillSlot_wrap hbefore hnode]
      exact Option.some_ne_none _
    · rw [wrap, fillSlot_element, nodesFillSlot_append_some hbefore]
      exact Option.some_ne_none _
  | body | item =>
    rw [Frame.fillSlot_wrap rfl hnode]
    exact Option.some_ne_none _

/-! ## Filling at a place -/

/-- **The first slot among the children of an element is filled.** -/
theorem SlotPlace.fillSlot_tree {p : SlotPlace} (h : nodesFillSlot own p.earlier = none) :
    p.tree.fillSlot own = some (p.filled own) := by
  obtain ⟨frames, parent, before, slot, behind⟩ := p
  induction frames with
  | nil =>
    have hbefore : nodesFillSlot own before = none := h
    rw [tree, wrapAll, List.foldr_nil, fillSlot_element, nodesFillSlot_append_none hbefore,
      nodesFillSlot, Option.map_some, Option.map_some, ← List.append_assoc]
    rfl
  | cons f frames ih =>
    rw [earlier_inside ⟨frames, parent, before, slot, behind⟩, nodesFillSlot_eq_none_iff,
      List.forall_mem_append, ← nodesFillSlot_eq_none_iff, ← nodesFillSlot_eq_none_iff] at h
    exact Frame.fillSlot_wrap h.1 (ih h.2)

/-- A tree with a slot among the children of an element is filled. -/
theorem SlotPlace.fillSlot_tree_ne_none (p : SlotPlace) (own : List Node) :
    p.tree.fillSlot own ≠ none := by
  obtain ⟨frames, parent, before, slot, behind⟩ := p
  induction frames with
  | nil =>
    rw [tree, wrapAll, List.foldr_nil, fillSlot_element]
    rcases hbefore : nodesFillSlot own before with _ | before'
    · rw [nodesFillSlot_append_none hbefore]
      exact Option.some_ne_none _
    · rw [nodesFillSlot_append_some hbefore]
      exact Option.some_ne_none _
  | cons f frames ih => exact f.fillSlot_wrap_ne_none ih

mutual

/-- What is filled has a first slot among the children of an element. -/
theorem Node.exists_place : {node node' : Node} → node.fillSlot own = some node' →
    ∃ p : SlotPlace, p.tree = node ∧ nodesFillSlot own p.earlier = none
  | .element e, node', h => by
    rw [Node.fillSlot, Option.map_eq_some_iff] at h
    obtain ⟨e', he, -⟩ := h
    exact e.exists_place he
  | .conditional q, node', h => by
    rw [Node.fillSlot, Option.map_eq_some_iff] at h
    obtain ⟨q', hq, -⟩ := h
    exact q.exists_place hq
  | .repetition r, node', h => by
    rw [Node.fillSlot, Option.map_eq_some_iff] at h
    obtain ⟨r', hr, -⟩ := h
    exact r.exists_place hr

theorem Conditional.exists_place : (q : Conditional) → {q' : Conditional} →
    q.fillSlot own = some q' →
    ∃ p : SlotPlace, p.tree = .conditional q ∧ nodesFillSlot own p.earlier = none
  | ⟨node, reference, value, condition⟩, q', h => by
    rw [Conditional.fillSlot, Option.map_eq_some_iff] at h
    obtain ⟨node', hnode, -⟩ := h
    obtain ⟨p, hp, hearlier⟩ := Node.exists_place hnode
    exact ⟨{ p with frames := .body ⟨.raw "", reference, value, condition⟩ :: p.frames },
      congrArg (fun node => Node.conditional ⟨node, reference, value, condition⟩) hp, hearlier⟩

theorem Repetition.exists_place : (r : Repetition) → {r' : Repetition} →
    r.fillSlot own = some r' →
    ∃ p : SlotPlace, p.tree = .repetition r ∧ nodesFillSlot own p.earlier = none
  | ⟨node, source, names⟩, r', h => by
    rw [Repetition.fillSlot, Option.map_eq_some_iff] at h
    obtain ⟨node', hnode, -⟩ := h
    obtain ⟨p, hp, hearlier⟩ := Node.exists_place hnode
    exact ⟨{ p with frames := .item ⟨.raw "", source, names⟩ :: p.frames },
      congrArg (fun node => Node.repetition ⟨node, source, names⟩) hp, hearlier⟩

theorem Element.exists_place : (e : Element) → {e' : Element} → e.fillSlot own = some e' →
    ∃ p : SlotPlace, p.tree = .element e ∧ nodesFillSlot own p.earlier = none
  | ⟨key, elementType, name, semanticType, dependency, attrs, events, style, referencedStyles,
      abilities, children, selfClosing⟩, e', h => by
    rw [Element.fillSlot, Option.map_eq_some_iff] at h
    obtain ⟨children', hchildren, -⟩ := h
    obtain ⟨before, node, behind, rfl, hbefore, ⟨slot, rfl⟩ | ⟨p, rfl, hp⟩⟩ :=
      exists_place_among hchildren
    · exact ⟨⟨[], ⟨key, elementType, name, semanticType, dependency, attrs, events, style,
        referencedStyles, abilities, [], selfClosing⟩, before, slot, behind⟩, rfl, hbefore⟩
    · refine ⟨{ p with frames := .child ⟨key, elementType, name, semanticType, dependency, attrs,
        events, style, referencedStyles, abilities, [], selfClosing⟩ before behind :: p.frames },
        rfl, ?_⟩
      rw [SlotPlace.earlier_inside, Frame.before, nodesFillSlot_append_none hbefore, hp]
      rfl

/-- What is filled in a list is a slot, or has one inside. -/
theorem exists_place_among : {nodes nodes' : List Node} → nodesFillSlot own nodes = some nodes' →
    ∃ before node behind, nodes = before ++ node :: behind ∧ nodesFillSlot own before = none ∧
      ((∃ slot, node = .slot slot) ∨
        ∃ p : SlotPlace, p.tree = node ∧ nodesFillSlot own p.earlier = none)
  | node :: rest, nodes', h => by
    by_cases hslot : ∃ slot, node = .slot slot
    · exact ⟨[], node, rest, rfl, rfl, Or.inl hslot⟩
    have hslot : ∀ slot, node ≠ .slot slot := not_exists.1 hslot
    rw [nodesFillSlot_cons hslot] at h
    rcases hnode : node.fillSlot own with _ | filled
    · rw [hnode, Option.map_eq_some_iff] at h
      obtain ⟨rest', hrest, -⟩ := h
      obtain ⟨before, node', behind, rfl, hbefore, hplace⟩ := exists_place_among hrest
      refine ⟨node :: before, node', behind, rfl, ?_, hplace⟩
      rw [nodesFillSlot_cons hslot, hnode, hbefore]
      rfl
    · exact ⟨[], node, rest, rfl, rfl, Or.inr (Node.exists_place hnode)⟩

end

/-- Nodes without slots are not filled. -/
theorem nodesFillSlot_of_not_hasSlot {nodes : List Node} (h : ∀ node ∈ nodes, ¬ node.HasSlot)
    (own : List Node) : nodesFillSlot own nodes = none := by
  refine nodesFillSlot_eq_none_iff.2 fun node hnode => ⟨?_, ?_⟩
  · rintro slot rfl
    exact h _ hnode ⟨[], slot, rfl⟩
  · refine Option.eq_none_iff_forall_ne_some.2 fun node' hfilled => ?_
    obtain ⟨p, rfl, -⟩ := Node.exists_place hfilled
    exact h _ hnode p.hasSlot

theorem SlotPlace.isFirst_iff {p : SlotPlace} (own : List Node) :
    p.IsFirst ↔ nodesFillSlot own p.earlier = none := by
  rw [nodesFillSlot_eq_none_iff]
  refine forall₂_congr fun node _ => and_congr_right fun _ => ⟨fun h => ?_, ?_⟩
  · refine Option.eq_none_iff_forall_ne_some.2 fun node' hfilled => ?_
    obtain ⟨q, hq, -⟩ := Node.exists_place hfilled
    exact h q hq
  · rintro hnone q rfl
    exact q.fillSlot_tree_ne_none own hnone

/-- The first slot of a tree comes first among those that are children, if it is one. -/
theorem SlotPlace.isFirst_of_earlier {p : SlotPlace} (h : ∀ node ∈ p.earlier, ¬ node.HasSlot) :
    p.IsFirst :=
  (isFirst_iff []).2 (nodesFillSlot_of_not_hasSlot h [])

/-- **A slot that is no child of an element is passed over**, when nothing before it can be filled:
it stays where it is. -/
theorem fillSlot_passes {frames : List Frame} (hlast : ∀ f ∈ frames.getLast?, ¬ f.isChild)
    (hbefore : nodesFillSlot own (frames.flatMap Frame.before) = none) (slot : Slot) :
    (wrapAll frames (.slot slot)).fillSlot own = none ∨
      ∃ frames', (wrapAll frames (.slot slot)).fillSlot own = some (wrapAll frames' (.slot slot)) ∧
        frames'.map Frame.before = frames.map Frame.before := by
  induction frames with
  | nil => exact Or.inl rfl
  | cons f frames ih =>
    rw [List.flatMap_cons, nodesFillSlot_eq_none_iff, List.forall_mem_append,
      ← nodesFillSlot_eq_none_iff, ← nodesFillSlot_eq_none_iff] at hbefore
    obtain ⟨hf, hbefore⟩ := hbefore
    rcases ih (fun g hg => hlast g (List.mem_getLast?_cons hg)) hbefore with
      hnone | ⟨frames', hfilled, hframes⟩
    · have hinside : f.isChild → ∀ s, wrapAll frames (.slot slot) ≠ .slot s := by
        intro hf
        cases frames with
        | nil => exact absurd hf (hlast f rfl)
        | cons g _ => cases g <;> exact nofun
      rcases Frame.fillSlot_wrap_of_none hf hinside hnone with hnone | ⟨g, hfilled, hg⟩
      · exact Or.inl hnone
      · refine Or.inr ⟨g :: frames, hfilled, ?_⟩
        rw [List.map_cons, List.map_cons, hg]
    · refine Or.inr ⟨f :: frames', Frame.fillSlot_wrap hf hfilled, ?_⟩
      rw [List.map_cons, List.map_cons, hframes]

/-- **Where children go.** Without a slot among the children of an element nothing is filled.
Otherwise there is a first such slot, and the children take its place, in their order; all other
nodes stay. So the first slot of the tree is filled if it is a child of an element. If it is not, it
is passed over: it stays where it is, and the children go elsewhere or nothing is filled. -/
theorem Node.fillSlot_place (node : Node) (own : List Node) :
    (node.fillSlot own = none ↔ ∀ p : SlotPlace, p.tree ≠ node) ∧
    ((∃ p : SlotPlace, p.tree = node) → ∃ p : SlotPlace, p.tree = node ∧ p.IsFirst) ∧
    (∀ p : SlotPlace, p.tree = node → p.IsFirst → node.fillSlot own = some (p.filled own)) ∧
    ∀ frames slot, wrapAll frames (.slot slot) = node →
      (∀ earlier ∈ frames.flatMap Frame.before, ¬ earlier.HasSlot) →
        (∀ outer e before behind, frames = outer ++ [.child e before behind] →
          node.fillSlot own
            = some (wrapAll outer (.element { e with children := before ++ own ++ behind }))) ∧
        ((∀ f ∈ frames.getLast?, ¬ f.isChild) →
          node.fillSlot own = none ∨
            ∃ frames', node.fillSlot own = some (wrapAll frames' (.slot slot)) ∧
              frames'.map Frame.before = frames.map Frame.before) := by
  have hfirst : ∀ node' : Node, node.fillSlot own = some node' →
      ∃ p : SlotPlace, p.tree = node ∧ p.IsFirst := by
    intro node' hfilled
    obtain ⟨p, hp, hearlier⟩ := node.exists_place hfilled
    exact ⟨p, hp, (SlotPlace.isFirst_iff own).2 hearlier⟩
  have hfill : ∀ p : SlotPlace, p.tree = node → p.IsFirst →
      node.fillSlot own = some (p.filled own) := by
    rintro p rfl hearlier
    exact SlotPlace.fillSlot_tree ((SlotPlace.isFirst_iff own).1 hearlier)
  refine ⟨⟨?_, fun hnone => ?_⟩, ?_, hfill, fun frames slot hnode hearlier => ⟨?_, fun hlast => ?_⟩⟩
  · rintro hnone p rfl
    exact p.fillSlot_tree_ne_none own hnone
  · refine Option.eq_none_iff_forall_ne_some.2 fun node' hfilled => ?_
    obtain ⟨p, hp, -⟩ := hfirst node' hfilled
    exact hnone p hp
  · rintro ⟨p, rfl⟩
    obtain ⟨node', hfilled⟩ := Option.ne_none_iff_exists'.1 (p.fillSlot_tree_ne_none own)
    exact hfirst node' hfilled
  · rintro outer e before behind rfl
    let p : SlotPlace := ⟨outer, e, before, slot, behind⟩
    refine hfill p (p.tree_eq.trans hnode) (SlotPlace.isFirst_of_earlier ?_)
    rwa [SlotPlace.earlier_eq]
  · rw [← hnode]
    exact fillSlot_passes hlast (nodesFillSlot_of_not_hasSlot hearlier own) slot

/-- An element with children. -/
def box (children : List Node) : Node := .element { elementType := "div", children }

/-- A slot that is shown while a prop is set. -/
def shownSlot : Node :=
  .conditional { node := .slot {}, reference := .dynamic { scope := .prop, id := "shown" } }

/-- A slot for every item of a list. -/
def listedSlot : Node :=
  .repetition { node := .slot {}, source := .dynamic { scope := .prop, id := "items" } }

/-- The slot in a header is filled, and the one that follows stays. -/
theorem headedBox_filled :
    (box [.raw "top", box [.raw "left", .slot {}], .slot {}]).fillSlot [.raw "a", .raw "b"]
      = some (box [.raw "top", box [.raw "left", .raw "a", .raw "b"], .slot {}]) ∧
    ∃ frames', (box [shownSlot, .slot {}]).fillSlot [.raw "a"]
      = some (wrapAll frames' (.slot {})) ∧ frames'.map Frame.before = [[], []] := by
  constructor
  · let place : SlotPlace :=
      ⟨[.child { elementType := "div" } [.raw "top"] [.slot {}]], { elementType := "div" },
        [.raw "left"], {}, []⟩
    exact (Node.fillSlot_place _ _).2.2.1 place rfl ((SlotPlace.isFirst_iff []).2 rfl)
  · have hpasses := ((Node.fillSlot_place (box [shownSlot, .slot {}]) [.raw "a"]).2.2.2
      [.child { elementType := "div" } [] [.slot {}],
        .body ⟨.slot {}, .dynamic { scope := .prop, id := "shown" }, none, none⟩] {} rfl
      (by simp [Frame.before])).2 (by simp [Frame.isChild])
    rcases hpasses with hnone | hpassed
    · cases hnone
    · exact hpassed

/-- **Not every slot takes the children.** There is no place for them where the tree itself is a
slot, or where the body of a conditional or a repetition is the only one; and a later slot takes
them from such a body. -/
theorem bodySlot_passed :
    (¬ ∀ (node : Node) (own : List Node), node.HasSlot → own ≠ [] → node.fillSlot own ≠ none) ∧
    (Node.slot {}).fillSlot [.raw "a"] = none ∧
    (box [shownSlot]).fillSlot [.raw "a"] = none ∧
    (box [listedSlot]).fillSlot [.raw "a"] = none ∧
    (box [shownSlot, .slot {}]).fillSlot [.raw "a"] = some (box [shownSlot, .raw "a"]) :=
  ⟨fun hall => hall (.slot {}) [.raw "a"] ⟨[], {}, rfl⟩ (List.cons_ne_nil _ _) rfl, rfl, rfl, rfl,
    rfl⟩

end PageCompiler
