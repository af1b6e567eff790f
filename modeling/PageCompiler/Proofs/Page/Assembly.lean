import PageCompiler.Proofs.Page.Filling
import PageCompiler.Proofs.Page.Ending

/-!
# What a tree is put together from

The tree of an instance is that of its component, with the children of the instance in the slot. It
can be taken apart accordingly: into nodes that are given, and into references and elements whose
uses are known. A tree ends if all of these do, each in every place that the generation of the tree
can come to.

* `Built`: a node put together; `Node.built`, `built_withChildren`.
* `Handles`, `Built.endsIn`: in the places of a sort, a node ends because its parts do.
-/

namespace PageCompiler

/-- A node that is put together from given nodes and from parts with good uses. -/
inductive Built (good : Use → Prop) (own : List Node) : Node → Prop
  | given {node : Node} (mem : node ∈ own) : Built good own node
  | plain {node : Node} (plain : node.isInert ∨ ∃ r, node = .repetition r) : Built good own node
  | shown {r : Reference} (shown : good (.shown r)) : Built good own (.dynamic r)
  | conditional {q : Conditional} (body : Built good own q.node) : Built good own (.conditional q)
  | element {e : Element} (uses : ∀ u ∈ e.ownUses, good u)
      (attrs : ∀ entry ∈ e.attrs, ∀ x, entry.2 = .element x → Built good own (.element x))
      (children : ∀ child ∈ e.children, Built good own child) : Built good own (.element e)

section Built

variable {good : Use → Prop} {own : List Node}

mutual

/-- A node with good uses is put together from its parts. -/
theorem Node.built : (node : Node) → (∀ u ∈ node.uses, good u) → Built good own node
  | .element content, h => content.built h
  | .conditional ⟨node, _, _, _⟩, h =>
    .conditional (node.built fun u hu => h u (List.mem_append_right _ hu))
  | .dynamic _, h => .shown (h _ List.mem_cons_self)
  | .repetition r, _ => .plain (Or.inr ⟨r, rfl⟩)
  | .constant _, _ => .plain (Or.inl rfl)
  | .raw _, _ => .plain (Or.inl rfl)
  | .inject _, _ => .plain (Or.inl rfl)
  | .slot _, _ => .plain (Or.inl rfl)
  | .expr _, _ => .plain (Or.inl rfl)

theorem Element.built : (e : Element) → (∀ u ∈ e.uses, good u) → Built good own (.element e)
  | ⟨_, _, _, _, _, attrs, _, _, _, _, children, _⟩, h =>
    .element (fun u hu => h u (List.mem_append_left _ hu))
      (attributesBuilt attrs fun u hu =>
        h u (List.mem_append_right _ (List.mem_append_left _ hu)))
      (nodesBuilt children fun u hu =>
        h u (List.mem_append_right _ (List.mem_append_right _ hu)))

theorem nodesBuilt : (nodes : List Node) → (∀ u ∈ nodesUses nodes, good u) →
    ∀ node ∈ nodes, Built good own node
  | node :: rest, h, part, hpart => by
    rcases List.mem_cons.1 hpart with heq | hpart
    · exact heq ▸ node.built fun u hu => h u (List.mem_append_left _ hu)
    · exact nodesBuilt rest (fun u hu => h u (List.mem_append_right _ hu)) part hpart

theorem attributesBuilt : (attrs : List (String × Attribute)) →
    (∀ u ∈ attributesUses attrs, good u) →
    ∀ entry ∈ attrs, ∀ x, entry.2 = .element x → Built good own (.element x)
  | (_, value) :: rest, h, entry, hentry, x, hx => by
    rcases List.mem_cons.1 hentry with heq | hentry
    · exact value.built (fun u hu => h u (List.mem_append_left _ hu)) x (by rwa [heq] at hx)
    · exact attributesBuilt rest (fun u hu => h u (List.mem_append_right _ hu)) entry hentry x hx

theorem Attribute.built : (value : Attribute) → (∀ u ∈ value.uses, good u) →
    ∀ x, value = .element x → Built good own (.element x)
  | .element content, h, _, rfl => content.built h

end

mutual

/-- A filled tree is put together from the children as well. -/
theorem Node.built_fillSlot : {node node' : Node} → node.fillSlot own = some node' →
    (∀ u ∈ node.uses, good u) → Built good own node'
  | .element e, _, h, hgood => by
    rw [Node.fillSlot, Option.map_eq_some_iff] at h
    obtain ⟨e', he, rfl⟩ := h
    exact e.built_fillSlot he hgood
  | .conditional ⟨node, _, _, _⟩, _, h, hgood => by
    rw [Node.fillSlot, Option.map_eq_some_iff] at h
    obtain ⟨q', hq, rfl⟩ := h
    rw [Conditional.fillSlot, Option.map_eq_some_iff] at hq
    obtain ⟨node', hnode, rfl⟩ := hq
    exact .conditional (Node.built_fillSlot hnode fun u hu =>
      hgood u (List.mem_append_right _ hu))
  | .repetition _, _, h, _ => by
    rw [Node.fillSlot, Option.map_eq_some_iff] at h
    obtain ⟨r', -, rfl⟩ := h
    exact .plain (Or.inr ⟨r', rfl⟩)

theorem Element.built_fillSlot : (e : Element) → {e' : Element} → e.fillSlot own = some e' →
    (∀ u ∈ e.uses, good u) → Built good own (.element e')
  | ⟨_, _, _, _, _, attrs, _, _, _, _, children, _⟩, e', h, hgood => by
    rw [Element.fillSlot, Option.map_eq_some_iff] at h
    obtain ⟨children', hchildren, rfl⟩ := h
    refine .element (fun u hu => hgood u (List.mem_append_left _ hu))
      (attributesBuilt attrs fun u hu =>
        hgood u (List.mem_append_right _ (List.mem_append_left _ hu)))
      (nodesBuilt_fillSlot hchildren fun u hu =>
        hgood u (List.mem_append_right _ (List.mem_append_right _ hu)))

theorem nodesBuilt_fillSlot : {nodes nodes' : List Node} → nodesFillSlot own nodes = some nodes' →
    (∀ u ∈ nodesUses nodes, good u) → ∀ node ∈ nodes', Built good own node
  | node :: rest, nodes', h, hgood, part, hpart => by
    have hrest : ∀ u ∈ nodesUses rest, good u := fun u hu =>
      hgood u (List.mem_append_right _ hu)
    by_cases hslot : ∃ slot, node = .slot slot
    · obtain ⟨slot, rfl⟩ := hslot
      rw [nodesFillSlot] at h
      cases h
      rcases List.mem_append.1 hpart with hown | hpart
      · exact .given hown
      · exact nodesBuilt rest hrest part hpart
    · have hnode : ∀ u ∈ node.uses, good u := fun u hu => hgood u (List.mem_append_left _ hu)
      rw [nodesFillSlot_cons (by simpa using hslot)] at h
      split at h
      · rename_i node' hfill
        cases h
        rcases List.mem_cons.1 hpart with heq | hpart
        · exact heq ▸ Node.built_fillSlot hfill hnode
        · exact nodesBuilt rest hrest part hpart
      · rw [Option.map_eq_some_iff] at h
        obtain ⟨rest', hfill, rfl⟩ := h
        rcases List.mem_cons.1 hpart with heq | hpart
        · exact heq ▸ node.built hnode
        · exact nodesBuilt_fillSlot hfill hrest part hpart

end

/-- **The tree of an instance** is put together from its children and from what is written in the
tree of the component. -/
theorem built_withChildren {node : Node} (h : ∀ u ∈ node.uses, good u) :
    Built good own (node.withChildren own) := by
  unfold Node.withChildren
  split
  · exact node.built h
  · rcases hfill : node.fillSlot own with _ | filled
    · exact node.built h
    · exact Node.built_fillSlot hfill h

end Built

/-! ## Ends of what is put together -/

section Ends

variable {env : Environment} {place : Surroundings → Context → Prop} {good : Use → Prop}

/-- A node ends in all places of a sort. -/
def EndsIn (env : Environment) (place : Surroundings → Context → Prop) (node : Node) : Prop :=
  ∀ at' c, place at' c → Ends Prod.snd fun fuel => generateNode env fuel at' node c

theorem EndsIn.mono {place' : Surroundings → Context → Prop} {node : Node}
    (h : EndsIn env place node) (hplace : ∀ at' c, place' at' c → place at' c) :
    EndsIn env place' node := fun at' c hc => h at' c (hplace at' c hc)

/-- An element ends if it does as a node. -/
theorem generateElement_ends_of_node {at' : Surroundings} {e : Element} {c : Context}
    (h : Ends Prod.snd fun fuel => generateNode env fuel at' (.element e) c) :
    Ends Prod.snd fun fuel => generateElement env fuel at' e c := by
  obtain ⟨n, hstable, hstops⟩ := h
  dsimp only at hstable hstops
  have hnode : ∀ fuel, n ≤ fuel → generateNode env n at' (.element e) c
      = asNode (generateElement env fuel at' e c) := fun fuel hfuel => by
    rw [← hstable (fuel + 1) (by omega), generateNode_element]
    rfl
  have hinj : ∀ r r' : Generated Element Nat × Context, asNode r = asNode r' → r = r' := by
    rintro ⟨⟨e, d | id⟩, c⟩ ⟨⟨e', d' | id'⟩, c'⟩ heq <;> cases heq <;> rfl
  refine ⟨n, fun fuel hfuel => hinj _ _ ((hnode fuel hfuel).symm.trans (hnode n le_rfl)), ?_⟩
  rw [hnode n le_rfl] at hstops
  dsimp only
  rcases hrun : generateElement env n at' e c with ⟨⟨e', d | id⟩, c'⟩
  · rw [hrun] at hstops
    exact hstops.pass
  · exact .ok _ _

/-- The references and instances with good uses end in the places of a sort, and these places stay
of that sort. -/
structure Handles (env : Environment) (place : Surroundings → Context → Prop) (good : Use → Prop) :
    Prop where
  mono : ∀ {at' c c'}, place at' c → c.Extends c' → place at' c'
  shown : ∀ {r}, good (.shown r) → ∀ at' c, place at' c →
    Ends id fun fuel => generateReference env fuel at' r c
  expand : ∀ {e : Element}, e.isInstance → (∀ u ∈ e.ownUses, good u) →
    (∀ name x, Dict.get? e.attrs name = some (.element x) → EndsIn env place (.element x)) →
    (∀ child ∈ e.children, EndsIn env place child) → ∀ at' c, place at' c →
    Ends Prod.snd fun fuel => expandInstance env fuel at' e c

/-- **A node ends** because the nodes that it is put together from do. -/
theorem Built.endsIn {own : List Node} {node : Node} (h : Built good own node)
    (hhandles : Handles env place good) (hown : ∀ part ∈ own, EndsIn env place part) :
    EndsIn env place node := by
  induction h with
  | given mem => exact hown _ mem
  | plain plain => exact fun at' c _ => generateNode_plain_ends plain
  | shown shown => exact fun at' c hc => generateNode_dynamic_ends (hhandles.shown shown at' c hc)
  | conditional _ ih => exact fun at' c hc => generateNode_conditional_ends (ih at' c hc)
  | @element e uses _ _ ihAttrs ihChildren =>
    intro at' c hc
    refine generateNode_element_ends ?_
    by_cases he : e.isInstance
    · exact generateElement_instance_ends he (hhandles.expand he uses
        (fun name x hx => ihAttrs _ (Dict.mem_of_get? hx) x rfl) ihChildren at' c hc)
    · exact generateElement_tag_ends (by simpa using he) fun child hchild c' hc' =>
        ihChildren child hchild at' c' (hhandles.mono hc hc')

end Ends

end PageCompiler
