import PageCompiler.Proofs.Keys.Assignment
import PageCompiler.Proofs.Resolve.Defaults
import PageCompiler.Proofs.Resolve.Embedding

/-!
# Where embedded markup stands

An element that carries markup can stand anywhere in a tree: in a slot, a conditional or a
repetition, among children, or among attributes. All passes leave it there; only a link puts an
element of its own around it. So the nodes that stand for the markup are found at the same place of
the resolved tree.

* `Node.Finishes`, `Node.Finishes.element`: what becomes of a tree, and of an element, in all
  passes.
* `Corresponds`: two trees have related elements wherever the first one has an element with markup.
* `Component.corresponds`: a component and what it is resolved to.
-/

namespace PageCompiler

open Html

/-! ## The passes together -/

/-- What becomes of a tree of a component once links are carried out: its styles are resolved,
markup is embedded, the mapping is applied, and keys and names are given. -/
def Node.Finishes (o : Options) : Node → Node → Prop :=
  Relation.Comp (fun node node' => node.mapElements (Element.resolveStyles o.assets) = node') <|
  Relation.Comp (Node.Becomes Element.embed) <|
  Relation.Comp (Node.Becomes (Element.applyMapping .html o)) <|
  Relation.Comp (Node.Walked (.ofElement claimKey)) (Node.Walked (.ofNames nameSource))

theorem enters_finishes (o : Options) : Enters (Node.Finishes o) :=
  (@carries_resolveStyles .html _).enters.comp <| (@carries_embed .html).enters.comp <|
    (@carries_applyMapping .html _).enters.comp <|
      (carries_walked _).enters.comp (carries_walked _).enters

/-- The nodes among the children of an element stand for markup that the element has carried. -/
structure Embeds (o : Options) (e : Element) (html : String) (e' : Element) : Prop where
  elementType : e'.elementType = "div"
  isInstance : e'.isInstance = e.isInstance
  children : Depicts (mappedLook o) (unwrapAll (parseDocument html)) e'.children

/-- The mapping for plain pages does not move attributes of an element. -/
def Element.KeepsAttributes (e : Element) : Prop :=
  ∀ m, Dict.get? Mapping.html.elements e.elementType = some m → m.attrs = []

theorem Attribute.node?_place (assets : Assets) (value : Attribute) :
    (value.place assets).node? = value.node? := by
  rcases value with (_ | _ | _) | _ | _ | _ | _ | _ | _ <;> rfl

theorem attributeNodes_modify (assets : Assets) (names : List String) (attrs : Attributes) :
    attributeNodes (names.foldl (fun attrs name => Dict.modify attrs name (·.place assets)) attrs)
      = attributeNodes attrs := by
  induction names generalizing attrs with
  | nil => rfl
  | cons name rest ih =>
    rw [List.foldl_cons, ih, Dict.modify, attributeNodes, List.filterMap_map]
    refine List.filterMap_congr fun entry _ => ?_
    rw [Function.comp_apply]
    split
    · exact entry.2.node?_place assets
    · rfl

/-- The mapping leaves the trees among the attributes of an element whose attributes it does not
move. -/
theorem Element.KeepsAttributes.nodes {e : Element} (h : e.KeepsAttributes) (o : Options) :
    attributeNodes (e.applyMapping .html o).attrs = attributeNodes e.attrs := by
  rw [e.attrs_applyMapping, attributeNodes_modify]
  rcases hm : Dict.get? Mapping.html.elements e.elementType with _ | m
  · rfl
  · rw [Option.map_some, Option.getD_some, h m hm]
    rfl

/-- **What becomes of an element**: all passes go through its children, or the markup that it carries
takes their place; they go through its attributes when the mapping does not move them. -/
theorem Node.Finishes.element {o : Options} {e : Element} {after : Node}
    (h : (Node.element e).Finishes o after) : ∃ e', after = .element e' ∧
      (e.KeepsAttributes → List.Forall₂ (Node.Finishes o) (attributeNodes e.embed.attrs)
        (attributeNodes e'.attrs)) ∧
      (e.embeddedHtml? = none → List.Forall₂ (Node.Finishes o) e.children e'.children) ∧
      ∀ html, e.embeddedHtml? = some html → Embeds o e html e' := by
  obtain ⟨_, hstyled, _, hembedded, _, hmapped, _, hkeyed, hnamed⟩ := h
  obtain ⟨_, styled, rfl, rfl, hstyled⟩ := (goes_mapElements _).element hstyled
  obtain ⟨_, embedded, rfl, rfl, hembedded⟩ := (goes_becomes _).element hembedded
  obtain ⟨_, mapped, rfl, rfl, hmapped⟩ := (goes_becomes _).element hmapped
  obtain ⟨_, keyed, rfl, ⟨_, rfl⟩, hkeyed⟩ := (goes_walked _).element hkeyed
  obtain ⟨_, named, rfl, ⟨_, rfl⟩, hnamed⟩ := (goes_walked _).element hnamed
  have hhtml : styled.embeddedHtml? = e.embeddedHtml? := hstyled.embeddedHtml?
  have htype : embedded.elementType = e.elementType :=
    hembedded.elementType.trans (styled.elementType_embed.trans hstyled.elementType)
  refine ⟨named, rfl, fun hkeeps => ?_, fun hnone => ?_, fun html hsome => ?_⟩
  · have hstyled := hstyled.nodes_embed
    rw [Element.attrs_embed] at hstyled
    rw [e.attrs_embed]
    have hnodes : Element.KeepsAttributes embedded := fun m hm => hkeeps m (htype ▸ hm)
    have hmapped := hmapped.attrs.nodes
    rw [hnodes.nodes o] at hmapped
    exact forall₂_comp hstyled <| forall₂_comp hembedded.attrs.nodes <|
      forall₂_comp hmapped <| forall₂_comp hkeyed.attrs.nodes hnamed.attrs.nodes
  · have hembedded := hembedded.children
    have hmapped := hmapped.children
    rw [Element.embed_of_none (hhtml.trans hnone)] at hembedded
    rw [Element.children_applyMapping] at hmapped
    exact forall₂_comp hstyled.children <| forall₂_comp hembedded <|
      forall₂_comp hmapped <| forall₂_comp hkeyed.children hnamed.children
  · have htree := hembedded.children
    rw [Element.embed_of_some (hhtml.trans hsome)] at htree
    obtain ⟨fuel, htree⟩ := exists_mapM_of_becomes htree
    have hmapped' := hmapped.children
    rw [Element.children_applyMapping] at hmapped'
    refine ⟨?_, ?_, ?_⟩
    · refine (hnamed.elementType.trans (hkeyed.elementType.trans hmapped.elementType)).trans ?_
      rw [embedded.elementType_applyMapping, htype, Element.elementType_of_embeddedHtml? hsome]
      decide +kernel
    · have hbefore : embedded.dependency = e.dependency :=
        hembedded.dependency.trans (styled.dependency_embed.trans hstyled.dependency)
      have hafter : named.dependency = (embedded.applyMapping .html o).dependency :=
        hnamed.dependency.trans (hkeyed.dependency.trans hmapped.dependency)
      refine Element.isInstance_eq ?_
      rw [hafter, embedded.dependency_applyMapping, hbefore]
    · have hkeys := ((depicts_embed htree).mapped hmapped').walked (fun _ _ => ⟨_, rfl⟩)
        hkeyed.children
      exact hkeys.walked (fun e _ => ⟨e.key, by cases e; rfl⟩) hnamed.children

/-! ## Trees -/

/-- Where an element of a tree carries markup, another tree has, at the same place, an element that
is related to it. An element that leads somewhere stands in the element that is put around it; what
is inside an element with markup of its own is not part of the tree. -/
inductive Corresponds (related : Element → String → Element → Prop) : List Node → List Node → Prop
  | nil : Corresponds related [] []
  | plain {node node' : Node} {nodes nodes' : List Node} (plain : node.elements = [])
      (rest : Corresponds related nodes nodes') :
      Corresponds related (node :: nodes) (node' :: nodes')
  | slot {name : Option String} {node node' : Node} {nodes nodes' : List Node}
      (inside : Corresponds related [node] [node']) (rest : Corresponds related nodes nodes') :
      Corresponds related (.slot ⟨name, some node⟩ :: nodes) (.slot ⟨name, some node'⟩ :: nodes')
  | conditional {q q' : Conditional} {nodes nodes' : List Node}
      (inside : Corresponds related [q.node] [q'.node]) (rest : Corresponds related nodes nodes') :
      Corresponds related (.conditional q :: nodes) (.conditional q' :: nodes')
  | repetition {r r' : Repetition} {nodes nodes' : List Node}
      (inside : Corresponds related [r.node] [r'.node]) (rest : Corresponds related nodes nodes') :
      Corresponds related (.repetition r :: nodes) (.repetition r' :: nodes')
  | linked {e wrapper : Element} {node' : Node} {nodes nodes' : List Node} (linked : ¬ e.Unlinked)
      (inside : Corresponds related [.element { e with abilities := none }] [node'])
      (holds : wrapper.children = [node']) (rest : Corresponds related nodes nodes') :
      Corresponds related (.element e :: nodes) (.element wrapper :: nodes')
  | element {e e' : Element} {nodes nodes' : List Node} (unlinked : e.Unlinked)
      (attributes : e.KeepsAttributes →
        Corresponds related (attributeNodes e.embed.attrs) (attributeNodes e'.attrs))
      (children : e.embeddedHtml? = none → Corresponds related e.children e'.children)
      (carries : ∀ html, e.embeddedHtml? = some html → related e html e')
      (rest : Corresponds related nodes nodes') :
      Corresponds related (.element e :: nodes) (.element e' :: nodes')

section Sizes

theorem sizeOf_attributeNodes_le (attrs : Attributes) (p : String × Attribute → Bool) :
    sizeOf (attributeNodes (attrs.filter p)) ≤ sizeOf attrs := by
  induction attrs with
  | nil => exact le_rfl
  | cons entry rest ih =>
    obtain ⟨name, value⟩ := entry
    have hskip : sizeOf rest ≤ sizeOf ((name, value) :: rest) := by
      rw [List.cons.sizeOf_spec]
      omega
    rw [List.filter_cons]
    split
    · cases value with
      | element e =>
        change sizeOf (Node.element e :: attributeNodes (rest.filter p)) ≤ _
        simp only [List.cons.sizeOf_spec, Prod.mk.sizeOf_spec, Attribute.element.sizeOf_spec,
          Node.element.sizeOf_spec]
        omega
      | _ => exact ih.trans hskip
    · exact ih.trans hskip

theorem Element.sizeOf_attributeNodes_lt (e : Element) :
    sizeOf (attributeNodes e.embed.attrs) < sizeOf e := by
  rw [attrs_embed]
  refine (sizeOf_attributeNodes_le _ _).trans_lt ?_
  cases e
  rw [Element.mk.sizeOf_spec]
  dsimp only
  omega

theorem Element.sizeOf_children_lt (e : Element) : sizeOf e.children < sizeOf e := by
  cases e
  rw [Element.mk.sizeOf_spec]
  dsimp only
  omega

theorem Element.sizeOf_unlinked_lt {e : Element} (h : ¬ e.Unlinked) :
    sizeOf { e with abilities := none } < sizeOf e := by
  obtain ⟨_, _, _, _, _, _, _, _, _, _ | ⟨_ | link⟩, _, _⟩ := e
  · exact absurd rfl h
  · exact absurd rfl h
  · simp only [Element.mk.sizeOf_spec, Option.none.sizeOf_spec, Option.some.sizeOf_spec,
      Abilities.mk.sizeOf_spec]
    omega

end Sizes

/-- An element with a link is put into one that carries no markup. -/
theorem Element.exists_wrapLinks (o : Options) {e : Element} (h : ¬ e.Unlinked) :
    ∃ wrapper : Element, wrapper.embeddedHtml? = none ∧
      wrapper.children = [(Node.element { e with abilities := none }).wrapLinks o] ∧
      e.wrapLinks o = wrapper := by
  obtain ⟨key, _, _, _, _, _, _, _, _, _ | ⟨_ | link⟩, _, _⟩ := e
  · exact absurd rfl h
  · exact absurd rfl h
  · refine ⟨_, ?_, ?_, rfl⟩
    · cases link <;> rfl
    · rfl

/-- **Embedded markup stays where it is.** Once links are carried out and all passes are done, the
nodes that stand for the markup of an element are the children of an element at the same place. -/
theorem corresponds (o : Options) (nodes : List Node) {nodes' : List Node}
    (h : List.Forall₂ (fun node node' => (node.wrapLinks o).Finishes o node') nodes nodes') :
    Corresponds (Embeds o) nodes nodes' := by
  match nodes, h with
  | [], .nil => exact .nil
  | .slot ⟨name, some node⟩ :: rest, .cons hslot hrest =>
    obtain ⟨node', rfl, hnode⟩ := (enters_finishes o).slot hslot
    exact .slot (corresponds o [node] (.cons hnode .nil)) (corresponds o rest hrest)
  | .conditional ⟨node, _, _, _⟩ :: rest, .cons hq hrest =>
    obtain ⟨q', rfl, hnode⟩ := (enters_finishes o).conditional hq
    exact .conditional (corresponds o [node] (.cons hnode .nil)) (corresponds o rest hrest)
  | .repetition ⟨node, _, _⟩ :: rest, .cons hr hrest =>
    obtain ⟨r', rfl, hnode⟩ := (enters_finishes o).repetition hr
    exact .repetition (corresponds o [node] (.cons hnode .nil)) (corresponds o rest hrest)
  | .element e :: rest, .cons he hrest =>
    by_cases hlinked : e.Unlinked
    · have hvia := e.wrapLinks_via o hlinked
      obtain ⟨e', rfl, hattrs, hchildren, hcarries⟩ := Node.Finishes.element he
      rw [hvia.embeddedHtml?] at hchildren hcarries
      have hcarries' : ∀ html, e.embeddedHtml? = some html → Embeds o e html e' := fun html hsome =>
        have hembeds := hcarries html hsome
        ⟨hembeds.elementType,
          hembeds.isInstance.trans (Element.isInstance_eq (by rw [hvia.dependency])),
          hembeds.children⟩
      refine .element hlinked (fun hkeeps => ?_) (fun hnone => ?_) hcarries'
        (corresponds o rest hrest)
      · have hkeeps' : (e.wrapLinks o).KeepsAttributes :=
          fun m hm => hkeeps m (hvia.elementType ▸ hm)
        refine corresponds o _ ((forall₂_comp hvia.nodes_embed (hattrs hkeeps')).imp ?_)
        rintro node node' ⟨_, rfl, hnode⟩
        exact hnode
      · refine corresponds o _ ((forall₂_comp hvia.children (hchildren hnone)).imp ?_)
        rintro node node' ⟨_, rfl, hnode⟩
        exact hnode
    · obtain ⟨wrapper, hplain, hholds, hwrapper⟩ := e.exists_wrapLinks o hlinked
      rw [Node.wrapLinks, hwrapper] at he
      obtain ⟨e', rfl, -, hchildren, -⟩ := Node.Finishes.element he
      have hinside := hchildren hplain
      rw [hholds] at hinside
      obtain ⟨node', _, hnode, hnil, hsame⟩ := List.forall₂_cons_left_iff.1 hinside
      rw [List.forall₂_nil_left_iff.1 hnil] at hsame
      have hinner := corresponds o [.element { e with abilities := none }] (.cons hnode .nil)
      exact .linked hlinked hinner hsame (corresponds o rest hrest)
  | .slot ⟨name, none⟩ :: rest, .cons _ hrest => exact .plain rfl (corresponds o rest hrest)
  | .constant _ :: rest, .cons _ hrest => exact .plain rfl (corresponds o rest hrest)
  | .raw _ :: rest, .cons _ hrest => exact .plain rfl (corresponds o rest hrest)
  | .dynamic _ :: rest, .cons _ hrest => exact .plain rfl (corresponds o rest hrest)
  | .inject _ :: rest, .cons _ hrest => exact .plain rfl (corresponds o rest hrest)
  | .expr _ :: rest, .cons _ hrest => exact .plain rfl (corresponds o rest hrest)
termination_by sizeOf nodes
decreasing_by
  all_goals
    simp only [List.cons.sizeOf_spec, List.nil.sizeOf_spec, Node.element.sizeOf_spec,
      Node.slot.sizeOf_spec, Node.conditional.sizeOf_spec, Node.repetition.sizeOf_spec,
      Slot.mk.sizeOf_spec, Conditional.mk.sizeOf_spec, Repetition.mk.sizeOf_spec,
      Option.some.sizeOf_spec]
  all_goals first
    | omega
    | have := e.sizeOf_children_lt; omega
    | have := e.sizeOf_attributeNodes_lt; omega
    | have := Element.sizeOf_unlinked_lt hlinked
      have : 0 < sizeOf rest := by cases rest <;> simp
      omega

theorem nodesElements_attributeNodes (attrs : Attributes) :
    nodesElements (attributeNodes attrs) = attributesElements attrs := by
  induction attrs with
  | nil => rfl
  | cons entry rest ih =>
    obtain ⟨name, value⟩ := entry
    cases value with
    | element e => exact congrArg (e.elements ++ ·) ih
    | _ => exact ih

theorem nodesElements_singleton (node : Node) : nodesElements [node] = node.elements := by
  rw [nodesElements, nodesElements, List.append_nil]

/-- The related elements can be taken to have keys of their own below them. -/
theorem Corresponds.imp {related related' : Element → String → Element → Prop}
    {nodes nodes' : List Node} (h : Corresponds related nodes nodes')
    (hkeys : ((nodesElements nodes').map (·.key)).Nodup)
    (himp : ∀ e html e', related e html e' → ((nodesElements e'.children).map (·.key)).Nodup →
      related' e html e') : Corresponds related' nodes nodes' := by
  induction h with
  | nil => exact .nil
  | plain hplain _ ih =>
    rw [nodesElements, List.map_append] at hkeys
    exact .plain hplain (ih hkeys.of_append_right)
  | slot _ _ ihinside ih =>
    rw [nodesElements, List.map_append] at hkeys
    refine .slot (ihinside ?_) (ih hkeys.of_append_right)
    rw [nodesElements_singleton]
    exact hkeys.of_append_left
  | @conditional q q' nodes nodes' _ _ ihinside ih =>
    rw [nodesElements, List.map_append] at hkeys
    refine .conditional (ihinside ?_) (ih hkeys.of_append_right)
    obtain ⟨_, _, _, _⟩ := q'
    rw [nodesElements_singleton]
    exact hkeys.of_append_left
  | @repetition r r' nodes nodes' _ _ ihinside ih =>
    rw [nodesElements, List.map_append] at hkeys
    refine .repetition (ihinside ?_) (ih hkeys.of_append_right)
    obtain ⟨_, _, _⟩ := r'
    rw [nodesElements_singleton]
    exact hkeys.of_append_left
  | @linked e wrapper node' nodes nodes' linked _ holds _ ihinside ih =>
    rw [nodesElements, List.map_append] at hkeys
    refine .linked linked (ihinside ?_) holds (ih hkeys.of_append_right)
    have hwrapper := hkeys.of_append_left
    rw [Node.elements, Element.elements_eq, List.map_cons, List.map_append, holds] at hwrapper
    exact hwrapper.of_cons.of_append_right
  | @element e e' nodes nodes' unlinked _ _ carries _ ihattrs ihchildren ih =>
    rw [nodesElements, List.map_append] at hkeys
    have hbelow := hkeys.of_append_left
    rw [Node.elements, Element.elements_eq, List.map_cons, List.map_append] at hbelow
    refine .element unlinked (fun hkeeps => ihattrs hkeeps ?_) (fun hnone => ihchildren hnone ?_)
      (fun html hsome => himp _ _ _ (carries html hsome) ?_) (ih hkeys.of_append_right)
    · rw [nodesElements_attributeNodes]
      exact hbelow.of_cons.of_append_left
    · exact hbelow.of_cons.of_append_right
    · exact hbelow.of_cons.of_append_right

/-- What a resolution makes of the tree of a component. -/
theorem Component.corresponds {c resolved : Component} {o : Options}
    {related : Element → String → Element → Prop} (ho : o.mapping = none)
    (h : c.resolve .html o = .ok resolved) (himp : ∀ e html e', Embeds o e html e' →
      ((nodesElements e'.children).map (·.key)).Nodup → related e html e') :
    Corresponds related [c.node] [resolved.node] := by
  obtain ⟨tree, ⟨embedded, hembedded, hmapped⟩, keyed, hkeyed, hnamed⟩ := (resolve_resolved h).node
  have hmapping : o.effectiveMapping .html = .html := by rw [Options.effectiveMapping, ho]
  rw [hmapping] at hmapped
  have hfinishes : (c.node.wrapLinks o).Finishes o resolved.node :=
    ⟨_, rfl, embedded, hembedded, tree, hmapped, keyed, hkeyed, hnamed⟩
  have hkeys := Component.nodup_keys_resolveWith h
  rw [Component.elements, Component.trees, List.flatMap_cons, List.map_append] at hkeys
  refine (PageCompiler.corresponds o [c.node] (.cons hfinishes .nil)).imp ?_ himp
  rw [nodesElements_singleton]
  exact hkeys.of_append_left

end PageCompiler
