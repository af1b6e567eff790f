import PageCompiler.Mapping.Targets
import PageCompiler.Proofs.Resolve.Passes

/-!
# Element defaults in a resolution

The tree of a component is taken through all passes, and so are the trees that stand in it. The
element defaults of props are taken through two of them: the mapping, and the one that gives keys
and names. Links, addresses in styles, conditions of styles and embedded markup stay in a default as
they are.

* `Resolved`: what becomes of the tree and of the element defaults of a component.
* `Component.resolve_defaults`: a default that has nothing for the other passes becomes what it
  becomes in the tree of a component, but for keys.
-/

namespace PageCompiler

/-! ## The tree and the defaults of a resolved component -/

/-- An element default among definitions of props. -/
def HasDefault (props : Dict PropDefinition) (name : String) (node : Node) : Prop :=
  ∃ d, (name, d) ∈ props ∧ d.default = some (.node node)

section Steps

variable {c : Component} {o : Options} {name : String} {node : Node}

theorem HasDefault.place (h : HasDefault c.props name node) (assets : Assets) :
    HasDefault (c.placeDefaults assets).props name node := by
  obtain ⟨d, hd, hnode⟩ := h
  exact ⟨_, List.mem_map_of_mem hd, by dsimp only; rw [hnode]; rfl⟩

/-- Applying a mapping to a component applies it to its tree and to each default by itself. -/
theorem Component.applyMapping_trees {mapping : Mapping} {mapped : Component}
    (h : c.applyMapping mapping o = .ok mapped) :
    c.node.Becomes (Element.applyMapping mapping o) mapped.node ∧
      ∀ name node, HasDefault c.props name node → ∃ node', HasDefault mapped.props name node' ∧
        node.Becomes (Element.applyMapping mapping o) node' := by
  obtain ⟨tree, htree, h⟩ := exists_of_bind_eq_ok h
  obtain ⟨props, hprops, h⟩ := exists_of_bind_eq_ok h
  cases h
  refine ⟨⟨_, htree⟩, fun name node ⟨d, hd, hnode⟩ => ?_⟩
  obtain ⟨entry, hentry, hd⟩ := exists_of_forall₂_left (forall₂_of_mapM hprops) hd
  obtain ⟨d', hd', hd⟩ := exists_of_bind_eq_ok hd
  cases hd
  rw [PropDefinition.updateM, hnode] at hd'
  obtain ⟨node', hnode', hd'⟩ := exists_of_bind_eq_ok hd'
  cases hd'
  exact ⟨node', ⟨_, hentry, rfl⟩, _, hnode'⟩

theorem exists_mem_mapM_state {α β σ : Type} {g : α → StateM σ β} {l : List α} {a : α} (h : a ∈ l)
    (s : σ) : ∃ s', (g a s').1 ∈ (l.mapM g s).1 := by
  induction l generalizing s with
  | nil => cases h
  | cons first rest ih =>
    rw [List.mapM_cons]
    rcases List.mem_cons.1 h with rfl | h
    · exact ⟨s, List.mem_cons_self⟩
    · obtain ⟨s', hmem⟩ := ih h (g first s).2
      exact ⟨s', List.mem_cons_of_mem _ hmem⟩

/-- A walk over a component changes its tree and each default by itself. -/
theorem Component.updateM_trees {σ : Type} (v : Visitor (StateM σ)) (c : Component) (s : σ) :
    c.node.Walked v (c.updateM v s).1.node ∧
      ∀ name node, HasDefault c.props name node → ∃ node', HasDefault (c.updateM v s).1.props
        name node' ∧ node.Walked v node' := by
  refine ⟨⟨s, rfl⟩, fun name node ⟨d, hd, hnode⟩ => ?_⟩
  obtain ⟨s', hmem⟩ := exists_mem_mapM_state (g := fun entry : String × PropDefinition => do
    return (entry.1, ← entry.2.updateM (Node.updateM v))) hd (c.node.updateM v s).2
  refine ⟨(node.updateM v s').1, ⟨_, hmem, ?_⟩, s', rfl⟩
  obtain ⟨kind, default, isRequired⟩ := d
  cases hnode
  rfl

/-- Keys and names are given in the tree and in each default by itself. -/
theorem Component.number_trees {named : Component}
    (h : c.assignFreshKeys.nameDataSources = .ok named) : c.node.Numbered named.node ∧
      ∀ name node, HasDefault c.props name node → ∃ node', HasDefault named.props name node' ∧
        node.Numbered node' := by
  rw [nameDataSources] at h
  split at h
  · cases h
  cases h
  obtain ⟨hkeyed, hkeyedDefault⟩ := c.updateM_trees (.ofElement claimKey) (countElements {} c.elements)
  obtain ⟨hnamed, hnamedDefault⟩ := c.assignFreshKeys.updateM_trees (.ofNames nameSource)
    { used := c.assignFreshKeys.dataSources }
  refine ⟨⟨_, hkeyed, hnamed⟩, fun name node hnode => ?_⟩
  obtain ⟨keyed, hkeyed, hwalked⟩ := hkeyedDefault name node hnode
  obtain ⟨node', hnamed, hwalked'⟩ := hnamedDefault name keyed hkeyed
  exact ⟨node', hnamed, keyed, hwalked, hwalked'⟩

theorem Component.resolveHead_trees {resolved : Component} {assets : Assets}
    (h : c.resolveHead assets = .ok resolved) :
    resolved.node = c.node ∧ resolved.props = c.props := by
  rw [resolveHead] at h
  split at h
  · obtain ⟨head, -, h⟩ := exists_of_bind_eq_ok h
    cases h
    exact ⟨rfl, rfl⟩
  · cases h
    exact ⟨rfl, rfl⟩

end Steps

/-- What becomes of the tree of a component and of its element defaults. -/
structure Resolved (mapping : Mapping) (o : Options) (c c' : Component) : Prop where
  node : ∃ tree, c.node.Normalizes mapping o tree ∧ tree.Numbered c'.node
  default : ∀ name node, HasDefault c.props name node → ∃ tree node',
    HasDefault c'.props name node' ∧ node.Becomes (Element.applyMapping mapping o) tree ∧
      tree.Numbered node'

/-- **What a resolution does** to the tree of a component and to its element defaults. -/
theorem Component.resolve_resolved {c c' : Component} {base : Mapping} {o : Options}
    (h : c.resolve base o = .ok c') : Resolved (o.effectiveMapping base) o c c' := by
  obtain ⟨_, -, h⟩ := exists_of_bind_eq_ok h
  obtain ⟨linked, hlinked, h⟩ := exists_of_bind_eq_ok h
  cases hlinked
  obtain ⟨embedded, hembedded, h⟩ := exists_of_bind_eq_ok h
  obtain ⟨tree, htree, hembedded⟩ := exists_of_bind_eq_ok hembedded
  cases hembedded
  obtain ⟨mapped, hmapped, h⟩ := exists_of_bind_eq_ok h
  obtain ⟨named, hnamed, h⟩ := exists_of_bind_eq_ok h
  obtain ⟨hnode, hprops⟩ := resolveHead_trees h
  obtain ⟨hmappedNode, hmappedDefault⟩ := applyMapping_trees hmapped
  obtain ⟨hnamedNode, hnamedDefault⟩ := number_trees hnamed
  refine ⟨⟨mapped.node, ⟨tree, ⟨_, htree⟩, hmappedNode⟩, hnode ▸ hnamedNode⟩,
    fun name node hdefault => ?_⟩
  obtain ⟨tree', hdefault, hbecomes⟩ := hmappedDefault name node (hdefault.place o.assets)
  obtain ⟨node', hdefault, hnumbered⟩ := hnamedDefault name tree' hdefault
  exact ⟨tree', node', hprops ▸ hdefault, hbecomes, hnumbered⟩

/-! ## Defaults and trees -/

/-- A tree without anything for the passes that do not reach defaults: links, styles to place or to
sort, embedded markup. -/
def Node.IsPlain (assets : Assets) (node : Node) : Prop :=
  ∀ e ∈ node.elements, e.Unlinked ∧ e.resolveStyles assets = e ∧ e.embed = e

/-- For a plain tree, normalizing it is applying the mapping. -/
theorem Node.Normalizes.becomes {mapping : Mapping} {o : Options} {node node' : Node}
    (h : node.Normalizes mapping o node') (hplain : node.IsPlain o.assets) :
    node.Becomes (Element.applyMapping mapping o) node' := by
  obtain ⟨embedded, ⟨_, hembedded⟩, hmapped⟩ := h
  rw [node.wrapLinks_eq o fun e he => (hplain e he).1,
    Node.mapElements_eq fun e he => (hplain e he).2.1] at hembedded
  rwa [Node.transform_fixed hembedded fun e he => (hplain e he).2.2] at hmapped

/-- **Element defaults and trees.** A resolution takes the tree of a component through all passes,
and leaves no link in it when the mapping has none. It takes each element default through the mapping
and gives it keys. So a default with links, styles to place or to sort, or embedded markup keeps
them; any other one becomes, but for keys, what it becomes in the tree of every component in which
it stands below elements that keep their children. -/
theorem Component.resolve_defaults {c c' : Component} {base : Mapping} {o : Options}
    (h : c.resolve base o = .ok c') :
    (∃ tree, c.node.Normalizes (o.effectiveMapping base) o tree ∧ tree.Numbered c'.node) ∧
      ((o.effectiveMapping base).Unlinked → c'.node.Unlinked) ∧
      ∀ name node, HasDefault c.props name node → ∃ tree node', HasDefault c'.props name node' ∧
        node.Becomes (Element.applyMapping (o.effectiveMapping base) o) tree ∧
        tree.Numbered node' ∧
        ((o.effectiveMapping base).Unlinked → node.Unlinked → node'.Unlinked) ∧
        (node.IsPlain o.assets → ∀ other other' : Component, other.resolve base o = .ok other' →
          other.node.Holds (Element.KeepsChildren (o.effectiveMapping base)) node →
          ∃ inner, other'.node.Holds (fun _ => True) inner ∧ tree.Numbered inner) := by
  have hc := resolve_resolved h
  obtain ⟨tree, htree, hnumbered⟩ := hc.node
  refine ⟨hc.node, fun hmapping => hnumbered.unlinked (htree.unlinked hmapping),
    fun name node hdefault => ?_⟩
  obtain ⟨tree, node', hdefault', hbecomes, hnumbered⟩ := hc.default name node hdefault
  refine ⟨tree, node', hdefault', hbecomes, hnumbered, fun hmapping hnode => ?_,
    fun hplain other other' hother hholds => ?_⟩
  · obtain ⟨_, hmapped⟩ := hbecomes
    exact hnumbered.unlinked
      (Node.transform_keeps own_unlinked (keepsAll_applyMapping hmapping o) hmapped hnode)
  · obtain ⟨otherTree, hnormalizes, hotherNumbered⟩ := (resolve_resolved hother).node
    obtain ⟨mapped, hholds, hmapped⟩ := hholds.normalizes hnormalizes
    obtain ⟨inner, hholds, hinner⟩ := hholds.numbered hotherNumbered
    exact ⟨inner, hholds, (hmapped.becomes hplain).unique hbecomes ▸ hinner⟩

/-- The built-in mappings have no links. -/
theorem Mapping.unlinked_html : Mapping.html.Unlinked := by
  decide +kernel

/-- A text with a child. -/
def plainNote : Node := .element {
  elementType := "text", key := "note", children := [.text "hi"] }

/-- A component that has a text as a default. -/
def notedCard : Component where
  name := "Card"
  node := .element { elementType := "container", key := "card" }
  props := [("note", { kind := "element", default := some (.node plainNote) })]

/-- A component that has the same text in its tree. -/
def notePage : Component where
  name := "Page"
  node := .element { elementType := "container", key := "page", children := [plainNote] }

theorem notedCard_alike : ∃ (resolved resolvedPage : Component)
    (tree note inner : Node),
    notedCard.resolve .html {} = .ok resolved ∧ notePage.resolve .html {} = .ok resolvedPage ∧
    resolved.node.Unlinked ∧ HasDefault resolved.props "note" note ∧ note.Unlinked ∧
    resolvedPage.node.Holds (fun _ => True) inner ∧ tree.Numbered note ∧ tree.Numbered inner := by
  obtain ⟨resolved, h⟩ := exists_of_isOk
    (by decide +kernel : (notedCard.resolve .html {}).isOk = true)
  obtain ⟨resolvedPage, hpage⟩ := exists_of_isOk
    (by decide +kernel : (notePage.resolve .html {}).isOk = true)
  have hplain : plainNote.IsPlain {} := List.forall_mem_singleton.2 ⟨rfl, rfl, rfl⟩
  have hholds : notePage.node.Holds (Element.KeepsChildren .html) plainNote :=
    .child ⟨rfl, by decide, by decide +kernel⟩ List.mem_cons_self (.self _)
  obtain ⟨-, hunlinked, hdefaults⟩ := notedCard.resolve_defaults h
  obtain ⟨tree, note, hdefault, -, hnumbered, hlinks, hsame⟩ :=
    hdefaults "note" plainNote ⟨_, List.mem_cons_self, rfl⟩
  obtain ⟨inner, hinner, hinnerNumbered⟩ := hsame hplain notePage resolvedPage hpage hholds
  exact ⟨resolved, resolvedPage, tree, note, inner, h, hpage, hunlinked Mapping.unlinked_html,
    hdefault, hlinks Mapping.unlinked_html fun e he => (hplain e he).1, hinner, hnumbered,
    hinnerNumbered⟩

/-- The text with a link to an address. -/
def linkedNote : Node := .element {
  elementType := "text", key := "note", children := [.text "hi"]
  abilities := some { link := some (.url (.text "https://a.b") false) } }

/-- A component that has a linked text as a default. -/
def linkedCard : Component :=
  { notedCard with props := [("note", { kind := "element", default := some (.node linkedNote) })] }

/-- The link stays in the default, and does not stay in the tree of a component. -/
theorem linkedCard_keepsLink : ∃ resolved resolvedPage, linkedCard.resolve .html {} = .ok resolved ∧
    (Component.ofNode "Page" linkedNote).resolve .html {} = .ok resolvedPage ∧
    resolvedPage.node.Unlinked ∧ ¬ ∀ e ∈ resolved.elements, e.Unlinked := by
  obtain ⟨resolved, h⟩ := exists_of_isOk
    (by decide +kernel : (linkedCard.resolve .html {}).isOk = true)
  obtain ⟨resolvedPage, hpage⟩ := exists_of_isOk
    (by decide +kernel : ((Component.ofNode "Page" linkedNote).resolve .html {}).isOk = true)
  have hlinked : ∀ resolved ∈ (linkedCard.resolve .html {}).toOption,
      ¬ ∀ e ∈ resolved.elements, e.Unlinked := by decide +kernel
  obtain ⟨tree, htree, hnumbered⟩ := (Component.resolve_resolved hpage).node
  refine ⟨resolved, resolvedPage, h, hpage,
    hnumbered.unlinked (htree.unlinked Mapping.unlinked_html), hlinked resolved ?_⟩
  rw [h]
  rfl

end PageCompiler
