import PageCompiler.Proofs.Keys.Assignment
import PageCompiler.Proofs.Resolve.Passes
import PageCompiler.Proofs.Resolve.Renaming

/-!
# What a mapping brings

A mapped element has below it what it had before, less what got lost, and what the entry for its
type brings: the elements among the attributes of the entry, and those of the template with the
children of the element in it. Elements are counted: none of those the element had is there twice.

* `nodesFraming`: the elements of a filled template that are not those put at its mark.
* `Mapping.brought`: what the entry for an element brings.
* `Element.below_applyMapping`: what a mapped element has below it.
-/

namespace PageCompiler

/-! ## Templates -/

mutual

/-- The elements of a node of a template once children are put at its first mark, without those of
the children. -/
def Node.framing : Node → List Node → List Element
  | .element content, own => content.framing own
  | .slot content, _ => content.elements
  | .conditional content, _ => content.elements
  | .repetition content, _ => content.elements
  | _, _ => []

/-- The elements of an element of a template once children are put at its first mark. -/
def Element.framing : Element → List Node → List Element
  | ⟨key, elementType, name, semanticType, dependency, attrs, events, style, referencedStyles,
      abilities, children, selfClosing⟩, own =>
    (Element.fill ⟨key, elementType, name, semanticType, dependency, attrs, events, style,
      referencedStyles, abilities, children, selfClosing⟩ own).1 ::
        (attributesElements attrs ++ nodesFraming children own)

/-- The elements of a template once children are put at its first mark. -/
def nodesFraming : List Node → List Node → List Element
  | [], _ => []
  | node :: rest, own => node.framing own ++ nodesFraming rest (node.fill own).2

end

section Templates

/-- The elements of nodes, counted. -/
abbrev nodesCounted (nodes : List Node) : Multiset Element := nodesElements nodes

/-- The elements among attributes, counted. -/
abbrev attributesCounted (attrs : Attributes) : Multiset Element := attributesElements attrs

theorem nodesCounted_append (nodes rest : List Node) :
    nodesCounted (nodes ++ rest) = nodesCounted nodes + nodesCounted rest := by
  rw [nodesCounted, nodesElements_append, ← Multiset.coe_add]

theorem nodesCounted_singleton (node : Node) : nodesCounted [node] = node.elements := by
  rw [nodesCounted, nodesElements, nodesElements, List.append_nil]

mutual

/-- The elements of the template and of the children are in the filled template, or among the
children that are left. -/
theorem Node.fill_counted : (node : Node) → (own : List Node) →
    nodesCounted (node.fill own).1 + nodesCounted (node.fill own).2 =
      (node.framing own : Multiset Element) + nodesCounted own
  | .element content, own => by
    rw [Node.fill, nodesCounted_singleton]
    exact content.fill_counted own
  | .dynamic reference, own => by
    rw [Node.fill]
    split
    · exact add_comm _ _
    · rfl
  | .slot content, own => by
    rw [Node.fill, nodesCounted_singleton]
    rfl
  | .conditional content, own => by
    rw [Node.fill, nodesCounted_singleton]
    rfl
  | .repetition content, own => by
    rw [Node.fill, nodesCounted_singleton]
    rfl
  | .constant _, _ => rfl
  | .raw _, _ => rfl
  | .inject _, _ => rfl
  | .expr _, _ => rfl

theorem Element.fill_counted : (e : Element) → (own : List Node) →
    ((e.fill own).1.elements : Multiset Element) + nodesCounted (e.fill own).2 =
      (e.framing own : Multiset Element) + nodesCounted own
  | ⟨_, _, _, _, _, attrs, _, _, _, _, children, _⟩, own => by
    have hchildren := nodes_fill_counted children own
    rw [Element.framing, Element.elements_eq, Element.fill]
    dsimp only
    rw [← Multiset.cons_coe, ← Multiset.cons_coe, ← Multiset.coe_add, ← Multiset.coe_add,
      Multiset.cons_add, Multiset.cons_add, add_assoc, add_assoc, hchildren]

theorem nodes_fill_counted : (nodes : List Node) → (own : List Node) →
    nodesCounted (nodesFill nodes own).1 + nodesCounted (nodesFill nodes own).2 =
      (nodesFraming nodes own : Multiset Element) + nodesCounted own
  | [], _ => rfl
  | node :: rest, own => by
    rw [nodesFill, nodesFraming]
    dsimp only
    rw [nodesCounted_append, add_assoc, nodes_fill_counted rest, ← Multiset.coe_add, add_comm,
      add_assoc, add_comm (nodesCounted _), node.fill_counted, add_left_comm, add_assoc]

end

mutual

/-- A filled template has elements of the types that the template has. -/
theorem Node.framing_types : (node : Node) → (own : List Node) →
    (node.framing own).map (·.elementType) = node.elements.map (·.elementType)
  | .element content, own => content.framing_types own
  | .slot _, _ => rfl
  | .conditional _, _ => rfl
  | .repetition _, _ => rfl
  | .constant _, _ => rfl
  | .dynamic _, _ => rfl
  | .raw _, _ => rfl
  | .inject _, _ => rfl
  | .expr _, _ => rfl

theorem Element.framing_types : (e : Element) → (own : List Node) →
    (e.framing own).map (·.elementType) = e.elements.map (·.elementType)
  | ⟨_, _, _, _, _, attrs, _, _, _, _, children, _⟩, own => by
    rw [Element.framing, Element.elements, List.map_cons, List.map_cons, List.map_append,
      List.map_append, nodes_framing_types children]
    rfl

theorem nodes_framing_types : (nodes : List Node) → (own : List Node) →
    (nodesFraming nodes own).map (·.elementType) = (nodesElements nodes).map (·.elementType)
  | [], _ => rfl
  | node :: rest, own => by
    rw [nodesFraming, nodesElements, List.map_append, List.map_append, node.framing_types,
      nodes_framing_types rest]

end

end Templates

/-! ## Attributes -/

section Attributes

theorem attributesCounted_cons (entry : String × Attribute) (rest : Attributes) :
    attributesCounted (entry :: rest) = entry.2.elements + attributesCounted rest := by
  rw [attributesCounted, attributesElements, Multiset.coe_add]

theorem attributesCounted_insert_le (d : Attributes) (key : String) (value : Attribute) :
    attributesCounted (Dict.insert d key value) ≤ value.elements + attributesCounted d := by
  induction d with
  | nil => rfl
  | cons entry rest ih =>
    obtain ⟨k, v⟩ := entry
    rw [Dict.insert]
    split
    · rw [attributesCounted_cons]
    · split
      · rw [attributesCounted_cons, attributesCounted_cons]
        gcongr
        exact Multiset.le_add_left _ _
      · rw [attributesCounted_cons, attributesCounted_cons, add_left_comm]
        gcongr

theorem attributesCounted_filter_le (d : Attributes) (p : String × Attribute → Bool) :
    attributesCounted (d.filter p) ≤ attributesCounted d := by
  induction d with
  | nil => rfl
  | cons entry rest ih =>
    rw [attributesCounted_cons, List.filter_cons]
    split
    · rw [attributesCounted_cons]
      gcongr
    · exact ih.trans (Multiset.le_add_left _ _)

theorem attributesCounted_erase_le {d : Attributes} {key : String} {value : Attribute}
    (h : Dict.get? d key = some value) :
    value.elements + attributesCounted (Dict.erase d key) ≤ attributesCounted d := by
  induction d with
  | nil => cases h
  | cons entry rest ih =>
    obtain ⟨k, v⟩ := entry
    rw [Dict.get?_cons] at h
    rw [Dict.erase, List.filter_cons, attributesCounted_cons]
    split at h
    · rename_i hkey
      cases h
      rw [if_neg (by simp [hkey])]
      gcongr
      exact attributesCounted_filter_le _ _
    · rename_i hkey
      rw [if_pos (by simpa using Ne.symm hkey), attributesCounted_cons, add_left_comm]
      gcongr
      exact ih h

/-- An attribute that moves does so with its elements. -/
theorem attributesCounted_move_le {d : Attributes} {key : String} {value : Attribute}
    (h : Dict.get? d key = some value) (target : String) :
    attributesCounted (Dict.insert (Dict.erase d key) target value) ≤ attributesCounted d :=
  (attributesCounted_insert_le _ _ _).trans (attributesCounted_erase_le h)

theorem attributesCounted_renameEntries_le (names : Dict String) (d : Attributes) :
    attributesCounted (renameEntries d names) ≤ attributesCounted d := by
  induction names generalizing d with
  | nil => rfl
  | cons entry rest ih =>
    refine (ih _).trans ?_
    rw [renameEntry]
    split
    · exact attributesCounted_move_le ‹_› _
    · rfl

theorem attributesCounted_takeOver_le (own : Attributes) (entry : String × Attribute) :
    attributesCounted (takeOver own entry) ≤ entry.2.elements + attributesCounted own := by
  have hlacking : attributesCounted (Dict.insertNew own entry.1 entry.2) ≤
      entry.2.elements + attributesCounted own := by
    rw [Dict.insertNew]
    split
    · exact Multiset.le_add_left _ _
    · exact attributesCounted_insert_le _ _ _
  rw [takeOver]
  split
  · split
    · refine le_trans ?_ (Multiset.le_add_left _ _)
      split
      · exact attributesCounted_move_le ‹_› _
      · rfl
    · exact hlacking
  · exact hlacking

theorem attributesCounted_foldl_takeOver_le (attrs own : Attributes) :
    attributesCounted (attrs.foldl takeOver own) ≤
      attributesCounted own + attributesCounted attrs := by
  induction attrs generalizing own with
  | nil => exact Multiset.le_add_right _ _
  | cons entry rest ih =>
    calc attributesCounted (rest.foldl takeOver (takeOver own entry))
        ≤ attributesCounted (takeOver own entry) + attributesCounted rest := ih _
      _ ≤ entry.2.elements + attributesCounted own + attributesCounted rest := by
        gcongr
        exact attributesCounted_takeOver_le own entry
      _ = attributesCounted own + attributesCounted (entry :: rest) := by
        rw [attributesCounted_cons, add_assoc, add_left_comm]

theorem attributesElements_modify (assets : Assets) (name : String) (d : Attributes) :
    attributesElements (Dict.modify d name (·.place assets)) = attributesElements d := by
  induction d with
  | nil => rfl
  | cons entry rest ih =>
    have hentry : (if entry.1 = name then (entry.1, entry.2.place assets) else entry).2.elements =
        entry.2.elements := by
      split
      · exact entry.2.elements_place assets
      · rfl
    rw [attributesElements, ← ih, ← hentry]
    rfl

theorem attributesElements_place (assets : Assets) (names : List String) (d : Attributes) :
    attributesElements (names.foldl (fun attrs name => Dict.modify attrs name (·.place assets)) d) =
      attributesElements d := by
  induction names generalizing d with
  | nil => rfl
  | cons name rest ih => rw [List.foldl_cons, ih, attributesElements_modify]

end Attributes

/-! ## Elements -/

/-- What the entry for the type of an element brings. -/
def Mapping.brought (mapping : Mapping) (e : Element) : List Element :=
  match Dict.get? mapping.elements e.elementType with
  | some m => attributesElements m.attrs ++ nodesFraming (m.children.getD []) e.children
  | none => []

/-- The elements that an entry has in it. -/
def ElementMapping.elements (m : ElementMapping) : List Element :=
  attributesElements m.attrs ++ nodesElements (m.children.getD [])

section Elements

variable (mapping : Mapping) (o : Options) (e : Element)

theorem Element.applyMapping_children : (e.applyMapping mapping o).children =
    match (Dict.get? mapping.elements e.elementType).bind (·.children) with
    | some template => insertChildren template e.children
    | none => e.children := by
  rw [applyMapping]
  dsimp only
  cases Dict.get? mapping.elements e.elementType <;> rfl

/-- **A mapped element** has below it no more than it had before and what its entry brings. -/
theorem Element.below_applyMapping :
    attributesCounted (e.applyMapping mapping o).attrs +
        nodesCounted (e.applyMapping mapping o).children ≤
      attributesCounted e.attrs + nodesCounted e.children + mapping.brought e := by
  have hattrs : attributesCounted (e.applyMapping mapping o).attrs ≤
      attributesCounted (e.takenAttrs mapping) := by
    rw [attributesCounted, e.applyMapping_attrs, attributesElements_place]
    exact attributesCounted_renameEntries_le _ _
  refine (add_le_add_left hattrs _).trans ?_
  rw [takenAttrs, applyMapping_children, Mapping.brought]
  rcases Dict.get? mapping.elements e.elementType with _ | m
  · exact Multiset.le_add_right _ _
  · have hchildren : nodesCounted (match m.children with
        | some template => insertChildren template e.children
        | none => e.children) ≤
          nodesCounted e.children + nodesFraming (m.children.getD []) e.children := by
      split
      · rename_i template htemplate
        rw [htemplate, Option.getD_some, add_comm, ← nodes_fill_counted]
        exact Multiset.le_add_right _ _
      · exact Multiset.le_add_right _ _
    rw [← Multiset.coe_add, add_add_add_comm]
    exact add_le_add (attributesCounted_foldl_takeOver_le m.attrs e.attrs) hchildren

end Elements

end PageCompiler
