import PageCompiler.Mapping.Targets
import PageCompiler.Proofs.Resolve.Through

/-!
# Nodes of embedded markup

Embedded markup is parsed to a document, and the document becomes nodes. The nodes stand for the
pieces of the document one by one (`Depicts`), and go on doing so through the passes that follow: the
mapping changes how an element looks, and the others what does not show.

* `depicts_embed`: the nodes of a document once the markup inside them is embedded as well.
* `Depicts.mapped`, `Depicts.walked`: nodes that stand for a document after the mapping and after a
  walk.
-/

namespace PageCompiler

open Html

/-! ## Documents -/

mutual

/-- A piece of a document without the outer elements that every document has. -/
def Html.Dom.unwrap : Dom → List Dom
  | .element name attrs children =>
    if name = "html" || name = "head" || name = "body" then unwrapAll children
    else [.element name attrs children]
  | .text s => [.text s]
  | .comment => [.comment]

/-- The pieces of a document without the outer elements. -/
def unwrapAll : List Dom → List Dom
  | [] => []
  | piece :: rest => piece.unwrap ++ unwrapAll rest

end

/-- The elements whose text is kept verbatim. -/
def isVerbatim (name : String) : Bool := name = "script" || name = "style"

/-- The element that an element of a document is turned into, with nothing inside it. -/
def Element.ofTag (name : String) (attrs : TagAttributes) : Element where
  key := name
  elementType := name
  name := some name
  attrs := Dict.ofList (attrs.map fun a => (a.1, .text a.2))

theorem domNodes_append (pieces more : List Dom) :
    domNodes (pieces ++ more) = domNodes pieces ++ domNodes more := by
  induction pieces with
  | nil => rfl
  | cons piece rest ih => rw [List.cons_append, domNodes, domNodes, ih, List.append_assoc]

mutual

theorem Html.Dom.contents_eq : (piece : Dom) → piece.contents = domNodes piece.unwrap
  | .element name attrs children => by
    rw [Dom.contents, Dom.unwrap]
    split
    · exact domContents_eq children
    · rw [domNodes, domNodes, List.append_nil]
  | .text s => by rw [Dom.contents, Dom.unwrap, domNodes, domNodes, List.append_nil]
  | .comment => rfl

theorem domContents_eq : (pieces : List Dom) → domContents pieces = domNodes (unwrapAll pieces)
  | [] => rfl
  | piece :: rest => by
    rw [domContents, unwrapAll, domNodes_append, piece.contents_eq, domContents_eq rest]

end

/-- The nodes inside the element that an element of a document is turned into. -/
def tagNodes (name : String) (children : List Dom) : List Node :=
  if isVerbatim name then [.raw (domText children)] else domNodes children

theorem domNodes_element (name : String) (attrs : TagAttributes) (children rest : List Dom) :
    domNodes (.element name attrs children :: rest) = .element { Element.ofTag name attrs with
      children := tagNodes name children } :: domNodes rest := by
  rw [domNodes, Dom.toNode?]
  rfl

/-! ## Nodes of a document -/

/-- An element with the type and the attributes of another one, and nothing else that shows. -/
structure Element.ShowsAs (e model : Element) : Prop where
  elementType : e.elementType = model.elementType
  attrs : e.attrs = model.attrs
  dependency : e.dependency = none
  style : e.style = []
  referencedStyles : e.referencedStyles = []

/-- Nodes stand for pieces of a document, with the elements in a given form. Comments and blank texts
are left out, the text of a script or a style sheet is kept verbatim, and markup that an element of
the document carries in turn stands in the place of what is inside that element. -/
inductive Depicts (look : String → TagAttributes → Element) : List Dom → List Node → Prop
  | nil : Depicts look [] []
  | comment {pieces : List Dom} {nodes : List Node} (rest : Depicts look pieces nodes) :
      Depicts look (.comment :: pieces) nodes
  | blank {s : String} {pieces : List Dom} {nodes : List Node} (blank : isBlank s = true)
      (rest : Depicts look pieces nodes) : Depicts look (.text s :: pieces) nodes
  | text {s : String} {pieces : List Dom} {nodes : List Node} (shown : isBlank s = false)
      (rest : Depicts look pieces nodes) : Depicts look (.text s :: pieces) (.text s :: nodes)
  | verbatim {name : String} {attrs : TagAttributes} {children pieces : List Dom} {e : Element}
      {nodes : List Node} (kept : isVerbatim name = true) (shows : e.ShowsAs (look name attrs))
      (inside : e.children = [.raw (domText children)]) (rest : Depicts look pieces nodes) :
      Depicts look (.element name attrs children :: pieces) (.element e :: nodes)
  | embedded {name html : String} {attrs : TagAttributes} {children pieces : List Dom} {e : Element}
      {nodes : List Node} (carried : (Element.ofTag name attrs).embeddedHtml? = some html)
      (shows : e.ShowsAs (look name attrs))
      (inside : Depicts look (unwrapAll (parseDocument html)) e.children)
      (rest : Depicts look pieces nodes) :
      Depicts look (.element name attrs children :: pieces) (.element e :: nodes)
  | element {name : String} {attrs : TagAttributes} {children pieces : List Dom} {e : Element}
      {nodes : List Node} (plain : isVerbatim name = false)
      (own : (Element.ofTag name attrs).embeddedHtml? = none) (shows : e.ShowsAs (look name attrs))
      (inside : Depicts look children e.children) (rest : Depicts look pieces nodes) :
      Depicts look (.element name attrs children :: pieces) (.element e :: nodes)

/-- The attributes of an element are texts. -/
def Element.HasTexts (e : Element) : Prop := ∀ entry ∈ e.attrs, ∃ s, entry.2 = .text s

theorem Element.HasTexts.flat {e : Element} (h : e.HasTexts) :
    ∀ entry ∈ e.attrs, entry.2.node? = none := fun entry hentry => by
  obtain ⟨s, hs⟩ := h entry hentry
  rw [hs]
  rfl

theorem Element.hasTexts_ofTag (name : String) (attrs : TagAttributes) :
    (ofTag name attrs).HasTexts := fun entry hentry => by
  change entry ∈ Dict.merge [] _ at hentry
  rcases Dict.mem_merge hentry with hentry | hentry
  · cases hentry
  · obtain ⟨a, -, rfl⟩ := List.mem_map.1 hentry
    exact ⟨a.2, rfl⟩

/-- Embedding changes the attributes and the children of an element. -/
theorem Element.exists_embed (e : Element) :
    ∃ attrs children, e.embed = { e with attrs, children } := by
  rw [embed]
  split
  · exact ⟨_, _, rfl⟩
  · exact ⟨e.attrs, e.children, by cases e; rfl⟩

theorem Element.elementType_embed (e : Element) : e.embed.elementType = e.elementType := by
  obtain ⟨_, _, hembed⟩ := e.exists_embed
  rw [hembed]

theorem Element.dependency_embed (e : Element) : e.embed.dependency = e.dependency := by
  obtain ⟨_, _, hembed⟩ := e.exists_embed
  rw [hembed]

/-- What embedding leaves of the attributes of an element. -/
theorem Element.attrs_embed (e : Element) : e.embed.attrs =
    e.attrs.filter fun entry => decide (e.embeddedHtml? = none) || decide (entry.1 ≠ "html") := by
  rw [embed]
  split
  · rename_i html hhtml
    simp [hhtml, Dict.erase]
  · rename_i hnone
    simp [hnone]

theorem Element.Via.nodes_embed {pass : Node → Node → Prop} {e e' : Element} (h : e.Via pass e') :
    List.Forall₂ pass (attributeNodes e.embed.attrs) (attributeNodes e'.embed.attrs) := by
  rw [e.attrs_embed, e'.attrs_embed, h.embeddedHtml?]
  exact (h.attrs.filter fun name => decide (e.embeddedHtml? = none) || decide (name ≠ "html")).nodes

/-- The form of the elements of a document when markup has been embedded. -/
def embeddedLook (name : String) (attrs : TagAttributes) : Element :=
  (Element.ofTag name attrs).embed

/-- The form of the elements of a document when the mapping has been applied. -/
def mappedLook (o : Options) (name : String) (attrs : TagAttributes) : Element :=
  (embeddedLook name attrs).applyMapping .html o

theorem hasTexts_embeddedLook (name : String) (attrs : TagAttributes) :
    (embeddedLook name attrs).HasTexts := fun entry hentry => by
  rw [embeddedLook, Element.attrs_embed] at hentry
  exact Element.hasTexts_ofTag name attrs entry (List.mem_of_mem_filter hentry)

theorem Element.embed_of_none {e : Element} (h : e.embeddedHtml? = none) : e.embed = e := by
  rw [embed, h]

theorem Element.embed_of_some {e : Element} {html : String} (h : e.embeddedHtml? = some html) :
    e.embed = { e with
      attrs := Dict.erase e.attrs "html", children := domNodes (unwrapAll (parseDocument html)) } := by
  rw [embed, h, ← domContents_eq]
  rfl

theorem Element.elementType_of_embeddedHtml? {e : Element} {html : String}
    (h : e.embeddedHtml? = some html) : e.elementType = embeddingType := by
  by_contra hne
  rw [embeddedHtml?, if_neg hne] at h
  cases h

/-- What embedding leaves of an element does not depend on what is inside it. -/
theorem showsAs_embed (name : String) (attrs : TagAttributes) (children children' : List Node) :
    { { Element.ofTag name attrs with children }.embed with
      attrs := (embeddedLook name attrs).attrs, children := children' }.ShowsAs
      (embeddedLook name attrs) := by
  obtain ⟨_, _, hembed⟩ := Element.exists_embed { Element.ofTag name attrs with children }
  obtain ⟨_, _, hlook⟩ := (Element.ofTag name attrs).exists_embed
  refine ⟨?_, rfl, ?_, ?_, ?_⟩
  · rw [embeddedLook, hembed, hlook]
  all_goals
    dsimp only
    rw [hembed]
    rfl

/-- The walks over a row of trees are one walk that is deep enough for all of them. -/
theorem exists_mapM_of_becomes {f : Element → Element} {nodes nodes' : List Node}
    (h : List.Forall₂ (Node.Becomes f) nodes nodes') :
    ∃ fuel, nodes.mapM (Node.transform f fuel) = .ok nodes' := by
  induction h with
  | nil => exact ⟨0, rfl⟩
  | cons hnode _ ih =>
    obtain ⟨m, hnode⟩ := hnode
    obtain ⟨n, hrest⟩ := ih
    refine ⟨max m n, ?_⟩
    rw [List.mapM_cons, Node.transform_le (le_max_left m n) hnode,
      mapM_congr_ok (fun (node _ : Node) => Node.transform_le (le_max_right m n)) hrest]
    rfl

/-- **Embedding** turns a document into nodes that stand for it. -/
theorem depicts_embed {fuel : ℕ} {pieces : List Dom} {nodes : List Node}
    (h : (domNodes pieces).mapM (Node.transform Element.embed fuel) = .ok nodes) :
    Depicts embeddedLook pieces nodes := by
  induction fuel using Nat.strong_induction_on generalizing pieces nodes with
  | h fuel ih =>
    induction pieces generalizing nodes with
    | nil =>
      cases h
      exact .nil
    | cons piece rest ihrest =>
      cases piece with
      | comment => exact .comment (ihrest h)
      | text s =>
        rw [domNodes, Dom.toNode?] at h
        split at h
        · rename_i hblank
          exact .blank hblank (ihrest h)
        · rename_i hshown
          change (Node.text s :: domNodes rest).mapM _ = _ at h
          rw [List.mapM_cons] at h
          obtain ⟨node, hnode, h⟩ := exists_of_bind_eq_ok h
          obtain ⟨others, hothers, h⟩ := exists_of_bind_eq_ok h
          cases h
          rcases fuel with _ | fuel
          · cases hnode
          · cases hnode
            exact .text (by simpa using hshown) (ihrest hothers)
      | element name attrs children =>
        rw [domNodes_element, List.mapM_cons] at h
        obtain ⟨node, hnode, h⟩ := exists_of_bind_eq_ok h
        obtain ⟨others, hothers, h⟩ := exists_of_bind_eq_ok h
        cases h
        obtain ⟨below, hbelow, attrs', children', hattrs, hchildren, rfl⟩ :=
          Node.exists_of_transform_element hnode
        have hsame : attrs' = (embeddedLook name attrs).attrs := by
          have hattrs := attributesVia_of_mapM hattrs
          rw [Element.attrs_embed] at hattrs
          rw [embeddedLook, Element.attrs_embed]
          exact hattrs.eq_of_flat fun entry hentry =>
            (Element.hasTexts_ofTag name attrs).flat entry (List.mem_of_mem_filter hentry)
        subst hsame
        rcases hcarried : (Element.ofTag name attrs).embeddedHtml? with _ | html
        · have hnone : { Element.ofTag name attrs with
            children := tagNodes name children }.embeddedHtml? = none := hcarried
          rw [Element.embed_of_none hnone, tagNodes] at hchildren
          rcases hkept : isVerbatim name with _ | _
          · rw [hkept] at hchildren
            exact .element hkept hcarried (showsAs_embed _ _ _ _) (ih below hbelow hchildren)
              (ihrest hothers)
          · rw [hkept] at hchildren
            have hraw : children' = [.raw (domText children)] :=
              eq_of_mapM_fixed (fun node hnode node' hnode' => Node.transform_fixed hnode'
                (by simp [List.mem_singleton.1 hnode, Node.elements])) hchildren
            exact .verbatim hkept (showsAs_embed _ _ _ _) hraw (ihrest hothers)
        · have hsome : { Element.ofTag name attrs with
            children := tagNodes name children }.embeddedHtml? = some html := hcarried
          rw [Element.embed_of_some hsome] at hchildren
          exact .embedded hcarried (showsAs_embed _ _ _ _) (ih below hbelow hchildren)
            (ihrest hothers)

/-! ## The mapping -/

/-- An attribute of a mapping that moves an attribute of the element. -/
def Attribute.isMove : Attribute → Bool
  | .dynamic r => r.scope = .attr
  | _ => false

/-- The entries of the mapping for plain pages bring no children and no dependencies, and move
attributes at most. -/
theorem Mapping.entries_html {name : String} {m : ElementMapping}
    (h : Dict.get? Mapping.html.elements name = some m) :
    m.children = none ∧ m.dependency = none ∧ ∀ entry ∈ m.attrs, entry.2.isMove = true := by
  have hentries : ∀ entry ∈ Mapping.html.elements, entry.2.children.isNone = true ∧
      entry.2.dependency = none ∧ ∀ a ∈ entry.2.attrs, a.2.isMove = true := by decide +kernel
  obtain ⟨hchildren, hdependency, hattrs⟩ := hentries _ (Dict.mem_of_get? h)
  exact ⟨Option.isNone_iff_eq_none.1 hchildren, hdependency, hattrs⟩

theorem forall_takeOver_of_isMove {P : Attribute → Prop} {own : Attributes}
    {entry : String × Attribute} (hown : ∀ x ∈ own, P x.2) (hentry : entry.2.isMove = true) :
    ∀ x ∈ takeOver own entry, P x.2 := by
  obtain ⟨name, value⟩ := entry
  cases value with
  | dynamic r =>
    rw [takeOver]
    dsimp only
    rw [if_pos (by simpa [Attribute.isMove] using hentry)]
    split
    · rename_i value hvalue
      exact forall_insert (forall_erase hown) (hown _ (Dict.mem_of_get? hvalue))
    · exact hown
  | _ => cases hentry

theorem forall_foldl_takeOver_of_isMove {P : Attribute → Prop} {attrs own : Attributes}
    (hown : ∀ x ∈ own, P x.2) (hattrs : ∀ entry ∈ attrs, entry.2.isMove = true) :
    ∀ x ∈ attrs.foldl takeOver own, P x.2 := by
  induction attrs generalizing own with
  | nil => exact hown
  | cons entry rest ih =>
    rw [List.forall_mem_cons] at hattrs
    exact ih (forall_takeOver_of_isMove hown hattrs.1) hattrs.2

section Mapping

variable {o : Options} {e model : Element}

/-- What the mapping makes of the type of an element. -/
theorem Element.elementType_applyMapping (e : Element) (o : Options) :
    (e.applyMapping .html o).elementType =
      ((Dict.get? Mapping.html.elements e.elementType).map (·.elementType)).getD e.elementType := by
  rw [applyMapping]
  dsimp only
  cases Dict.get? Mapping.html.elements e.elementType <;> rfl

/-- What the mapping makes of the attributes of an element. -/
theorem Element.attrs_applyMapping (e : Element) (o : Options) :
    (e.applyMapping .html o).attrs =
      assetAttributes.foldl (fun attrs name => Dict.modify attrs name (·.place o.assets))
        (((Dict.get? Mapping.html.elements e.elementType).map (·.attrs)).getD [] |>.foldl takeOver
          e.attrs) := by
  rw [applyMapping]
  dsimp only
  cases Dict.get? Mapping.html.elements e.elementType <;> rfl

/-- The mapping for plain pages leaves the children of an element. -/
theorem Element.children_applyMapping (e : Element) (o : Options) :
    (e.applyMapping .html o).children = e.children := by
  rw [applyMapping]
  dsimp only
  rcases hm : Dict.get? Mapping.html.elements e.elementType with _ | m
  · rfl
  · dsimp only [ElementMapping.apply]
    rw [(Mapping.entries_html hm).1]

theorem Dependency.origin_locate (localPrefix : Option String) (e : Element) (d : Dependency) :
    (d.locate localPrefix e).origin = d.origin := by
  unfold locate
  split
  · split <;> rfl
  · rfl

/-- The mapping for plain pages leaves the origin of a dependency, and brings none. -/
theorem Element.dependency_applyMapping (e : Element) (o : Options) :
    (e.applyMapping .html o).dependency.map (·.origin) = e.dependency.map (·.origin) := by
  rw [applyMapping]
  dsimp only
  rcases hm : Dict.get? Mapping.html.elements e.elementType with _ | m
  · cases e.dependency with
    | none => rfl
    | some d => exact congrArg some (Dependency.origin_locate _ _ d)
  · dsimp only [ElementMapping.apply]
    rw [(Mapping.entries_html hm).2.1]
    cases e.dependency with
    | none => rfl
    | some d => exact congrArg some (Dependency.origin_locate _ _ d)

theorem Element.isInstance_eq (h : e.dependency.map (·.origin) = model.dependency.map (·.origin)) :
    e.isInstance = model.isInstance := by
  have hsame : ∀ x : Element, x.isInstance = ((x.dependency.map (·.origin)).map (· == .project)).getD
      false := fun x => by
    rw [isInstance]
    cases x.dependency <;> rfl
  rw [hsame, hsame, h]

theorem Element.styles_applyMapping (e : Element) (o : Options) :
    (e.applyMapping .html o).style = e.style ∧
      (e.applyMapping .html o).referencedStyles = e.referencedStyles := by
  rw [applyMapping]
  dsimp only
  cases Dict.get? Mapping.html.elements e.elementType <;> exact ⟨rfl, rfl⟩

/-- What the mapping makes of an element follows from its type and its attributes. -/
theorem Element.ShowsAs.applyMapping (h : e.ShowsAs model) (o : Options) :
    (e.applyMapping .html o).ShowsAs (model.applyMapping .html o) where
  elementType := by rw [e.elementType_applyMapping, model.elementType_applyMapping, h.elementType]
  attrs := by rw [e.attrs_applyMapping, model.attrs_applyMapping, h.elementType, h.attrs]
  dependency := by
    have hdependency := e.dependency_applyMapping o
    rw [h.dependency] at hdependency
    exact Option.map_eq_none_iff.1 hdependency
  style := (e.styles_applyMapping o).1.trans h.style
  referencedStyles := (e.styles_applyMapping o).2.trans h.referencedStyles

theorem Element.HasTexts.applyMapping (h : e.HasTexts) (o : Options) :
    (e.applyMapping .html o).HasTexts := by
  rw [HasTexts, e.attrs_applyMapping]
  refine forall_modify (P := fun value => ∃ s, value = .text s) o.assets _ ?_ ?_
  · rintro _ ⟨s, rfl⟩
    exact ⟨_, rfl⟩
  · refine forall_foldl_takeOver_of_isMove (P := fun value => ∃ s, value = .text s) h ?_
    rcases hm : Dict.get? Mapping.html.elements e.elementType with _ | m
    · nofun
    · exact (Mapping.entries_html hm).2.2

end Mapping

/-- An element that a pass goes through shows as before when its attributes are texts. -/
theorem Element.Via.showsAs {pass : Node → Node → Prop} {e e' model : Element} (h : e.Via pass e')
    (hshows : e.ShowsAs model) (htexts : model.HasTexts) : e'.ShowsAs model := by
  have hattrs := h.attrs.eq_of_flat (hshows.attrs ▸ htexts.flat)
  obtain ⟨attrs, children, rfl⟩ := h.own
  exact ⟨hshows.elementType, hattrs.trans hshows.attrs, hshows.dependency, hshows.style,
    hshows.referencedStyles⟩

/-- **Passes keep what nodes stand for,** with what they do to each element. -/
theorem Depicts.pass {pass : Node → Node → Prop} {change : Element → Element → Prop}
    {look look' : String → TagAttributes → Element} (hgoes : Goes pass change)
    (htexts : ∀ name attrs, (look' name attrs).HasTexts)
    (hchange : ∀ {e own}, change e own → own.children = e.children ∧
      ∀ name attrs, e.ShowsAs (look name attrs) → own.ShowsAs (look' name attrs))
    {pieces : List Dom} {nodes nodes' : List Node} (h : Depicts look pieces nodes)
    (hpass : List.Forall₂ pass nodes nodes') : Depicts look' pieces nodes' := by
  induction h generalizing nodes' with
  | nil =>
    cases hpass
    exact .nil
  | comment _ ih => exact .comment (ih hpass)
  | blank hblank _ ih => exact .blank hblank (ih hpass)
  | text hshown _ ih =>
    obtain _ | ⟨hnode, hrest⟩ := hpass
    rw [hgoes.constant hnode]
    exact .text hshown (ih hrest)
  | verbatim kept shows inside _ ih =>
    obtain _ | ⟨hnode, hrest⟩ := hpass
    obtain ⟨own, e', rfl, hown, hvia⟩ := hgoes.element hnode
    obtain ⟨hchildren, hshows⟩ := hchange hown
    refine .verbatim kept (hvia.showsAs (hshows _ _ shows) (htexts _ _)) ?_ (ih hrest)
    have hbelow := hvia.children
    rw [hchildren, inside] at hbelow
    obtain ⟨node, _, hraw, hnil, hsame⟩ := List.forall₂_cons_left_iff.1 hbelow
    rw [hsame, hgoes.raw hraw, List.forall₂_nil_left_iff.1 hnil]
  | embedded carried shows _ _ ihinside ih =>
    obtain _ | ⟨hnode, hrest⟩ := hpass
    obtain ⟨own, e', rfl, hown, hvia⟩ := hgoes.element hnode
    obtain ⟨hchildren, hshows⟩ := hchange hown
    exact .embedded carried (hvia.showsAs (hshows _ _ shows) (htexts _ _))
      (ihinside (hchildren ▸ hvia.children)) (ih hrest)
  | element plain own' shows _ _ ihinside ih =>
    obtain _ | ⟨hnode, hrest⟩ := hpass
    obtain ⟨own, e', rfl, hown, hvia⟩ := hgoes.element hnode
    obtain ⟨hchildren, hshows⟩ := hchange hown
    exact .element plain own' (hvia.showsAs (hshows _ _ shows) (htexts _ _))
      (ihinside (hchildren ▸ hvia.children)) (ih hrest)

/-- The mapping keeps what nodes stand for. -/
theorem Depicts.mapped {o : Options} {pieces : List Dom} {nodes nodes' : List Node}
    (h : Depicts embeddedLook pieces nodes)
    (hpass : List.Forall₂ (Node.Becomes (Element.applyMapping .html o)) nodes nodes') :
    Depicts (mappedLook o) pieces nodes' := by
  refine h.pass (goes_becomes _)
    (fun name attrs => (hasTexts_embeddedLook name attrs).applyMapping o)
    ?_ hpass
  rintro e _ rfl
  exact ⟨e.children_applyMapping o, fun _ _ hshows => hshows.applyMapping o⟩

/-- New keys and names keep what nodes stand for. -/
theorem Depicts.walked {σ : Type} {v : Visitor (StateM σ)} {o : Options} {pieces : List Dom}
    {nodes nodes' : List Node} (h : Depicts (mappedLook o) pieces nodes)
    (hv : ∀ e s, ∃ key, (v.element e s).1 = { e with key })
    (hpass : List.Forall₂ (Node.Walked v) nodes nodes') : Depicts (mappedLook o) pieces nodes' := by
  refine h.pass (goes_walked v)
    (fun name attrs => (hasTexts_embeddedLook name attrs).applyMapping o)
    ?_ hpass
  rintro e _ ⟨s, rfl⟩
  obtain ⟨key, hkey⟩ := hv e s
  rw [hkey]
  exact ⟨rfl, fun _ _ hshows => ⟨hshows.elementType, hshows.attrs, hshows.dependency, hshows.style,
    hshows.referencedStyles⟩⟩

end PageCompiler
