import PageCompiler.Proofs.Json.Canonical
import PageCompiler.Proofs.Markup.Acyclic
import PageCompiler.Proofs.Page.Context
import PageCompiler.Proofs.Page.Settled
import PageCompiler.Proofs.Resolve.Places

/-!
# Embedded markup on a page

The nodes that stand for a document are generated like any others, and come to markup that shows the
document: its elements nested in the same way and its texts in the same order. What is kept of a
text, of a tag and of a script is stated apart (`Fidelity`), since a page does not keep all of it:
blank texts go, the mapping translates the names that it knows, and a table has one value for each
name.

* `Shows`: markup shows the pieces of a document.
* `keepsTag_mappedLook`: an element that the mapping leaves keeps its name and its attributes.
* `Depicts.draws`: nodes that stand for pieces of a document are generated to markup that shows
  them.
* `Depicts.comes`: they are generated without fail when their keys are free.
-/

namespace PageCompiler

open Html

/-! ## What is shown of a document -/

/-- What a page owes to a document that is embedded in it: which texts it shows, which elements keep
their name and their attributes, and which scripts and style sheets keep what is inside them. -/
structure Fidelity where
  text : String → Prop
  tag : String → TagAttributes → Prop
  verbatim : List Dom → Prop

/-- The value of an attribute on a page at the top of the project. -/
def shownValue (o : Options) (name value : String) : String :=
  if name = "href" then if value.toList.head? = some '/' then localLink o [] value else value
  else if name ∈ assetAttributes then o.assets.place value
  else value

/-- The attributes of an element on a page at the top of the project. -/
def shownAttributes (o : Options) (attrs : TagAttributes) : List (String × String) :=
  attrs.map fun a => (a.1, shownValue o a.1 a.2)

/-- An element on the page keeps the name and the attributes of an element of a document. -/
def KeepsTag (o : Options) (name : String) (attrs : TagAttributes) (tag : String)
    (shown : List (String × String)) : Prop :=
  tag = name ∧ shown.Perm (shownAttributes o attrs)

/-- Whether a piece of a document is no element. -/
def Html.Dom.isTextual : Dom → Bool
  | .element _ _ _ => false
  | _ => true

/-- Markup shows the pieces of a document: the elements nested in the same way, and the texts in the
same order. Comments are not shown. Markup that an element of the document carries in turn is shown
in the place of what is inside that element. -/
inductive Shows (f : Fidelity) (o : Options) : List Dom → List Markup → Prop
  | nil : Shows f o [] []
  | comment {pieces : List Dom} {shown : List Markup} (rest : Shows f o pieces shown) :
      Shows f o (.comment :: pieces) shown
  | omitted {s : String} {pieces : List Dom} {shown : List Markup} (free : ¬ f.text s)
      (rest : Shows f o pieces shown) : Shows f o (.text s :: pieces) shown
  | text {s : String} {pieces : List Dom} {shown : List Markup} (owed : f.text s)
      (rest : Shows f o pieces shown) : Shows f o (.text s :: pieces) (.text s :: shown)
  | verbatim {name tag : String} {attrs : TagAttributes} {table : List (String × String)}
      {children pieces : List Dom} {inner shown : List Markup} (kept : isVerbatim name = true)
      (keeps : f.tag name attrs → KeepsTag o name attrs tag table)
      (inside : f.verbatim children →
        (∀ piece ∈ children, piece.isTextual = true) ∧ inner = [.raw (domText children)])
      (rest : Shows f o pieces shown) :
      Shows f o (.element name attrs children :: pieces) (.element tag table inner :: shown)
  | embedded {name tag html : String} {attrs : TagAttributes} {table : List (String × String)}
      {children pieces : List Dom} {inner shown : List Markup}
      (carried : (Element.ofTag name attrs).embeddedHtml? = some html)
      (keeps : f.tag name attrs → KeepsTag o name attrs tag table)
      (inside : Shows f o (unwrapAll (parseDocument html)) inner) (rest : Shows f o pieces shown) :
      Shows f o (.element name attrs children :: pieces) (.element tag table inner :: shown)
  | element {name tag : String} {attrs : TagAttributes} {table : List (String × String)}
      {children pieces : List Dom} {inner shown : List Markup} (plain : isVerbatim name = false)
      (own : (Element.ofTag name attrs).embeddedHtml? = none)
      (keeps : f.tag name attrs → KeepsTag o name attrs tag table)
      (inside : Shows f o children inner) (rest : Shows f o pieces shown) :
      Shows f o (.element name attrs children :: pieces) (.element tag table inner :: shown)

theorem Shows.exists_of_element {f : Fidelity} {o : Options} {name : String} {attrs : TagAttributes}
    {children pieces : List Dom} {shown : List Markup}
    (h : Shows f o (.element name attrs children :: pieces) shown) (plain : isVerbatim name = false)
    (own : (Element.ofTag name attrs).embeddedHtml? = none) :
    ∃ tag table inner rest, shown = .element tag table inner :: rest ∧
      (f.tag name attrs → KeepsTag o name attrs tag table) ∧ Shows f o children inner ∧
      Shows f o pieces rest := by
  cases h with
  | verbatim kept => cases kept.symm.trans plain
  | embedded carried => cases carried.symm.trans own
  | element _ _ keeps inside rest => exact ⟨_, _, _, _, rfl, keeps, inside, rest⟩

theorem Shows.exists_of_text {f : Fidelity} {o : Options} {s : String} {pieces : List Dom}
    {shown : List Markup} (h : Shows f o (.text s :: pieces) shown) (owed : f.text s) :
    ∃ rest, shown = .text s :: rest ∧ Shows f o pieces rest := by
  cases h with
  | omitted free => exact absurd owed free
  | text _ rest => exact ⟨_, rfl, rest⟩

/-- The mapping for plain pages leaves the name and the attributes of an element of a document: it
has the same name for the type, and moves none of the attributes. -/
def Untouched (name : String) (attrs : TagAttributes) : Prop :=
  ∀ m, Dict.get? Mapping.html.elements name = some m → m.elementType = name ∧
    ∀ entry ∈ m.attrs, ∀ r, entry.2 = .dynamic r → r.id ∉ Dict.keys attrs

/-- What a page does owe to an embedded document: the texts that are not blank, the elements that
the mapping leaves and whose attributes have different names, and scripts and style sheets without
elements inside. -/
def Fidelity.ofPage : Fidelity where
  text s := isBlank s = false
  tag name attrs := Untouched name attrs ∧ (Dict.keys attrs).Nodup
  verbatim children := ∀ piece ∈ children, piece.isTextual = true

/-! ## Attributes -/

/-- The text of an attribute that is one. -/
def Attribute.plainText : Attribute → String
  | .constant (.text s) => s
  | _ => ""

theorem pageAttributes_of_texts {attrs : Attributes} (h : ∀ entry ∈ attrs, ∃ s, entry.2 = .text s)
    (o : Options) (folder : List String) (ds : Definitions) (elementType : String) :
    pageAttributes o folder ds elementType attrs = (attrs.map fun entry =>
      (entry.1, constantText o folder elementType entry.1 (.text entry.2.plainText)), .ok ()) := by
  induction attrs with
  | nil => rfl
  | cons entry rest ih =>
    rw [List.forall_mem_cons] at h
    obtain ⟨name, value⟩ := entry
    obtain ⟨⟨s, rfl⟩, hrest⟩ := h
    rw [pageAttributes, Attribute.text, Attribute.pageText]
    dsimp only
    rw [ih hrest]
    rfl

theorem foldl_takeOver_eq {own attrs : Attributes} (hmoves : ∀ entry ∈ attrs, entry.2.isMove = true)
    (hnone : ∀ entry ∈ attrs, ∀ r, entry.2 = .dynamic r → Dict.get? own r.id = none) :
    attrs.foldl takeOver own = own := by
  induction attrs with
  | nil => rfl
  | cons entry rest ih =>
    rw [List.forall_mem_cons] at hmoves hnone
    obtain ⟨name, value⟩ := entry
    have hsame : takeOver own (name, value) = own := by
      cases value with
      | dynamic r =>
        rw [takeOver]
        dsimp only
        rw [if_pos (by simpa [Attribute.isMove] using hmoves.1), hnone.1 r rfl]
      | _ => cases hmoves.1
    rw [List.foldl_cons, hsame]
    exact ih hmoves.2 hnone.2

/-- The attributes of an element of a document with different names are those of its element. -/
theorem ofTag_perm (name : String) {attrs : TagAttributes} (h : (Dict.keys attrs).Nodup) :
    (Element.ofTag name attrs).attrs.Perm (attrs.map fun a => (a.1, .text a.2)) := by
  refine Dict.ofList_perm ?_
  rw [Dict.keys, List.map_map]
  exact h

theorem constantText_top (o : Options) (elementType name value : String) :
    constantText o [] elementType name (.text (if name ∈ assetAttributes then o.assets.place value
      else value)) = shownValue o name value := by
  rw [constantText, shownValue]
  by_cases hhref : name = "href"
  · subst hhref
    simp [assetAttributes]
  · simp [hhref, climb]

theorem embeddedHtml?_of_untouched {name : String} {attrs : TagAttributes}
    (h : Untouched name attrs) : (Element.ofTag name attrs).embeddedHtml? = none := by
  refine if_neg ?_
  rintro rfl
  have hdiv : (Dict.get? Mapping.html.elements embeddingType).map (·.elementType) = some "div" := by
    decide +kernel
  obtain ⟨m, hm, htype⟩ := Option.map_eq_some_iff.1 hdiv
  exact absurd (htype.symm.trans (h m hm).1) (by decide)

/-- The attributes of an element as they are shown. -/
def Element.shownTable (o : Options) (e : Element) : Dict String :=
  e.attrs.map fun entry =>
    (entry.1, constantText o [] e.elementType entry.1 (.text entry.2.plainText))

/-- **An element that the mapping leaves keeps its name and its attributes.** -/
theorem keepsTag_mappedLook (o : Options) {name : String} {attrs : TagAttributes}
    (h : Untouched name attrs) (hnames : (Dict.keys attrs).Nodup) :
    KeepsTag o name attrs (mappedLook o name attrs).elementType
      ((mappedLook o name attrs).shownTable o) := by
  have hlook : embeddedLook name attrs = Element.ofTag name attrs :=
    Element.embed_of_none (embeddedHtml?_of_untouched h)
  have hperm := ofTag_perm name hnames
  have hsame : (((Dict.get? Mapping.html.elements (Element.ofTag name attrs).elementType).map
      (·.attrs)).getD []).foldl takeOver (Element.ofTag name attrs).attrs
        = (Element.ofTag name attrs).attrs := by
    rcases hm : Dict.get? Mapping.html.elements name with _ | m
    · change (((Dict.get? Mapping.html.elements name).map (·.attrs)).getD []).foldl _ _ = _
      rw [hm]
      rfl
    · change (((Dict.get? Mapping.html.elements name).map (·.attrs)).getD []).foldl _ _ = _
      rw [hm]
      refine foldl_takeOver_eq (Mapping.entries_html hm).2.2 fun entry hentry r hr => ?_
      rw [Dict.get?_eq_none_iff]
      intro hmem
      obtain ⟨a, ha, hkey⟩ := List.mem_map.1 hmem
      obtain ⟨a', ha', rfl⟩ := List.mem_map.1 (hperm.mem_iff.1 ha)
      exact (h m hm).2 entry hentry r hr (hkey ▸ List.mem_map_of_mem ha')
  refine ⟨?_, ?_⟩
  · rw [mappedLook, hlook, Element.elementType_applyMapping]
    change ((Dict.get? Mapping.html.elements name).map (·.elementType)).getD name = name
    rcases hm : Dict.get? Mapping.html.elements name with _ | m
    · rfl
    · exact (h m hm).1
  · rw [Element.shownTable, mappedLook, hlook, Element.attrs_applyMapping, hsame,
      Dict.foldl_modify (by decide), List.map_map, shownAttributes]
    refine (hperm.map _).trans (.of_eq ?_)
    rw [List.map_map]
    refine List.map_congr_left fun a _ => ?_
    rw [← constantText_top o (((Element.ofTag name attrs).applyMapping .html o).elementType) a.1]
    dsimp only [Function.comp_apply]
    split <;> rfl

/-! ## Generation -/

/-- A canvas has the elements of another one as they are. -/
def Canvas.Keeps (c c' : Canvas) : Prop :=
  ∀ (id : Nat) (t : Tag), c.tags[id]? = some t → c'.tags[id]? = some t

namespace Canvas

variable {before there after : Canvas}

theorem Keeps.refl (c : Canvas) : c.Keeps c := fun _ _ ht => ht

theorem Keeps.trans (h : before.Keeps there) (h' : there.Keeps after) : before.Keeps after :=
  fun id t ht => h' id t (h id t ht)

theorem Keeps.create (c : Canvas) (t : Tag) : c.Keeps (c.create t).2 :=
  fun _ _ ht => getElem?_create t ht

end Canvas

section Generation

variable {env : Environment} {fuel : Nat} {at' : Surroundings} {e model : Element} {c : Context}

theorem Element.ShowsAs.settleStyles (h : e.ShowsAs model) (ds : Definitions) :
    e.settleStyles ds = (e, .ok ()) := by
  obtain ⟨_, _, _, _, _, _, _, _, _, _, _, _⟩ := e
  obtain ⟨-, -, -, rfl, rfl⟩ := h
  rfl

theorem Element.ShowsAs.isInstance (h : e.ShowsAs model) : e.isInstance = false := by
  rw [Element.isInstance, h.dependency]

/-- The generation of an element with texts for attributes and without styles. -/
theorem Element.ShowsAs.generate (h : e.ShowsAs model) (htexts : model.HasTexts)
    (hfolder : env.folder = []) :
    generateElement env (fuel + 1) at' e c =
      let r := generateEach (generateNode env fuel at') e.children c
      let e' := { e with children := r.1.1 }
      match r.1.2 with
      | .error d => ((e', .error d), r.2)
      | .ok pieces =>
        let tag := createTag ⟨model.elementType, model.shownTable env.options, pieces⟩ r.2
        let t := registerElement e.key e' tag.1 at'.hierarchy tag.2
        ((e', t.1.map fun _ => tag.1), t.2) := by
  have hnote : c.noteDependency e = c := by rw [Context.noteDependency, h.dependency]
  rw [generateElement_tag env fuel at' c h.isInstance, hnote]
  rcases hrun : generateEach (generateNode env fuel at') e.children c with
    ⟨⟨children, d | pieces⟩, there⟩
  · rfl
  · have hshows : { e with children }.ShowsAs model :=
      ⟨h.elementType, h.attrs, h.dependency, h.style, h.referencedStyles⟩
    dsimp only
    rw [finishTag_run, hshows.settleStyles]
    dsimp only
    rw [h.attrs, h.elementType, hfolder, pageAttributes_of_texts htexts]
    rfl

/-- An element that is generated: first its children, then a tag. -/
theorem Element.ShowsAs.exists_of_generate (h : e.ShowsAs model) (htexts : model.HasTexts)
    (hfolder : env.folder = []) {node' : Node} {piece : Piece} {c' : Context}
    (hrun : generateNode env fuel at' (.element e) c = ((node', .ok piece), c')) :
    ∃ below children inner there, fuel = below + 2 ∧
      generateEach (generateNode env below at') e.children c = ((children, .ok inner), there) ∧
      let made := there.canvas.create ⟨model.elementType, model.shownTable env.options, inner⟩
      piece = .element made.1 ∧ c'.canvas = made.2 := by
  rcases fuel with _ | _ | below
  · rw [generateNode] at hrun
    cases hrun
  · rw [generateNode_element, generateElement] at hrun
    cases hrun
  rw [generateNode_element, h.generate htexts hfolder] at hrun
  rcases hchildren : generateEach (generateNode env below at') e.children c with
    ⟨⟨children, d | inner⟩, there⟩
  · rw [hchildren] at hrun
    cases hrun
  refine ⟨below, children, inner, there, rfl, hchildren, ?_⟩
  dsimp only
  rw [hchildren] at hrun
  dsimp only at hrun
  rcases registerElement_run e.key { e with children } (createTag ⟨model.elementType,
    model.shownTable env.options, inner⟩ there).1 at'.hierarchy (createTag ⟨model.elementType,
    model.shownTable env.options, inner⟩ there).2 with ⟨-, hregister⟩ | ⟨-, d, -, hregister⟩
  · rw [hregister] at hrun
    cases hrun
    exact ⟨rfl, rfl⟩
  · rw [hregister] at hrun
    cases hrun

/-- What a run of nodes that stand for pieces of a document comes to. -/
structure Draws (o : Options) (pieces : List Dom) (before after : Canvas) (out : List Piece) :
    Prop where
  keeps : before.Keeps after
  shows : ∀ canvas, after.Keeps canvas →
    Shows .ofPage o pieces (out.map canvas.markup) ∧
      ∀ id, .element id ∈ out → canvas.Finite id

/-- An element is drawn after what is inside it and before what follows. -/
theorem Draws.cons {o : Options} {piece : Dom} {pieces : List Dom} {before there after : Canvas}
    {tag : String} {table : Dict String} {inner out : List Piece} (hinside : before.Keeps there)
    (hshows : ∀ canvas, there.Keeps canvas → (∀ shown, Shows .ofPage o pieces shown →
      Shows .ofPage o (piece :: pieces) (.element tag table (inner.map canvas.markup) :: shown)) ∧
      ∀ id, .element id ∈ inner → canvas.Finite id)
    (hrest : Draws o pieces (there.create ⟨tag, table, inner⟩).2 after out) :
    Draws o (piece :: pieces) before after
      (.element (there.create ⟨tag, table, inner⟩).1 :: out) := by
  have hmade := Canvas.Keeps.create there ⟨tag, table, inner⟩
  refine ⟨hinside.trans (hmade.trans hrest.keeps), fun canvas hcanvas => ?_⟩
  have hthere := hrest.keeps.trans hcanvas
  obtain ⟨hshown, hfinite⟩ := hshows canvas (hmade.trans hthere)
  obtain ⟨hothers, hfiniteRest⟩ := hrest.shows canvas hcanvas
  have hfound := hthere _ _ Array.getElem?_push_size
  have hown : canvas.Finite (there.create ⟨tag, table, inner⟩).1 :=
    .intro hfound fun id hid => hfinite id (Tag.mem_handles.1 hid)
  refine ⟨?_, fun id hid => ?_⟩
  · rw [List.map_cons, hown.markup_eq hfound]
    exact hshown _ hothers
  · rcases List.mem_cons.1 hid with heq | hid
    · cases heq
      exact hown
    · exact hfiniteRest id hid

theorem exists_of_generateNode_constant {value : Literal} {node' : Node} {piece : Piece}
    {c' : Context} (h : generateNode env fuel at' (.constant value) c = ((node', .ok piece), c')) :
    piece = .text value.toJson.text ∧ c' = c := by
  rcases fuel with _ | fuel
  · rw [generateNode] at h
    cases h
  · rw [generateNode] at h
    cases h
    exact ⟨rfl, rfl⟩

theorem exists_of_generateNode_raw {s : String} {node' : Node} {piece : Piece} {c' : Context}
    (h : generateNode env fuel at' (.raw s) c = ((node', .ok piece), c')) :
    piece = .raw s ∧ c' = c := by
  rcases fuel with _ | fuel
  · rw [generateNode] at h
    cases h
  · rw [generateNode] at h
    cases h
    exact ⟨rfl, rfl⟩

theorem KeepsTag.of_mappedLook {o : Options} {name : String} {attrs : TagAttributes}
    (h : Fidelity.ofPage.tag name attrs) :
    KeepsTag o name attrs (mappedLook o name attrs).elementType
      ((mappedLook o name attrs).shownTable o) := keepsTag_mappedLook o h.1 h.2

/-- **Nodes that stand for pieces of a document are generated to markup that shows them.** -/
theorem Depicts.draws (hfolder : env.folder = []) {pieces : List Dom} {nodes nodes' : List Node}
    (h : Depicts (mappedLook env.options) pieces nodes) {out : List Piece} {c' : Context}
    (hrun : generateEach (generateNode env fuel at') nodes c = ((nodes', .ok out), c')) :
    Draws env.options pieces c.canvas c'.canvas out := by
  have htexts := fun name attrs => (hasTexts_embeddedLook name attrs).applyMapping env.options
  induction h generalizing fuel c nodes' out c' with
  | nil =>
    cases hrun
    exact ⟨.refl _, fun canvas _ => ⟨.nil, nofun⟩⟩
  | comment _ ih =>
    obtain ⟨hkeeps, hshows⟩ := ih hrun
    exact ⟨hkeeps, fun canvas hmade => (hshows canvas hmade).imp_left .comment⟩
  | blank hblank _ ih =>
    obtain ⟨hkeeps, hshows⟩ := ih hrun
    refine ⟨hkeeps, fun canvas hmade => (hshows canvas hmade).imp_left (.omitted ?_)⟩
    simp [Fidelity.ofPage, hblank]
  | text hshown _ ih =>
    obtain ⟨_, _, _, _, _, hfirst, -, rfl, hrest⟩ := generateEach_ok_cons hrun
    obtain ⟨rfl, rfl⟩ := exists_of_generateNode_constant hfirst
    obtain ⟨hkeeps, hshows⟩ := ih hrest
    refine ⟨hkeeps, fun canvas hmade => ?_⟩
    obtain ⟨hothers, hfinite⟩ := hshows canvas hmade
    refine ⟨?_, fun id hid => hfinite id (by simpa using hid)⟩
    rw [List.map_cons, Canvas.markup_text]
    exact .text hshown hothers
  | verbatim kept shows inside _ ih =>
    obtain ⟨_, _, _, _, _, hfirst, -, rfl, hrest⟩ := generateEach_ok_cons hrun
    obtain ⟨below, _, inner, there, rfl, hchildren, rfl, hcanvas⟩ :=
      shows.exists_of_generate (htexts _ _) hfolder hfirst
    rw [inside] at hchildren
    obtain ⟨_, _, _, _, _, hraw, -, rfl, hnil⟩ := generateEach_ok_cons hchildren
    obtain ⟨rfl, rfl⟩ := exists_of_generateNode_raw hraw
    cases hnil
    have hrest := ih hrest
    rw [hcanvas] at hrest
    refine .cons (.refl _) (fun canvas _ => ⟨fun shown hothers => ?_, by simp⟩) hrest
    exact .verbatim kept .of_mappedLook (fun htextual => ⟨htextual, by simp⟩) hothers
  | embedded carried shows _ _ ihinside ih =>
    obtain ⟨_, _, _, _, _, hfirst, -, rfl, hrest⟩ := generateEach_ok_cons hrun
    obtain ⟨below, _, inner, there, rfl, hchildren, rfl, hcanvas⟩ :=
      shows.exists_of_generate (htexts _ _) hfolder hfirst
    obtain ⟨hkeeps, hshows⟩ := ihinside hchildren
    have hrest := ih hrest
    rw [hcanvas] at hrest
    refine .cons hkeeps
      (fun canvas hcanvas => ⟨fun shown hothers => ?_, (hshows canvas hcanvas).2⟩) hrest
    exact .embedded carried .of_mappedLook (hshows canvas hcanvas).1 hothers
  | element plain own' shows _ _ ihinside ih =>
    obtain ⟨_, _, _, _, _, hfirst, -, rfl, hrest⟩ := generateEach_ok_cons hrun
    obtain ⟨below, _, inner, there, rfl, hchildren, rfl, hcanvas⟩ :=
      shows.exists_of_generate (htexts _ _) hfolder hfirst
    obtain ⟨hkeeps, hshows⟩ := ihinside hchildren
    have hrest := ih hrest
    rw [hcanvas] at hrest
    refine .cons hkeeps
      (fun canvas hcanvas => ⟨fun shown hothers => ?_, (hshows canvas hcanvas).2⟩) hrest
    exact .element plain own' .of_mappedLook (hshows canvas hcanvas).1 hothers

/-! ## No failures -/

theorem Element.depth_eq (e : Element) :
    e.depth = max (attributesDepth e.attrs) (nodesDepth e.children) + 1 := by
  cases e
  rfl

/-- Nodes that are generated, with no other keys than those of their elements. -/
def Comes (env : Environment) (fuel : Nat) (at' : Surroundings) (nodes : List Node)
    (c : Context) : Prop :=
  ∃ nodes' out c', generateEach (generateNode env fuel at') nodes c = ((nodes', .ok out), c') ∧
    ∀ key, c'.Registered key → c.Registered key ∨ key ∈ (nodesElements nodes).map (·.key)

theorem Comes.cons {node node' : Node} {piece : Piece} {there : Context} {nodes : List Node}
    (hnode : generateNode env fuel at' node c = ((node', .ok piece), there))
    (hkeys : ∀ key, there.Registered key → c.Registered key ∨ key ∈ node.keys)
    (hrest : Comes env fuel at' nodes there) : Comes env fuel at' (node :: nodes) c := by
  obtain ⟨nodes', out, c', hrun, hrestKeys⟩ := hrest
  refine ⟨node' :: nodes', piece :: out, c', ?_, fun key hkey => ?_⟩
  · rw [generateEach_cons, hnode]
    dsimp only
    rw [hrun]
    rfl
  · rw [nodesElements, List.map_append, List.mem_append]
    rcases hrestKeys key hkey with hthere | hmem
    · exact (hkeys key hthere).imp_right Or.inl
    · exact Or.inr (Or.inr hmem)

/-- An element is generated when what is inside it is and its key is free. -/
theorem Element.ShowsAs.comes (h : e.ShowsAs model) (htexts : model.HasTexts)
    (hfolder : env.folder = []) (hinside : Comes env fuel at' e.children c)
    (hfree : ¬ c.Registered e.key) (hown : e.key ∉ (nodesElements e.children).map (·.key)) :
    ∃ node' piece c', generateNode env (fuel + 2) at' (.element e) c = ((node', .ok piece), c') ∧
      ∀ key, c'.Registered key → c.Registered key ∨ key ∈ (Node.element e).keys := by
  obtain ⟨children, inner, there, hrun, hkeys⟩ := hinside
  obtain ⟨tag, htag⟩ : ∃ tag,
    createTag ⟨model.elementType, model.shownTable env.options, inner⟩ there = tag := ⟨_, rfl⟩
  have hlookup : tag.2.lookup = there.lookup := by
    rw [← htag]
    rfl
  rcases registerElement_run e.key { e with children } tag.1 at'.hierarchy tag.2 with
    ⟨-, hregister⟩ | ⟨hold, -, -, -⟩
  · refine ⟨.element { e with children }, .element tag.1,
      { tag.2 with lookup := Dict.insert tag.2.lookup e.key tag.1 }, ?_, fun key hkey => ?_⟩
    · rw [generateNode_element, h.generate htexts hfolder, hrun]
      dsimp only
      rw [htag, hregister]
      rfl
    · rw [Node.keys, Node.elements, Element.elements_eq, List.map_cons, List.map_append,
        List.mem_cons, List.mem_append]
      rcases (Dict.contains_insert _ _ _ _).1 hkey with rfl | hkey
      · exact Or.inr (Or.inl rfl)
      · rw [hlookup] at hkey
        exact (hkeys key hkey).imp_right fun hmem => Or.inr (Or.inr hmem)
  · rw [Context.Registered, hlookup] at hold
    exact ((hkeys _ hold).elim hfree hown).elim

/-- Nodes are generated when there is depth for them and their keys are free. -/
def Comes.WhenFree (env : Environment) (at' : Surroundings) (nodes : List Node) : Prop :=
  ∀ fuel c, nodesDepth nodes ≤ fuel → ((nodesElements nodes).map (·.key)).Nodup →
    (∀ key ∈ (nodesElements nodes).map (·.key), ¬ c.Registered key) → Comes env fuel at' nodes c

theorem Comes.WhenFree.cons {nodes : List Node} (h : e.ShowsAs model) (htexts : model.HasTexts)
    (hfolder : env.folder = []) (hinside : Comes.WhenFree env at' e.children)
    (hrest : Comes.WhenFree env at' nodes) : Comes.WhenFree env at' (.element e :: nodes) := by
  intro fuel c hfuel hkeys hfree
  rw [nodesDepth, max_le_iff, Node.depth, e.depth_eq] at hfuel
  obtain ⟨fuel, rfl⟩ := Nat.exists_eq_add_of_le' (show 2 ≤ fuel by omega)
  rw [nodesElements, List.map_append] at hkeys hfree
  have hown := hkeys.of_append_left
  rw [Node.elements, Element.elements_eq, List.map_cons, List.map_append] at hown
  have hinside := hinside fuel c (by omega) hown.of_cons.of_append_right fun key hkey =>
    hfree key (List.mem_append_left _ (List.map_subset _ e.children_subset hkey))
  obtain ⟨node', piece, there, hrun, hthere⟩ := h.comes htexts hfolder hinside
    (hfree _ (List.mem_append_left _ (List.mem_map_of_mem e.mem_elements)))
    fun hmem => (List.nodup_cons.1 hown).1 (List.mem_append_right _ hmem)
  refine .cons hrun hthere
    (hrest _ there hfuel.2 hkeys.of_append_right fun key hkey hregistered => ?_)
  rcases hthere key hregistered with hbefore | hmem
  · exact hfree key (List.mem_append_right _ hkey) hbefore
  · exact List.disjoint_of_nodup_append hkeys hmem hkey

/-- **Nodes that stand for pieces of a document are generated** when there is depth for them and
their keys are free. -/
theorem Depicts.comes (hfolder : env.folder = []) {pieces : List Dom} {nodes : List Node}
    (h : Depicts (mappedLook env.options) pieces nodes) : Comes.WhenFree env at' nodes := by
  have htexts := fun name attrs => (hasTexts_embeddedLook name attrs).applyMapping env.options
  induction h with
  | nil => exact fun _ c _ _ _ => ⟨[], [], c, rfl, fun _ hkey => Or.inl hkey⟩
  | comment _ ih => exact ih
  | blank _ _ ih => exact ih
  | @text s _ _ _ _ ih =>
    intro fuel c hfuel hkeys hfree
    obtain ⟨hone, hfuel⟩ := max_le_iff.1 hfuel
    obtain ⟨fuel, rfl⟩ := Nat.exists_eq_add_of_le' (show 1 ≤ fuel from hone)
    have hrun : generateNode env (fuel + 1) at' (.constant (.text s)) c
        = ((.constant (.text s), .ok (.text s)), c) := rfl
    exact .cons hrun (fun _ hkey => Or.inl hkey) (ih _ c hfuel hkeys hfree)
  | @verbatim name attrs children _ e _ kept shows inside _ ih =>
    refine .cons shows (htexts _ _) hfolder ?_ ih
    rw [inside]
    intro fuel c hfuel _ _
    obtain ⟨fuel, rfl⟩ := Nat.exists_eq_add_of_le' (show 1 ≤ fuel from (max_le_iff.1 hfuel).1)
    exact ⟨_, _, c, rfl, fun _ hkey => Or.inl hkey⟩
  | embedded carried shows _ _ ihinside ih => exact .cons shows (htexts _ _) hfolder ihinside ih
  | element plain own' shows _ _ ihinside ih => exact .cons shows (htexts _ _) hfolder ihinside ih

/-! ## Elements with markup -/

/-- **An element that carries markup is generated** to a tag whose children show the markup. -/
theorem Embeds.exists_tag {html : String} {e₀ e' : Element} {id : Nat} {c' : Context}
    (h : Embeds env.options e₀ html e) (hfolder : env.folder = []) (htag : e.isInstance = false)
    (hrun : generateElement env fuel at' e c = ((e', .ok id), c')) :
    ∃ table pieces, c'.canvas.tags[id]? = some ⟨"div", table, pieces⟩ ∧
      Shows .ofPage env.options (unwrapAll (parseDocument html)) (pieces.map c'.canvas.markup) ∧
      ∀ inner, .element inner ∈ pieces → c'.canvas.Finite inner := by
  obtain ⟨fuel, rfl⟩ := generateElement_ok hrun
  obtain ⟨pieces, there, table, hchildren, hcreate⟩ := (TagRun.of_run htag hrun).children
  obtain ⟨rfl, hcanvas⟩ := Prod.mk.inj hcreate
  obtain ⟨hshown, hfinite⟩ := (h.children.draws hfolder hchildren).shows c'.canvas
    (hcanvas ▸ Canvas.Keeps.create there.canvas _)
  refine ⟨table, pieces, ?_, hshown, hfinite⟩
  rw [← hcanvas, ← h.elementType]
  exact Array.getElem?_push_size

end Generation

end PageCompiler
