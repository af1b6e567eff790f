import PageCompiler.Proofs.Page.Embedding
import PageCompiler.Proofs.Page.Reached
import PageCompiler.Proofs.Page.Styles

/-!
# Embedded markup on a finished page

The elements of a page are decorated after they were made: they get classes from the style stage,
and the wrapper of an instance gets a comment. So on the canvas that a page is printed from, the
markup of an element is the markup that was made, with more classes and comments at most
(`Markup.Dressed`).

* `Canvas.Grows.dressed_children`: what becomes of the markup inside an element.
* `Embeds.renders`: an element that carries markup shows it on the finished page.
* `generate_embeds`: all such elements in the tree of a page.
* `Loses`: markup that a page does not show all of.
-/

namespace PageCompiler

open Html

/-! ## Decorated markup -/

/-- Markup is other markup with more classes and comments. -/
inductive Markup.Dressed : List Markup → List Markup → Prop
  | nil : Dressed [] []
  | comment {s : String} {shown dressed : List Markup} (rest : Dressed shown dressed) :
      Dressed shown (.comment s :: dressed)
  | same {piece : Markup} {shown dressed : List Markup} (rest : Dressed shown dressed) :
      Dressed (piece :: shown) (piece :: dressed)
  | element {tag : String} {table table' : Dict String} {inner inner' shown dressed : List Markup}
      (attrs : Dict.erase table' "class" = Dict.erase table "class")
      (classes : ∀ word, (Tag.mk tag table []).HasClass word → (Tag.mk tag table' []).HasClass word)
      (inside : Dressed inner inner') (rest : Dressed shown dressed) :
      Dressed (.element tag table inner :: shown) (.element tag table' inner' :: dressed)

theorem Markup.Dressed.behind_comments {shown dressed : List Markup} (h : Dressed shown dressed)
    (comments : List String) : Dressed shown (comments.map .comment ++ dressed) := by
  induction comments with
  | nil => exact h
  | cons s rest ih => exact .comment ih

theorem Markup.Dressed.refl : (shown : List Markup) → Dressed shown shown
  | [] => .nil
  | _ :: rest => .same (refl rest)

/-- An element of the markup is still there. -/
theorem Markup.Dressed.exists_of_element {tag : String} {table : Dict String}
    {inner shown dressed : List Markup} (h : Dressed (.element tag table inner :: shown) dressed) :
    ∃ table' inner', .element tag table' inner' ∈ dressed ∧
      Dict.erase table' "class" = Dict.erase table "class" ∧ Dressed inner inner' := by
  generalize hall : Markup.element tag table inner :: shown = all at h
  induction h with
  | nil => cases hall
  | comment _ ih =>
    obtain ⟨table', inner', hmem, hinner⟩ := ih hall
    exact ⟨table', inner', List.mem_cons_of_mem _ hmem, hinner⟩
  | same _ _ =>
    cases hall
    exact ⟨table, inner, List.mem_cons_self, rfl, .refl inner⟩
  | element attrs _ inside _ _ _ =>
    cases hall
    exact ⟨_, _, List.mem_cons_self, attrs, inside⟩

/-- A text of the markup is still there. -/
theorem Markup.Dressed.mem {shown dressed : List Markup} (h : Dressed shown dressed) {s : String}
    (hmem : .text s ∈ shown) : .text s ∈ dressed := by
  induction h with
  | nil => cases hmem
  | comment _ ih => exact List.mem_cons_of_mem _ (ih hmem)
  | same _ ih =>
    rw [List.mem_cons] at hmem ⊢
    exact hmem.imp_right ih
  | element _ _ _ _ _ ih =>
    exact List.mem_cons_of_mem _ (ih ((List.mem_cons.1 hmem).resolve_left nofun))

namespace Canvas

variable {c c' : Canvas} {t t' : Tag} {id : Nat}

theorem dressed_pieces {pieces : List Piece} (h : ∀ id, .element id ∈ pieces →
      ∀ {shown dressed}, Markup.Dressed shown dressed →
        Markup.Dressed (c.markup (.element id) :: shown) (c'.markup (.element id) :: dressed)) :
    Markup.Dressed (pieces.map c.markup) (pieces.map c'.markup) := by
  induction pieces with
  | nil => exact .nil
  | cons piece rest ih =>
    have hrest := ih fun id hid => h id (List.mem_cons_of_mem _ hid)
    cases piece with
    | element id => exact h id List.mem_cons_self hrest
    | text s =>
      rw [List.map_cons, List.map_cons, markup_text, markup_text]
      exact .same hrest
    | raw s =>
      rw [List.map_cons, List.map_cons, markup_raw, markup_raw]
      exact .same hrest
    | comment s =>
      rw [List.map_cons, List.map_cons, markup_comment, markup_comment]
      exact .same hrest

theorem dressed_children (ht : t.Decorated t')
    (h : Markup.Dressed (t.children.map c.markup) (t.children.map c'.markup)) :
    Markup.Dressed (t.children.map c.markup) (t'.children.map c'.markup) := by
  obtain ⟨comments, hchildren⟩ := ht.children
  rw [hchildren, List.map_append, List.map_map]
  have hcomments : comments.map (c'.markup ∘ .comment) = comments.map .comment :=
    List.map_congr_left fun s _ => markup_comment ..
  rw [hcomments]
  exact h.behind_comments comments

/-- **A complete element** is dressed as the canvas grows. -/
theorem Finite.dressed (h : c.Finite id) (hgrows : c.Grows c') {shown dressed : List Markup}
    (hrest : Markup.Dressed shown dressed) :
    Markup.Dressed (c.markup (.element id) :: shown) (c'.markup (.element id) :: dressed) := by
  induction h generalizing shown dressed with
  | @intro id t found inside ih =>
    have hfinite : c.Finite id := .intro found inside
    obtain ⟨t', hdecorated, hmarkup⟩ := hgrows.exists_markup hfinite found
    rw [hfinite.markup_eq found, hmarkup]
    refine .element hdecorated.attrs hdecorated.classes (dressed_children hdecorated ?_) hrest
    exact dressed_pieces fun inner hinner _ _ => ih inner (Tag.mem_handles.2 hinner)

/-- **The markup inside an element** is dressed as the canvas grows. -/
theorem Grows.dressed_children (hgrows : c.Grows c') (ht : t.Decorated t')
    (h : ∀ inner, .element inner ∈ t.children → c.Finite inner) :
    Markup.Dressed (t.children.map c.markup) (t'.children.map c'.markup) :=
  Canvas.dressed_children ht
    (dressed_pieces fun inner hinner _ _ => (h inner hinner).dressed hgrows)

end Canvas

/-! ## Elements with markup on a page -/

/-- Each time that an element is generated in a run, it comes to a `div` whose markup on the
finished page shows the markup that another element carries, decorated at most. What is inside it is
generated without fail when there is depth for it and its keys are free. -/
structure Renders (f : Fidelity) (env : Environment) (root : Call) (done : Canvas) (e : Element)
    (html : String) (e' : Element) : Prop where
  isInstance : e'.isInstance = e.isInstance
  comes : ∀ fuel at' c, nodesDepth e'.children ≤ fuel →
    (∀ key ∈ (nodesElements e'.children).map (·.key), ¬ c.Registered key) →
    Comes env fuel at' e'.children c
  shows : e.isInstance = false → ∀ fuel at' c, Leads env root ⟨fuel, at', .element e', c⟩ →
    ∃ id table shown inner, (generateElement env fuel at' e' c).1.2 = .ok id ∧
      Shows f env.options (unwrapAll (parseDocument html)) shown ∧ Markup.Dressed shown inner ∧
      done.markup (.element id) = .element "div" table inner

section Pages

variable {env : Environment} {root call : Call} {done c' : Context}

/-- What is left of a call that a run leads to is there when the run has ended. -/
theorem Leads.grows (hplain : env.Plain) (h : Leads env root call) (hends : root.Ends env c') :
    ∃ there, call.Ends env there ∧ there.Grows c' := by
  induction h with
  | refl => exact ⟨c', hends, .refl c'⟩
  | tail _ makes ih =>
    obtain ⟨after, hcall, hgrows⟩ := ih
    obtain ⟨before, there, hinner, hthere, hcloses⟩ := makes.ends hplain hcall
    exact ⟨before, hinner, hthere.trans ((hcloses.grows hplain).trans hgrows)⟩

/-- An element that hangs in the open is printed to the file of the markup. -/
theorem Hangs.printed {p : PageGenerator} {page : Component} {o : Options} {e : Element}
    {done : Compilation} (h : Hangs ⟨page.props, page.states⟩ e page.node) (hrun : runStages
      (p.template :: PageGenerator.standard.generator.stages) { component := page, options := o }
        = (.ok (), done)) {code : Code}
    (hcode : linkFiles done.context.canvas done.context.chunks = .ok code) (names : OutputNames)
    (componentName : String) : ∃ fuel there id,
      Leads (p.environment page o) (p.pageCall page o)
        ⟨fuel, (p.pageCall page o).place, .element e, there⟩ ∧
      (generateElement (p.environment page o) fuel (p.pageCall page o).place e there).1.2
        = .ok id ∧
      ∃ file ∈ outputFiles names componentName code, file.fileType = htmlFile ∧
        (done.context.canvas.print (.element id)).toList <:+: file.content.toList := by
  obtain ⟨node, piece, c', hgenerated, hkept, -, hshallow⟩ := exists_of_pageStages hrun
  have hsound : (p.pageCall page o).context.Sound := fun key id hid => by cases hid
  obtain ⟨fuel, there, id, hleads, hid, hfinite, hinfix⟩ :=
    h.reached (p.environment_plain page o) hgenerated hsound hkept.canvas
  obtain ⟨after, hchunk⟩ := hkept.chunks _ (List.mem_append_right _ List.mem_cons_self)
  have htext : Chunk.text done.context.canvas { templateChunk piece c'.lookup with after }
      = done.context.canvas.print piece := rfl
  have hne : done.context.canvas.print piece ≠ "" := by
    intro hempty
    rw [hempty, String.toList_empty, List.infix_nil] at hinfix
    exact hfinite.print_ne_empty (String.toList_inj.1 hinfix)
  obtain ⟨file, hfile, hfileType, hprinted⟩ :=
    exists_outputFile hshallow hchunk (htext ▸ hne) hcode names componentName
  exact ⟨fuel, there, id, hleads, hid, file, hfile, hfileType, hinfix.trans (htext ▸ hprinted)⟩

end Pages

/-! ## Pages that are markup -/

section Comparison

mutual

/-- Pieces of documents can be compared. -/
def Html.Dom.decEq : (a b : Dom) → Decidable (a = b)
  | .element name attrs children, .element name' attrs' children' =>
    have := decEqAll children children'
    decidable_of_iff (name = name' ∧ attrs = attrs' ∧ children = children')
      (Dom.element.injEq ..).symm.to_iff
  | .text s, .text s' => decidable_of_iff (s = s') (Dom.text.injEq ..).symm.to_iff
  | .comment, .comment => .isTrue rfl
  | .element .., .text _ => .isFalse nofun
  | .element .., .comment => .isFalse nofun
  | .text _, .element .. => .isFalse nofun
  | .text _, .comment => .isFalse nofun
  | .comment, .element .. => .isFalse nofun
  | .comment, .text _ => .isFalse nofun

/-- Documents can be compared. -/
def Html.Dom.decEqAll : (a b : List Dom) → Decidable (a = b)
  | [], [] => .isTrue rfl
  | a :: rest, b :: rest' =>
    have := a.decEq b
    have := decEqAll rest rest'
    decidable_of_iff (a = b ∧ rest = rest') (List.cons.injEq ..).symm.to_iff
  | [], _ :: _ => .isFalse nofun
  | _ :: _, [] => .isFalse nofun

end

instance : DecidableEq Dom := Dom.decEq

end Comparison

/-- A page that is nothing but markup. -/
def markupPage (html : String) : Component where
  name := "Page"
  node := .element {
    elementType := embeddingType, key := "page", attrs := [("html", .constant (.text html))] }

theorem Corresponds.exists_of_markupPage {related : Element → String → Element → Prop}
    {html : String} {node' : Node} (h : Corresponds related [(markupPage html).node] [node']) :
    ∃ e e', node' = .element e' ∧ e.isInstance = false ∧ related e html e' := by
  cases h with
  | plain hplain => cases hplain
  | linked hlinked => exact absurd rfl hlinked
  | element _ _ _ carries => exact ⟨_, _, rfl, rfl, carries html rfl⟩

/-- What the finished page shows of its markup. -/
theorem Renders.exists_of_markupPage {f : Fidelity} {html : String} {page : Component}
    {canvas : Canvas} (h : Corresponds
      (Renders f (plainPages.environment page {}) (plainPages.pageCall page {}) canvas)
      [(markupPage html).node] [page.node]) :
    ∃ id table shown inner, Shows f {} (unwrapAll (parseDocument html)) shown ∧
      Markup.Dressed shown inner ∧ canvas.markup (.element id) = .element "div" table inner := by
  obtain ⟨e, e', hnode, he, hrenders⟩ := h.exists_of_markupPage
  obtain ⟨fuel, hroot⟩ := exists_stands_root plainPages {} hnode
  obtain ⟨id, table, shown, inner, -, hshows, hdressed, hmarkup⟩ :=
    hrenders.shows he _ _ _ hroot.leads
  exact ⟨id, table, shown, inner, hshows, hdressed, hmarkup⟩

/-- A page that is nothing but markup is compiled, but does not show all that is asked for. -/
def Loses (f : Fidelity) (html : String) : Prop :=
  ∃ compiled page done, plainPages.generate (markupPage html) {} = .ok compiled ∧
    (markupPage html).resolve .html {} = .ok page ∧
    runStages (plainPages.template :: PageGenerator.standard.generator.stages)
      { component := page, options := {} } = (.ok (), done) ∧
    page.folderPath = [] ∧
    ¬ Corresponds (Renders f (plainPages.environment page {}) (plainPages.pageCall page {})
      done.context.canvas) [(markupPage html).node] [page.node]

/-- The elements of the finished page, and the folder that it is in. -/
def finishedTags (html : String) : Except Diagnostic (List Tag × List String) := do
  let page ← (markupPage html).resolve .html {}
  let (outcome, done) := runStages (plainPages.template :: PageGenerator.standard.generator.stages)
    { component := page, options := {} }
  outcome
  let _ ← linkFiles done.context.canvas done.context.chunks
  return (done.context.canvas.tags.toList, page.folderPath)

theorem exists_of_finishedTags {html : String} {tags : List Tag} {folder : List String}
    (h : (finishedTags html).toOption = some (tags, folder)) :
    ∃ compiled page done, plainPages.generate (markupPage html) {} = .ok compiled ∧
      (markupPage html).resolve .html {} = .ok page ∧
      runStages (plainPages.template :: PageGenerator.standard.generator.stages)
        { component := page, options := {} } = (.ok (), done) ∧
      done.context.canvas = ⟨⟨tags⟩⟩ ∧ page.folderPath = folder := by
  have hfinished : finishedTags html = .ok (tags, folder) := by
    cases hcase : finishedTags html <;> rw [hcase] at h <;> cases h
    rfl
  obtain ⟨page, hpage, hresult⟩ := exists_of_bind_eq_ok hfinished
  rcases hrun : runStages (plainPages.template :: PageGenerator.standard.generator.stages)
    { component := page, options := {} } with ⟨outcome, done⟩
  rw [hrun] at hresult
  obtain ⟨_, hok, hlinked⟩ := exists_of_bind_eq_ok hresult
  obtain ⟨code, hcode, hdone⟩ := exists_of_bind_eq_ok hlinked
  subst hok
  obtain ⟨rfl, rfl⟩ := Prod.mk.inj (Except.ok.inj hdone)
  have hok : (plainPages.generate (markupPage html) {}).isOk = true := by
    unfold PageGenerator.generate Generator.generateWith
    rw [show plainPages.generator.resolve (markupPage html) {} = .ok page from hpage]
    dsimp only [bind, Except.bind]
    rw [show runStages ([plainPages.template] ++ plainPages.generator.stages)
      { component := page, options := {} } = (.ok (), done) from hrun]
    dsimp only
    rw [hcode]
    rfl
  obtain ⟨compiled, hcompiled⟩ := exists_of_isOk hok
  exact ⟨compiled, page, done, hcompiled, hpage, hrun, rfl, rfl⟩

/-- An element with a name on a canvas has its children as its markup. -/
theorem Canvas.exists_of_markup {tags : List Tag} {id : Nat} {name : String} {table : Dict String}
    {inner : List Markup}
    (h : (Canvas.mk ⟨tags⟩).markup (.element id) = .element name table inner) :
    ∃ t ∈ tags, t.name = name ∧
      inner = t.children.map ((Canvas.mk ⟨tags⟩).markupTo (tags.length - 1)) := by
  rw [markup] at h
  rcases hsize : (Canvas.mk ⟨tags⟩).tags.size with _ | size
  · rw [hsize, markupTo] at h
    cases h
  · rw [hsize, markupTo] at h
    rcases ht : (Canvas.mk ⟨tags⟩).tags[id]? with _ | t
    · rw [ht] at h
      cases h
    · rw [ht] at h
      cases h
      have hlength : tags.length - 1 = size := by
        rw [← List.size_toArray, show tags.toArray.size = size + 1 from hsize, Nat.add_sub_cancel]
      rw [hlength]
      exact ⟨t, List.mem_of_getElem? (by simpa using ht), rfl, rfl⟩

/-- What is lost can be seen from the elements of the finished page. -/
theorem Loses.of_tags {f : Fidelity} {html : String} (document : List Dom) (tags : List Tag)
    (inside : List Markup) (hdocument : unwrapAll (parseDocument html) = document)
    (htags : (finishedTags html).toOption = some (tags, []))
    (hinside : ∀ t ∈ tags, t.name = "div" →
      t.children.map ((Canvas.mk ⟨tags⟩).markupTo (tags.length - 1)) = inside)
    (hlost : ∀ shown, Shows f {} document shown → ¬ Markup.Dressed shown inside) :
    Loses f html := by
  obtain ⟨compiled, page, done, h, hpage, hrun, hcanvas, hfolder⟩ := exists_of_finishedTags htags
  refine ⟨compiled, page, done, h, hpage, hrun, hfolder, fun hcorresponds => ?_⟩
  obtain ⟨id, table, shown, inner, hshows, hdressed, hmarkup⟩ :=
    Renders.exists_of_markupPage hcorresponds
  obtain ⟨t, ht, hname, rfl⟩ := Canvas.exists_of_markup (hcanvas ▸ hmarkup)
  exact hlost shown (hdocument ▸ hshows) (hinside t ht hname ▸ hdressed)

/-- A blank text between elements is lost. -/
theorem Loses.blank {f : Fidelity} (h : f.text " ") : Loses f "<b>a</b> <i>b</i>" := by
  refine .of_tags
    [.element "b" [] [.text "a"], .text " ", .element "i" [] [.text "b"]]
    [⟨"b", [], [.text "a"]⟩, ⟨"i", [], [.text "b"]⟩, ⟨"div", [], [.element 0, .element 1]⟩]
    [.element "b" [] [.text "a"], .element "i" [] [.text "b"]]
    (by decide +kernel) (by decide +kernel) (by simp [Canvas.markupTo])
    fun shown hshows hdressed => ?_
  obtain ⟨_, _, _, _, rfl, -, -, hbehind⟩ := hshows.exists_of_element rfl rfl
  obtain ⟨_, rfl, -⟩ := hbehind.exists_of_text h
  have hblank := hdressed.mem (List.mem_cons_of_mem _ List.mem_cons_self)
  simp at hblank

/-- An element whose name the mapping knows as a type is renamed. -/
theorem Loses.name : Loses { Fidelity.ofPage with tag := fun _ attrs => (Dict.keys attrs).Nodup }
    "<text></text>" := by
  refine .of_tags [.element "text" [] []]
    [⟨"span", [], []⟩, ⟨"div", [], [.element 0]⟩] [.element "span" [] []]
    (by decide +kernel) (by decide +kernel) (by simp [Canvas.markupTo])
    fun shown hshows hdressed => ?_
  obtain ⟨_, _, _, _, rfl, hkeeps, -, -⟩ := hshows.exists_of_element rfl rfl
  obtain ⟨rfl, -⟩ := hkeeps List.nodup_nil
  obtain ⟨_, _, hmem, -⟩ := hdressed.exists_of_element
  simp at hmem

/-- Of two attributes with one local name the first one is lost. -/
theorem Loses.attribute : Loses { Fidelity.ofPage with tag := Untouched }
    "<svg lang=\"a\" xml:lang=\"b\"/>" := by
  refine .of_tags [.element "svg" [("lang", "a"), ("lang", "b")] []]
    [⟨"svg", [("lang", "b")], []⟩, ⟨"div", [], [.element 0]⟩]
    [.element "svg" [("lang", "b")] []]
    (by decide +kernel) (by decide +kernel) (by simp [Canvas.markupTo])
    fun shown hshows hdressed => ?_
  have huntouched : Untouched "svg" [("lang", "a"), ("lang", "b")] := by
    have hnone : (Dict.get? Mapping.html.elements "svg").isNone = true := by decide +kernel
    intro m hm
    rw [hm] at hnone
    cases hnone
  obtain ⟨_, _, _, _, rfl, hkeeps, -, -⟩ := hshows.exists_of_element rfl rfl
  obtain ⟨rfl, hperm⟩ := hkeeps huntouched
  obtain ⟨_, _, hmem, hattrs, -⟩ := hdressed.exists_of_element
  cases List.mem_singleton.1 hmem
  have hlength := (hperm.filter (·.1 ≠ "class")).length_eq
  rw [← Dict.erase, ← hattrs] at hlength
  revert hlength
  decide

/-- A style sheet with an element inside, as another vocabulary may have it, is lost. -/
theorem Loses.style : Loses { Fidelity.ofPage with verbatim := fun _ => True }
    "<svg><style><g/></style></svg>" := by
  refine .of_tags [.element "svg" [] [.element "style" [] [.element "g" [] []]]]
    [⟨"style", [], [.raw ""]⟩, ⟨"svg", [], [.element 0]⟩, ⟨"div", [], [.element 1]⟩]
    [.element "svg" [] [.element "style" [] [.raw ""]]]
    (by decide +kernel) (by decide +kernel) (by simp [Canvas.markupTo])
    fun shown hshows _ => ?_
  obtain ⟨_, _, _, _, rfl, -, hinside, -⟩ := hshows.exists_of_element rfl rfl
  cases hinside with
  | verbatim _ _ inside _ => exact absurd ((inside trivial).1 _ List.mem_cons_self) (by decide)
  | embedded carried => cases carried
  | element plain => cases plain

end PageCompiler
