import PageCompiler.Proofs.Markup.Acyclic
import PageCompiler.Proofs.Page.Styles

/-!
# The head of a page

The tags of the head become a chunk of their own, and a chunk called as the template is waits for it:
the first one of that name. It is the template, unless an instance of a component of that name has left
a sheet before it. So the head comes first in the file of the markup, and with such an instance the
template does.

* `Component.headMarkup`: the title, the meta tags and the links to files, as markup.
* `exists_of_headStages`: the chunks for the file of the markup.
* `html_of_generate`: the file of the markup.
-/

namespace PageCompiler

/-! ## The tags -/

/-- The markup of a meta tag. -/
def metaMarkup (c : Component) (values : Dict MetaValue) : Markup :=
  .element "meta" (values.filterMap fun entry => (entry.2.text? c).map fun s => (entry.1, s)) []

/-- The markup of the head: the title, the meta tags and the links to files, in their order. -/
def Component.headMarkup (c : Component) : List Markup :=
  match c.head with
  | some h =>
    (h.title.map fun title => .element "title" [] [.text title]).toList
      ++ h.metaTags.map (metaMarkup c)
      ++ h.assets.map fun a => .element "link" [("href", a.path), ("rel", a.kind)] []
  | none => []

/-- On any canvas an element that is some tag stands for some markup. -/
def Tag.StandsFor (t : Tag) (m : Markup) : Prop :=
  ∀ (canvas : Canvas) (id : Nat), canvas.tags[id]? = some t → canvas.markup (.element id) = m

/-- A tag without elements inside stands for its children inside it. -/
theorem Tag.standsFor_of_flat {t : Tag} {children : List Markup} (hflat : t.handles = [])
    (hchildren : ∀ canvas : Canvas, t.children.map canvas.markup = children) :
    t.StandsFor (.element t.name t.attrs children) := fun canvas id ht => by
  have hfinite : canvas.Finite id := .intro ht fun inner hinner => by
    rw [hflat] at hinner
    cases hinner
  rw [hfinite.markup_eq ht, hchildren]

theorem Component.headTags_standFor (c : Component) :
    List.Forall₂ Tag.StandsFor c.headTags c.headMarkup := by
  rw [headTags, headMarkup]
  rcases c.head with _ | head
  · exact .nil
  refine List.rel_append (List.rel_append ?_ ?_) ?_
  · cases head.title with
    | none => exact .nil
    | some title => exact .cons (Tag.standsFor_of_flat rfl fun _ => by simp [titleTag]) .nil
  · rw [List.forall₂_map_left_iff, List.forall₂_map_right_iff, List.forall₂_same]
    exact fun values _ => Tag.standsFor_of_flat rfl fun _ => rfl
  · rw [List.forall₂_map_left_iff, List.forall₂_map_right_iff, List.forall₂_same]
    exact fun a _ => Tag.standsFor_of_flat rfl fun _ => rfl

/-! ## The tags on the canvas -/

theorem Canvas.getElem?_createAll (tags : List Tag) (canvas : Canvas) {id : Nat} {t : Tag}
    (h : canvas.tags[id]? = some t) : (canvas.createAll tags).2.tags[id]? = some t := by
  induction tags generalizing canvas with
  | nil => exact h
  | cons first rest ih =>
    exact ih _ (getElem?_create first h)

/-- The pieces of tags that are put on a canvas stand for what the tags stand for. -/
theorem Canvas.map_markup_createAll {tags : List Tag} {markups : List Markup}
    (h : List.Forall₂ Tag.StandsFor tags markups) (canvas : Canvas) :
    (canvas.createAll tags).1.map (canvas.createAll tags).2.markup = markups := by
  induction h generalizing canvas with
  | nil => rfl
  | @cons t m rest _ hfirst _ ih =>
    rw [createAll]
    dsimp only
    rw [List.map_cons, ih]
    congr 1
    refine hfirst _ _ (getElem?_createAll rest _ ?_)
    exact Array.getElem?_push_size

/-! ## The chunks -/

/-- The chunk with the tags of the head. -/
def headChunk (pieces : List Piece) : Chunk where
  name := headChunkName
  kind := .markup
  fileType := htmlFile
  content := .parts (pieces.map .markup)

/-- The chunk, waiting for the head. -/
def Chunk.behindHead (chunk : Chunk) : Chunk :=
  { chunk with after := chunk.after ++ [headChunkName] }

/-- **The stage of the head** adds the tags with a chunk of them, which the first chunk called as the
template waits for. -/
theorem headStage_run {c : Compilation} (h : c.component.headTags ≠ []) :
    headStage.run c = (.ok (), { c with
      context := ({ c.context with canvas := (c.context.canvas.createAll c.component.headTags).2 }.push
        (headChunk (c.context.canvas.createAll c.component.headTags).1)).modifyChunk
          templateChunkName Chunk.behindHead }) := by
  unfold headStage
  dsimp only
  rw [if_neg (by simpa using h)]
  rfl

theorem Context.canvas_modifyChunk (c : Context) (name : String) (f : Chunk → Chunk) :
    (c.modifyChunk name f).canvas = c.canvas := by
  rw [modifyChunk]
  split <;> rfl

/-- A change of the chunks of a name changes the first one. -/
theorem Context.modifyChunk_of_first {c : Context} {before behind : List Chunk} {chunk : Chunk}
    {name : String} (f : Chunk → Chunk) (hchunks : c.chunks = before ++ chunk :: behind)
    (hbefore : ∀ d ∈ before, d.name ≠ name) (hname : chunk.name = name) :
    c.modifyChunk name f = { c with chunks := before ++ f chunk :: behind } := by
  have htake : c.chunks.takeWhile (·.name ≠ name) = before := by
    rw [hchunks, List.takeWhile_append_of_pos (by simpa using hbefore),
      List.takeWhile_cons_of_neg (by simpa using hname), List.append_nil]
  have hdrop : c.chunks.dropWhile (·.name ≠ name) = chunk :: behind := by
    rw [hchunks, List.dropWhile_append_of_pos (by simpa using hbefore),
      List.dropWhile_cons_of_neg (by simpa using hname)]
  rw [modifyChunk, hdrop, htake]

theorem map_name_of_sheets {components : List Component} {sheets : List Chunk}
    (h : List.Forall₂ IsSheetOf components sheets) :
    sheets.map (·.name) = components.map (·.name) := by
  rw [← List.forall₂_eq_eq_eq, List.forall₂_map_left_iff, List.forall₂_map_right_iff]
  exact h.flip.imp fun _ _ h => h.name

/-- Among sheets there are two chunks for the file of the markup. -/
theorem filter_among_sheets {before own : List Chunk} {template head : Chunk}
    (hbefore : ∀ chunk ∈ before, chunk.fileType = cssFile)
    (hown : ∀ chunk ∈ own, chunk.fileType = cssFile) (htemplate : template.fileType = htmlFile)
    (hhead : head.fileType = htmlFile) :
    (before ++ template :: (own ++ [head])).filter (·.fileType = htmlFile) = [template, head] := by
  have hcss {chunks : List Chunk} (h : ∀ chunk ∈ chunks, chunk.fileType = cssFile) :
      chunks.filter (·.fileType = htmlFile) = [] :=
    List.filter_eq_nil_iff.2 fun chunk hchunk => by
      rw [h chunk hchunk]
      decide
  rw [List.filter_append, hcss hbefore, List.nil_append, List.filter_cons_of_pos (by simpa),
    List.filter_append, hcss hown, List.nil_append, List.filter_cons_of_pos (by simpa)]
  rfl

theorem Component.sheets_fileType (component : Component) (name : String) :
    ∀ chunk ∈ component.sheets name, chunk.fileType = cssFile := by
  rw [sheets]
  split
  · exact fun _ h => by cases h
  · exact List.forall_mem_singleton.2 rfl

/-- The template waits for the head when it is the first chunk of its name. -/
theorem filter_modifyChunk {components : List Component} {sheets own : List Chunk}
    (hsheets : List.Forall₂ IsSheetOf components sheets)
    (hown : ∀ chunk ∈ own, chunk.fileType = cssFile) (piece : Piece) (lookup : Lookup)
    (pieces : List Piece) (c : Context)
    (hc : c.chunks = sheets ++ templateChunk piece lookup :: (own ++ [headChunk pieces])) :
    (c.modifyChunk templateChunkName Chunk.behindHead).chunks.filter (·.fileType = htmlFile)
      = if templateChunkName ∈ components.map (·.name)
        then [templateChunk piece lookup, headChunk pieces]
        else [(templateChunk piece lookup).behindHead, headChunk pieces] := by
  have hcss : ∀ chunk ∈ sheets, chunk.fileType = cssFile := fun chunk hchunk => by
    obtain ⟨component, -, hsheet⟩ := exists_of_forall₂_right hsheets hchunk
    exact hsheet.fileType
  rw [← map_name_of_sheets hsheets]
  split
  · rename_i hmem
    -- a sheet of that name stands before the template
    obtain ⟨first, hfirst⟩ := Option.isSome_iff_exists.1 (List.find?_isSome.2 (by simpa using hmem) :
      (sheets.find? (·.name = templateChunkName)).isSome)
    obtain ⟨hname, before, behind, hsplit, hbefore⟩ := List.find?_eq_some_iff_append.1 hfirst
    have hchunks : c.chunks = before ++ first
        :: (behind ++ templateChunk piece lookup :: (own ++ [headChunk pieces])) := by
      rw [hc, hsplit, List.append_assoc]
      rfl
    rw [c.modifyChunk_of_first Chunk.behindHead hchunks (by simpa using hbefore)
      (by simpa using hname)]
    have hothers : ∀ chunk ∈ before ++ first.behindHead :: behind, chunk.fileType = cssFile := by
      rw [hsplit, List.forall_mem_append, List.forall_mem_cons] at hcss
      exact List.forall_mem_append.2 ⟨hcss.1, List.forall_mem_cons.2 hcss.2⟩
    rw [← List.cons_append, ← List.append_assoc]
    exact filter_among_sheets hothers hown rfl rfl
  · rename_i hmem
    rw [c.modifyChunk_of_first Chunk.behindHead hc
      (fun d hd hname => hmem (List.mem_map.2 ⟨d, hd, hname⟩)) rfl]
    exact filter_among_sheets hcss hown rfl rfl

/-! ## The stages -/

section Stages

variable {p : PageGenerator} {page : Component} {o : Options} {done : Compilation}

/-- What the stages of a page with a head leave behind for the file of the markup: the template and the
head, which the template waits for unless a sheet is called as the template is. -/
structure HeadedBy (components : List Component) (page : Component) (piece : Piece) (lookup : Lookup)
    (pieces : List Piece) (done : Compilation) : Prop where
  name : done.component.name = page.name
  head : pieces.map done.context.canvas.markup = page.headMarkup
  chunks : done.context.chunks.filter (·.fileType = htmlFile)
    = if templateChunkName ∈ components.map (·.name)
      then [templateChunk piece lookup, headChunk pieces]
      else [(templateChunk piece lookup).behindHead, headChunk pieces]

theorem exists_of_headStage {components : List Component} {sheets own : List Chunk}
    {start : Compilation} {piece : Piece} {lookup : Lookup}
    (hsheets : List.Forall₂ IsSheetOf components sheets)
    (hown : ∀ chunk ∈ own, chunk.fileType = cssFile)
    (hchunks : start.context.chunks = sheets ++ templateChunk piece lookup :: own)
    (hhead : start.component.headTags ≠ []) (h : headStage.run start = (.ok (), done)) :
    ∃ pieces, HeadedBy components start.component piece lookup pieces done := by
  rw [headStage_run hhead] at h
  obtain ⟨-, rfl⟩ := Prod.mk.inj h
  refine ⟨(start.context.canvas.createAll start.component.headTags).1, rfl, ?_,
    filter_modifyChunk hsheets hown piece lookup _ _ ?_⟩
  · rw [Context.canvas_modifyChunk]
    exact Canvas.map_markup_createAll start.component.headTags_standFor _
  · change start.context.chunks ++ [headChunk _] = _
    rw [hchunks, List.append_assoc, List.cons_append]

/-- **The stages of a page with a head.** The tree is generated to the template. -/
theorem exists_of_headedStages (hhead : page.headTags ≠ []) (h : runStages
      (p.template :: PageGenerator.standard.generator.stages) { component := page, options := o }
        = (.ok (), done)) :
    ∃ node piece c pieces, generateNode (p.environment page o) (p.pageCall page o).fuel
        (p.pageCall page o).place page.node (p.pageCall page o).context
          = ((node, .ok piece), c) ∧
      HeadedBy (expansions (p.environment page o)
        ((p.pageCall page o).finished (p.environment page o))) page piece c.lookup pieces done := by
  obtain ⟨generated, htemplate, h⟩ := exists_of_runStages h
  obtain ⟨node, piece, c, hrun, rfl⟩ := exists_of_templateStage htemplate
  have hsheets := p.sheets hrun
  obtain ⟨styled, hstyle, h⟩ := exists_of_runStages h
  rw [stylesheetStage_run _ (findChunk_template piece c.lookup fun chunk hchunk =>
    (forall_of_sheets hsheets chunk hchunk).1)] at hstyle
  obtain ⟨finished, hfinished, h⟩ := exists_of_runStages h
  obtain ⟨-, rfl⟩ := Prod.mk.inj h
  obtain ⟨-, hstyled⟩ := Prod.mk.inj hstyle
  have hcomponent : styled.component = { page with node } := by rw [← hstyled]
  have hchunks : styled.context.chunks = c.chunks ++ templateChunk piece c.lookup
      :: Component.sheets { page with node } pageStyleChunkName := by
    rw [← hstyled]
    change (c.chunks ++ [_]) ++ _ = _
    rw [List.append_assoc]
    rfl
  have hheadTags : styled.component.headTags ≠ [] := by
    rw [hcomponent]
    exact hhead
  obtain ⟨pieces, hheaded⟩ := exists_of_headStage hsheets
    (Component.sheets_fileType _ _) hchunks hheadTags hfinished
  rw [hcomponent] at hheaded
  exact ⟨node, piece, c, pieces, hrun, hheaded.name, hheaded.head, hheaded.chunks⟩

end Stages

/-! ## The file -/

theorem allEmpty_markup (pieces : List Piece) (h : pieces ≠ []) :
    ChunkContent.allEmpty (pieces.map .markup) = false := by
  obtain ⟨piece, rest, rfl⟩ := List.exists_cons_of_ne_nil h
  rfl

theorem printAll_markup (canvas : Canvas) (pieces : List Piece) :
    ChunkContent.printAll canvas allPrinters .markup (pieces.map .markup)
      = .ok (pieces.map canvas.print) := by
  induction pieces with
  | nil => rfl
  | cons piece rest ih =>
    rw [List.map_cons, ChunkContent.printAll, ih]
    rfl

theorem headChunk_text (canvas : Canvas) {pieces : List Piece} (h : pieces ≠ []) :
    (headChunk pieces).text canvas = "\n".intercalate (pieces.map canvas.print) := by
  have hprint : (headChunk pieces).content.print canvas allPrinters (headChunk pieces).kind
      = .ok ("\n".intercalate (pieces.map canvas.print)) := by
    change ChunkContent.print canvas allPrinters .markup (.parts (pieces.map .markup)) = _
    rw [ChunkContent.print, allEmpty_markup pieces h, printAll_markup]
    rfl
  rw [Chunk.text, hprint]
  rfl

theorem linkOrder_behindHead (piece : Piece) (lookup : Lookup) (pieces : List Piece) :
    linkOrder [(templateChunk piece lookup).behindHead, headChunk pieces]
      = ([headChunk pieces, (templateChunk piece lookup).behindHead], []) := by
  rfl

theorem linkOrder_template (piece : Piece) (lookup : Lookup) (pieces : List Piece) :
    linkOrder [templateChunk piece lookup, headChunk pieces]
      = ([templateChunk piece lookup, headChunk pieces], []) := by
  rfl

/-- The first lines of the file of the markup: the tags of the head, each on a line of its own. -/
def Component.headText (c : Component) : String :=
  "\n".intercalate (c.headMarkup.map Markup.print)

theorem Markup.print_element_ne_empty (tag : String) (attrs : List (String × String))
    (children : List Markup) : (Markup.element tag attrs children).print.toList ≠ [] := by
  rw [print]
  split <;> simp [startTag]

theorem Component.exists_element_of_headMarkup {c : Component} {m : Markup}
    (h : m ∈ c.headMarkup) : ∃ tag attrs children, m = .element tag attrs children := by
  rw [headMarkup] at h
  split at h
  · rcases List.mem_append.1 h with h | h
    · rcases List.mem_append.1 h with h | h
      · obtain ⟨_, -, rfl⟩ := Option.mem_map.1 (Option.mem_toList.1 h)
        exact ⟨_, _, _, rfl⟩
      · obtain ⟨_, -, rfl⟩ := List.mem_map.1 h
        exact ⟨_, _, _, rfl⟩
    · obtain ⟨_, -, rfl⟩ := List.mem_map.1 h
      exact ⟨_, _, _, rfl⟩
  · cases h

theorem Component.headMarkup_ne_nil {c : Component} (h : c.headTags ≠ []) : c.headMarkup ≠ [] := by
  intro hnil
  have hlength := c.headTags_standFor.length_eq
  rw [hnil, List.length_nil] at hlength
  exact h (List.length_eq_zero_iff.1 hlength)

theorem Component.headText_ne_empty {c : Component} (h : c.headTags ≠ []) :
    c.headText.isEmpty = false := by
  obtain ⟨m, hm⟩ := List.exists_mem_of_ne_nil _ (headMarkup_ne_nil h)
  obtain ⟨tag, attrs, children, rfl⟩ := exists_element_of_headMarkup hm
  rw [Bool.eq_false_iff]
  intro hempty
  have hinfix := infix_intercalate "\n" (List.mem_map_of_mem (f := Markup.print) hm)
  rw [headText, String.isEmpty_iff] at hempty
  rw [hempty, String.toList_empty] at hinfix
  exact Markup.print_element_ne_empty _ _ _ (List.infix_nil.1 hinfix)

/-- The text of the file of the markup. -/
theorem HeadedBy.linkChunks {components : List Component} {page : Component} {piece : Piece}
    {lookup : Lookup} {pieces : List Piece} {done : Compilation}
    (h : HeadedBy components page piece lookup pieces done) (hhead : page.headTags ≠ []) :
    linkChunks done.context.canvas allPrinters
        (done.context.chunks.filter (·.fileType = htmlFile)) = .ok (
      let template := done.context.canvas.print piece
      if templateChunkName ∈ components.map (·.name) then
        (if template.isEmpty then "" else template ++ "\n\n") ++ page.headText ++ "\n"
      else page.headText ++ "\n" ++ if template.isEmpty then "" else "\n" ++ template ++ "\n") := by
  have hpieces : pieces ≠ [] := by
    rintro rfl
    exact Component.headMarkup_ne_nil hhead h.head.symm
  have htext : (headChunk pieces).text done.context.canvas = page.headText := by
    rw [headChunk_text _ hpieces, Component.headText, ← h.head, List.map_map]
    rfl
  have hne := Component.headText_ne_empty hhead
  have htemplate (chunk : Chunk) (hchunk : chunk.content = .markup piece)
      (hkind : chunk.kind = .markup) :
      chunk.text done.context.canvas = done.context.canvas.print piece := by
    rw [Chunk.text, hchunk, hkind]
    rfl
  rw [h.chunks, linkChunks_eq]
  dsimp only
  split
  · rw [linkOrder_template, endedTexts, List.map_cons, List.map_cons, List.map_nil, htext,
      htemplate _ rfl rfl]
    by_cases hempty : (done.context.canvas.print piece).isEmpty
    · simp [hempty, hne]
    · simp [hempty, hne, String.append_assoc]
  · rw [linkOrder_behindHead, endedTexts, List.map_cons, List.map_cons, List.map_nil, htext,
      htemplate _ rfl rfl]
    by_cases hempty : (done.context.canvas.print piece).isEmpty
    · simp [hempty, hne]
    · simp [hempty, hne, ← String.append_assoc]

/-- **The file of the markup of a page with a head.** -/
theorem html_of_generate {externals : Dict Component} {c : Component} {o : Options}
    {compiled : Compiled} (h : (PageGenerator.ofExternals externals).generate c o = .ok compiled) :
    ∃ page, c.resolve .html o = .ok page ∧ (page.headTags ≠ [] →
      let p := PageGenerator.ofExternals externals
      let calls := (p.pageCall page o).finished (p.environment page o)
      ∃ node piece after done, generateNode (p.environment page o) (p.pageCall page o).fuel
          (p.pageCall page o).place page.node (p.pageCall page o).context
            = ((node, .ok piece), after) ∧
        runStages (p.template :: PageGenerator.standard.generator.stages)
          { component := page, options := o } = (.ok (), done) ∧
        let template := done.context.canvas.print piece
        compiled.files.filter (·.fileType = htmlFile)
          = [⟨(page.output.getD {}).nameFor page.name htmlFile, htmlFile,
              if templateChunkName ∈ (expansions (p.environment page o) calls).map (·.name) then
                (if template.isEmpty then "" else template ++ "\n\n") ++ page.headText ++ "\n"
              else page.headText ++ "\n"
                ++ if template.isEmpty then "" else "\n" ++ template ++ "\n"⟩]) := by
  obtain ⟨page, done, code, hpage, hrun, hcode, hfiles⟩ := exists_of_generate h
  refine ⟨page, hpage, fun hhead => ?_⟩
  obtain ⟨node, piece, after, pieces, hgenerated, hheaded⟩ := exists_of_headedStages hhead hrun
  refine ⟨node, piece, after, done, hgenerated, hrun, ?_⟩
  have hlink := hheaded.linkChunks hhead
  have hname := hheaded.name
  rw [hfiles, hname]
  refine filter_outputFiles hcode hlink ?_ _ _
  dsimp only
  split <;> simp

/-- Only what is registered is expanded. -/
theorem exists_of_mem_expansions {env : Environment} {calls : List Call} {component : Component}
    (h : component ∈ expansions env calls) :
    ∃ name, Dict.get? env.externals name = some component := by
  obtain ⟨call, -, hexpanded⟩ := List.mem_filterMap.1 h
  unfold Call.expanded? at hexpanded
  split at hexpanded
  · split at hexpanded
    · exact ⟨_, hexpanded⟩
    · cases hexpanded
  · cases hexpanded

/-! ## A page with an instance -/

/-- A page with a title, a meta tag and a link, which shows an instance of a component. -/
def headedPage (name : String) : Component where
  name := "Page"
  node := .element {
    elementType := "container", key := "page"
    children := [.element (.ofComponent name "inner")] }
  head := some {
    title := some "Home"
    metaTags := [[("name", .text "author"), ("content", .text "me")]]
    assets := [{ path := "page.css", kind := "stylesheet" }] }

/-- The generator of pages with an empty component of some name. -/
abbrev pagesWith (name : String) : PageGenerator := .ofExternals [(name, emptyComponent name)]

/-- The head of `headedPage`. -/
def headedPageHead : String :=
  "<title>Home</title>\n<meta name=\"author\" content=\"me\">\n<link href=\"page.css\" rel=\"stylesheet\">"

theorem headedPage_html : ∃ compiled page,
    (pagesWith "Badge").generate (headedPage "Badge") {} = .ok compiled ∧
    (headedPage "Badge").resolve .html {} = .ok page ∧ page.headTags ≠ [] ∧
    ∃ template, compiled.files.filter (·.fileType = htmlFile)
      = [⟨"page", htmlFile,
          headedPageHead ++ "\n" ++ if template.isEmpty then "" else "\n" ++ template ++ "\n"⟩] := by
  obtain ⟨compiled, h⟩ := exists_of_isOk
    (by decide +kernel : ((pagesWith "Badge").generate (headedPage "Badge") {}).isOk = true)
  obtain ⟨page, hpage, hhtml⟩ := html_of_generate h
  have hresolved : ∀ page ∈ ((headedPage "Badge").resolve .html {}).toOption,
      page.headTags ≠ [] ∧ page.headText = headedPageHead ∧
      (page.output.getD {}).nameFor page.name htmlFile = "page" := by decide +kernel
  obtain ⟨hhead, htext, hname⟩ := hresolved page (by rw [hpage]; rfl)
  have hfree : templateChunkName ∉ (expansions ((pagesWith "Badge").environment page {})
      (((pagesWith "Badge").pageCall page {}).finished
        ((pagesWith "Badge").environment page {}))).map (·.name) := by
    intro hmem
    obtain ⟨component, hcomponent, hcalled⟩ := List.mem_map.1 hmem
    obtain ⟨name, hname⟩ := exists_of_mem_expansions hcomponent
    obtain ⟨-, rfl⟩ := Prod.mk.inj (List.mem_singleton.1 (Dict.mem_of_get? hname))
    revert hcalled
    decide
  obtain ⟨node, piece, after, done, -, -, hfile⟩ := hhtml hhead
  refine ⟨compiled, page, h, hpage, hhead, done.context.canvas.print piece, ?_⟩
  rw [hname, htext] at hfile
  exact hfile.trans (by rw [if_neg hfree])

/-- The file of the markup when the component is called as the template is. -/
def invertedHtml : String :=
  "<div><html-template-wrapper class=\"html-template-wrapper\"><!--html-template component-->"
    ++ "<span></span></html-template-wrapper></div>\n\n" ++ headedPageHead ++ "\n"

/-- With a component called as the template is, the head comes last. -/
theorem headedPage_inverted : ∃ compiled page,
    (pagesWith templateChunkName).generate (headedPage templateChunkName) {} = .ok compiled ∧
    (headedPage templateChunkName).resolve .html {} = .ok page ∧ page.headTags ≠ [] ∧
    compiled.files.filter (·.fileType = htmlFile) = [⟨"page", htmlFile, invertedHtml⟩] ∧
    (page.headText ++ "\n").toList <:+ invertedHtml.toList ∧
    ¬ page.headText.toList <+: invertedHtml.toList := by
  obtain ⟨compiled, h, hfiles⟩ := exists_of_toOption_map (by decide +kernel :
    ((pagesWith templateChunkName).generate (headedPage templateChunkName) {}).toOption.map
      (·.files.filter (·.fileType = htmlFile)) = some [⟨"page", htmlFile, invertedHtml⟩])
  obtain ⟨page, hpage, hheads⟩ := exists_of_toOption_map (by decide +kernel :
    ((headedPage templateChunkName).resolve .html {}).toOption.map
      (fun page => (page.headTags.isEmpty, page.headText)) = some (false, headedPageHead))
  obtain ⟨hhead, htext⟩ := Prod.mk.inj hheads
  refine ⟨compiled, page, h, hpage, by simpa using hhead, hfiles, ?_, ?_⟩
  · rw [htext]
    decide +kernel
  · rw [htext]
    decide +kernel

end PageCompiler
