import PageCompiler.Proofs.Linking.Files
import PageCompiler.Proofs.Page.Descent
import PageCompiler.Proofs.Page.Expansions

/-!
# The stages of a page

The tree of a page is generated, its style stage runs, and the tags of its head are made. What the
first of these stages leave behind is still there in the end: the sheets, and the elements with their
classes.

* `Context.Kept`: what there is in a context is there in the end.
* `Component.StyledIn`: the style stage has run for a component.
* `exists_of_pageStages`: the stages of a page.
-/

namespace PageCompiler

variable {c c' done : Context}

/-! ## What is kept -/

/-- The chunks of a context and its elements with their classes are there in the end, though chunks
may wait for others by then. -/
structure Context.Kept (c done : Context) : Prop where
  canvas : c.canvas.Grows done.canvas
  chunks : ∀ chunk ∈ c.chunks, ∃ after, { chunk with after } ∈ done.chunks

theorem Context.Grows.kept (h : c.Grows c') : c.Kept c' where
  canvas := h.canvas
  chunks chunk hchunk := ⟨chunk.after, h.chunks.subset hchunk⟩

theorem Context.Kept.of_push {chunk : Chunk} (h : (c.push chunk).Kept done) : c.Kept done where
  canvas := h.canvas
  chunks _ hchunk := h.chunks _ (List.mem_append_left _ hchunk)

theorem Context.Kept.trans (h : c.Kept c') (h' : c'.Kept done) : c.Kept done where
  canvas := h.canvas.trans h'.canvas
  chunks chunk hchunk := by
    obtain ⟨_, hmem⟩ := h.chunks chunk hchunk
    obtain ⟨after, hmem⟩ := h'.chunks _ hmem
    exact ⟨after, hmem⟩

/-- The style stage has run for a component in a context, and in the end its sheet is there and the
elements that were found have their classes. -/
structure Component.StyledIn (component : Component) (c done : Context) : Prop where
  sheet : component.stylesheet.print.isEmpty = false → ∃ chunk ∈ done.chunks,
    chunk.kind = .text ∧ chunk.fileType = cssFile ∧
      chunk.content = .text component.stylesheet.print
  classes : ∀ e ∈ component.elements, ∀ name ∈ e.cssClasses component.styleSets, name ≠ "" →
    ∀ (id : Nat) (t : Tag), Dict.get? c.lookup e.key = some id → c.canvas.tags[id]? = some t →
      ∃ t', done.canvas.tags[id]? = some t' ∧ t'.name = t.name ∧ t'.HasClass name

theorem Component.StyledIn.of_stage {component : Component} {name : String} {before : Context}
    (hkept : c'.Kept done) (hchunks : component.sheets name ⊆ c'.chunks)
    (hcanvas : c'.canvas
      = (addStyleClasses component.styleSets c.lookup component.elements before).canvas)
    (hbefore : before.canvas = c.canvas) : component.StyledIn c done where
  sheet hne := by
    have hsheet : component.sheet name ∈ component.sheets name := by
      rw [sheets, if_neg (by simp [hne])]
      exact List.mem_cons_self
    obtain ⟨after, hmem⟩ := hkept.chunks _ (hchunks hsheet)
    exact ⟨_, hmem, rfl, rfl, rfl⟩
  classes e he name hname hne id t hid ht := by
    rw [← hbefore] at ht
    obtain ⟨t₁, ht₁, hname₁, hclass⟩ := addStyleClasses_gives he hname hne hid ht
    obtain ⟨t', ht', hdecorated⟩ := hkept.canvas id t₁ (hcanvas ▸ ht₁)
    exact ⟨t', ht', hdecorated.name.trans hname₁, hdecorated.classes _ hclass⟩

/-! ## The head -/

theorem Canvas.createAll_grows (tags : List Tag) (canvas : Canvas) :
    canvas.Grows (canvas.createAll tags).2 := by
  induction tags generalizing canvas with
  | nil => exact .refl _
  | cons t rest ih => exact (Canvas.Grows.create canvas t).trans (ih _)

section Modify

variable (name : String) (f : Chunk → Chunk)

/-- Changing a chunk changes the first one of the name, if there is one. -/
theorem Context.modifyChunk_cases (c : Context) : c.modifyChunk name f = c ∨
    ∃ before chunk behind, c.chunks = before ++ chunk :: behind ∧ chunk.name = name ∧
      c.modifyChunk name f = { c with chunks := before ++ f chunk :: behind } := by
  rw [modifyChunk]
  split
  · rename_i chunk behind hdrop
    refine Or.inr ⟨_, chunk, behind, ?_, ?_, rfl⟩
    · rw [← hdrop, List.takeWhile_append_dropWhile]
    · have hhead := List.head?_dropWhile_not (decide <| ·.name ≠ name) c.chunks
      rw [hdrop] at hhead
      simpa using hhead
  · exact Or.inl rfl

end Modify

/-- **The stage of the head** adds tags and a chunk of them, and the template waits for it. -/
theorem headStage_keeps (c : Compilation) (hafter : ∀ chunk ∈ c.context.chunks, chunk.after = []) :
    (headStage.run c).1 = .ok () ∧ (headStage.run c).2.component = c.component ∧
      c.context.Kept (headStage.run c).2.context ∧
        Shallow (headStage.run c).2.context.chunks := by
  have hshallow : ∀ {chunks : List Chunk}, (∀ chunk ∈ chunks, chunk.after = []) → Shallow chunks :=
    fun h _ _ d hd _ => h d hd
  rw [headStage]
  dsimp only
  split
  · exact ⟨rfl, rfl, (Context.Grows.refl _).kept, hshallow hafter⟩
  refine ⟨rfl, rfl, ?_⟩
  -- the context with the tags of the head, before the template waits for them
  set tagged : Context := Context.push _ _ with htagged
  have hkept : c.context.Kept tagged :=
    ⟨Canvas.createAll_grows _ _, fun chunk hchunk => ⟨chunk.after, List.mem_append_left _ hchunk⟩⟩
  have htaggedAfter : ∀ chunk ∈ tagged.chunks, chunk.after = [] :=
    List.forall_mem_append.2 ⟨hafter, List.forall_mem_singleton.2 rfl⟩
  rcases tagged.modifyChunk_cases templateChunkName
    (fun chunk => { chunk with after := chunk.after ++ [headChunkName] }) with
    hsame | ⟨before, chunk, behind, hchunks, hname, hmodified⟩
  · rw [hsame]
    exact ⟨hkept, hshallow htaggedAfter⟩
  rw [hmodified]
  rw [hchunks] at htaggedAfter
  have hothers : ∀ d ∈ before ++ behind, d.after = [] := fun d hd =>
    htaggedAfter d ((List.sublist_cons_self _ _).append_left _ |>.subset hd)
  refine ⟨hkept.trans ⟨.refl _, fun d hd => ?_⟩, .of_one hothers ?_⟩
  · rw [hchunks, List.mem_append, List.mem_cons] at hd
    rcases hd with hd | rfl | hd
    · exact ⟨d.after, List.mem_append_left _ hd⟩
    · exact ⟨_, List.mem_append_right _ List.mem_cons_self⟩
    · exact ⟨d.after, List.mem_append_right _ (List.mem_cons_of_mem _ hd)⟩
  · dsimp only
    rw [htaggedAfter chunk (by simp), List.nil_append, List.mem_singleton, hname]
    decide

/-! ## The page -/

namespace PageGenerator

/-- The generator of plain pages, with components that instances can stand for. -/
def ofExternals (externals : Dict Component) : PageGenerator :=
  { PageGenerator.standard with externals }

variable (p : PageGenerator) (page : Component) (o : Options)

/-- The environment in which a page is generated. -/
def environment : Environment where
  externals := p.externals
  styleStage := stylesheetStage templateChunkName none
  stages := []
  options := o
  folder := page.folderPath

/-- The call with which the generation of a page starts. -/
def pageCall : Call where
  fuel := (p.environment page o).depthBound ⟨page.props, page.states⟩ page.node
  place := ⟨⟨page.props, page.states⟩, [page.name]⟩
  task := .node page.node
  context := ({} : Context).reserve page.node.keys

theorem environment_plain : (p.environment page o).Plain := ⟨rfl, rfl⟩

end PageGenerator

/-- Stages that succeed do so one after the other. -/
theorem exists_of_runStages {stage : Stage} {rest : List Stage} {start done : Compilation}
    (h : runStages (stage :: rest) start = (.ok (), done)) :
    ∃ between, stage.run start = (.ok (), between) ∧ runStages rest between = (.ok (), done) := by
  rw [runStages] at h
  rcases hrun : stage.run start with ⟨d | _, between⟩
  · rw [hrun] at h
    cases h
  · rw [hrun] at h
    exact ⟨between, rfl, h⟩

/-- The chunk with the markup of a page. -/
def templateChunk (piece : Piece) (lookup : Lookup) : Chunk where
  name := templateChunkName
  kind := .markup
  fileType := htmlFile
  content := .markup piece
  lookup := some lookup

/-- The stage of the template that succeeds generates the tree and adds the chunk with its markup. -/
theorem exists_of_templateStage {p : PageGenerator} {page : Component} {o : Options}
    {done : Compilation}
    (h : p.template.run { component := page, options := o } = (.ok (), done)) :
    ∃ node piece c, generateNode (p.environment page o) (p.pageCall page o).fuel
        (p.pageCall page o).place page.node (p.pageCall page o).context
          = ((node, .ok piece), c) ∧
      done = ⟨{ page with node }, o, c.push (templateChunk piece c.lookup)⟩ := by
  let env : Environment := {
    externals := p.externals, styleStage := stylesheetStage templateChunkName none, stages := []
    options := o, folder := page.folderPath }
  let at' : Surroundings :=
    { definitions := { props := page.props, states := page.states }, hierarchy := [page.name] }
  unfold PageGenerator.template templateStage at h
  dsimp only [StateT.run] at h
  rcases hgenerated : env.generate at' page.node (({} : Context).reserve page.node.keys) with
    ⟨⟨node, d | piece⟩, c⟩
  · rw [hgenerated] at h
    cases h
  · rw [hgenerated] at h
    cases h
    exact ⟨node, piece, c, hgenerated, rfl⟩

/-- What the generation of the tree of a page adds are the sheets of its expansions. -/
theorem PageGenerator.sheets {p : PageGenerator} {page : Component} {o : Options} {node : Node}
    {piece : Piece} (h : generateNode (p.environment page o) (p.pageCall page o).fuel
      (p.pageCall page o).place page.node (p.pageCall page o).context = ((node, .ok piece), c)) :
    List.Forall₂ IsSheetOf
      (expansions (p.environment page o) ((p.pageCall page o).finished (p.environment page o)))
      c.chunks := by
  have hends : (p.pageCall page o).Ends (p.environment page o) c :=
    Call.ends_node.2 ⟨node, piece, h⟩
  obtain ⟨sheets, hsheets, hall⟩ := hends.sheets (p.environment_plain page o)
  rw [hsheets]
  exact hall

/-- Sheets are texts that wait for no other chunk. -/
theorem forall_of_sheets {components : List Component} {sheets : List Chunk}
    (h : List.Forall₂ IsSheetOf components sheets) :
    ∀ chunk ∈ sheets, chunk.kind = .text ∧ chunk.after = [] := by
  intro chunk hchunk
  obtain ⟨component, -, hsheet⟩ := exists_of_forall₂_right h hchunk
  exact ⟨hsheet.kind, hsheet.after⟩

/-- The template is found behind chunks of texts. -/
theorem findChunk_template {page : Component} {o : Options} (piece : Piece) (lookup : Lookup)
    (h : ∀ chunk ∈ c.chunks, chunk.kind = .text) :
    Compilation.findChunk ⟨page, o, c.push (templateChunk piece lookup)⟩ templateChunkName .markup
      = some (templateChunk piece lookup) := by
  have hnone : c.chunks.find? (fun chunk => chunk.name = templateChunkName && chunk.kind = .markup)
      = none := by
    rw [List.find?_eq_none]
    intro chunk hchunk
    simp [h chunk hchunk]
  rw [Compilation.findChunk, Context.push, List.find?_append, hnone]
  rfl

/-- The style stage of a page goes well behind chunks of texts. -/
theorem exists_of_styleStage (page : Component) (o : Options) (piece : Piece)
    (h : ∀ chunk ∈ c.chunks, chunk.kind = .text ∧ chunk.after = []) :
    ∃ styled, (stylesheetStage templateChunkName (some pageStyleChunkName)).run
        ⟨page, o, c.push (templateChunk piece c.lookup)⟩ = (.ok (), styled) ∧
      (c.push (templateChunk piece c.lookup)).Kept styled.context ∧
      (∀ chunk ∈ styled.context.chunks, chunk.after = []) ∧
      ∀ {done : Context}, styled.context.Kept done → page.StyledIn c done := by
  have hgrows := addStyleClasses_grows page.styleSets c.lookup page.elements
    (c.push (templateChunk piece c.lookup))
  refine ⟨_, stylesheetStage_run _ (findChunk_template piece c.lookup fun chunk hchunk =>
    (h chunk hchunk).1), ⟨hgrows, fun chunk hchunk => ?_⟩, ?_, fun hkept => ?_⟩
  · exact ⟨chunk.after, List.mem_append_left _ hchunk⟩
  · have hown : ∀ chunk ∈ page.sheets pageStyleChunkName, chunk.after = [] := by
      rw [Component.sheets]
      split
      · exact fun _ h => by cases h
      · exact List.forall_mem_singleton.2 rfl
    exact List.forall_mem_append.2 ⟨List.forall_mem_append.2
      ⟨fun chunk hchunk => (h chunk hchunk).2, List.forall_mem_singleton.2 rfl⟩, hown⟩
  · exact .of_stage hkept (List.subset_append_right _ _) rfl rfl

/-- **The stages of a page** that succeed generate its tree first. What that leaves behind is there in
the end, with the chunk of the template, and the style stage has run for the page. -/
theorem exists_of_pageStages {p : PageGenerator} {page : Component} {o : Options}
    {done : Compilation} (h : runStages
      (p.template :: PageGenerator.standard.generator.stages) { component := page, options := o }
        = (.ok (), done)) :
    ∃ node piece c, generateNode (p.environment page o) (p.pageCall page o).fuel
        (p.pageCall page o).place page.node (p.pageCall page o).context
          = ((node, .ok piece), c) ∧
      (c.push (templateChunk piece c.lookup)).Kept done.context ∧
      Component.StyledIn { page with node } c done.context ∧ Shallow done.context.chunks := by
  obtain ⟨generated, htemplate, h⟩ := exists_of_runStages h
  obtain ⟨node, piece, c, hrun, rfl⟩ := exists_of_templateStage htemplate
  have hsheet := forall_of_sheets (p.sheets hrun)
  obtain ⟨styled, hstyle, hkept, hafter, hstyled⟩ :=
    exists_of_styleStage { page with node } o piece hsheet
  obtain ⟨between, hbetween, h⟩ := exists_of_runStages h
  cases hstyle.symm.trans hbetween
  obtain ⟨finished, hfinished, h⟩ := exists_of_runStages h
  cases h
  obtain ⟨-, -, hhead, hshallow⟩ := headStage_keeps styled hafter
  rw [hfinished] at hhead hshallow
  exact ⟨node, piece, c, hrun, hkept.trans hhead, hstyled hhead, hshallow⟩

end PageCompiler
