import PageCompiler.Proofs.Markup.Acyclic
import PageCompiler.Proofs.Page.Stages

/-!
# Generated markup is acyclic

The elements of a page are held by number, in the table of registered elements and in pieces. An
element is put on the canvas when all its children are, and registered after that, so a number that a
reference finds in the table is that of an element that is complete; what happens to it later only
decorates it. So no step of a generation makes an element contain itself.

* `Stage.Decorates`, `stylesheetStage_decorates`: stages that decorate elements in place.
* `Context.Builds`, `generate_builds`: a run keeps what is complete, and comes to what is.
* `generate_acyclic`: all calls of a generation.
-/

namespace PageCompiler

/-! ## Additions of classes -/

/-- Give classes to elements, one after the other. -/
def Canvas.addClasses (c : Canvas) (additions : List (Nat × String)) : Canvas :=
  additions.foldl (fun c addition => c.addClass addition.1 addition.2) c

theorem Canvas.Retains.addClasses (c : Canvas) (additions : List (Nat × String)) :
    c.Retains (c.addClasses additions) := by
  induction additions generalizing c with
  | nil => exact .refl c
  | cons addition rest ih => exact (addClass c addition.1 addition.2).trans (ih _)

theorem Canvas.addClasses_append (c : Canvas) (additions more : List (Nat × String)) :
    c.addClasses (additions ++ more) = (c.addClasses additions).addClasses more :=
  List.foldl_append

theorem Context.exists_addClasses (c : Context) (lookup : Lookup) (key : String)
    (names : List String) : ∃ additions,
      (c.addClasses lookup key names).canvas = c.canvas.addClasses additions := by
  induction names generalizing c with
  | nil => exact ⟨[], rfl⟩
  | cons name rest ih =>
    obtain ⟨additions, hrest⟩ := ih (c.addClass lookup key name)
    rcases hid : Dict.get? lookup key with _ | id
    · refine ⟨additions, hrest.trans ?_⟩
      rw [Context.addClass, hid]
    · refine ⟨(id, name) :: additions, hrest.trans ?_⟩
      rw [Context.addClass, hid]
      rfl

/-- The style stage gives classes to elements. -/
theorem exists_addStyleClasses (sets : Dict StyleSet) (lookup : Lookup) (elements : List Element)
    (c : Context) : ∃ additions,
      (addStyleClasses sets lookup elements c).canvas = c.canvas.addClasses additions := by
  induction elements generalizing c with
  | nil => exact ⟨[], rfl⟩
  | cons e rest ih =>
    obtain ⟨own, hown⟩ := c.exists_addClasses lookup e.key (e.cssClasses sets)
    obtain ⟨others, hothers⟩ := ih (c.addClasses lookup e.key (e.cssClasses sets))
    refine ⟨own ++ others, ?_⟩
    rw [addStyleClasses_cons, hothers, hown, Canvas.addClasses_append]

/-! ## Stages -/

/-- A chunk that holds no element. -/
structure Chunk.IsPlain (chunk : Chunk) : Prop where
  content : ∃ s, chunk.content = .text s
  lookup : chunk.lookup = none

/-- A stage only decorates the elements that there are, and adds chunks that hold none. -/
structure Stage.Decorates (stage : Stage) : Prop where
  canvas : ∀ c : Compilation, c.context.canvas.Retains (stage.run c).2.context.canvas
  chunks : ∀ c : Compilation, ∀ chunk ∈ (stage.run c).2.context.chunks,
    chunk ∈ c.context.chunks ∨ chunk.IsPlain

theorem stylesheetStage_decorates (template : String) (chunkName : Option String) :
    (stylesheetStage template chunkName).Decorates := by
  refine ⟨fun c => ?_, fun c chunk hchunk => ?_⟩
  · rcases hfind : c.findChunk template .markup with _ | found
    · rw [stylesheetStage]
      dsimp only
      rw [hfind]
      exact .refl _
    · obtain ⟨additions, hadditions⟩ := exists_addStyleClasses c.component.styleSets
        (found.lookup.getD []) c.component.elements c.context
      rw [stylesheetStage_run chunkName hfind]
      dsimp only
      rw [hadditions]
      exact .addClasses _ _
  · rcases hfind : c.findChunk template .markup with _ | found
    · rw [stylesheetStage] at hchunk
      dsimp only at hchunk
      rw [hfind] at hchunk
      exact Or.inl hchunk
    · rw [stylesheetStage_run chunkName hfind] at hchunk
      refine (List.mem_append.1 hchunk).imp_right fun hsheet => ?_
      rw [Component.sheets] at hsheet
      split at hsheet
      · cases hsheet
      · rw [List.mem_singleton.1 hsheet]
        exact ⟨⟨_, rfl⟩, rfl⟩

theorem runStages_decorates {stages : List Stage} (h : ∀ stage ∈ stages, stage.Decorates)
    (c : Compilation) : c.context.canvas.Retains (runStages stages c).2.context.canvas ∧
      ∀ chunk ∈ (runStages stages c).2.context.chunks,
        chunk ∈ c.context.chunks ∨ chunk.IsPlain := by
  induction stages generalizing c with
  | nil => exact ⟨.refl _, fun chunk hchunk => Or.inl hchunk⟩
  | cons stage rest ih =>
    obtain ⟨hcanvas, hchunks⟩ := h stage List.mem_cons_self
    rw [runStages]
    rcases hrun : stage.run c with ⟨d | _, c'⟩
    · have hcanvas := hcanvas c
      have hchunks := hchunks c
      rw [hrun] at hcanvas hchunks
      exact ⟨hcanvas, hchunks⟩
    · obtain ⟨hcanvas', hchunks'⟩ := ih (fun s hs => h s (List.mem_cons_of_mem _ hs)) c'
      have hcanvas := hcanvas c
      have hchunks := hchunks c
      rw [hrun] at hcanvas hchunks
      refine ⟨hcanvas.trans hcanvas', fun chunk hchunk => ?_⟩
      exact (hchunks' chunk hchunk).elim (hchunks chunk) Or.inr

/-! ## Contexts -/

/-- The registered elements are complete. -/
def Context.Sound (c : Context) : Prop :=
  ∀ key id, Dict.get? c.lookup key = some id → c.canvas.Finite id

/-- What happens to a context in a step: elements are only added or decorated, the registered ones
stay complete, and chunks that are added hold none. -/
structure Context.Builds (c c' : Context) : Prop where
  retains : c.canvas.Retains c'.canvas
  sound : c.Sound → c'.Sound
  chunks : ∀ chunk ∈ c'.chunks, chunk ∈ c.chunks ∨ chunk.IsPlain

namespace Context.Builds

variable {c c' c'' : Context}

theorem of_canvas {canvas : Canvas} (h : c.canvas.Retains canvas) : c.Builds { c with canvas } where
  retains := h
  sound hsound key id hid := (hsound key id hid).retained h
  chunks _ hchunk := Or.inl hchunk

theorem refl (c : Context) : c.Builds c := of_canvas (.refl c.canvas)

theorem trans (h : c.Builds c') (h' : c'.Builds c'') : c.Builds c'' where
  retains := h.retains.trans h'.retains
  sound hsound := h'.sound (h.sound hsound)
  chunks chunk hchunk := (h'.chunks chunk hchunk).elim (h.chunks chunk) Or.inr

/-- What is complete stays complete. -/
theorem finite (h : c.Builds c') {id : Nat} (hid : c.canvas.Finite id) : c'.canvas.Finite id :=
  hid.retained h.retains

theorem reserve (c : Context) (keys : List String) : c.Builds (c.reserve keys) where
  retains := .refl _
  sound h := h
  chunks _ hchunk := Or.inl hchunk

theorem noteDependency (c : Context) (e : Element) : c.Builds (c.noteDependency e) := by
  unfold Context.noteDependency
  split
  · exact ⟨.refl _, fun h => h, fun _ hchunk => Or.inl hchunk⟩
  · exact .refl c

theorem createTag (t : Tag) (c : Context) : c.Builds (createTag t c).2 := of_canvas (.create _ t)

theorem runInstanceStages {env : Environment}
    (h : ∀ stage ∈ env.styleStage :: env.stages, stage.Decorates) (component : Component) (id : Nat)
    (c : Context) : c.Builds (runInstanceStages env component id c).2 := by
  obtain ⟨hcanvas, hchunks⟩ :=
    runStages_decorates h { component, options := env.options, context := c.forInstance id }
  rw [runInstanceStages_run]
  rcases hrun : runStages (env.styleStage :: env.stages)
    { component, options := env.options, context := c.forInstance id } with ⟨d | _, done⟩
  · rw [hrun] at hcanvas
    exact .of_canvas hcanvas
  · rw [hrun] at hcanvas hchunks
    have hbuilds : c.Builds { c with canvas := done.context.canvas } := of_canvas hcanvas
    refine ⟨hbuilds.retains, hbuilds.sound, fun chunk hchunk => ?_⟩
    refine (List.mem_append.1 hchunk).imp_right fun hsheet => ?_
    obtain ⟨hsheet, hcss⟩ := List.mem_filter.1 hsheet
    refine (hchunks chunk hsheet).resolve_left fun htemplate => ?_
    -- the template of the instance is not a sheet
    have hne : htmlFile ≠ cssFile := by decide
    rw [List.mem_singleton.1 htemplate] at hcss
    exact hne (by simpa using hcss)

end Context.Builds

/-! ## Runs -/

/-- A run builds on a context, and what it comes to is complete, if the registered elements were. -/
structure BuildsTo {β : Type} (handles : β → List Nat) (c : Context) (outcome : Except Diagnostic β)
    (c' : Context) : Prop where
  builds : c.Builds c'
  result : c.Sound → ∀ b, outcome = .ok b → ∀ id ∈ handles b, c'.canvas.Finite id

/-- The number of the element that a piece is, in a list. -/
def Piece.handles (piece : Piece) : List Nat := piece.handle?.toList

namespace BuildsTo

variable {β γ : Type} {handles : β → List Nat} {handles' : γ → List Nat} {c there c' : Context}
  {outcome : Except Diagnostic β}

theorem failed {d : Diagnostic} (h : c.Builds c') : BuildsTo handles c (.error d) c' :=
  ⟨h, fun _ _ hok => by cases hok⟩

/-- What holds no element is complete. -/
theorem flat {b : β} (h : c.Builds c') (hflat : handles b = []) : BuildsTo handles c (.ok b) c' :=
  ⟨h, fun _ b' hok id hid => by
    cases hok
    rw [hflat] at hid
    cases hid⟩

theorem before (h : BuildsTo handles there outcome c') (hbefore : c.Builds there) :
    BuildsTo handles c outcome c' :=
  ⟨hbefore.trans h.builds, fun hsound => h.result (hbefore.sound hsound)⟩

theorem map (h : BuildsTo handles c outcome c') {f : β → γ}
    (hf : ∀ b, handles' (f b) = handles b) : BuildsTo handles' c (outcome.map f) c' := by
  refine ⟨h.builds, fun hsound b hok id hid => ?_⟩
  obtain ⟨a, ha, rfl⟩ := exists_of_map_eq_ok hok
  exact h.result hsound a ha id (hf a ▸ hid)

end BuildsTo

section Steps

variable {env : Environment}

theorem createTag_builds (t : Tag) {c₀ c : Context} (h : c₀.Builds c)
    (ht : c₀.Sound → ∀ inner ∈ t.handles, c.canvas.Finite inner) :
    BuildsTo (fun id => [id]) c₀ (.ok (createTag t c).1) (createTag t c).2 := by
  refine ⟨h.trans (.createTag t c), fun hsound id hok id' hid => ?_⟩
  cases hok
  obtain rfl := List.mem_singleton.1 hid
  exact .create (ht hsound)

/-- An element that is complete can be registered. -/
theorem registerElement_builds (key : String) (e : Element) (hierarchy : List String) {id : Nat}
    {c₀ c : Context} (h : BuildsTo (fun id => [id]) c₀ (.ok id) c) :
    BuildsTo (fun id => [id]) c₀ ((registerElement key e id hierarchy c).1.map fun _ => id)
      (registerElement key e id hierarchy c).2 := by
  rcases registerElement_run key e id hierarchy c with ⟨-, hrun⟩ | ⟨-, d, -, hrun⟩
  · rw [hrun]
    refine ⟨⟨h.builds.retains, fun hsound other found hfound => ?_, h.builds.chunks⟩, h.result⟩
    by_cases hkey : other = key
    · subst hkey
      rw [Dict.get?_insert_self] at hfound
      cases hfound
      exact h.result hsound id rfl id List.mem_cons_self
    · rw [Dict.get?_insert_of_ne _ _ hkey] at hfound
      exact h.builds.sound hsound other found hfound
  · rw [hrun]
    exact .failed h.builds

theorem spanWith_builds (piece : Piece) (hpiece : piece.handle? = none) (c : Context) :
    BuildsTo Piece.handles c (spanWith piece c).1 (spanWith piece c).2 := by
  have htag : ({ name := "span", children := [piece] } : Tag).handles = [] := by
    simp [Tag.handles, hpiece]
  have hspan := createTag_builds _ (.refl c) fun _ inner hinner => by
    rw [htag] at hinner
    cases hinner
  exact hspan.map (f := Piece.element) fun _ => rfl

theorem generateEach_builds {α : Type} {generate : α → StateM Context (Generated α Piece)}
    (h : ∀ part c, BuildsTo Piece.handles c (generate part c).1.2 (generate part c).2)
    (parts : List α) (c : Context) : BuildsTo (List.filterMap Piece.handle?) c
      (generateEach generate parts c).1.2 (generateEach generate parts c).2 := by
  induction parts generalizing c with
  | nil => exact .flat (.refl c) rfl
  | cons part rest ih =>
    have hpart := h part c
    rw [generateEach_cons]
    rcases hrun : generate part c with ⟨⟨part', d | piece⟩, there⟩
    · rw [hrun] at hpart
      exact .failed hpart.builds
    · rw [hrun] at hpart
      have hrest := ih there
      refine ⟨hpart.builds.trans hrest.builds, fun hsound pieces hok id hid => ?_⟩
      obtain ⟨others, hothers, rfl⟩ := exists_of_map_eq_ok hok
      obtain ⟨other, hother, hhandle⟩ := List.mem_filterMap.1 hid
      rcases List.mem_cons.1 hother with rfl | hother
      · exact hrest.builds.finite (hpart.result hsound other rfl id (Option.mem_toList.2 hhandle))
      · exact hrest.result (hpart.builds.sound hsound) others hothers id
          (List.mem_filterMap.2 ⟨other, hother, hhandle⟩)

theorem generateProps_builds {generate : Element → StateM Context (Generated Element Nat)}
    (h : ∀ e (c : Context), c.Builds (generate e c).2) (caller : Definitions)
    (props : Dict PropDefinition) (attrs : Attributes) (c : Context) :
    c.Builds (generateProps generate caller attrs props c).2 :=
  generateProps_related .refl .trans fun e there _ => h e there

/-- A tag whose children are complete becomes an element that is. -/
theorem finishTag_builds (at' : Surroundings) (e : Element) {pieces : List Piece} {c₀ c : Context}
    (h : BuildsTo (List.filterMap Piece.handle?) c₀ (.ok pieces) c) :
    BuildsTo (fun id => [id]) c₀ (finishTag env at' e pieces c).1.2
      (finishTag env at' e pieces c).2 := by
  rw [finishTag_run]
  rcases e.settleStyles at'.definitions with ⟨styled, d | _⟩
  · exact .failed h.builds
  dsimp only
  rcases pageAttributes env.options env.folder at'.definitions styled.elementType styled.attrs with
    ⟨attrs, d | _⟩
  · exact .failed h.builds
  exact registerElement_builds _ _ _ (createTag_builds _ h.builds fun hsound =>
    h.result hsound pieces rfl)

end Steps

/-- The generation to some depth comes to what is complete. -/
structure Building (env : Environment) (fuel : Nat) : Prop where
  node : ∀ at' node c, BuildsTo Piece.handles c (generateNode env fuel at' node c).1.2
    (generateNode env fuel at' node c).2
  reference : ∀ at' r c, BuildsTo Piece.handles c (generateReference env fuel at' r c).1
    (generateReference env fuel at' r c).2
  element : ∀ at' e c, BuildsTo (fun id => [id]) c (generateElement env fuel at' e c).1.2
    (generateElement env fuel at' e c).2
  expand : ∀ at' e c, BuildsTo (fun id => [id]) c (expandInstance env fuel at' e c).1.2
    (expandInstance env fuel at' e c).2

section Generate

variable {env : Environment} {fuel : Nat}

theorem generateNode_builds (ih : Building env fuel) (at' : Surroundings) (node : Node)
    (c : Context) : BuildsTo Piece.handles c (generateNode env (fuel + 1) at' node c).1.2
      (generateNode env (fuel + 1) at' node c).2 := by
  cases node with
  | element e =>
    rw [generateNode_element]
    exact (ih.element at' e c).map fun _ => rfl
  | dynamic r =>
    rw [generateNode_dynamic]
    exact ih.reference at' r c
  | conditional q =>
    rw [generateNode_conditional]
    split
    · exact ih.node at' q.node c
    · exact .flat (.refl c) rfl
  | slot _ =>
    have hslot := createTag_builds { name := "slot" } (.refl c) nofun
    rw [generateNode]
    exact hslot.map (f := Piece.element) fun _ => rfl
  | repetition _ =>
    rw [generateNode]
    exact .failed (.refl c)
  | constant _ | raw _ | inject _ | expr _ =>
    rw [generateNode]
    exact .flat (.refl c) rfl

/-- A reference comes to the element that is registered, or to one that is generated. -/
theorem generateReference_builds (ih : Building env fuel) (at' : Surroundings) (r : Reference)
    (c : Context) : BuildsTo Piece.handles c (generateReference env (fuel + 1) at' r c).1
      (generateReference env (fuel + 1) at' r c).2 := by
  rw [generateReference_succ]
  split
  · exact spanWith_builds _ rfl c
  rcases at'.definitions.value r with d | v
  · exact .failed (.refl c)
  dsimp only
  unfold generateValue
  split
  · exact .flat (.refl c) rfl
  split
  · rcases v.default with _ | node | value
    · exact spanWith_builds _ rfl c
    · dsimp only
      rw [bind_run, get_run]
      dsimp only
      rcases hregistered : node.registered? c with _ | id
      · exact ih.node at' node c
      · refine ⟨.refl c, fun hsound piece hok id' hid => ?_⟩
        cases hok
        obtain rfl : id' = id := by simpa [Piece.handles, Piece.handle?] using hid
        cases node with
        | element e => exact hsound e.key id' hregistered
        | _ => cases hregistered
    · exact spanWith_builds _ rfl c
  · exact spanWith_builds _ rfl c

theorem enterInstance_builds (hstages : ∀ stage ∈ env.styleStage :: env.stages, stage.Decorates)
    (ih : Building env fuel) (at' : Surroundings) (e : Element) (component : Component)
    (root : Node) (ds : Definitions) (c : Context) :
    BuildsTo (fun id => [id]) c (enterInstance env fuel at' e component root ds c).1.2
      (enterInstance env fuel at' e component root ds c).2 := by
  rw [enterInstance_run]
  rcases wrapperKey? c e.componentName e.key with _ | key
  · exact .failed (.refl c)
  dsimp only
  have hwrapper := ih.element { definitions := ds, hierarchy := at'.hierarchy ++ [e.componentName] }
    (wrapperElement key root) c
  rcases hrun : generateElement env fuel _ (wrapperElement key root) c with
    ⟨⟨wrapper, d | id⟩, there⟩
  · rw [hrun] at hwrapper
    exact .failed hwrapper.builds
  rw [hrun] at hwrapper
  dsimp only
  have hbuilds := Context.Builds.runInstanceStages hstages
    { component with node := .element wrapper, props := ds.props, states := ds.states } id there
  rcases hrun' : runInstanceStages env _ id there with ⟨d | _, styled⟩
  · rw [hrun'] at hbuilds
    exact .failed (hwrapper.builds.trans hbuilds)
  · rw [hrun'] at hbuilds
    refine registerElement_builds _ _ _ ⟨hwrapper.builds.trans hbuilds, fun hsound id' hok x hx => ?_⟩
    cases hok
    exact hbuilds.finite (hwrapper.result hsound _ rfl x hx)

theorem expandInstance_builds (hstages : ∀ stage ∈ env.styleStage :: env.stages, stage.Decorates)
    (ih : Building env fuel) (at' : Surroundings) (e : Element) (c : Context) :
    BuildsTo (fun id => [id]) c (expandInstance env (fuel + 1) at' e c).1.2
      (expandInstance env (fuel + 1) at' e c).2 := by
  rw [expandInstance_succ]
  rcases Dict.get? env.externals e.componentName with _ | external
  · exact .failed (.refl c)
  have hreserve := Context.Builds.reserve c (c.instantiate external).node.keys
  dsimp only
  rcases (Dict.merge at'.definitions.states (c.instantiate external).states).mapM
    (instanceState e.attrs) with d | states
  · exact .failed hreserve
  have hprops := generateProps_builds (fun e c => (ih.element at' e c).builds) at'.definitions
    (combineProps at'.definitions.props (c.instantiate external).props) e.attrs
    (c.reserve (c.instantiate external).node.keys)
  dsimp only
  rcases hrun : generateProps (generateElement env fuel at') at'.definitions e.attrs
    (combineProps at'.definitions.props (c.instantiate external).props)
    (c.reserve (c.instantiate external).node.keys) with ⟨⟨attrs, d | props⟩, there⟩
  · rw [hrun] at hprops
    exact .failed (hreserve.trans hprops)
  · rw [hrun] at hprops
    exact (enterInstance_builds hstages ih at' _ _ _ _ there).before (hreserve.trans hprops)

theorem generateElement_builds (ih : Building env fuel) (at' : Surroundings) (e : Element)
    (c : Context) : BuildsTo (fun id => [id]) c (generateElement env (fuel + 1) at' e c).1.2
      (generateElement env (fuel + 1) at' e c).2 := by
  by_cases he : e.isInstance
  · have hexpand := ih.expand at' e c
    rw [generateElement_instance env fuel at' c he]
    rcases hrun : expandInstance env fuel at' e c with ⟨⟨e', d | id⟩, there⟩
    · rw [hrun] at hexpand
      exact .failed hexpand.builds
    · rw [hrun] at hexpand
      -- the comment in front of an instance holds no element
      have hcomment := Context.Builds.of_canvas (c := there) (.prepend_comment there.canvas id
        ((e'.semanticType.or e'.name).getD "" ++ " component"))
      refine ⟨hexpand.builds.trans hcomment, fun hsound id' hok x hx => ?_⟩
      cases hok
      exact hcomment.finite (hexpand.result hsound id rfl x hx)
  · have hchildren := (generateEach_builds (ih.node at') e.children (c.noteDependency e)).before
      (.noteDependency c e)
    rw [generateElement_tag env fuel at' c (by simpa using he)]
    rcases hrun : generateEach (generateNode env fuel at') e.children (c.noteDependency e) with
      ⟨⟨children, d | pieces⟩, there⟩
    · rw [hrun] at hchildren
      exact .failed hchildren.builds
    · rw [hrun] at hchildren
      exact finishTag_builds at' _ hchildren

/-- **A generation comes to what is complete,** and leaves what is complete so, however it ends. -/
theorem generate_builds (hstages : ∀ stage ∈ env.styleStage :: env.stages, stage.Decorates)
    (fuel : Nat) : Building env fuel := by
  induction fuel with
  | zero =>
    refine ⟨fun at' node c => ?_, fun at' r c => ?_, fun at' e c => ?_, fun at' e c => ?_⟩
    · rw [generateNode]
      exact .failed (.refl c)
    · rw [generateReference]
      exact .failed (.refl c)
    · rw [generateElement]
      exact .failed (.refl c)
    · rw [expandInstance]
      exact .failed (.refl c)
  | succ fuel ih =>
    exact ⟨generateNode_builds ih, generateReference_builds ih, generateElement_builds ih,
      expandInstance_builds hstages ih⟩

end Generate

/-! ## Calls -/

section Calls

variable {env : Environment} {call inner : Call} {c there : Context}

/-- A call goes on from a context that builds on that of the one that makes it. -/
theorem Makes.builds (hstages : ∀ stage ∈ env.styleStage :: env.stages, stage.Decorates)
    (h : Makes env call inner) : call.context.Builds inner.context := by
  have hnode fuel at' node c := ((generate_builds hstages fuel).node at' node c).builds
  have helement fuel at' e c := ((generate_builds hstages fuel).element at' e c).builds
  cases h with
  | content | reference | body _ | default _ _ _ _ => exact .refl _
  | child _ reaches =>
    exact .trans (.noteDependency _ _)
      (reaches.related .refl .trans fun node there _ => hnode _ _ node there)
  | given _ _ _ reaches =>
    exact .trans (.reserve _ _)
      (reaches.related .refl .trans fun x there _ => helement _ _ x there)
  | @wrapper fuel at' e entry c _ entered =>
    obtain ⟨-, -, -, -, hprops, -, -⟩ := enter?_eq_some entered
    have hbuilds := generateProps_builds (helement fuel at') at'.definitions
      (combineProps at'.definitions.props entry.component.props) e.attrs
      (c.reserve entry.component.node.keys)
    rw [hprops] at hbuilds
    exact .trans (.reserve _ _) hbuilds

theorem Leads.builds (hstages : ∀ stage ∈ env.styleStage :: env.stages, stage.Decorates)
    (h : Leads env call inner) : call.context.Builds inner.context := by
  induction h with
  | refl => exact .refl _
  | tail _ hmakes ih => exact ih.trans (hmakes.builds hstages)

/-- The numbers of the elements that a call comes to. -/
def Call.handles (env : Environment) (call : Call) : List Nat :=
  match call.task with
  | .node node =>
    (generateNode env call.fuel call.place node call.context).1.2.toOption.toList.flatMap Piece.handles
  | .reference r =>
    (generateReference env call.fuel call.place r call.context).1.toOption.toList.flatMap Piece.handles
  | .element e => (generateElement env call.fuel call.place e call.context).1.2.toOption.toList

theorem BuildsTo.forall_handles {β : Type} {handles : β → List Nat} {outcome : Except Diagnostic β}
    (h : BuildsTo handles c outcome there) (hsound : c.Sound) :
    ∀ id ∈ outcome.toOption.toList.flatMap handles, there.canvas.Finite id := by
  intro id hid
  obtain ⟨b, hb, hmem⟩ := List.mem_flatMap.1 hid
  cases outcome with
  | error _ => cases hb
  | ok b' =>
    obtain rfl : b = b' := by simpa [Except.toOption] using hb
    exact h.result hsound b rfl id hmem

theorem Call.builds (hstages : ∀ stage ∈ env.styleStage :: env.stages, stage.Decorates)
    (call : Call) : call.context.Builds (call.run env).2 ∧ (call.context.Sound →
      ∀ id ∈ call.handles env, (call.run env).2.canvas.Finite id) := by
  have hbuilding := generate_builds hstages call.fuel
  rcases call with ⟨fuel, at', node | r | e, c⟩
  · have hrun := hbuilding.node at' node c
    exact ⟨hrun.builds, hrun.forall_handles⟩
  · have hrun := hbuilding.reference at' r c
    exact ⟨hrun.builds, hrun.forall_handles⟩
  · have hrun := hbuilding.element at' e c
    refine ⟨hrun.builds, fun hsound id hid => hrun.forall_handles hsound id ?_⟩
    rw [List.flatMap_singleton']
    exact hid

/-- **Generated markup is acyclic.** Let a generation start in a context from whose registered elements
on nothing contains itself, with stages for instances that only decorate elements, as the style stage
does. Then at the start and at the end of every call that it leads to, and whatever classes are given
to elements after that, nothing that is reached from a registered element contains itself, nor what is
reached from what the call comes to or from what was acyclic at first. The markup of all of them unfolds
to an end. The chunks that are added hold no elements. -/
theorem generate_acyclic (hstages : ∀ stage ∈ env.styleStage :: env.stages, stage.Decorates)
    {root : Call} (hroot : ∀ key id, Dict.get? root.context.lookup key = some id →
      root.context.canvas.Acyclic id)
    (hleads : Leads env root call) (additions : List (Nat × String)) :
    (∀ key id, Dict.get? call.context.lookup key = some id →
      (call.context.canvas.addClasses additions).Unfolds id) ∧
    (∀ key id, Dict.get? (call.run env).2.lookup key = some id →
      ((call.run env).2.canvas.addClasses additions).Unfolds id) ∧
    (∀ id ∈ call.handles env, ((call.run env).2.canvas.addClasses additions).Unfolds id) ∧
    (∀ id, root.context.canvas.Acyclic id →
      ((call.run env).2.canvas.addClasses additions).Unfolds id) ∧
    (∀ chunk ∈ (call.run env).2.chunks, chunk ∈ root.context.chunks ∨ chunk.IsPlain) ∧
    ∀ (sets : Dict StyleSet) lookup elements (c : Context), ∃ given,
      (addStyleClasses sets lookup elements c).canvas = c.canvas.addClasses given := by
  have hsound : root.context.Sound := fun key id hid => Canvas.finite_iff_acyclic.2 (hroot key id hid)
  have hbefore := hleads.builds hstages
  obtain ⟨hafter, hhandles⟩ := call.builds hstages
  have hdecorated {canvas : Canvas} {id : Nat} (h : canvas.Finite id) :
      (canvas.addClasses additions).Unfolds id := (h.retained (.addClasses _ _)).unfolds
  refine ⟨fun key id hid => hdecorated (hbefore.sound hsound key id hid),
    fun key id hid => hdecorated ((hbefore.trans hafter).sound hsound key id hid),
    fun id hid => hdecorated (hhandles (hbefore.sound hsound) id hid),
    fun id hid => hdecorated ((hbefore.trans hafter).finite (Canvas.finite_iff_acyclic.2 hid)),
    (hbefore.trans hafter).chunks, exists_addStyleClasses⟩

end Calls

theorem Environment.Plain.decorates {env : Environment} (h : env.Plain) :
    ∀ stage ∈ env.styleStage :: env.stages, stage.Decorates := by
  rw [h.style, h.stages, List.forall_mem_singleton]
  exact stylesheetStage_decorates _ _

/-- A tag that shows one default twice. -/
def twiceShown : Call where
  fuel := 10
  place := {
    definitions := { props := [("icon", {
      kind := "element"
      default := some (.node (.element { elementType := "img", key := "icon" })) })] }
    hierarchy := ["Page"] }
  task := .node (.element {
    elementType := "div", key := "page"
    children := [.dynamic (.toProp "icon"), .dynamic (.toProp "icon")] })
  context := {}

theorem twiceShown_unfolds : iconPanelEnvironment.Plain ∧
    (twiceShown.run iconPanelEnvironment).2.canvas.tags.toList
      = [{ name := "img" }, { name := "div", children := [.element 0, .element 0] }] ∧
    twiceShown.handles iconPanelEnvironment = [1] ∧
    ((twiceShown.run iconPanelEnvironment).2.canvas.addClasses [(0, "icon")]).Unfolds 1 := by
  have hplain : iconPanelEnvironment.Plain := ⟨rfl, rfl⟩
  have hhandles : twiceShown.handles iconPanelEnvironment = [1] := by decide +kernel
  have hnone : ∀ key id, Dict.get? twiceShown.context.lookup key = some id →
      twiceShown.context.canvas.Acyclic id := nofun
  obtain ⟨-, -, hresult, -⟩ := generate_acyclic hplain.decorates hnone .refl [(0, "icon")]
  exact ⟨hplain, by decide +kernel, hhandles, hresult 1 (by rw [hhandles]; exact List.mem_cons_self)⟩

end PageCompiler
