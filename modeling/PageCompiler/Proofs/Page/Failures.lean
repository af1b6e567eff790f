import PageCompiler.Generator
import PageCompiler.Proofs.Page.Stages
import PageCompiler.Proofs.Resolve.Failures

/-!
# What keeps a page from being compiled

The generation of a page fails over a reference, an instance, a key or a node that a page cannot
show, or because it leads back into itself (`Diagnostic.OfGeneration`). The stages of an instance are
the one place where the way a generator is put together could matter; with the style stage alone
they always find the markup they are for. So the generator of plain pages only complains about
documents.

* `generate_fails`: the generation of nodes, by induction on its depth.
* `exists_of_linkFiles`: every batch of chunks can be linked.
* `PageGenerator.standard_fails`: the generator of plain pages.
-/

namespace PageCompiler

/-- The causes for which a tree cannot be generated. -/
def Diagnostic.OfGeneration (d : Diagnostic) : Prop :=
  d.IsLookup ∨ match d with
    | .missingExternal _ | .duplicateKey .. | .unsupportedNode _ | .endless => True
    | _ => False

/-! ## Parts -/

section Parts

variable {sort : Diagnostic → Prop}

theorem registerElement_fails (key : String) (e : Element) (id : Nat) (hierarchy : List String)
    (c : Context) : FailsWith Diagnostic.OfGeneration (registerElement key e id hierarchy c).1 := by
  rcases registerElement_run key e id hierarchy c with ⟨-, hrun⟩ | ⟨-, d, hd, hrun⟩
  · rw [hrun]
    exact .ok _
  · rw [hrun]
    cases d with
    | duplicateKey => exact .error (Or.inr trivial)
    | _ => cases hd

theorem generateEach_fails {α β : Type} {generate : α → StateM Context (Generated α β)}
    (h : ∀ part c, FailsWith sort (generate part c).1.2) (parts : List α) (c : Context) :
    FailsWith sort (generateEach generate parts c).1.2 := by
  induction parts generalizing c with
  | nil => exact .ok _
  | cons part rest ih =>
    have hpart := h part c
    rw [generateEach_cons]
    rcases hrun : generate part c with ⟨⟨part', d | result⟩, c'⟩
    · rw [hrun] at hpart
      exact .error (hpart d rfl)
    · exact (ih c').map _

theorem generateProps_fails (hsort : ∀ d : Diagnostic, d.IsLookup → sort d)
    {generate : Element → StateM Context (Generated Element Nat)}
    (h : ∀ e c, FailsWith sort (generate e c).1.2) (caller : Definitions)
    (props : Dict PropDefinition) (attrs : Attributes) (c : Context) :
    FailsWith sort (generateProps generate caller attrs props c).1.2 := by
  induction props generalizing attrs c with
  | nil => exact .ok _
  | cons entry rest ih =>
    obtain ⟨name, own⟩ := entry
    rcases hvalue : Dict.get? attrs name with _ | value
    · rw [generateProps_none hvalue]
      exact (ih attrs c).map _
    by_cases helement : ∃ e, value = .element e
    · obtain ⟨e, rfl⟩ := helement
      have hgenerate := h e c
      rw [generateProps_element hvalue]
      rcases hrun : generate e c with ⟨⟨e', d | id⟩, c'⟩
      · rw [hrun] at hgenerate
        exact .error (hgenerate d rfl)
      · exact (ih _ c').map _
    · rw [generateProps_plain hvalue (by simpa using helement)]
      rcases hprop : instanceProp caller value own with d | definition
      · exact .error (hsort d (instanceProp_fails caller value own d hprop))
      · exact (ih attrs c).map _

theorem finishTag_fails (env : Environment) (at' : Surroundings) (e : Element)
    (pieces : List Piece) (c : Context) :
    FailsWith Diagnostic.OfGeneration (finishTag env at' e pieces c).1.2 := by
  obtain ⟨-, -, hstyles⟩ := e.settleStyles_run at'.definitions
  rw [finishTag_run]
  rcases hsettled : e.settleStyles at'.definitions with ⟨styled, d | _⟩
  · rw [hsettled] at hstyles
    exact .error (Or.inl (hstyles d rfl))
  have hattrs := pageAttributes_fails env.options env.folder at'.definitions styled.elementType
    styled.attrs
  dsimp only
  rcases hpage : pageAttributes env.options env.folder at'.definitions styled.elementType
    styled.attrs with ⟨attrs, d | _⟩
  · rw [hpage] at hattrs
    exact .error (Or.inl (hattrs d rfl))
  · exact (registerElement_fails _ _ _ _ _).map _

end Parts

/-! ## Runs -/

/-- The generation to some depth fails for causes of some sort. -/
structure GenerationFails (env : Environment) (sort : Diagnostic → Prop) (fuel : Nat) : Prop where
  node : ∀ at' node c, FailsWith sort (generateNode env fuel at' node c).1.2
  reference : ∀ at' r c, FailsWith sort (generateReference env fuel at' r c).1
  element : ∀ at' e c, FailsWith sort (generateElement env fuel at' e c).1.2
  expand : ∀ at' e c, FailsWith sort (expandInstance env fuel at' e c).1.2

section Generate

variable {env : Environment} {sort : Diagnostic → Prop} {fuel : Nat}

theorem generateNode_fails (hsort : ∀ d : Diagnostic, d.OfGeneration → sort d)
    (ih : GenerationFails env sort fuel) (at' : Surroundings) (node : Node) (c : Context) :
    FailsWith sort (generateNode env (fuel + 1) at' node c).1.2 := by
  cases node with
  | element e =>
    rw [generateNode_element]
    exact (ih.element at' e c).map _
  | dynamic r =>
    rw [generateNode_dynamic]
    exact ih.reference at' r c
  | conditional q =>
    rw [generateNode_conditional]
    split
    · exact ih.node at' q.node c
    · exact .ok _
  | repetition _ =>
    rw [generateNode]
    exact .error (hsort _ (Or.inr trivial))
  | constant _ | raw _ | inject _ | expr _ | slot _ =>
    rw [generateNode]
    exact .ok _

theorem generateReference_fails (hsort : ∀ d : Diagnostic, d.OfGeneration → sort d)
    (ih : GenerationFails env sort fuel) (at' : Surroundings) (r : Reference) (c : Context) :
    FailsWith sort (generateReference env (fuel + 1) at' r c).1 := by
  rw [generateReference_succ]
  split
  · exact .ok _
  rcases hvalue : at'.definitions.value r with d | v
  · exact .error (hsort d (Or.inl (at'.definitions.value_fails r d hvalue)))
  dsimp only
  unfold generateValue
  split
  · exact .ok _
  split
  · rcases v.default with _ | node | value
    · exact .ok _
    · dsimp only
      rw [bind_run, get_run]
      dsimp only
      rcases node.registered? c with _ | id
      · exact ih.node at' node c
      · exact .ok _
    · exact .ok _
  · exact .ok _

theorem enterInstance_fails (hsort : ∀ d : Diagnostic, d.OfGeneration → sort d)
    (hstages : ∀ component id c, FailsWith sort (runInstanceStages env component id c).1)
    (ih : GenerationFails env sort fuel) (at' : Surroundings) (e : Element) (component : Component)
    (root : Node) (ds : Definitions) (c : Context) :
    FailsWith sort (enterInstance env fuel at' e component root ds c).1.2 := by
  rw [enterInstance_run]
  rcases wrapperKey? c e.componentName e.key with _ | key
  · exact .error (hsort _ (Or.inr trivial))
  dsimp only
  have hwrapper := ih.element { definitions := ds, hierarchy := at'.hierarchy ++ [e.componentName] }
    (wrapperElement key root) c
  rcases hrun : generateElement env fuel _ (wrapperElement key root) c with ⟨⟨wrapper, d | id⟩, c'⟩
  · rw [hrun] at hwrapper
    exact .error (hwrapper d rfl)
  dsimp only
  have hown := hstages
    { component with node := .element wrapper, props := ds.props, states := ds.states } id c'
  rcases hrun' : runInstanceStages env _ id c' with ⟨d | _, c''⟩
  · rw [hrun'] at hown
    exact .error (hown d rfl)
  · exact ((registerElement_fails _ _ _ _ _).mono hsort).map _

theorem expandInstance_fails (hsort : ∀ d : Diagnostic, d.OfGeneration → sort d)
    (hstages : ∀ component id c, FailsWith sort (runInstanceStages env component id c).1)
    (ih : GenerationFails env sort fuel) (at' : Surroundings) (e : Element) (c : Context) :
    FailsWith sort (expandInstance env (fuel + 1) at' e c).1.2 := by
  rw [expandInstance_succ]
  rcases Dict.get? env.externals e.componentName with _ | external
  · exact .error (hsort _ (Or.inr trivial))
  have hlookup : ∀ d : Diagnostic, d.IsLookup → sort d := fun d hd => hsort d (Or.inl hd)
  have hstates := FailsWith.mapM (instanceState_fails e.attrs)
    (Dict.merge at'.definitions.states (c.instantiate external).states)
  dsimp only
  rcases hrun : (Dict.merge at'.definitions.states (c.instantiate external).states).mapM
    (instanceState e.attrs) with d | states
  · exact .error (hlookup d (hstates d hrun))
  have hprops := generateProps_fails hlookup (ih.element at') at'.definitions
    (combineProps at'.definitions.props (c.instantiate external).props) e.attrs
    (c.reserve (c.instantiate external).node.keys)
  dsimp only
  rcases hrun : generateProps (generateElement env fuel at') at'.definitions e.attrs
    (combineProps at'.definitions.props (c.instantiate external).props)
    (c.reserve (c.instantiate external).node.keys) with ⟨⟨attrs, d | props⟩, c'⟩
  · rw [hrun] at hprops
    exact .error (hprops d rfl)
  · exact enterInstance_fails hsort hstages ih at' _ _ _ _ c'

theorem generateElement_fails (hsort : ∀ d : Diagnostic, d.OfGeneration → sort d)
    (ih : GenerationFails env sort fuel) (at' : Surroundings) (e : Element) (c : Context) :
    FailsWith sort (generateElement env (fuel + 1) at' e c).1.2 := by
  by_cases he : e.isInstance
  · have hexpand := ih.expand at' e c
    rw [generateElement_instance env fuel at' c he]
    rcases hrun : expandInstance env fuel at' e c with ⟨⟨e', d | id⟩, c'⟩
    · rw [hrun] at hexpand
      exact .error (hexpand d rfl)
    · exact .ok _
  · have hchildren := generateEach_fails (ih.node at') e.children (c.noteDependency e)
    rw [generateElement_tag env fuel at' c (by simpa using he)]
    rcases hrun : generateEach (generateNode env fuel at') e.children (c.noteDependency e) with
      ⟨⟨children, d | pieces⟩, c'⟩
    · rw [hrun] at hchildren
      exact .error (hchildren d rfl)
    · exact (finishTag_fails env at' _ pieces c').mono hsort

/-- **A generation that fails** does so for one of the causes that trees can give, or because a stage
of an instance fails. -/
theorem generate_fails (hsort : ∀ d : Diagnostic, d.OfGeneration → sort d)
    (hstages : ∀ component id c, FailsWith sort (runInstanceStages env component id c).1)
    (fuel : Nat) : GenerationFails env sort fuel := by
  induction fuel with
  | zero =>
    have hendless := hsort .endless (Or.inr trivial)
    refine ⟨fun at' node c => ?_, fun at' r c => ?_, fun at' e c => ?_, fun at' e c => ?_⟩
    · rw [generateNode]
      exact .error hendless
    · rw [generateReference]
      exact .error hendless
    · rw [generateElement]
      exact .error hendless
    · rw [expandInstance]
      exact .error hendless
  | succ fuel ih =>
    exact ⟨generateNode_fails hsort ih, generateReference_fails hsort ih,
      generateElement_fails hsort ih, expandInstance_fails hsort hstages ih⟩

end Generate

/-! ## Stages -/

section Stages

variable {p : PageGenerator} {page : Component} {o : Options}

/-- Behind the stage of the template the style stage finds the markup, whatever the sheets of the
instances are called. -/
theorem styleStage_of_templateStage {generated : Compilation}
    (h : p.template.run { component := page, options := o } = (.ok (), generated)) :
    ((stylesheetStage templateChunkName (some pageStyleChunkName)).run generated).1 = .ok () := by
  obtain ⟨node, piece, c, hrun, rfl⟩ := exists_of_templateStage h
  obtain ⟨styled, hstyle, -⟩ := exists_of_styleStage { page with node } o piece
    (forall_of_sheets (p.sheets hrun))
  rw [hstyle]

theorem headStage_ok (c : Compilation) : (headStage.run c).1 = .ok () := by
  unfold headStage
  dsimp only
  split <;> rfl

/-- The stage of the template fails when the tree of the page cannot be generated. -/
theorem templateStage_outcome (p : PageGenerator) (page : Component) (o : Options) :
    (p.template.run { component := page, options := o }).1
      = (generateNode (p.environment page o) (p.pageCall page o).fuel (p.pageCall page o).place
          page.node (p.pageCall page o).context).1.2.map fun _ => () := by
  change _ = ((p.environment page o).generate (p.pageCall page o).place page.node
    (p.pageCall page o).context).1.2.map _
  unfold PageGenerator.template templateStage PageGenerator.environment PageGenerator.pageCall
  dsimp only [StateT.run]
  rcases Environment.generate _ _ page.node _ with ⟨⟨node, d | piece⟩, c⟩ <;> rfl

theorem templateStage_fails (p : PageGenerator) (page : Component) (o : Options) :
    FailsWith Diagnostic.OfGeneration
      (p.template.run { component := page, options := o }).1 := by
  have hstages component id c : FailsWith Diagnostic.OfGeneration
      (runInstanceStages (p.environment page o) component id c).1 := by
    rw [(runInstanceStages_plain (p.environment_plain page o) component id c).1]
    exact .ok ()
  rw [templateStage_outcome]
  exact ((generate_fails (fun _ h => h) hstages _).node _ _ _).map _

/-- The stages of a page only fail when its tree cannot be generated. -/
theorem pageStages_fails (p : PageGenerator) (page : Component) (o : Options) :
    FailsWith Diagnostic.OfGeneration (runStages
      (p.template :: PageGenerator.standard.generator.stages)
      { component := page, options := o }).1 := by
  have htemplate := templateStage_fails p page o
  rw [runStages]
  rcases hrun : p.template.run { component := page, options := o } with ⟨d | _, generated⟩
  · rw [hrun] at htemplate
    exact .error (htemplate d rfl)
  have hstyle := styleStage_of_templateStage hrun
  change FailsWith _ (runStages [stylesheetStage templateChunkName (some pageStyleChunkName),
    headStage] generated).1
  rw [runStages]
  rcases hrun' : (stylesheetStage templateChunkName (some pageStyleChunkName)).run generated with
    ⟨d | _, styled⟩
  · rw [hrun'] at hstyle
    cases hstyle
  have hhead := headStage_ok styled
  dsimp only
  rw [runStages]
  rcases hrun'' : headStage.run styled with ⟨d | _, done⟩
  · rw [hrun''] at hhead
    cases hhead
  · exact .ok ()

end Stages

/-! ## Linking -/

/-- **Every batch of chunks can be linked,** as there is a printer for each kind of chunk. -/
theorem exists_of_linkFiles (canvas : Canvas) (chunks : List Chunk) :
    ∃ code, linkFiles canvas chunks = .ok code := by
  rw [linkFiles]
  induction groupByFileType chunks with
  | nil => exact ⟨[], rfl⟩
  | cons group rest ih =>
    obtain ⟨code, hcode⟩ := ih
    rw [List.mapM_cons, hcode, linkChunks_eq]
    exact ⟨_, rfl⟩

/-! ## The generator of plain pages -/

namespace Diagnostic

theorem OfResolution.notConfiguration {d : Diagnostic} (h : d.OfResolution) :
    d.isConfiguration = false := by
  cases d <;> first | rfl | exact h.elim

theorem OfGeneration.notConfiguration {d : Diagnostic} (h : d.OfGeneration) :
    d.isConfiguration = false := by
  cases d <;> first | rfl | exact (h.elim id id).elim

end Diagnostic

namespace PageGenerator

theorem register_fails (externals : Dict Component) (o : Options) (components : List Component) :
    (∃ externals', ((ofExternals externals).register o components).2 = ofExternals externals') ∧
      FailsWith Diagnostic.OfResolution ((ofExternals externals).register o components).1 := by
  induction components generalizing externals with
  | nil => exact ⟨⟨externals, rfl⟩, .ok ()⟩
  | cons c rest ih =>
    have hresolve := c.resolve_fails (ofExternals externals).generator.mapping o
    rw [register, Generator.resolve]
    rcases hresolved : c.resolve (ofExternals externals).generator.mapping o with d | resolved
    · exact ⟨⟨externals, rfl⟩, .error (hresolve d hresolved)⟩
    · exact ih (registerExternal externals resolved)

theorem generate_fails (externals : Dict Component) (page : Component) (o : Options) :
    FailsWith (fun d => d.OfResolution ∨ d.OfGeneration)
      ((ofExternals externals).generate page o) := by
  refine .bind ((page.resolve_fails _ o).mono fun _ => Or.inl) fun resolved => ?_
  have hstages := pageStages_fails (ofExternals externals) resolved o
  change FailsWith _ ((runStages ((ofExternals externals).template
    :: PageGenerator.standard.generator.stages) { component := resolved, options := o }).1 >>= _)
  refine (hstages.mono fun _ => Or.inr).bind fun _ => ?_
  obtain ⟨code, hcode⟩ := exists_of_linkFiles _ _
  refine .bind ?_ fun _ => .ok _
  rw [hcode]
  exact .ok code

/-- **The generator of plain pages only complains about documents.** Whatever is registered with it,
under whatever names and options, an error it gives is never about the way it was put together:
neither when components are registered, which leaves a generator of the same kind, nor when a page is
compiled. The style stage finds its markup behind the template of a page and for each instance, and
the chunks of a page can always be linked. -/
theorem standard_isConfiguration (externals : Dict Component) (o : Options) :
    (∀ components,
      (∃ externals', ((ofExternals externals).register o components).2 = ofExternals externals') ∧
      ∀ d, ((ofExternals externals).register o components).1 = .error d →
        d.isConfiguration = false) ∧
    (∀ page d, (ofExternals externals).generate page o = .error d → d.isConfiguration = false) ∧
    (∀ page component id c,
      (runInstanceStages ((ofExternals externals).environment page o) component id c).1 = .ok ()) ∧
    (∀ page generated,
      (ofExternals externals).template.run { component := page, options := o }
        = (.ok (), generated) →
      ((stylesheetStage templateChunkName (some pageStyleChunkName)).run generated).1 = .ok ()) ∧
    ∀ canvas chunks, ∃ code, linkFiles canvas chunks = .ok code := by
  refine ⟨fun components => ?_, fun page d hd => ?_, fun page component id c => ?_,
    fun page generated => styleStage_of_templateStage, exists_of_linkFiles⟩
  · obtain ⟨hkeeps, hfails⟩ := register_fails externals o components
    exact ⟨hkeeps, fun d hd => (hfails d hd).notConfiguration⟩
  · exact (generate_fails externals page o d hd).elim (·.notConfiguration) (·.notConfiguration)
  · exact (runInstanceStages_plain (environment_plain _ page o) component id c).1

/-- A page with an instance of a component called as the chunk with the markup of a page is. -/
def namesakePage : Component :=
  .ofNode "Page" (.element {
    elementType := "div", key := "page"
    children := [.element (.ofComponent templateChunkName "inner")] })

/-- A component with two repetitions over one data source. -/
def doubledSource : Component :=
  let list : Node := .repetition {
    node := .text "entry", source := .object (.array []), names := { source := some "items" } }
  .ofNode "Lists" (.element { elementType := "div", key := "lists", children := [list, list] })

/-- What is registered for `namesakePage`. -/
def namesakeExternals : Dict Component := [(templateChunkName, emptyComponent templateChunkName)]

theorem namesakePage_isConfiguration :
    (∃ d, (standard.register {} [doubledSource]).1 = .error d ∧ d.isConfiguration = false) ∧
    (∃ d, standard.generate namesakePage {} = .error d ∧ d.isConfiguration = false) ∧
    ∃ generated, (ofExternals namesakeExternals).template.run
        { component := namesakePage, options := {} } = (.ok (), generated) ∧
      generated.context.chunks.map (·.name) = [templateChunkName, templateChunkName] ∧
      ((stylesheetStage templateChunkName (some pageStyleChunkName)).run generated).1 = .ok () := by
  have hstandard : ofExternals [] = standard := rfl
  obtain ⟨hregister, hgenerate, -⟩ := standard_isConfiguration [] {}
  rw [hstandard] at hregister hgenerate
  obtain ⟨-, -, -, hstyle, -⟩ := standard_isConfiguration namesakeExternals {}
  obtain ⟨d, hd⟩ := exists_of_not_isOk
    (by decide +kernel : (standard.register {} [doubledSource]).1.isOk = false)
  obtain ⟨d', hd'⟩ := exists_of_not_isOk
    (by decide +kernel : (standard.generate namesakePage {}).isOk = false)
  refine ⟨⟨d, hd, (hregister _).2 d hd⟩, ⟨d', hd', hgenerate _ d' hd'⟩, ?_⟩
  have hok : ((ofExternals namesakeExternals).template.run
      { component := namesakePage, options := {} }).1.isOk := by decide +kernel
  have hnames : ((ofExternals namesakeExternals).template.run
      { component := namesakePage, options := {} }).2.context.chunks.map (·.name)
        = [templateChunkName, templateChunkName] := by decide +kernel
  rcases hrun : (ofExternals namesakeExternals).template.run
    { component := namesakePage, options := {} } with ⟨d | _, generated⟩
  · rw [hrun] at hok
    cases hok
  · rw [hrun] at hnames
    exact ⟨generated, rfl, hnames, hstyle _ generated hrun⟩

end PageGenerator

end PageCompiler
