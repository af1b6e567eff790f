import PageCompiler.Proofs.Page.Stages

/-!
# The styles of a page

The style stage reads the elements of a component after its tree was generated, so it finds the
styles of the tree settled. What a reference shows is generated from the default of a definition,
which stays as it is: the style stage reads the defaults of props, but it finds only those styles
that need not be settled, and it does not read the defaults of states at all. Neither are the styles
of an instance settled, only those of its wrapper.

* `Stands`: where a call stands in the generation of a page.
* `Stands.covered`: the style stage has run for what is generated by a call.
* `generate_styles`: the styles of a page that reach its files.
-/

namespace PageCompiler

/-! ## Where calls stand -/

/-- Where an element stands that is generated. -/
inductive Site where
  /-- In the tree of the page or of an instance, or among the attributes of an instance. -/
  | tree
  /-- In the default that a reference of some scope shows. -/
  | default (scope : Scope)

/-- A call stands somewhere in the generation that a call begins: its parts stand where it does,
what a reference shows stands in a default, and what an instance makes stands in a tree again. -/
inductive Stands (env : Environment) (root : Call) : Site → Call → Prop
  | root : Stands env root .tree root
  | part {site : Site} {call inner : Call} (stands : Stands env root site call)
      (whole : call.task.IsWhole) (makes : Makes env call inner) : Stands env root site inner
  | shown {site : Site} {fuel : Nat} {at' : Surroundings} {r : Reference} {c : Context}
      {inner : Call} (stands : Stands env root site ⟨fuel, at', .reference r, c⟩)
      (makes : Makes env ⟨fuel, at', .reference r, c⟩ inner) :
      Stands env root (.default r.scope) inner
  | inside {site : Site} {fuel : Nat} {at' : Surroundings} {e : Element} {c : Context}
      {inner : Call} (stands : Stands env root site ⟨fuel, at', .element e, c⟩)
      (isInstance : e.isInstance = true) (makes : Makes env ⟨fuel, at', .element e, c⟩ inner) :
      Stands env root .tree inner

section Stands

variable {env : Environment} {root call : Call} {site : Site}

/-- Each call of a run stands somewhere. -/
theorem Leads.stands (h : Leads env root call) : ∃ site, Stands env root site call := by
  induction h with
  | refl => exact ⟨_, .root⟩
  | @tail call inner _ makes ih =>
    obtain ⟨site, hstands⟩ := ih
    rcases call with ⟨fuel, at', node | r | e, c⟩
    · exact ⟨_, .part hstands trivial makes⟩
    · exact ⟨_, .shown hstands makes⟩
    · by_cases he : e.isInstance
      · exact ⟨_, .inside hstands he makes⟩
      · exact ⟨_, .part hstands (by simpa [Task.IsWhole] using he) makes⟩

theorem Stands.leads (h : Stands env root site call) : Leads env root call := by
  induction h with
  | root => exact .refl
  | part _ _ makes ih | shown _ makes ih | inside _ _ makes ih => exact ih.tail makes

end Stands

/-! ## What the style stage has read -/

/-- The style stage has run, later than in some context, for a component with some elements. -/
def Reads (done c : Context) (elements : List Element) : Prop :=
  ∃ component stage, Component.StyledIn component stage done ∧ c.Grows stage ∧
    elements ⊆ component.elements

theorem Reads.mono {done c c' : Context} {elements elements' : List Element}
    (h : Reads done c elements) (hgrows : c'.Grows c) (hsub : elements' ⊆ elements) :
    Reads done c' elements' := by
  obtain ⟨component, stage, hstyled, hstage, hall⟩ := h
  exact ⟨component, stage, hstyled, hgrows.trans hstage, List.Subset.trans hsub hall⟩

/-- What the style stage has read of a call that ends in a context: the defaults of the props in its
scope, what it leaves of itself in a tree, and what it is given in the default of a prop. -/
structure Covered (env : Environment) (done : Context) (site : Site) (call : Call) (c' : Context) :
    Prop where
  kept : c'.Kept done
  scope : Reads done c' ((defaultNodes call.place.definitions.props).flatMap Node.elements)
  tree : site = .tree → Reads done c' (call.trace env)
  default : ∀ scope, site = .default scope → scope ≠ .state → Reads done c' call.task.elements

section Covered

variable {env : Environment} {done c c' before there : Context} {root call inner : Call}
  {site : Site} {fuel : Nat} {at' : Surroundings} {e : Element}

/-- The parts of a whole are covered where it is. -/
theorem Covered.part (h : Covered env done site call c') (hwhole : call.task.IsWhole)
    (hmakes : Makes env call inner) (hends : call.Ends env c') (hgrows : before.Grows c') :
    Covered env done site inner before where
  kept := hgrows.kept.trans h.kept
  scope := hmakes.place_eq hwhole ▸ h.scope.mono hgrows (List.Subset.refl _)
  tree hsite := (h.tree hsite).mono hgrows (hmakes.trace_subset hwhole hends)
  default scope hsite hscope :=
    (h.default scope hsite hscope).mono hgrows (hmakes.elements_subset hwhole)

/-- What a reference shows is covered if it is the default of a prop. -/
theorem Covered.shown {r : Reference}
    (h : Covered env done site ⟨fuel, at', .reference r, c⟩ c')
    (hmakes : Makes env ⟨fuel, at', .reference r, c⟩ inner) (hgrows : before.Grows c') :
    Covered env done (.default r.scope) inner before := by
  cases hmakes with
  | @default fuel _ _ v node _ value kind default new =>
  refine ⟨hgrows.kept.trans h.kept, h.scope.mono hgrows (List.Subset.refl _), nofun, ?_⟩
  rintro scope hsite hscope
  cases hsite
  rcases Definitions.find_ok (Definitions.value_ok value) with ⟨-, d, hd, rfl⟩ | ⟨hstate, -⟩
  · refine h.scope.mono hgrows fun x hx => List.mem_flatMap.2 ⟨node, ?_, hx⟩
    exact mem_defaultNodes.2 ⟨_, Dict.mem_of_get? hd, default⟩
  · exact absurd hstate hscope

/-- The style stage runs for an instance that is expanded. -/
theorem Closes.styled (hplain : env.Plain)
    (h : Closes env ⟨fuel + 2, at', .element e, c⟩ there c') (hkept : c'.Kept done)
    {external : Component} (he : e.isInstance = true)
    (hexternal : Dict.get? env.externals e.componentName = some external) :
    ∃ entry wrapper id, enter? env fuel at' e c = some entry ∧
      generateElement env fuel entry.inside
          (wrapperElement entry.key (entry.component.node.withChildren e.children)) entry.context
        = ((wrapper, .ok id), there) ∧
      (entry.styled wrapper).StyledIn there done := by
  cases h with
  | quiet kind _ =>
    have hexpanded : (Call.mk (fuel + 2) at' (.element e) c).expanded? env = some external :=
      (if_pos he).trans hexternal
    rw [kind] at hexpanded
    cases hexpanded
  | @stages _ _ _ wrapper entry id _ _ styled _ isInstance entered generated run quiet =>
    obtain ⟨-, hchunks, hcanvas⟩ := runInstanceStages_plain hplain (entry.styled wrapper) id there
    rw [run] at hchunks hcanvas
    exact ⟨entry, wrapper, id, entered, generated,
      .of_stage (quiet.kept.trans hkept) (hchunks ▸ List.subset_append_right _ _) hcanvas rfl⟩

/-- What an instance makes is covered by the style stage of the instance. -/
theorem Covered.inside (hplain : env.Plain) (he : e.isInstance = true)
    (h : Covered env done site ⟨fuel, at', .element e, c⟩ c')
    (hmakes : Makes env ⟨fuel, at', .element e, c⟩ inner) (hgrows : before.Grows there)
    (hcloses : Closes env ⟨fuel, at', .element e, c⟩ there c') :
    Covered env done .tree inner before := by
  have hbefore := hgrows.trans (hcloses.grows hplain)
  cases hmakes with
  | child tag _ => cases he.symm.trans tag
  | @given fuel _ _ x external states _ _ _ component _ reaches =>
    obtain ⟨entry, wrapper, id, hentry, hwrapper, hstyled⟩ :=
      hcloses.styled hplain h.kept he component
    obtain ⟨external', hexternal, hcomponent, -, hprops, -, -⟩ := enter?_eq_some hentry
    cases component.symm.trans hexternal
    rw [hcomponent] at hprops
    refine ⟨hbefore.kept.trans h.kept, h.scope.mono hbefore (List.Subset.refl _), fun _ => ?_, nofun⟩
    refine ⟨entry.styled wrapper, there, hstyled, hgrows, fun y hy => ?_⟩
    exact List.mem_flatMap.2 ⟨_, List.mem_cons_of_mem _ (reaches.default hprops), hy⟩
  | @wrapper fuel _ _ entry _ _ entered =>
    obtain ⟨external, hexternal, -, -, -, -, -⟩ := enter?_eq_some entered
    obtain ⟨entry', wrapper, id, hentry, hwrapper, hstyled⟩ :=
      hcloses.styled hplain h.kept he hexternal
    cases entered.symm.trans hentry
    refine ⟨hbefore.kept.trans h.kept, ⟨_, there, hstyled, hgrows, fun y hy => ?_⟩,
      fun _ => ⟨_, there, hstyled, hgrows, fun y hy => ?_⟩, nofun⟩
    · obtain ⟨node, hnode, hy⟩ := List.mem_flatMap.1 hy
      exact List.mem_flatMap.2 ⟨node, List.mem_cons_of_mem _ hnode, hy⟩
    · rw [Call.trace, hwrapper] at hy
      exact List.mem_flatMap.2 ⟨_, List.mem_cons_self, hy⟩

/-- **Each call of a run that is covered** succeeds and is covered. -/
theorem Stands.covered (hplain : env.Plain) (hends : root.Ends env c')
    (hroot : Covered env done .tree root c') (h : Stands env root site call) :
    ∃ there, call.Ends env there ∧ Covered env done site call there := by
  induction h with
  | root => exact ⟨c', hends, hroot⟩
  | part _ whole makes ih =>
    obtain ⟨after, hcall, hcovered⟩ := ih
    obtain ⟨before, there, hinner, hgrows, hcloses⟩ := makes.ends hplain hcall
    exact ⟨before, hinner,
      hcovered.part whole makes hcall (hgrows.trans (hcloses.grows hplain))⟩
  | shown _ makes ih =>
    obtain ⟨after, hcall, hcovered⟩ := ih
    obtain ⟨before, there, hinner, hgrows, hcloses⟩ := makes.ends hplain hcall
    exact ⟨before, hinner, hcovered.shown makes (hgrows.trans (hcloses.grows hplain))⟩
  | inside _ isInstance makes ih =>
    obtain ⟨after, hcall, hcovered⟩ := ih
    obtain ⟨before, there, hinner, hgrows, hcloses⟩ := makes.ends hplain hcall
    exact ⟨before, hinner, hcovered.inside hplain isInstance makes hgrows hcloses⟩

end Covered

/-! ## Elements that are generated -/

section Elements

variable {env : Environment} {done c c' there : Context} {fuel : Nat} {at' : Surroundings}
  {e e' : Element} {id : Nat}

theorem TagRun.exists_tag (h : TagRun env fuel at' e c e' id c') :
    ∃ t, c'.canvas.tags[id]? = some t ∧ t.name = e.elementType := by
  obtain ⟨pieces, there, attrs, -, hcreate⟩ := h.children
  obtain ⟨rfl, hcanvas⟩ := Prod.mk.inj hcreate
  rw [← hcanvas]
  exact ⟨_, Array.getElem?_push_size, rfl⟩

/-- An instance that is expanded comes to the tag of its wrapper, and keeps its styles as they are. -/
theorem exists_of_instance (hplain : env.Plain) (he : e.isInstance = true)
    (h : generateElement env fuel at' e c = ((e', .ok id), c')) :
    e'.style = e.style ∧ ∃ t, c'.canvas.tags[id]? = some t := by
  obtain ⟨fuel, expanded, rfl, hexpand, rfl⟩ := generateElement_ok_instance he h
  obtain ⟨entry, wrapper, there, styled, hentry, hwrapper, hstages, hquiet, rfl⟩ :=
    exists_of_expandInstance hexpand
  refine ⟨rfl, ?_⟩
  obtain ⟨fuel, rfl⟩ := generateElement_ok hwrapper
  obtain ⟨t, ht, -⟩ := (TagRun.of_run rfl hwrapper).exists_tag
  have hgrows := (Closes.stages he hentry hwrapper hstages hquiet).grows hplain
  obtain ⟨t', ht', -⟩ := hgrows.canvas id t ht
  exact (Canvas.Grows.prepend_comment _ _ _ id t' ht').imp fun _ h => h.1

/-! ## Settled styles -/

/-- The text that a style value stands for in a scope: its own, or that of the text or number that it
refers to. -/
def StyleValue.textIn? (ds : Definitions) : StyleValue → Option String
  | .constant value => some value.toJson.text
  | .dynamic r =>
    if r.scope = .token then some ("var(--" ++ dashCase r.id ++ ")")
    else match ds.value r with
      | .ok v => if v.kind = "string" || v.kind = "number" then some (v.text r) else none
      | .error _ => none

/-- Settling a style value leaves the text that it stands for. -/
theorem StyleValue.cssText?_settle {ds : Definitions} {value settled : StyleValue}
    (h : value.settle ds = .ok settled) : settled.cssText? = value.textIn? ds := by
  cases value with
  | constant value =>
    cases h
    rfl
  | dynamic r =>
    rw [settle] at h
    rw [textIn?]
    split at h
    · rename_i hscope
      cases h
      rw [cssText?, if_pos hscope, if_pos hscope]
    · rename_i hscope
      obtain ⟨v, hv, h⟩ := exists_of_bind_eq_ok h
      rw [if_neg hscope, hv]
      dsimp only
      split at h
      · rename_i hkind
        cases h
        rw [if_pos hkind]
        rfl
      · rename_i hkind
        cases h
        rw [if_neg hkind, cssText?, if_neg hscope]

/-- A text of its own is what a style value stands for anywhere. -/
theorem StyleValue.textIn?_of_cssText? {value : StyleValue} {text : String}
    (h : value.cssText? = some text) (ds : Definitions) : value.textIn? ds = some text := by
  cases value with
  | constant value => exact h
  | dynamic r =>
    rw [cssText?] at h
    split at h
    · rename_i hscope
      rw [textIn?, if_pos hscope, h]
    · cases h

theorem StyleMap.mem_declarations {styles : StyleMap} {name text : String} {value : StyleValue}
    (h : (name, value) ∈ styles) (htext : value.cssText? = some text) :
    (dashCase name, text) ∈ styles.declarations :=
  List.mem_filterMap.2 ⟨_, h, by rw [htext]; rfl⟩

/-! ## Styles in files -/

/-- **What the style stage has read** is in the end: the rule with the styles of an element, and its
class. -/
theorem Reads.gives {elements : List Element} (h : Reads done c elements) (he : e ∈ elements)
    {declaration : String × String} (hdeclares : declaration ∈ e.style.declarations) {t : Tag}
    (hid : Dict.get? c.lookup e.key = some id) (ht : c.canvas.tags[id]? = some t) :
    (∃ chunk ∈ done.chunks, chunk.kind = .text ∧ chunk.fileType = cssFile ∧ ∃ sheet,
        chunk.content = .text sheet ∧ (e.baseRule.print "").toList <:+: sheet.toList) ∧
      (e.key ≠ "" →
        ∃ t', done.canvas.tags[id]? = some t' ∧ t'.name = t.name ∧ t'.HasClass e.key) := by
  obtain ⟨component, stage, hstyled, hgrows, hall⟩ := h
  have hbase : e.baseDeclarations ≠ [] := List.ne_nil_of_mem (List.mem_append_left _ hdeclares)
  refine ⟨?_, fun hkey => ?_⟩
  · obtain ⟨chunk, hchunk, hkind, htype, hcontent⟩ :=
      hstyled.sheet (Component.print_stylesheet_ne_empty (hall he) hbase)
    exact ⟨chunk, hchunk, hkind, htype, _, hcontent,
      Component.rule_infix (hall he) (e.baseRule_mem hbase)⟩
  · obtain ⟨t₁, ht₁, hdecorated⟩ := hgrows.canvas id t ht
    obtain ⟨t', ht', hname', hclass⟩ := hstyled.classes e (hall he) e.key
      (e.key_mem_cssClasses hbase _) hkey id t₁ (hgrows.lookup hid) ht₁
    exact ⟨t', ht', hname'.trans hdecorated.name, hclass⟩

/-- The style value of an element comes to a text that the style stage finds: the text is its own, and
the element does not stand in the default of a state, or the value is settled in a tree. -/
def Found (site : Site) (ds : Definitions) (e : Element) (value : StyleValue) (text : String) :
    Prop :=
  site ≠ .default .state ∧ value.cssText? = some text ∨
    site = .tree ∧ e.isInstance = false ∧ value.textIn? ds = some text

/-- The style stage has read an element with the key and the style of one that is generated. -/
theorem Covered.exists_read {site : Site} (hplain : env.Plain)
    (h : Covered env done site ⟨fuel, at', .element e, c⟩ c')
    (hrun : generateElement env fuel at' e c = ((e', .ok id), c')) {name text : String}
    {value : StyleValue} (hentry : (name, value) ∈ e.style)
    (hfound : Found site at'.definitions e value text) :
    ∃ elements, Reads done c' elements ∧ ∃ x ∈ elements, x.key = e.key ∧
      (dashCase name, text) ∈ x.style.declarations := by
  cases site with
  | default scope =>
    rcases hfound with ⟨hsite, htext⟩ | ⟨hsite, -⟩
    · have hscope : scope ≠ .state := fun heq => hsite (congrArg Site.default heq)
      exact ⟨e.elements, h.default scope rfl hscope, e, e.mem_elements, rfl,
        StyleMap.mem_declarations hentry htext⟩
    · cases hsite
  | tree =>
    have hregisters := generate_registers env fuel at' e c
    rw [hrun] at hregisters
    have htrace : Reads done c' e'.elements := by
      have htree := h.tree rfl
      rwa [Call.trace, hrun] at htree
    refine ⟨e'.elements, htrace, e', e'.mem_elements, (hregisters id rfl).1, ?_⟩
    by_cases he : e.isInstance
    · obtain ⟨hstyle, -⟩ := exists_of_instance hplain he hrun
      rcases hfound with ⟨-, htext⟩ | ⟨-, htag, -⟩
      · exact hstyle ▸ StyleMap.mem_declarations hentry htext
      · cases he.symm.trans htag
    · obtain ⟨fuel, rfl⟩ := generateElement_ok hrun
      obtain ⟨settled, hsettled, hmem⟩ := (TagRun.of_run (by simpa using he) hrun).style hentry
      have htext : value.textIn? at'.definitions = some text := by
        rcases hfound with ⟨-, htext⟩ | ⟨-, -, htext⟩
        · exact StyleValue.textIn?_of_cssText? htext _
        · exact htext
      exact StyleMap.mem_declarations hmem ((StyleValue.cssText?_settle hsettled).trans htext)

/-- The tag that an element comes to. -/
theorem exists_tag_of_run (hplain : env.Plain)
    (h : generateElement env fuel at' e c = ((e', .ok id), c')) :
    ∃ t, c'.canvas.tags[id]? = some t ∧ (e.isInstance = false → t.name = e.elementType) := by
  by_cases he : e.isInstance
  · obtain ⟨-, t, ht⟩ := exists_of_instance hplain he h
    exact ⟨t, ht, fun htag => by cases he.symm.trans htag⟩
  · obtain ⟨fuel, rfl⟩ := generateElement_ok h
    obtain ⟨t, ht, hname⟩ := (TagRun.of_run (by simpa using he) h).exists_tag
    exact ⟨t, ht, fun _ => hname⟩

/-- **The styles of an element that is covered** are in the end: a rule with each of them, and the
class. -/
theorem Covered.styles {site : Site} (hplain : env.Plain)
    (h : Covered env done site ⟨fuel, at', .element e, c⟩ c')
    (hrun : generateElement env fuel at' e c = ((e', .ok id), c')) :
    ∃ t, done.canvas.tags[id]? = some t ∧ (e.isInstance = false → t.name = e.elementType) ∧
      ∀ name value text, (name, value) ∈ e.style → Found site at'.definitions e value text →
        (∃ chunk ∈ done.chunks, chunk.kind = .text ∧ chunk.fileType = cssFile ∧ ∃ sheet,
          chunk.content = .text sheet ∧ ∃ declarations, (dashCase name, text) ∈ declarations ∧
            (Rule.print "" ⟨"." ++ e.key, declarations⟩).toList <:+: sheet.toList) ∧
          (e.key ≠ "" → t.HasClass e.key) := by
  obtain ⟨t₀, ht₀, hname₀⟩ := exists_tag_of_run hplain hrun
  obtain ⟨t, ht, hdecorated⟩ := h.kept.canvas id t₀ ht₀
  refine ⟨t, ht, fun htag => hdecorated.name.trans (hname₀ htag),
    fun name value text hentry hfound => ?_⟩
  obtain ⟨elements, hreads, x, hx, hkey, hdeclares⟩ := h.exists_read hplain hrun hentry hfound
  have hregisters := generate_registers env fuel at' e c
  rw [hrun] at hregisters
  have hid : Dict.get? c'.lookup x.key = some id := hkey ▸ (hregisters id rfl).2
  obtain ⟨⟨chunk, hchunk, hkind, htype, sheet, hsheet, hrule⟩, hclass⟩ :=
    hreads.gives hx hdeclares hid ht₀
  refine ⟨⟨chunk, hchunk, hkind, htype, sheet, hsheet, x.baseDeclarations,
    List.mem_append_left _ hdeclares, ?_⟩, fun hne => ?_⟩
  · rwa [Element.baseRule, hkey] at hrule
  · obtain ⟨t', ht', -, hclass⟩ := hclass (hkey ▸ hne)
    cases ht.symm.trans ht'
    exact hkey ▸ hclass

end Elements

/-- A style sheet among some files has a rule for a key that declares a property. -/
def Declares (files : List OutputFile) (key property text : String) : Prop :=
  ∃ file ∈ files, file.fileType = cssFile ∧ ∃ declarations, (property, text) ∈ declarations ∧
    (Rule.print "" ⟨"." ++ key, declarations⟩).toList <:+: file.content.toList

/-- A page that is compiled is resolved, goes through its stages, and is linked. -/
theorem exists_of_generate {externals : Dict Component} {c : Component} {o : Options}
    {compiled : Compiled} (h : (PageGenerator.ofExternals externals).generate c o = .ok compiled) :
    ∃ page done code, c.resolve .html o = .ok page ∧
      runStages ((PageGenerator.ofExternals externals).template ::
          PageGenerator.standard.generator.stages) { component := page, options := o }
        = (.ok (), done) ∧
      linkFiles done.context.canvas done.context.chunks = .ok code ∧
      compiled.files = outputFiles (page.output.getD {}) done.component.name code := by
  unfold PageGenerator.generate Generator.generateWith at h
  obtain ⟨page, hpage, h⟩ := exists_of_bind_eq_ok h
  rcases hrun : runStages ([(PageGenerator.ofExternals externals).template]
    ++ (PageGenerator.ofExternals externals).generator.stages) { component := page, options := o }
    with ⟨outcome, done⟩
  rw [hrun] at h
  obtain ⟨_, hok, hlinked⟩ := exists_of_bind_eq_ok h
  obtain ⟨code, hcode, hcompiled⟩ := exists_of_bind_eq_ok hlinked
  subst hok
  cases hcompiled
  exact ⟨page, done, code, hpage, hrun, hcode, rfl⟩

/-- **The styles of a page that reach its files.** A page that is compiled is resolved and goes through
its stages, which generate its tree and everything that this leads to. Each element that is generated
comes to a tag, on the canvas that the files are printed from. For each of its styles that is found, a
style sheet has a rule for the key of the element with the property and the text, and the tag has the
key as a class.

A style is found when its text is its own, unless the element stands in the default of a state, and
when its text is that of a prop or a state, if it is the style of a tag in a tree. -/
theorem generate_styles {externals : Dict Component} {c : Component} {o : Options}
    {compiled : Compiled} (h : (PageGenerator.ofExternals externals).generate c o = .ok compiled) :
    ∃ page done, c.resolve .html o = .ok page ∧
      runStages ((PageGenerator.ofExternals externals).template ::
          PageGenerator.standard.generator.stages) { component := page, options := o }
        = (.ok (), done) ∧
      let env := (PageGenerator.ofExternals externals).environment page o
      let root := (PageGenerator.ofExternals externals).pageCall page o
      (∀ call, Leads env root call → ∃ site, Stands env root site call) ∧
      ∀ site fuel at' e there, Stands env root site ⟨fuel, at', .element e, there⟩ →
        ∃ id t, (generateElement env fuel at' e there).1.2 = .ok id ∧
          done.context.canvas.tags[id]? = some t ∧ (e.isInstance = false → t.name = e.elementType) ∧
          ∀ name value text, (name, value) ∈ e.style → Found site at'.definitions e value text →
            Declares compiled.files e.key (dashCase name) text ∧ (e.key ≠ "" → t.HasClass e.key) := by
  obtain ⟨page, done, code, hpage, hrun, hcode, hfiles⟩ := exists_of_generate h
  obtain ⟨node, piece, c', hgenerated, hkept, hstyled, hshallow⟩ := exists_of_pageStages hrun
  refine ⟨page, done, hpage, hrun, fun call => Leads.stands, fun site fuel at' e there hstands => ?_⟩
  have hplain := (PageGenerator.ofExternals externals).environment_plain page o
  have hends : ((PageGenerator.ofExternals externals).pageCall page o).Ends
      ((PageGenerator.ofExternals externals).environment page o) c' :=
    Call.ends_node.2 ⟨node, piece, hgenerated⟩
  have hroot : Covered ((PageGenerator.ofExternals externals).environment page o) done.context .tree
      ((PageGenerator.ofExternals externals).pageCall page o) c' := by
    refine ⟨hkept.of_push, ⟨_, c', hstyled, .refl _, fun x hx => ?_⟩,
      fun _ => ⟨_, c', hstyled, .refl _, fun x hx => ?_⟩, nofun⟩
    · obtain ⟨tree, htree, hx⟩ := List.mem_flatMap.1 hx
      exact List.mem_flatMap.2 ⟨tree, List.mem_cons_of_mem _ htree, hx⟩
    · have htrace : Call.trace ((PageGenerator.ofExternals externals).environment page o)
          ((PageGenerator.ofExternals externals).pageCall page o) = node.elements :=
        congrArg (fun r => r.1.1.elements) hgenerated
      exact List.mem_flatMap.2 ⟨node, List.mem_cons_self, htrace ▸ hx⟩
  obtain ⟨after, hcall, hcovered⟩ := hstands.covered hplain hends hroot
  obtain ⟨e', id, hrun'⟩ := Call.ends_element.1 hcall
  obtain ⟨t, ht, hname, hstyles⟩ := hcovered.styles hplain hrun'
  refine ⟨id, t, by rw [hrun'], ht, hname, fun name value text hentry hfound => ?_⟩
  obtain ⟨⟨chunk, hchunk, hkind, htype, sheet, hsheet, declarations, hdeclares, hrule⟩, hclass⟩ :=
    hstyles name value text hentry hfound
  refine ⟨?_, hclass⟩
  have htext : chunk.text done.context.canvas = sheet := Chunk.text_of_text hkind hsheet
  have hne : chunk.text done.context.canvas ≠ "" := by
    rw [htext]
    rintro rfl
    exact Rule.print_ne_empty _ _ (List.infix_nil.1 hrule)
  obtain ⟨file, hfile, hfileType, hinfix⟩ := exists_outputFile hshallow hchunk hne hcode
    (page.output.getD {}) done.component.name
  rw [htext] at hinfix
  exact ⟨file, hfiles ▸ hfile, hfileType.trans htype, declarations, hdeclares, hrule.trans hinfix⟩

/-! ## A page that shows a default -/

section Shows

variable {p : PageGenerator} {page : Component} {o : Options} {e : Element}

theorem exists_pageCall_fuel (p : PageGenerator) (page : Component) (o : Options) :
    ∃ fuel, (p.pageCall page o).fuel = fuel + 6 := by
  have hpow : 4 ^ 2 ≤ (p.pageCall page o).fuel :=
    (Nat.pow_le_pow_left (Nat.le_add_left 4 _) 2).trans
      (Nat.pow_le_pow_right (by omega) (Nat.le_add_left 2 _))
  exact ⟨_, (Nat.sub_add_cancel (show 6 ≤ _ by omega)).symm⟩

/-- The element of a page stands in a tree. -/
theorem exists_stands_root (p : PageGenerator) (o : Options) (hnode : page.node = .element e) :
    ∃ fuel, Stands (p.environment page o) (p.pageCall page o) .tree
      ⟨fuel + 5, (p.pageCall page o).place, .element e, (p.pageCall page o).context⟩ := by
  obtain ⟨fuel, hfuel⟩ := exists_pageCall_fuel p page o
  have hcall : p.pageCall page o = ⟨fuel + 6, (p.pageCall page o).place, .node (.element e),
      (p.pageCall page o).context⟩ := by
    rw [← hfuel, ← hnode]
    rfl
  refine ⟨fuel, .part .root trivial ?_⟩
  rw [hcall]
  exact .content

/-- What its first child shows stands in a default. -/
theorem exists_stands_shown (p : PageGenerator) (o : Options) (hnode : page.node = .element e)
    (htag : e.isInstance = false) {r : Reference} {rest : List Node} {x : Element}
    (hchildren : e.children = .dynamic r :: rest)
    (hvalue : Definitions.value ⟨page.props, page.states⟩ r
      = .ok ⟨"element", some (.node (.element x))⟩) :
    ∃ fuel c, Stands (p.environment page o) (p.pageCall page o) (.default r.scope)
      ⟨fuel + 1, (p.pageCall page o).place, .element x, c⟩ := by
  obtain ⟨fuel, hroot⟩ := exists_stands_root p o hnode
  have hchild : Stands (p.environment page o) (p.pageCall page o) .tree
      ⟨fuel + 4, (p.pageCall page o).place, .node (.dynamic r), _⟩ :=
    .part hroot htag (.child htag (by rw [hchildren]; exact .here))
  have hreference := Stands.part hchild trivial .reference
  have hnew : (Node.element x).registered? ((p.pageCall page o).context.noteDependency e) = none := by
    rw [Node.registered?, Context.lookup_noteDependency]
    rfl
  exact ⟨fuel, _, .part (.shown hreference (.default hvalue rfl rfl hnew)) trivial .content⟩

end Shows

section Toned

variable (own shown : StyleMap)

/-- A short text with some styles. -/
def shortNote : Element where
  key := "note"
  elementType := "text"
  style := shown
  children := [.constant (.text "hi")]

/-- A page with some styles that shows a short text with others, and has a tone. -/
def tonedPage : Component where
  name := "Page"
  node := .element {
    key := "page"
    elementType := "container"
    style := own
    children := [.dynamic (.toProp "note")] }
  props := [
    ("note", { kind := "element", default := some (.node (.element (shortNote shown))) }),
    ("tone", { kind := "string", default := some (.value (.string "red")) })]

/-- The short text, resolved. -/
def resolvedNote : Element :=
  { shortNote shown with elementType := "span", name := some "text", semanticType := some "text" }

/-- The element of the page, resolved. -/
def resolvedRoot : Element where
  key := "page"
  elementType := "div"
  name := some "container"
  semanticType := some "container"
  style := own
  children := [.dynamic (.toProp "note")]

/-- The page, resolved. -/
def resolvedPage : Component where
  name := "Page"
  node := .element (resolvedRoot own)
  props := [
    ("note", { kind := "element", default := some (.node (.element (resolvedNote shown))) }),
    ("tone", { kind := "string", default := some (.value (.string "red")) })]
  output := some {
    className := some "Page"
    fileName := some "page"
    styleFileName := some "page"
    templateFileName := some "page" }

/-- The generator of pages without instances. -/
def plainPages : PageGenerator := .ofExternals []

theorem exists_stands_note : ∃ fuel c,
    Stands (plainPages.environment (resolvedPage own shown) {})
      (plainPages.pageCall (resolvedPage own shown) {}) (.default .prop)
      ⟨fuel + 1, (plainPages.pageCall (resolvedPage own shown) {}).place,
        .element (resolvedNote shown), c⟩ := by
  have hroot : (resolvedPage own shown).node = .element (resolvedRoot own) := rfl
  have hchildren : (resolvedRoot own).children = [.dynamic (.toProp "note")] := rfl
  exact exists_stands_shown plainPages {} hroot rfl hchildren rfl

end Toned

/-- A style that refers to the tone. -/
def toned : StyleMap := [("color", .dynamic (.toProp "tone"))]

/-- A style of its own. -/
def blocked : StyleMap := [("display", .text "block")]

theorem resolve_tonedPage :
    (tonedPage toned blocked).resolve .html {} = .ok (resolvedPage toned blocked) := by
  rfl

/-- The tone reaches the style sheet from the tree of a page, and a style of its own does from a
default. -/
theorem tonedPage_styles : ∃ compiled, plainPages.generate (tonedPage toned blocked) {} = .ok compiled ∧
    Declares compiled.files "page" "color" "red" ∧
    Declares compiled.files "note" "display" "block" := by
  obtain ⟨compiled, h⟩ := exists_of_isOk
    (by decide +kernel : (plainPages.generate (tonedPage toned blocked) {}).isOk = true)
  obtain ⟨page, done, hpage, -, -, hstyles⟩ := generate_styles h
  cases resolve_tonedPage.symm.trans hpage
  have hnode : (resolvedPage toned blocked).node = .element (resolvedRoot toned) := rfl
  obtain ⟨fuel, hroot⟩ := exists_stands_root plainPages {} hnode
  obtain ⟨fuel', c, hnote⟩ := exists_stands_note toned blocked
  obtain ⟨_, _, -, -, -, hown⟩ := hstyles _ _ _ _ _ hroot
  obtain ⟨_, _, -, -, -, hshown⟩ := hstyles _ _ _ _ _ hnote
  refine ⟨compiled, h, ?_, ?_⟩
  · exact (hown "color" _ "red" List.mem_cons_self (Or.inr ⟨rfl, rfl, by decide +kernel⟩)).1
  · exact (hshown "display" _ "block" List.mem_cons_self (Or.inl ⟨nofun, rfl⟩)).1

/-- The tone does not reach a style sheet from a default. -/
theorem tonedPage_loses : ∃ compiled page fuel at' e c value,
    plainPages.generate (tonedPage [] toned) {} = .ok compiled ∧
    (tonedPage [] toned).resolve .html {} = .ok page ∧
    Stands (plainPages.environment page {}) (plainPages.pageCall page {}) (.default .prop)
      ⟨fuel, at', .element e, c⟩ ∧
    e.isInstance = false ∧ ("color", value) ∈ e.style ∧
    value.textIn? at'.definitions = some "red" ∧
    ¬ Declares compiled.files e.key "color" "red" := by
  obtain ⟨compiled, h⟩ := exists_of_isOk
    (by decide +kernel : (plainPages.generate (tonedPage [] toned) {}).isOk = true)
  have hfiles : ∀ compiled ∈ (plainPages.generate (tonedPage [] toned) {}).toOption,
      ∀ file ∈ compiled.files, file.fileType ≠ cssFile := by decide +kernel
  obtain ⟨fuel, c, hnote⟩ := exists_stands_note [] toned
  refine ⟨compiled, resolvedPage [] toned, _, _, _, c, _, h, by rfl, hnote, rfl, List.mem_cons_self,
    by decide +kernel, ?_⟩
  rintro ⟨file, hfile, hcss, -⟩
  exact hfiles compiled (by rw [h]; rfl) file hfile hcss

end PageCompiler
