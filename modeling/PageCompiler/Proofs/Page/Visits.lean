import PageCompiler.Proofs.Page.Stages

/-!
# What the style stage visits

The style stage runs once for each instance that is expanded and once for the page. Each time it
visits the elements of one component: those of its tree, as the generation has left it, and those of
the defaults of its props. An element that is visited with declarations of its own gets one rule for
all screens under the plain class of its key, and no other rule has that selector, unless a style set
has the class.

* `Component.countP_rules`: the rules under a plain class in a sheet, counted by visits.
* `PageGenerator.visited`: the components that the stage runs for, one after the other.
* `css_of_pageStages`: the style sheets among the chunks of a page.
-/

namespace PageCompiler

/-! ## Rules under a plain class -/

/-- An element has a key, and declarations of its own. -/
def Element.IsStyled (key : String) (e : Element) : Bool :=
  e.key = key && !e.baseDeclarations.isEmpty

/-- A rule is for all screens, and its selector is the plain class of a key. -/
def ScopedRule.IsPlain (key : String) (r : ScopedRule) : Bool :=
  r.width.isNone && r.rule.selector = "." ++ key

section Rules

variable {key : String}

/-- No key with a colon, no plain class with one. -/
theorem ne_plain_of_colon (hkey : ':' ∉ key.toList) {selector : String}
    (h : ':' ∈ selector.toList) : selector ≠ "." ++ key := by
  rintro rfl
  rw [String.toList_append, List.mem_append] at h
  rcases h with h | h
  · exact absurd h (by decide)
  · exact hkey h

theorem countP_flatMap_ite {α β : Type} {p : β → Bool} {q : α → Bool} {f : α → List β} {l : List α}
    (h : ∀ a ∈ l, (f a).countP p = if q a then 1 else 0) : (l.flatMap f).countP p = l.countP q := by
  induction l with
  | nil => rfl
  | cons a l ih =>
    rw [List.flatMap_cons, List.countP_append, List.countP_cons, h a List.mem_cons_self,
      ih fun b hb => h b (List.mem_cons_of_mem _ hb), Nat.add_comm]

/-- A variant for all screens is for states of the element, and its selector says so. -/
theorem ReferencedStyle.colon_of_variant? {selector : String} {s : ReferencedStyle}
    {r : ScopedRule} (h : s.variant? selector = some r) (hwidth : r.width = none) :
    ':' ∈ r.rule.selector.toList := by
  unfold variant? at h
  split at h
  · cases h
  · rename_i conditions styles hne hcontent
    dsimp only at h
    split at h
    · cases h
    cases h
    rcases conditions with _ | ⟨condition, rest⟩
    · exact (hne rfl).elim
    cases condition with
    | screenSize width => cases hwidth
    | elementState state =>
      dsimp only
      rw [statesSelector, List.filterMap_cons, String.toList_append]
      refine List.mem_append_right _ ?_
      simp [String.join_cons]
  · cases h

/-- An element with declarations of its own has one rule under the plain class of its key. -/
theorem Element.countP_rules (hkey : ':' ∉ key.toList) (e : Element) :
    e.rules.countP (·.IsPlain key) = if e.IsStyled key then 1 else 0 := by
  have hvariants : ((Dict.values e.referencedStyles).filterMap (·.variant? ("." ++ e.key))).countP
      (·.IsPlain key) = 0 := by
    rw [List.countP_eq_zero]
    intro r hr hplain
    obtain ⟨s, -, hs⟩ := List.mem_filterMap.1 hr
    rw [ScopedRule.IsPlain, Bool.and_eq_true, Option.isNone_iff_eq_none, decide_eq_true_eq] at hplain
    exact ne_plain_of_colon hkey (s.colon_of_variant? hs hplain.1) hplain.2
  rw [rules]
  rw [List.countP_append, hvariants, Nat.add_zero]
  by_cases hempty : e.baseDeclarations.isEmpty
  · rw [if_pos hempty, if_neg (by simp [IsStyled, hempty])]
    rfl
  · rw [if_neg hempty, List.countP_singleton]
    simp [ScopedRule.IsPlain, IsStyled, hempty]

/-- A style set of another class has no rule under the plain class. -/
theorem StyleSet.countP_rules (hkey : ':' ∉ key.toList) {s : StyleSet} (hclass : s.cssClass ≠ key) :
    s.rules.countP (·.IsPlain key) = 0 := by
  have hfor : ∀ {width : Option Binary64} {selector : String} {styles : StyleMap},
      width ≠ none ∨ selector ≠ "." ++ key →
        (ruleFor width selector styles).countP (·.IsPlain key) = 0 := by
    intro width selector styles hother
    rw [List.countP_eq_zero]
    intro r hr hplain
    rw [ruleFor] at hr
    split at hr
    · cases hr
    · rw [List.mem_singleton.1 hr, ScopedRule.IsPlain, Bool.and_eq_true, Option.isNone_iff_eq_none,
        decide_eq_true_eq] at hplain
      rcases hother with hwidth | hselector
      · exact hwidth hplain.1
      · exact hselector hplain.2
  have hown : "." ++ s.cssClass ≠ "." ++ key := fun h => hclass ((String.append_right_inj ".").1 h)
  rw [rules]
  rw [List.countP_append, hfor (Or.inr hown), Nat.zero_add, List.countP_eq_zero]
  intro r hr
  obtain ⟨condition, -, hr⟩ := List.mem_flatMap.1 hr
  cases condition with
  | elementState state content =>
    refine List.countP_eq_zero.1 (hfor (Or.inr (ne_plain_of_colon hkey ?_))) r hr
    rw [String.toList_append, String.toList_append]
    exact List.mem_append_left _ (List.mem_append_right _ List.mem_cons_self)
  | screenSize maxWidth content =>
    exact List.countP_eq_zero.1 (hfor (Or.inl (Option.some_ne_none maxWidth))) r hr

/-- The rules of a sheet outside the blocks are those for all screens. -/
theorem Stylesheet.countP_rules (rules : List ScopedRule) :
    (ofRules rules).rules.countP (·.selector = "." ++ key) = rules.countP (·.IsPlain key) := by
  rw [ofRules, List.countP_filterMap]
  refine List.countP_congr fun r _ => ?_
  rw [ScopedRule.IsPlain]
  cases r.width <;> simp

/-- **The rules under a plain class** in the sheet of a component: one for each element of the key
that has declarations of its own, if no style set has the class. -/
theorem Component.countP_rules (hkey : ':' ∉ key.toList) {c : Component}
    (hsets : ∀ s ∈ Dict.values c.styleSets, s.cssClass ≠ key) :
    c.stylesheet.rules.countP (·.selector = "." ++ key) = c.elements.countP (·.IsStyled key) := by
  have hnone : ((Dict.values c.styleSets).flatMap (·.rules)).countP (·.IsPlain key) = 0 := by
    rw [List.countP_eq_zero]
    intro r hr
    obtain ⟨s, hs, hr⟩ := List.mem_flatMap.1 hr
    exact List.countP_eq_zero.1 (s.countP_rules hkey (hsets s hs)) r hr
  rw [stylesheet, Stylesheet.countP_rules, rules, List.countP_append, hnone, Nat.add_zero]
  exact countP_flatMap_ite fun e _ => e.countP_rules hkey

end Rules

/-! ## Components that are styled -/

section Styled

variable (env : Environment)

/-- An instance that a call expands, when its tree is about to be generated. -/
def Call.entered? : Call → Option Entry
  | ⟨fuel + 2, at', .element e, c⟩ => if e.isInstance then enter? env fuel at' e c else none
  | _ => none

/-- The component that the style stage runs for when a call closes. -/
def Call.styled? : Call → Option Component
  | ⟨fuel + 2, at', .element e, c⟩ =>
    if e.isInstance then
      (enter? env fuel at' e c).map fun entry =>
        entry.styled (generateElement env fuel entry.inside
          (wrapperElement entry.key (entry.component.node.withChildren e.children))
          entry.context).1.1
    else none
  | _ => none

/-- The text of the sheet of a component, unless it is empty. -/
def Component.css (c : Component) : List ChunkContent :=
  if c.stylesheet.print.isEmpty then [] else [.text c.stylesheet.print]

/-- The texts of the style sheets among the chunks of a context. -/
def Context.css (c : Context) : List ChunkContent :=
  (c.chunks.filter (·.fileType = cssFile)).map (·.content)

variable {env} {call : Call} {c c' : Context}

theorem Component.css_sheets (component : Component) (name : String) :
    ((component.sheets name).filter (·.fileType = cssFile)).map (·.content) = component.css := by
  rw [sheets, css]
  split <;> rfl

theorem Context.css_append {own : List Chunk} (h : c'.chunks = c.chunks ++ own) :
    c'.css = c.css ++ (own.filter (·.fileType = cssFile)).map (·.content) := by
  rw [css, css, h, List.filter_append, List.map_append]

theorem Call.styled?_eq_none (h : call.expanded? env = none) : call.styled? env = none := by
  rcases call with ⟨_ | _ | fuel, at', node | r | e, c⟩ <;> try rfl
  rw [styled?]
  rw [expanded?] at h
  split
  · rename_i he
    rw [if_pos he] at h
    rw [enter?, h]
    rfl
  · rfl

theorem Closes.css (hplain : env.Plain) (h : Closes env call c c') :
    ∃ own, c'.chunks = c.chunks ++ own ∧ (own.filter (·.fileType = cssFile)).map (·.content)
      = (call.styled? env).toList.flatMap Component.css := by
  cases h with
  | quiet kind quiet =>
    exact ⟨[], by rw [quiet.same, List.append_nil], by rw [Call.styled?_eq_none kind]; rfl⟩
  | @stages fuel at' e wrapper entry id context _ styled _ isInstance entered generated run quiet =>
    obtain ⟨-, hchunks, -⟩ := runInstanceStages_plain hplain (entry.styled wrapper) id c
    rw [run] at hchunks
    refine ⟨_, quiet.same.trans hchunks, ?_⟩
    rw [Component.css_sheets, Call.styled?, if_pos isInstance, entered, Option.map_some, generated]
    exact (List.flatMap_singleton _ _).symm

/-- **The style sheets that a run adds** are those of the components that are styled on the way. -/
theorem Call.Ends.css (hplain : env.Plain) (h : call.Ends env c') :
    c'.css = call.context.css
      ++ ((call.finished env).filterMap (Call.styled? env)).flatMap Component.css := by
  obtain ⟨rows, hchunks, hrows⟩ := h.adds fun hcloses => hcloses.css hplain
  rw [Context.css_append hchunks]
  refine congrArg (call.context.css ++ ·) ?_
  clear hchunks
  generalize call.finished env = calls at hrows
  induction hrows with
  | nil => rfl
  | @cons call row calls rows hrow _ ih =>
    rw [List.flatten_cons, List.filter_append, List.map_append, ih, hrow, List.filterMap_cons]
    cases call.styled? env <;> simp

end Styled

/-! ## Pages -/

/-- The components that the style stage runs for in the generation of a page, one after the other:
those of the instances, in the order in which their expansions end, and then the page. -/
def PageGenerator.visited (p : PageGenerator) (page : Component) (o : Options) : List Component :=
  let env := p.environment page o
  let root := p.pageCall page o
  (root.finished env).filterMap (Call.styled? env)
    ++ [{ page with node := (generateNode env root.fuel root.place page.node root.context).1.1 }]

theorem Context.css_modifyChunk (c : Context) (name : String) (f : Chunk → Chunk)
    (htype : ∀ chunk, (f chunk).fileType = chunk.fileType)
    (hcontent : ∀ chunk, (f chunk).content = chunk.content) : (c.modifyChunk name f).css = c.css := by
  rcases c.modifyChunk_cases name f with hsame | ⟨before, chunk, behind, hchunks, -, hmodified⟩
  · rw [hsame]
  · rw [hmodified, css, css, hchunks, List.filter_append, List.filter_append, List.map_append,
      List.map_append, List.filter_cons, List.filter_cons, htype]
    split
    · rw [List.map_cons, List.map_cons, hcontent]
    · rfl

/-- The stage of the head leaves the style sheets alone. -/
theorem headStage_css (c : Compilation) : (headStage.run c).2.context.css = c.context.css := by
  rw [headStage]
  dsimp only
  split
  · rfl
  refine (Context.css_modifyChunk _ templateChunkName
    (fun chunk => { chunk with after := chunk.after ++ [headChunkName] })
    (fun _ => rfl) fun _ => rfl).trans ?_
  have hne : htmlFile ≠ cssFile := by decide
  exact (Context.css_append rfl).trans (by simp [Context.css, hne])

/-- **The style sheets of a page** are those of the components that the style stage runs for. -/
theorem css_of_pageStages {p : PageGenerator} {page : Component} {o : Options} {done : Compilation}
    (h : runStages (p.template :: PageGenerator.standard.generator.stages)
      { component := page, options := o } = (.ok (), done)) :
    done.context.css = (p.visited page o).flatMap Component.css := by
  obtain ⟨generated, htemplate, h⟩ := exists_of_runStages h
  obtain ⟨node, piece, c, hrun, rfl⟩ := exists_of_templateStage htemplate
  have hends : (p.pageCall page o).Ends (p.environment page o) c :=
    Call.ends_node.2 ⟨node, piece, hrun⟩
  have hcss := hends.css (p.environment_plain page o)
  obtain ⟨sheets, hsheets, hall⟩ := hends.sheets (p.environment_plain page o)
  have hkind : ∀ chunk ∈ c.chunks, chunk.kind = .text := by
    intro chunk hchunk
    rw [hsheets] at hchunk
    obtain ⟨component, -, hsheet⟩ := exists_of_forall₂_right hall hchunk
    exact hsheet.kind
  obtain ⟨between, hbetween, h⟩ := exists_of_runStages h
  have hfound : Compilation.findChunk ⟨{ page with node }, o, c.push (templateChunk piece c.lookup)⟩
    templateChunkName .markup = _ := findChunk_template piece c.lookup hkind
  have hstyle := stylesheetStage_run (some pageStyleChunkName) hfound
  have hbetween := (Prod.mk.inj (hbetween.symm.trans hstyle)).2
  obtain ⟨finished, hfinished, h⟩ := exists_of_runStages h
  cases h
  have hhead := headStage_css between
  rw [hfinished] at hhead
  have hpage : between.context.css
      = (c.push (templateChunk piece c.lookup)).css ++ Component.css { page with node } := by
    rw [hbetween, ← Component.css_sheets _ pageStyleChunkName]
    exact Context.css_append rfl
  have htemplate : (c.push (templateChunk piece c.lookup)).css = c.css := by
    have hne : htmlFile ≠ cssFile := by decide
    exact (Context.css_append rfl).trans (by simp [templateChunk, hne])
  rw [hhead, hpage, htemplate, hcss, PageGenerator.visited, hrun, List.flatMap_append,
    List.flatMap_singleton]
  rfl

end PageCompiler
