import PageCompiler.Page.Stylesheet
import PageCompiler.Proofs.Page.Threads

/-!
# The style stage

What the style stage does with a component: its sheet holds the rules of all its elements, and the
elements that are found get their classes.

* `Component.rule_infix`: the rules of the elements stand in the sheet.
* `addStyleClasses_gives`: an element that is found gets its classes.
* `Environment.Plain`, `runInstanceStages_plain`: the stages of an instance when the style stage is
  the only one.
-/

namespace PageCompiler

/-! ## Rules on a sheet -/

/-- The rule for the styles of an element itself. -/
def Element.baseRule (e : Element) : Rule := ⟨"." ++ e.key, e.baseDeclarations⟩

section Sheet

variable {c : Component} {e : Element}

theorem Element.baseRule_mem (h : e.baseDeclarations ≠ []) : ⟨none, e.baseRule⟩ ∈ e.rules := by
  have hempty : ¬ e.baseDeclarations.isEmpty := by simpa using h
  rw [Element.rules, if_neg hempty]
  exact List.mem_append_left _ List.mem_cons_self

theorem Element.key_mem_cssClasses (h : e.baseDeclarations ≠ []) (sets : Dict StyleSet) :
    e.key ∈ e.cssClasses sets := by
  have hrules : ¬ e.rules.isEmpty := by
    simpa using List.ne_nil_of_mem (e.baseRule_mem h)
  rw [Element.cssClasses, if_neg hrules]
  exact List.mem_append_left _ List.mem_cons_self

/-- The rules of an element that are for all screens stand in the sheet of a component that has it.
-/
theorem Component.rule_infix (he : e ∈ c.elements) {r : Rule} (hr : ⟨none, r⟩ ∈ e.rules) :
    (r.print "").toList <:+: c.stylesheet.print.toList := by
  have hrules : (⟨none, r⟩ : ScopedRule) ∈ c.rules :=
    List.mem_append_left _ (List.mem_flatMap.2 ⟨e, he, hr⟩)
  refine infix_intercalate _ (List.mem_append_left _ (List.mem_map_of_mem ?_))
  exact List.mem_filterMap.2 ⟨_, hrules, rfl⟩

theorem Rule.print_ne_empty (r : Rule) (indent : String) : (r.print indent).toList ≠ [] := by
  rw [Rule.print, String.toList_append]
  simp

/-- The sheet of a component is not empty when one of its elements has styles of its own. -/
theorem Component.print_stylesheet_ne_empty (he : e ∈ c.elements) (h : e.baseDeclarations ≠ []) :
    c.stylesheet.print.isEmpty = false := by
  rw [Bool.eq_false_iff]
  intro hempty
  have hinfix := Component.rule_infix he (e.baseRule_mem h)
  rw [String.isEmpty_iff.1 hempty, String.toList_empty] at hinfix
  exact Rule.print_ne_empty _ _ (List.infix_nil.1 hinfix)

end Sheet

/-! ## Classes of elements -/

section Classes

variable (sets : Dict StyleSet) (lookup : Lookup)

theorem Context.addClass_eq (c : Context) (key name : String) :
    c.addClass lookup key name = { c with canvas := (c.addClass lookup key name).canvas } := by
  rw [Context.addClass]
  split <;> rfl

theorem Context.addClass_grows (c : Context) (key name : String) :
    c.canvas.Grows (c.addClass lookup key name).canvas := by
  rw [Context.addClass]
  split
  · exact .addClass _ _ _
  · exact .refl _

/-- Give an element some classes. -/
def Context.addClasses (c : Context) (key : String) (names : List String) : Context :=
  names.foldl (fun c name => c.addClass lookup key name) c

theorem Context.addClasses_eq (names : List String) (c : Context) (key : String) :
    c.addClasses lookup key names = { c with canvas := (c.addClasses lookup key names).canvas } := by
  induction names generalizing c with
  | nil => rfl
  | cons name rest ih =>
    change (c.addClass lookup key name).addClasses lookup key rest
      = { c with canvas := ((c.addClass lookup key name).addClasses lookup key rest).canvas }
    rw [ih, c.addClass_eq lookup key name]

theorem Context.addClasses_grows (names : List String) (c : Context) (key : String) :
    c.canvas.Grows (c.addClasses lookup key names).canvas := by
  induction names generalizing c with
  | nil => exact .refl _
  | cons name rest ih => exact (c.addClass_grows lookup key name).trans (ih _)

theorem addStyleClasses_cons (e : Element) (rest : List Element) (c : Context) :
    addStyleClasses sets lookup (e :: rest) c
      = addStyleClasses sets lookup rest (c.addClasses lookup e.key (e.cssClasses sets)) := rfl

/-- Giving classes changes the markup only. -/
theorem addStyleClasses_eq (elements : List Element) (c : Context) :
    addStyleClasses sets lookup elements c
      = { c with canvas := (addStyleClasses sets lookup elements c).canvas } := by
  induction elements generalizing c with
  | nil => rfl
  | cons e rest ih =>
    rw [addStyleClasses_cons, ih, c.addClasses_eq lookup]

theorem addStyleClasses_grows (elements : List Element) (c : Context) :
    c.canvas.Grows (addStyleClasses sets lookup elements c).canvas := by
  induction elements generalizing c with
  | nil => exact .refl _
  | cons e rest ih => exact (c.addClasses_grows lookup _ e.key).trans (ih _)

variable {sets lookup}

/-- An element that is given a class between two steps that grow the canvas has it in the end. -/
theorem Context.addClass_gives {c c' : Context} {after : Canvas} {key name : String} {id : Nat}
    {t : Tag} (hid : Dict.get? lookup key = some id) (hne : name ≠ "")
    (hbefore : c.canvas.Grows c'.canvas)
    (hafter : (c'.addClass lookup key name).canvas.Grows after) (ht : c.canvas.tags[id]? = some t) :
    ∃ t', after.tags[id]? = some t' ∧ t'.name = t.name ∧ t'.HasClass name := by
  obtain ⟨t₁, ht₁, hbefore⟩ := hbefore id t ht
  obtain ⟨t₂, ht₂, hname₂, hclass⟩ := Canvas.hasClass_addClass ht₁ hne
  rw [Context.addClass, hid] at hafter
  obtain ⟨t₃, ht₃, hafter⟩ := hafter id t₂ ht₂
  exact ⟨t₃, ht₃, hafter.name.trans (hname₂.trans hbefore.name), hafter.classes name hclass⟩

/-- **An element that is found gets its classes.** -/
theorem addStyleClasses_gives {elements : List Element} {e : Element} (he : e ∈ elements)
    {name : String} (hname : name ∈ e.cssClasses sets) (hne : name ≠ "") {c : Context} {id : Nat}
    {t : Tag} (hid : Dict.get? lookup e.key = some id) (ht : c.canvas.tags[id]? = some t) :
    ∃ t', (addStyleClasses sets lookup elements c).canvas.tags[id]? = some t' ∧
      t'.name = t.name ∧ t'.HasClass name := by
  obtain ⟨first, rest, rfl⟩ := List.append_of_mem he
  obtain ⟨earlier, later, hclasses⟩ := List.append_of_mem hname
  have hsplit : addStyleClasses sets lookup (first ++ e :: rest) c
      = addStyleClasses sets lookup rest ((((addStyleClasses sets lookup first c).addClasses lookup
          e.key earlier).addClass lookup e.key name).addClasses lookup e.key later) := by
    rw [addStyleClasses, List.foldl_append, List.foldl_cons, hclasses, List.foldl_append,
      List.foldl_cons]
    rfl
  rw [hsplit]
  exact Context.addClass_gives hid hne
    ((addStyleClasses_grows sets lookup first c).trans
      (Context.addClasses_grows lookup earlier _ e.key))
    ((Context.addClasses_grows lookup later _ e.key).trans
      (addStyleClasses_grows sets lookup rest _)) ht

end Classes

/-! ## The stage -/

/-- The sheet of a component as a chunk of a name. -/
def Component.sheet (c : Component) (name : String) : Chunk where
  name := name
  kind := .text
  fileType := cssFile
  content := .text c.stylesheet.print

/-- The chunks that the style stage adds for a component: its sheet, unless it is empty. -/
def Component.sheets (c : Component) (name : String) : List Chunk :=
  if c.stylesheet.print.isEmpty then [] else [c.sheet name]

/-- **The style stage** adds the sheet of the component and gives classes to the elements in the table
of the markup. -/
theorem stylesheetStage_run {template : String} (chunkName : Option String) {c : Compilation}
    {chunk : Chunk} (h : c.findChunk template .markup = some chunk) :
    (stylesheetStage template chunkName).run c = (.ok (), { c with
      context := { c.context with
        chunks := c.context.chunks ++ c.component.sheets (chunkName.getD c.component.name)
        canvas := (addStyleClasses c.component.styleSets (chunk.lookup.getD [])
          c.component.elements c.context).canvas } }) := by
  rw [stylesheetStage]
  dsimp only
  rw [h]
  dsimp only
  rw [addStyleClasses_eq, Component.sheets]
  split
  · rw [List.append_nil]
  · rfl

/-- The style stage is the only one that runs for an instance, and looks for the markup of it. -/
structure Environment.Plain (env : Environment) : Prop where
  style : env.styleStage = stylesheetStage templateChunkName none
  stages : env.stages = []

/-- The stages of an instance add the sheet of its component and give classes. -/
theorem runInstanceStages_plain {env : Environment} (h : env.Plain) (component : Component)
    (id : Nat) (c : Context) :
    (runInstanceStages env component id c).1 = .ok () ∧
      (runInstanceStages env component id c).2.chunks
        = c.chunks ++ component.sheets component.name ∧
      (runInstanceStages env component id c).2.canvas
        = (addStyleClasses component.styleSets c.lookup component.elements
            (c.forInstance id)).canvas := by
  have hsheets : ∀ chunk ∈ component.sheets component.name, chunk.fileType = cssFile := by
    rw [Component.sheets]
    split
    · exact fun _ h => by cases h
    · exact List.forall_mem_singleton.2 rfl
  have hfind : (Compilation.mk component env.options (c.forInstance id)).findChunk templateChunkName
      .markup = some ⟨templateChunkName, .markup, htmlFile, .markup (.element id), [], c.lookup⟩ :=
    rfl
  have hrun := stylesheetStage_run none hfind
  rw [runInstanceStages_run, h.style, h.stages, runStages, hrun]
  refine ⟨rfl, congrArg (c.chunks ++ ·) ?_, rfl⟩
  change (_ :: component.sheets component.name).filter _ = _
  have hne : htmlFile ≠ cssFile := by decide
  rw [List.filter_cons_of_neg (by simpa using hne), List.filter_eq_self.2 (by simpa using hsheets)]

end PageCompiler
