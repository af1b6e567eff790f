import PageCompiler.Proofs.Page.Settled

/-!
# Expansions and their sheets

With the style stage as the only one, each instance that is expanded leaves one sheet, named after
its component. The sheets stand in the order in which the expansions end: those inside an instance
come before its own.

* `Call.finished`: all calls of a run, in the order in which they end (`mem_finished`).
* `Call.Ends.adds`, `Call.Ends.sheets`: the chunks that a run adds.
* `generateNode_context`: the context of a run.
-/

namespace PageCompiler

/-! ## The calls of a run -/

section Finished

variable (env : Environment)

/-- The calls of a run in the order in which they end, down to some depth. -/
def Call.finishedTo : (depth : Nat) → Call → List Call
  | 0, _ => []
  | depth + 1, call => (call.made env).flatMap (Call.finishedTo depth) ++ [call]

/-- The calls of a run in the order in which they end. -/
def Call.finished (call : Call) : List Call := call.finishedTo env (call.fuel + 1)

variable {env} {call inner : Call}

theorem Call.finishedTo_eq : ∀ (depth : ℕ) (call : Call), call.fuel < depth →
    call.finishedTo env depth = call.finished env := by
  intro depth
  induction depth using Nat.strong_induction_on with
  | h depth ih =>
    intro call hlt
    obtain ⟨depth, rfl⟩ := Nat.exists_eq_add_of_lt hlt
    rw [finished, finishedTo, finishedTo]
    refine congrArg (· ++ [call]) (List.flatMap_congr fun inner hinner => ?_)
    have hfuel := (mem_made.1 hinner).fuel_lt
    rw [ih _ (by omega) inner (by omega), ih call.fuel (by omega) inner hfuel]

/-- The calls of a run: first those of the calls that are made, one after the other, then the call
itself. -/
theorem Call.finished_eq (call : Call) :
    call.finished env = (call.made env).flatMap (·.finished env) ++ [call] := by
  rw [finished, finishedTo]
  refine congrArg (· ++ [call]) (List.flatMap_congr fun inner hinner => ?_)
  exact finishedTo_eq _ _ (mem_made.1 hinner).fuel_lt

/-- **The calls of a run** are those that it leads to. -/
theorem mem_finished : inner ∈ call.finished env ↔ Leads env call inner := by
  induction hfuel : call.fuel using Nat.strong_induction_on generalizing call with
  | h fuel ih =>
    rw [Call.finished_eq, List.mem_append, List.mem_flatMap, List.mem_singleton]
    constructor
    · rintro (⟨next, hnext, hinner⟩ | rfl)
      · have hmakes := mem_made.1 hnext
        exact .head hmakes ((ih next.fuel (hfuel ▸ hmakes.fuel_lt) rfl).1 hinner)
      · exact .refl
    · intro h
      rcases Relation.ReflTransGen.cases_head h with rfl | ⟨next, hmakes, hleads⟩
      · exact Or.inr rfl
      · exact Or.inl ⟨next, mem_made.2 hmakes,
          (ih next.fuel (hfuel ▸ hmakes.fuel_lt) rfl).2 hleads⟩

end Finished

/-! ## Sheets -/

/-- A chunk that is a sheet, named after a component, and waits for no other. -/
structure IsSheetOf (component : Component) (chunk : Chunk) : Prop where
  name : chunk.name = component.name
  kind : chunk.kind = .text
  fileType : chunk.fileType = cssFile
  after : chunk.after = []

/-- The components that are expanded by some calls. -/
def expansions (env : Environment) (calls : List Call) : List Component :=
  calls.filterMap (Call.expanded? env)

section Sheets

variable {env : Environment} {c c' there : Context} {call : Call} {calls : List Call}

/-- A tag with a style that is no reference has declarations in its trace. -/
theorem TagRun.baseDeclarations_ne_nil {fuel : Nat} {at' : Surroundings} {e e' : Element} {id : Nat}
    (h : TagRun env fuel at' e c e' id c') {name : String} {content : Literal}
    (hentry : (name, .constant content) ∈ e.style) : e'.baseDeclarations ≠ [] := by
  obtain ⟨value, hvalue, hmem⟩ := h.style hentry
  cases hvalue
  refine List.ne_nil_of_mem (a := (dashCase name, content.toJson.text)) (List.mem_append_left _ ?_)
  exact List.mem_filterMap.2 ⟨_, hmem, rfl⟩

/-- The stages of an instance add one chunk, which is a sheet named after its component. -/
theorem Closes.sheets (hplain : env.Plain) (h : Closes env call c c') :
    ∃ sheets, c'.chunks = c.chunks ++ sheets ∧
      List.Forall₂ IsSheetOf (call.expanded? env).toList sheets := by
  cases h with
  | quiet kind quiet =>
    refine ⟨[], by rw [quiet.same, List.append_nil], ?_⟩
    rw [kind]
    exact .nil
  | @stages fuel at' e wrapper entry id context _ styled _ isInstance entered generated run quiet =>
    obtain ⟨external, hexternal, hcomponent, -, -, -, -⟩ := enter?_eq_some entered
    have hexpanded : (Call.mk (fuel + 2) at' (.element e) context).expanded? env = some external :=
      (if_pos isInstance).trans hexternal
    obtain ⟨fuel, rfl⟩ := generateElement_ok generated
    have hwrapper := TagRun.of_run rfl generated
    have helements : wrapper ∈ (entry.styled wrapper).elements :=
      List.mem_append_left _ wrapper.mem_elements
    have hempty := Component.print_stylesheet_ne_empty helements
      (hwrapper.baseDeclarations_ne_nil List.mem_cons_self)
    obtain ⟨-, hchunks, -⟩ := runInstanceStages_plain hplain (entry.styled wrapper) id c
    rw [run, Component.sheets, if_neg (by simp [hempty])] at hchunks
    refine ⟨_, quiet.same.trans hchunks, ?_⟩
    rw [hexpanded]
    refine .cons ⟨?_, rfl, rfl, rfl⟩ .nil
    change entry.component.name = external.name
    rw [hcomponent]
    rfl

/-- The chunks that a row of calls adds, if it is known what each call adds when it closes. -/
theorem Threads.adds {P : Call → List Chunk → Prop}
    (ih : ∀ call ∈ calls, ∀ c', call.Ends env c' → ∃ rows,
      c'.chunks = call.context.chunks ++ rows.flatten ∧ List.Forall₂ P (call.finished env) rows)
    (h : Threads env c calls c') : ∃ rows, c'.chunks = c.chunks ++ rows.flatten ∧
      List.Forall₂ P (calls.flatMap (·.finished env)) rows := by
  induction h with
  | nil quiet => exact ⟨[], by rw [quiet.same, List.flatten_nil, List.append_nil], .nil⟩
  | @cons call rest c there c' quiet ends _ ih' =>
    obtain ⟨first, hfirst, hown⟩ := ih call List.mem_cons_self there ends
    obtain ⟨others, hothers, hrest⟩ := ih' fun call hcall => ih call (List.mem_cons_of_mem _ hcall)
    refine ⟨first ++ others, ?_, ?_⟩
    · rw [hothers, hfirst, quiet.same, List.append_assoc, List.flatten_append]
    · rw [List.flatMap_cons]
      exact List.rel_append hown hrest

/-- **The chunks that a run adds** are what its calls add when they close, in the order in which they
end. -/
theorem Call.Ends.adds {P : Call → List Chunk → Prop}
    (hcloses : ∀ {call : Call} {c c' : Context}, Closes env call c c' →
      ∃ own, c'.chunks = c.chunks ++ own ∧ P call own)
    (h : call.Ends env c') : ∃ rows, c'.chunks = call.context.chunks ++ rows.flatten ∧
      List.Forall₂ P (call.finished env) rows := by
  induction hfuel : call.fuel using Nat.strong_induction_on generalizing call c' with
  | h fuel ih =>
    obtain ⟨there, hthreads, hends⟩ := h.threads
    obtain ⟨inside, hinside, hrows⟩ := hthreads.adds fun inner hinner _ hends =>
      ih inner.fuel (hfuel ▸ (mem_made.1 hinner).fuel_lt) hends rfl
    obtain ⟨own, hown, hrow⟩ := hcloses hends
    refine ⟨inside ++ [own], ?_, ?_⟩
    · rw [hown, hinside, List.append_assoc, List.flatten_append, List.flatten_singleton]
    · rw [call.finished_eq]
      exact List.rel_append hrows (.cons hrow .nil)

theorem expansions_cons (env : Environment) (call : Call) (rest : List Call) :
    expansions env (call :: rest) = (call.expanded? env).toList ++ expansions env rest := by
  rw [expansions, List.filterMap_cons]
  cases call.expanded? env <;> rfl

/-- **The sheets of a run** are those of its expansions, in the order in which these end. -/
theorem Call.Ends.sheets (hplain : env.Plain) (h : call.Ends env c') : ∃ sheets,
    c'.chunks = call.context.chunks ++ sheets ∧
      List.Forall₂ IsSheetOf (expansions env (call.finished env)) sheets := by
  obtain ⟨rows, hchunks, hrows⟩ := h.adds fun hcloses => hcloses.sheets hplain
  refine ⟨rows.flatten, hchunks, ?_⟩
  generalize call.finished env = calls at hrows
  clear hchunks
  induction hrows with
  | nil => exact .nil
  | cons hrow _ ih =>
    rw [expansions_cons, List.flatten_cons]
    exact List.rel_append hrow ih

end Sheets

/-- **The context of a run.** Whatever a node is generated to, the context only gets more: each key
stays with its element, the chunks so far come first, and neither a dependency nor a reserved key is
lost. A run that succeeds with the style stage alone adds one sheet for each instance that is
expanded on the way, named after its component, in the order in which the expansions end. -/
theorem generateNode_context (env : Environment) (fuel : Nat) (at' : Surroundings) (node : Node)
    (c : Context) :
    c.Extends (generateNode env fuel at' node c).2 ∧
      (env.Plain → ∀ piece, (generateNode env fuel at' node c).1.2 = .ok piece →
        ∃ sheets, (generateNode env fuel at' node c).2.chunks = c.chunks ++ sheets ∧
          List.Forall₂ IsSheetOf
            (expansions env ((Call.mk fuel at' (.node node) c).finished env)) sheets) := by
  refine ⟨(generate_extends env fuel).node at' node c, fun hplain piece hok => ?_⟩
  have hends : (Call.mk fuel at' (.node node) c).Ends env (generateNode env fuel at' node c).2 :=
    Call.ends_node.2 ⟨_, piece, Prod.ext (Prod.ext rfl hok) rfl⟩
  exact hends.sheets hplain

/-- A component that is an empty element. -/
def emptyComponent (name : String) : Component :=
  .ofNode name (.element { elementType := "span", key := name })

/-- Three components, and one that shows an element of its own and what stands in its slot. -/
def panelExternals : Dict Component := [
  ("Badge", emptyComponent "Badge"), ("Icon", emptyComponent "Icon"),
  ("Mark", emptyComponent "Mark"),
  ("Panel", {
    name := "Panel"
    node := .element {
      elementType := "div", key := "panel"
      children := [.dynamic { scope := .prop, id := "note" }, .slot {}] }
    props := [
      ("icon", { kind := "element" }),
      ("note", {
        kind := "element"
        default := some (.node (.element (.ofComponent "Mark" "own-mark"))) })] })]

/-- An environment with the style stage alone. -/
def iconPanelEnvironment : Environment where
  externals := panelExternals
  styleStage := stylesheetStage templateChunkName none
  stages := []
  options := {}
  folder := []

/-- An instance with an instance among its attributes and another one among its children. -/
def panelNode : Node := .element { Element.ofComponent "Panel" "box" with
  attrs := [("icon", .element (.ofComponent "Icon" "given-icon"))]
  children := [.element (.ofComponent "Badge" "inner-badge")] }

theorem panelNode_sheets : iconPanelEnvironment.Plain ∧
    let after := (generateNode iconPanelEnvironment 20 default panelNode {}).2
    Context.Extends {} after ∧ after.chunks.map (·.name) = ["Icon", "Mark", "Badge", "Panel"] := by
  have hplain : iconPanelEnvironment.Plain := ⟨rfl, rfl⟩
  obtain ⟨hextends, hsheets⟩ := generateNode_context iconPanelEnvironment 20 default panelNode {}
  obtain ⟨piece, hpiece⟩ := exists_of_isOk
    (by decide +kernel : (generateNode iconPanelEnvironment 20 default panelNode {}).1.2.isOk = true)
  obtain ⟨sheets, hchunks, hall⟩ := hsheets hplain piece hpiece
  have hnames : (expansions iconPanelEnvironment
      ((Call.mk 20 default (.node panelNode) {}).finished iconPanelEnvironment)).map (·.name)
        = ["Icon", "Mark", "Badge", "Panel"] := by decide +kernel
  refine ⟨hplain, hextends, ?_⟩
  rw [hchunks, List.map_append, List.map_nil, List.nil_append, ← hnames, ← List.forall₂_eq_eq_eq,
    List.forall₂_map_left_iff, List.forall₂_map_right_iff]
  exact hall.flip.imp fun _ _ h => h.name

end PageCompiler
