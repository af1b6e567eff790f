import PageCompiler.Proofs.Page.Reuse
import PageCompiler.Proofs.Page.Settled

/-!
# Down a run that succeeds

What passes from a call that succeeds to the calls that it makes: they succeed as well, and the
context has all that they leave behind. What a node or a tag leaves of itself holds what its parts
leave of themselves, while what a reference shows is not part of anything. An element among the
attributes of an instance becomes the default of a prop.

* `Call.Ends.grows`: a run only adds to the context.
* `Makes.ends`: the calls of a run that succeeds succeed.
* `Makes.trace_subset`: the traces of parts are part of the trace.
* `PropsReach.default`: what becomes of an element among the attributes.
-/

namespace PageCompiler

variable {env : Environment} {call inner : Call} {calls : List Call} {c c' there : Context}

/-! ## Growth -/

/-- What is left of a call adds to the context. -/
theorem Closes.grows (hplain : env.Plain) (h : Closes env call c c') : c.Grows c' := by
  cases h with
  | quiet _ quiet => exact quiet.toGrows
  | @stages fuel at' e wrapper entry id context _ styled _ _ _ _ run quiet =>
    have hextends := runInstanceStages_extends env (entry.styled wrapper) id c
    obtain ⟨-, -, hcanvas⟩ := runInstanceStages_plain hplain (entry.styled wrapper) id c
    rw [run] at hextends hcanvas
    have hgrows := addStyleClasses_grows (entry.styled wrapper).styleSets c.lookup
      (entry.styled wrapper).elements (c.forInstance id)
    exact .trans ⟨hextends, hcanvas ▸ hgrows⟩ quiet.toGrows

theorem Threads.grows (ih : ∀ call ∈ calls, ∀ c', call.Ends env c' → call.context.Grows c')
    (h : Threads env c calls c') : c.Grows c' := by
  induction h with
  | nil quiet => exact quiet.toGrows
  | cons quiet ends _ ih' =>
    exact (quiet.toGrows.trans (ih _ List.mem_cons_self _ ends)).trans
      (ih' fun call hcall => ih call (List.mem_cons_of_mem _ hcall))

/-- **A run that succeeds** only adds to the context. -/
theorem Call.Ends.grows (hplain : env.Plain) (h : call.Ends env c') : call.context.Grows c' := by
  induction hfuel : call.fuel using Nat.strong_induction_on generalizing call c' with
  | h fuel ih =>
    obtain ⟨there, hthreads, hcloses⟩ := h.threads
    refine (hthreads.grows fun inner hinner _ hends => ?_).trans (hcloses.grows hplain)
    exact ih inner.fuel (hfuel ▸ (mem_made.1 hinner).fuel_lt) hends rfl

/-- A call of a row succeeds, and the row ends with all that it has added. -/
theorem Threads.ends_of_mem (hplain : env.Plain) (h : Threads env c calls c')
    (hcall : call ∈ calls) : ∃ there, call.Ends env there ∧ there.Grows c' := by
  induction h with
  | nil => cases hcall
  | cons _ ends threads ih =>
    rcases List.mem_cons.1 hcall with rfl | hcall
    · exact ⟨_, ends, threads.grows fun _ _ _ hends => hends.grows hplain⟩
    · exact ih hcall

/-- **The calls of a run that succeeds succeed.** What is left when they have ended starts with all
that they have added. -/
theorem Makes.ends (hplain : env.Plain) (h : Makes env call inner) (hends : call.Ends env c') :
    ∃ before there, inner.Ends env before ∧ before.Grows there ∧ Closes env call there c' := by
  obtain ⟨there, hthreads, hcloses⟩ := hends.threads
  obtain ⟨before, hinner, hgrows⟩ := hthreads.ends_of_mem hplain (mem_made.2 h)
  exact ⟨before, there, hinner, hgrows, hcloses⟩

/-! ## Traces -/

/-- The elements of what is generated. -/
def Task.elements : Task → List Element
  | .node part => part.elements
  | .reference _ => []
  | .element e => e.elements

/-- The elements of what a call leaves of itself. -/
def Call.trace (env : Environment) : Call → List Element
  | ⟨fuel, at', .node node, c⟩ => (generateNode env fuel at' node c).1.1.elements
  | ⟨_, _, .reference _, _⟩ => []
  | ⟨fuel, at', .element e, c⟩ => (generateElement env fuel at' e c).1.1.elements

/-- What is generated from its parts, where it stands: a node, or a tag. -/
def Task.IsWhole : Task → Prop
  | .node _ => True
  | .reference _ => False
  | .element e => e.isInstance = false

section Parts

variable {fuel : Nat} {at' : Surroundings}

theorem Makes.place_eq (h : Makes env call inner) (hwhole : call.task.IsWhole) :
    inner.place = call.place := by
  cases h with
  | content | reference | body _ | default _ _ _ _ | child _ _ => rfl
  | given isInstance _ _ _ | wrapper isInstance _ => cases isInstance.symm.trans hwhole

/-- The parts of a whole have elements of it. -/
theorem Makes.elements_subset (h : Makes env call inner) (hwhole : call.task.IsWhole) :
    inner.task.elements ⊆ call.task.elements := by
  cases h with
  | content => exact List.Subset.refl _
  | reference => exact List.nil_subset _
  | @body fuel at' q c shown =>
    cases q
    exact List.Subset.refl _
  | default _ _ _ _ => cases hwhole
  | @child fuel at' e child c there tag reaches =>
    exact List.Subset.trans (elements_subset_of_mem reaches.mem) e.children_subset
  | given isInstance _ _ _ | wrapper isInstance _ => cases isInstance.symm.trans hwhole

/-- A part that the generation of a list comes to leaves its trace there. -/
theorem EachReaches.trace {generate : Node → StateM Context (Generated Node Piece)} {child : Node}
    {nodes nodes' : List Node} {pieces : List Piece}
    (h : EachReaches generate child there nodes c)
    (hrun : generateEach generate nodes c = ((nodes', .ok pieces), c')) :
    (generate child there).1.1 ∈ nodes' := by
  induction h generalizing nodes' pieces with
  | here =>
    obtain ⟨child', piece, after, rest', pieces', hchild, rfl, -⟩ := generateEach_ok_cons hrun
    rw [hchild]
    exact List.mem_cons_self
  | later run _ ih =>
    obtain ⟨first', piece, after, rest', pieces', hfirst, rfl, -, hrest⟩ := generateEach_ok_cons hrun
    cases run.symm.trans hfirst
    exact List.mem_cons_of_mem _ (ih hrest)

/-- **The traces of the parts** of a whole are part of its trace. -/
theorem Makes.trace_subset (h : Makes env call inner) (hwhole : call.task.IsWhole)
    (hends : call.Ends env c') : inner.trace env ⊆ call.trace env := by
  cases h with
  | content =>
    rw [Call.trace, Call.trace, generateNode_element]
    exact List.Subset.refl _
  | reference => exact List.nil_subset _
  | body shown =>
    rw [Call.trace, Call.trace, generateNode_conditional, if_pos shown]
    exact List.Subset.refl _
  | default _ _ _ _ => cases hwhole
  | @child fuel at' e child c there tag reaches =>
    obtain ⟨e', id, hrun⟩ := Call.ends_element.1 hends
    obtain ⟨pieces, c₁, attrs, hchildren, -⟩ := (TagRun.of_run tag hrun).children
    rw [Call.trace, Call.trace, hrun]
    exact List.Subset.trans (elements_subset_of_mem (reaches.trace hchildren)) e'.children_subset
  | given isInstance _ _ _ | wrapper isInstance _ => cases isInstance.symm.trans hwhole

/-- **An element among the attributes** of an instance becomes, as it is afterwards, the default of a
prop. -/
theorem PropsReach.default {generate : Element → StateM Context (Generated Element Nat)}
    {caller : Definitions} {x : Element} {attrs attrs' : Attributes}
    {props out : Dict PropDefinition} (h : PropsReach generate caller x there attrs props c)
    (hrun : generateProps generate caller attrs props c = ((attrs', .ok out), c')) :
    .element (generate x there).1.1 ∈ defaultNodes out := by
  -- the default of a later prop
  have hlater : ∀ {node : Node} {entry : String × PropDefinition} {out : Dict PropDefinition},
      node ∈ defaultNodes out → node ∈ defaultNodes (entry :: out) := fun h => by
    obtain ⟨entry', hentry', hdefault⟩ := mem_defaultNodes.1 h
    exact mem_defaultNodes.2 ⟨entry', List.mem_cons_of_mem _ hentry', hdefault⟩
  induction h generalizing out with
  | here value =>
    obtain ⟨x', id, after, out', hx, rfl, -⟩ := generateProps_ok_element value hrun
    rw [hx]
    exact mem_defaultNodes.2 ⟨_, List.mem_cons_self, rfl⟩
  | none value _ ih =>
    obtain ⟨out', rfl, hrest⟩ := generateProps_ok_none value hrun
    exact hlater (ih hrest)
  | element value run _ ih =>
    obtain ⟨e', id, after, out', he, rfl, hrest⟩ := generateProps_ok_element value hrun
    cases run.symm.trans he
    exact hlater (ih hrest)
  | plain given plain _ _ ih =>
    obtain ⟨definition, out', -, rfl, hrest⟩ := generateProps_ok_plain given plain hrun
    exact hlater (ih hrest)

end Parts

end PageCompiler
