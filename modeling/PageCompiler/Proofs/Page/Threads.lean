import PageCompiler.Proofs.Markup.Classes
import PageCompiler.Proofs.Page.Calls

/-!
# The calls of a run, in their order

A call that succeeds makes other calls, one after the other, and does little by itself: each of them
starts where the one before it ended, but for the steps of the call itself, and all of them succeed.

* `Call.made`: the calls that a call makes, in their order (`mem_made`).
* `Context.Quiet`: what the steps of a call do to the context: no chunk is added.
* `Call.Ends.threads`: a run that succeeds goes through the calls that are made. What is left is
  quiet, but for an instance, whose stages run then (`Closes`).
-/

namespace PageCompiler

/-! ## Calls in their order -/

/-- The parts of a list that the generation comes to, each with its context. -/
def eachCalls {α β : Type} (generate : α → StateM Context (Generated α β)) :
    List α → Context → List (α × Context)
  | [], _ => []
  | part :: rest, c =>
    (part, c) :: match generate part c with
      | ((_, .ok _), c') => eachCalls generate rest c'
      | _ => []

/-- The elements among the attributes of an instance that the generation comes to, each with its
context. -/
def propsCalls (generate : Element → StateM Context (Generated Element Nat))
    (caller : Definitions) :
    Attributes → Dict PropDefinition → Context → List (Element × Context)
  | _, [], _ => []
  | attrs, (name, own) :: rest, c =>
    match Dict.get? attrs name with
    | some (.element e) =>
      (e, c) :: match generate e c with
        | ((e', .ok _), c') => propsCalls generate caller (Dict.insert attrs name (.element e')) rest c'
        | _ => []
    | some value =>
      match instanceProp caller value own with
      | .ok _ => propsCalls generate caller attrs rest c
      | .error _ => []
    | none => propsCalls generate caller attrs rest c

section Made

variable (env : Environment) (fuel : Nat) (at' : Surroundings)

/-- The calls that a node makes: that of its element, of its reference or of its body. -/
def nodeCalls (node : Node) (c : Context) : List Call :=
  match node with
  | .element e => [⟨fuel, at', .element e, c⟩]
  | .dynamic r => [⟨fuel, at', .reference r, c⟩]
  | .conditional q =>
    if q.isShown at'.definitions then [⟨fuel, at', .node q.node, c⟩] else []
  | _ => []

/-- The calls that the value of a reference makes: that of a default that is not registered. -/
def referenceCalls (r : Reference) (c : Context) : List Call :=
  match at'.definitions.value r with
  | .error _ => []
  | .ok v =>
    match v.default with
    | some (.node node) =>
      if v.kind = "element" ∧ node.registered? c = none then [⟨fuel, at', .node node, c⟩] else []
    | _ => []

/-- The calls that a tag makes: those of its children. -/
def tagCalls (e : Element) (c : Context) : List Call :=
  (eachCalls (generateNode env fuel at') e.children (c.noteDependency e)).map fun part =>
    ⟨fuel, at', .node part.1, part.2⟩

/-- The calls that an instance makes: those of the elements among its attributes, and that of its
wrapper. -/
def instanceCalls (e : Element) (c : Context) : List Call :=
  match Dict.get? env.externals e.componentName with
  | none => []
  | some external =>
    match (Dict.merge at'.definitions.states (c.instantiate external).states).mapM
        (instanceState e.attrs) with
    | .error _ => []
    | .ok _ =>
      ((propsCalls (generateElement env fuel at') at'.definitions e.attrs
          (combineProps at'.definitions.props (c.instantiate external).props)
          (c.reserve (c.instantiate external).node.keys)).map fun part =>
        ⟨fuel, at', .element part.1, part.2⟩) ++
      (enter? env fuel at' e c).toList.map fun entry => ⟨fuel, entry.inside,
        .element (wrapperElement entry.key (entry.component.node.withChildren e.children)),
        entry.context⟩

/-- The calls that a call makes, in their order. An instance takes two steps down. -/
def Call.made (env : Environment) : Call → List Call
  | ⟨0, _, _, _⟩ => []
  | ⟨fuel + 1, at', .node node, c⟩ => nodeCalls fuel at' node c
  | ⟨fuel + 1, at', .reference r, c⟩ => referenceCalls fuel at' r c
  | ⟨1, at', .element e, c⟩ => if e.isInstance then [] else tagCalls env 0 at' e c
  | ⟨fuel + 2, at', .element e, c⟩ =>
    if e.isInstance then instanceCalls env fuel at' e c else tagCalls env (fuel + 1) at' e c

end Made

section Members

theorem mem_eachCalls {α β : Type} {generate : α → StateM Context (Generated α β)} {part : α}
    {there c : Context} {parts : List α} :
    (part, there) ∈ eachCalls generate parts c ↔ EachReaches generate part there parts c := by
  induction parts generalizing c with
  | nil => exact ⟨fun h => (by cases h), fun h => (by cases h)⟩
  | cons first rest ih =>
    rw [eachCalls, List.mem_cons]
    constructor
    · rintro (heq | h)
      · cases heq
        exact .here
      · split at h
        · rename_i hrun
          exact .later hrun (ih.1 h)
        · cases h
    · intro h
      cases h with
      | here => exact Or.inl rfl
      | later run reaches =>
        rw [run]
        exact Or.inr (ih.2 reaches)

theorem propsCalls_plain {generate : Element → StateM Context (Generated Element Nat)}
    {caller : Definitions} {attrs : Attributes} {name : String} {own : PropDefinition}
    {rest : Dict PropDefinition} {c : Context} {value : Attribute}
    (h : Dict.get? attrs name = some value) (hplain : ∀ e, value ≠ .element e) :
    propsCalls generate caller attrs ((name, own) :: rest) c =
      match instanceProp caller value own with
      | .ok _ => propsCalls generate caller attrs rest c
      | .error _ => [] := by
  rw [propsCalls, h]
  cases value with
  | element e => exact absurd rfl (hplain e)
  | _ => rfl

theorem propsCalls_none {generate : Element → StateM Context (Generated Element Nat)}
    {caller : Definitions} {attrs : Attributes} {name : String} {own : PropDefinition}
    {rest : Dict PropDefinition} {c : Context} (h : Dict.get? attrs name = none) :
    propsCalls generate caller attrs ((name, own) :: rest) c
      = propsCalls generate caller attrs rest c := by
  rw [propsCalls, h]

theorem propsCalls_element {generate : Element → StateM Context (Generated Element Nat)}
    {caller : Definitions} {attrs : Attributes} {name : String} {own : PropDefinition}
    {rest : Dict PropDefinition} {c : Context} {e : Element}
    (h : Dict.get? attrs name = some (.element e)) :
    propsCalls generate caller attrs ((name, own) :: rest) c =
      (e, c) :: match generate e c with
        | ((e', .ok _), c') => propsCalls generate caller (Dict.insert attrs name (.element e')) rest c'
        | _ => [] := by
  rw [propsCalls, h]

theorem mem_propsCalls {generate : Element → StateM Context (Generated Element Nat)}
    {caller : Definitions} {x : Element} {there c : Context} {attrs : Attributes}
    {props : Dict PropDefinition} :
    (x, there) ∈ propsCalls generate caller attrs props c ↔
      PropsReach generate caller x there attrs props c := by
  induction props generalizing attrs c with
  | nil => exact ⟨fun h => (by cases h), fun h => (by cases h)⟩
  | cons entry rest ih =>
    obtain ⟨name, own⟩ := entry
    rcases hvalue : Dict.get? attrs name with _ | value
    · rw [propsCalls_none hvalue]
      refine ih.trans ⟨.none hvalue, fun h => ?_⟩
      cases h with
      | none _ reaches => exact reaches
      | here value | element value _ _ | plain value _ _ _ => cases hvalue.symm.trans value
    by_cases helement : ∃ e, value = .element e
    · obtain ⟨e, rfl⟩ := helement
      rw [propsCalls_element hvalue, List.mem_cons]
      constructor
      · rintro (heq | h)
        · cases heq
          exact .here hvalue
        · split at h
          · rename_i hrun
            exact .element hvalue hrun (ih.1 h)
          · cases h
      · intro h
        cases h with
        | here value =>
          cases hvalue.symm.trans value
          exact Or.inl rfl
        | element value run reaches =>
          cases hvalue.symm.trans value
          rw [run]
          exact Or.inr (ih.2 reaches)
        | none value _ => cases hvalue.symm.trans value
        | plain value plain _ _ =>
          cases hvalue.symm.trans value
          exact absurd rfl (plain e)
    · have hplain : ∀ e, value ≠ .element e := by simpa using helement
      rw [propsCalls_plain hvalue hplain]
      constructor
      · intro h
        split at h
        · rename_i hprop
          exact .plain hvalue hplain hprop (ih.1 h)
        · cases h
      · intro h
        cases h with
        | plain value _ prop reaches =>
          cases hvalue.symm.trans value
          rw [prop]
          exact ih.2 reaches
        | here value | element value _ _ =>
          exact absurd (Option.some.inj (hvalue.symm.trans value)) (hplain _)
        | none value _ => cases hvalue.symm.trans value

variable {env : Environment} {fuel : Nat} {at' : Surroundings} {c : Context} {inner : Call}

theorem mem_nodeCalls {node : Node} :
    inner ∈ nodeCalls fuel at' node c ↔ Makes env ⟨fuel + 1, at', .node node, c⟩ inner := by
  constructor
  · intro h
    unfold nodeCalls at h
    split at h
    · cases List.mem_singleton.1 h
      exact .content
    · cases List.mem_singleton.1 h
      exact .reference
    · split at h
      · rename_i hshown
        cases List.mem_singleton.1 h
        exact .body hshown
      · cases h
    · cases h
  · intro h
    cases h with
    | content | reference => exact List.mem_cons_self
    | body shown =>
      rw [nodeCalls, if_pos shown]
      exact List.mem_cons_self

theorem mem_referenceCalls {r : Reference} :
    inner ∈ referenceCalls fuel at' r c ↔ Makes env ⟨fuel + 1, at', .reference r, c⟩ inner := by
  rw [referenceCalls]
  constructor
  · intro h
    split at h
    · cases h
    rename_i v hvalue
    split at h
    · rename_i node hdefault
      split at h
      · rename_i hnew
        cases List.mem_singleton.1 h
        exact .default hvalue hnew.1 hdefault hnew.2
      · cases h
    · cases h
  · intro h
    cases h with
    | default value kind default new =>
      rw [value]
      dsimp only
      rw [default]
      dsimp only
      rw [if_pos ⟨kind, new⟩]
      exact List.mem_cons_self

theorem mem_tagCalls {e : Element} (he : e.isInstance = false) :
    inner ∈ tagCalls env fuel at' e c ↔ Makes env ⟨fuel + 1, at', .element e, c⟩ inner := by
  rw [tagCalls, List.mem_map]
  constructor
  · rintro ⟨⟨child, there⟩, hchild, rfl⟩
    exact .child he (mem_eachCalls.1 hchild)
  · intro h
    cases h with
    | child _ reaches => exact ⟨_, mem_eachCalls.2 reaches, rfl⟩
    | given isInstance _ _ _ | wrapper isInstance _ => cases he.symm.trans isInstance

theorem mem_instanceCalls {e : Element} (he : e.isInstance = true) :
    inner ∈ instanceCalls env fuel at' e c ↔ Makes env ⟨fuel + 2, at', .element e, c⟩ inner := by
  rw [instanceCalls]
  constructor
  · intro h
    split at h
    · cases h
    rename_i external hexternal
    split at h
    · cases h
    rename_i states hstates
    rcases List.mem_append.1 h with h | h
    · obtain ⟨⟨x, there⟩, hx, rfl⟩ := List.mem_map.1 h
      exact .given he hexternal hstates (mem_propsCalls.1 hx)
    · obtain ⟨entry, hentry, rfl⟩ := List.mem_map.1 h
      exact .wrapper he (Option.mem_toList.1 hentry)
  · intro h
    cases h with
    | child tag _ => cases he.symm.trans tag
    | given _ component accepted reaches =>
      rw [component]
      dsimp only
      rw [accepted]
      exact List.mem_append_left _ (List.mem_map_of_mem (mem_propsCalls.2 reaches))
    | wrapper _ entered =>
      obtain ⟨external, hexternal, hcomponent, hstates, -, -, -⟩ := enter?_eq_some entered
      rw [hcomponent] at hstates
      rw [hexternal]
      dsimp only
      rw [hstates]
      exact List.mem_append_right _ (List.mem_map_of_mem (Option.mem_toList.2 entered))

/-- **The calls that are made** are those that a call makes. -/
theorem mem_made {call : Call} : inner ∈ call.made env ↔ Makes env call inner := by
  rcases call with ⟨_ | fuel, at', task, c⟩
  · exact ⟨fun h => (by cases h), fun h => (by cases h)⟩
  cases task with
  | node node => exact mem_nodeCalls
  | reference r => exact mem_referenceCalls
  | element e =>
    rcases fuel with _ | fuel
    · rw [Call.made]
      split
      · rename_i he
        refine ⟨fun h => (by cases h), fun h => ?_⟩
        cases h with
        | child tag _ => cases he.symm.trans tag
      · rename_i he
        exact mem_tagCalls (by simpa using he)
    · rw [Call.made]
      split
      · rename_i he
        exact mem_instanceCalls he
      · rename_i he
        exact mem_tagCalls (by simpa using he)

end Members

/-! ## What a call does by itself -/

/-- A context that has all that another one has, with its elements decorated at most. -/
structure Context.Grows (c c' : Context) : Prop extends c.Extends c' where
  canvas : c.canvas.Grows c'.canvas

/-- A step that adds no chunk. -/
structure Context.Quiet (c c' : Context) : Prop extends c.Grows c' where
  same : c'.chunks = c.chunks

namespace Context

variable {c c' c'' : Context}

theorem Grows.refl (c : Context) : c.Grows c := ⟨.refl c, .refl _⟩

theorem Grows.trans (h : c.Grows c') (h' : c'.Grows c'') : c.Grows c'' :=
  ⟨h.toExtends.trans h'.toExtends, h.canvas.trans h'.canvas⟩

namespace Quiet

theorem refl (c : Context) : c.Quiet c := ⟨.refl c, rfl⟩

theorem trans (h : c.Quiet c') (h' : c'.Quiet c'') : c.Quiet c'' :=
  ⟨h.toGrows.trans h'.toGrows, h'.same.trans h.same⟩

theorem of_canvas (c : Context) {canvas : Canvas} (h : c.canvas.Grows canvas) :
    c.Quiet { c with canvas } :=
  ⟨⟨.canvas c canvas, h⟩, rfl⟩

theorem createTag (t : Tag) (c : Context) : c.Quiet (createTag t c).2 :=
  of_canvas c (.create _ t)

theorem reserve (c : Context) (keys : List String) : c.Quiet (c.reserve keys) :=
  ⟨⟨.reserve c keys, .refl _⟩, rfl⟩

theorem noteDependency (c : Context) (e : Element) : c.Quiet (c.noteDependency e) := by
  refine ⟨⟨.noteDependency c e, ?_⟩, ?_⟩
  · unfold Context.noteDependency
    split <;> exact .refl _
  · unfold Context.noteDependency
    split <;> rfl

theorem registerElement (key : String) (e : Element) (id : Nat) (hierarchy : List String)
    (c : Context) : c.Quiet (registerElement key e id hierarchy c).2 := by
  refine ⟨⟨registerElement_extends key e id hierarchy c, ?_⟩, ?_⟩
  · rcases registerElement_run key e id hierarchy c with ⟨-, hrun⟩ | ⟨-, d, -, hrun⟩ <;>
      · rw [hrun]
        exact .refl _
  · rcases registerElement_run key e id hierarchy c with ⟨-, hrun⟩ | ⟨-, d, -, hrun⟩ <;>
      · rw [hrun]

theorem finishTag (env : Environment) (at' : Surroundings) (e : Element) (pieces : List Piece)
    (c : Context) : c.Quiet (finishTag env at' e pieces c).2 := by
  rw [finishTag_run]
  rcases e.settleStyles at'.definitions with ⟨styled, d | _⟩
  · exact .refl c
  dsimp only
  rcases pageAttributes env.options env.folder at'.definitions styled.elementType styled.attrs with
    ⟨attrs, d | _⟩
  · exact .refl c
  · exact (createTag _ c).trans (registerElement _ _ _ _ _)

end Quiet

end Context

/-! ## Runs that succeed -/

section Runs

variable (env : Environment)

/-- A call succeeds, and ends in a context. -/
def Call.Ends (call : Call) (c' : Context) : Prop := call.run env = (.ok (), c')

/-- The component that a call expands when it is that of an instance. -/
def Call.expanded? : Call → Option Component
  | ⟨_ + 2, _, .element e, _⟩ =>
    if e.isInstance then Dict.get? env.externals e.componentName else none
  | _ => none

/-- Calls end, one after the other, and nothing but quiet steps is between them. -/
inductive Threads : Context → List Call → Context → Prop
  | nil {c c' : Context} (quiet : c.Quiet c') : Threads c [] c'
  | cons {call : Call} {rest : List Call} {c there c' : Context} (quiet : c.Quiet call.context)
      (ends : call.Ends env there) (threads : Threads there rest c') : Threads c (call :: rest) c'

/-- What is left of a call when all calls that it makes have ended: quiet steps, and the stages of
an instance before them. -/
inductive Closes : Call → Context → Context → Prop
  | quiet {call : Call} {c c' : Context} (kind : call.expanded? env = none) (quiet : c.Quiet c') :
      Closes call c c'
  | stages {fuel : Nat} {at' : Surroundings} {e wrapper : Element} {entry : Entry} {id : Nat}
      {context c styled c' : Context} (isInstance : e.isInstance = true)
      (entered : enter? env fuel at' e context = some entry)
      (generated : generateElement env fuel entry.inside
          (wrapperElement entry.key (entry.component.node.withChildren e.children)) entry.context
        = ((wrapper, .ok id), c))
      (run : runInstanceStages env (entry.styled wrapper) id c = (.ok (), styled))
      (quiet : styled.Quiet c') : Closes ⟨fuel + 2, at', .element e, context⟩ c c'

end Runs

section Ends

variable {env : Environment} {fuel : Nat} {at' : Surroundings} {c c' c'' : Context}
  {calls more : List Call}

theorem generated_ok_iff {α β : Type} {r : Generated α β × Context} :
    ((r.1.2.map fun _ => (), r.2) : Except Diagnostic Unit × Context) = (.ok (), c') ↔
      ∃ a b, r = ((a, .ok b), c') := by
  rcases r with ⟨⟨a, d | b⟩, c⟩
  · exact ⟨fun h => (by cases h), fun ⟨_, _, h⟩ => (by cases h)⟩
  · refine ⟨fun h => ?_, fun ⟨_, _, h⟩ => ?_⟩
    · cases h
      exact ⟨a, b, rfl⟩
    · cases h
      rfl

theorem Call.ends_node {node : Node} : (Call.mk fuel at' (.node node) c).Ends env c' ↔
    ∃ node' piece, generateNode env fuel at' node c = ((node', .ok piece), c') :=
  generated_ok_iff

theorem Call.ends_element {e : Element} : (Call.mk fuel at' (.element e) c).Ends env c' ↔
    ∃ e' id, generateElement env fuel at' e c = ((e', .ok id), c') :=
  generated_ok_iff

theorem Call.ends_reference {r : Reference} : (Call.mk fuel at' (.reference r) c).Ends env c' ↔
    ∃ piece, generateReference env fuel at' r c = (.ok piece, c') := by
  rw [Ends, run]
  dsimp only
  rcases generateReference env fuel at' r c with ⟨d | piece, c''⟩
  · constructor
    · intro h
      cases h
    · rintro ⟨_, h⟩
      cases h
  · constructor
    · intro h
      cases h
      exact ⟨piece, rfl⟩
    · rintro ⟨_, h⟩
      cases h
      rfl

theorem Threads.quiet_left (hquiet : c.Quiet c') (h : Threads env c' calls c'') :
    Threads env c calls c'' := by
  cases h with
  | nil quiet => exact .nil (hquiet.trans quiet)
  | cons quiet ends threads => exact .cons (hquiet.trans quiet) ends threads

theorem Threads.append (h : Threads env c calls c') (h' : Threads env c' more c'') :
    Threads env c (calls ++ more) c'' := by
  induction h with
  | nil quiet => exact h'.quiet_left quiet
  | cons quiet ends _ ih => exact .cons quiet ends (ih h')

theorem Threads.single {call : Call} (hends : call.Ends env c') :
    Threads env call.context [call] c' :=
  .cons (.refl _) hends (.nil (.refl _))

/-- The generation of a list that succeeds goes through the calls of its parts. -/
theorem generateEach_threads {nodes nodes' : List Node} {pieces : List Piece}
    (h : generateEach (generateNode env fuel at') nodes c = ((nodes', .ok pieces), c')) :
    Threads env c ((eachCalls (generateNode env fuel at') nodes c).map fun part =>
      ⟨fuel, at', .node part.1, part.2⟩) c' := by
  induction nodes generalizing c nodes' pieces with
  | nil =>
    cases h
    exact .nil (.refl _)
  | cons node rest ih =>
    obtain ⟨node', piece, there, rest', pieces', hnode, -, -, hrest⟩ := generateEach_ok_cons h
    rw [eachCalls, hnode]
    exact .cons (.refl _) (Call.ends_node.2 ⟨_, _, hnode⟩) (ih hrest)

/-- The generation of the props of an instance that succeeds goes through the calls of the elements
among its attributes. -/
theorem generateProps_threads {caller : Definitions} {attrs attrs' : Attributes}
    {props out : Dict PropDefinition}
    (h : generateProps (generateElement env fuel at') caller attrs props c
      = ((attrs', .ok out), c')) :
    Threads env c ((propsCalls (generateElement env fuel at') caller attrs props c).map fun part =>
      ⟨fuel, at', .element part.1, part.2⟩) c' := by
  induction props generalizing attrs c out with
  | nil =>
    obtain ⟨-, -, rfl⟩ := generateProps_ok_nil h
    exact .nil (.refl _)
  | cons entry rest ih =>
    obtain ⟨name, own⟩ := entry
    rcases hvalue : Dict.get? attrs name with _ | value
    · obtain ⟨out', -, hrest⟩ := generateProps_ok_none hvalue h
      rw [propsCalls_none hvalue]
      exact ih hrest
    by_cases helement : ∃ e, value = .element e
    · obtain ⟨e, rfl⟩ := helement
      obtain ⟨e', id, there, out', he, -, hrest⟩ := generateProps_ok_element hvalue h
      rw [propsCalls_element hvalue, he]
      exact .cons (.refl _) (Call.ends_element.2 ⟨_, _, he⟩) (ih hrest)
    · have hplain : ∀ e, value ≠ .element e := by simpa using helement
      obtain ⟨definition, out', hprop, -, hrest⟩ := generateProps_ok_plain hvalue hplain h
      rw [propsCalls_plain hvalue hplain, hprop]
      exact ih hrest

theorem Threads.quiet_right (h : Threads env c calls c') (hquiet : c'.Quiet c'') :
    Threads env c calls c'' := by
  simpa using h.append (.nil hquiet)

theorem nodeCalls_threads {node : Node} (h : (Call.mk (fuel + 1) at' (.node node) c).Ends env c') :
    Threads env c (nodeCalls fuel at' node c) c' := by
  obtain ⟨node', piece, hrun⟩ := Call.ends_node.1 h
  cases node with
  | element e =>
    rw [generateNode_element] at hrun
    rcases he : generateElement env fuel at' e c with ⟨⟨e', d | id⟩, c''⟩
    · rw [he] at hrun
      cases hrun
    · rw [he] at hrun
      cases hrun
      exact .single (Call.ends_element.2 ⟨_, _, he⟩)
  | dynamic r =>
    rw [generateNode_dynamic] at hrun
    rcases hr : generateReference env fuel at' r c with ⟨d | piece', c''⟩
    · rw [hr] at hrun
      cases hrun
    · rw [hr] at hrun
      cases hrun
      exact .single (Call.ends_reference.2 ⟨_, hr⟩)
  | conditional q =>
    rw [generateNode_conditional] at hrun
    rw [nodeCalls]
    split at hrun
    · rename_i hshown
      rcases hq : generateNode env fuel at' q.node c with ⟨⟨inner, d | piece'⟩, c''⟩
      · rw [hq] at hrun
        cases hrun
      · rw [hq] at hrun
        cases hrun
        rw [if_pos hshown]
        exact .single (Call.ends_node.2 ⟨_, _, hq⟩)
    · rename_i hhidden
      cases hrun
      rw [if_neg hhidden]
      exact .nil (.refl _)
  | slot _ =>
    rw [generateNode] at hrun
    cases hrun
    exact .nil (.createTag _ _)
  | repetition _ =>
    rw [generateNode] at hrun
    cases hrun
  | constant _ | raw _ | inject _ | expr _ =>
    rw [generateNode] at hrun
    cases hrun
    exact .nil (.refl _)

/-- The calls that a value makes: that of a default that is not registered. -/
def valueCalls (fuel : Nat) (at' : Surroundings) (v : ReferredValue) (c : Context) : List Call :=
  match v.default with
  | some (.node node) =>
    if v.kind = "element" ∧ node.registered? c = none then [⟨fuel, at', .node node, c⟩] else []
  | _ => []

theorem valueCalls_of_kind_ne {v : ReferredValue} (h : v.kind ≠ "element") :
    valueCalls fuel at' v c = [] := by
  rw [valueCalls]
  split
  · exact if_neg fun hnew => h hnew.1
  · rfl

theorem referenceCalls_of_value {r : Reference} {v : ReferredValue}
    (h : at'.definitions.value r = .ok v) :
    referenceCalls fuel at' r c = valueCalls fuel at' v c := by
  rw [referenceCalls, h]
  rfl

theorem referenceCalls_of_locale {r : Reference} (h : r.scope = .locale) :
    referenceCalls fuel at' r c = [] := by
  have herror : ∃ d, at'.definitions.value r = .error d := by
    unfold Definitions.value Definitions.find
    rw [h]
    exact ⟨_, rfl⟩
  obtain ⟨d, hd⟩ := herror
  rw [referenceCalls, hd]

theorem quiet_of_spanWith {shown piece : Piece} (h : spanWith shown c = (.ok piece, c')) :
    c.Quiet c' := by
  have hsnd : (spanWith shown c).2 = c' := congrArg Prod.snd h
  exact hsnd ▸ .createTag _ _

/-- A value of the kind of elements goes through the call of its default, unless that is registered
already. Values of other kinds make no calls. -/
theorem generateValue_threads {v : ReferredValue} {r : Reference} {piece : Piece}
    (h : generateValue env fuel at' v r c = (.ok piece, c')) :
    Threads env c (valueCalls fuel at' v c) c' := by
  unfold generateValue at h
  split at h
  · rename_i hkind
    cases h
    rw [valueCalls_of_kind_ne (by rintro heq; simp [heq] at hkind)]
    exact .nil (.refl _)
  split at h
  swap
  · rename_i hkind
    rw [valueCalls_of_kind_ne hkind]
    exact .nil (quiet_of_spanWith h)
  rename_i hkind
  rw [valueCalls]
  rcases hdefault : v.default with _ | node | content
  · rw [hdefault] at h
    exact .nil (quiet_of_spanWith h)
  · rw [hdefault] at h
    dsimp only at h ⊢
    rw [bind_run, get_run] at h
    dsimp only at h
    rcases hregistered : node.registered? c with _ | id
    · rw [hregistered] at h
      dsimp only at h
      rw [if_pos ⟨hkind, rfl⟩]
      rcases hnode : generateNode env fuel at' node c with ⟨⟨node', d | piece'⟩, there⟩
      · rw [bind_run, hnode] at h
        cases h
      · rw [bind_run, hnode] at h
        cases h
        exact .single (Call.ends_node.2 ⟨_, _, hnode⟩)
    · rw [hregistered] at h
      cases h
      rw [if_neg fun hnew => by cases hnew.2]
      exact .nil (.refl _)
  · rw [hdefault] at h
    exact .nil (quiet_of_spanWith h)

theorem referenceCalls_threads {r : Reference}
    (h : (Call.mk (fuel + 1) at' (.reference r) c).Ends env c') :
    Threads env c (referenceCalls fuel at' r c) c' := by
  obtain ⟨piece, hrun⟩ := Call.ends_reference.1 h
  rw [generateReference_succ] at hrun
  split at hrun
  · rename_i hscope
    rw [referenceCalls_of_locale hscope]
    exact .nil (quiet_of_spanWith hrun)
  rcases hvalue : at'.definitions.value r with d | v
  · rw [hvalue] at hrun
    cases hrun
  rw [hvalue] at hrun
  rw [referenceCalls_of_value hvalue]
  exact generateValue_threads hrun

theorem tagCalls_threads {e : Element} (he : e.isInstance = false)
    (h : (Call.mk (fuel + 1) at' (.element e) c).Ends env c') :
    Threads env c (tagCalls env fuel at' e c) c' := by
  obtain ⟨e', id, hrun⟩ := Call.ends_element.1 h
  rw [generateElement_tag env fuel at' c he] at hrun
  rcases hchildren : generateEach (generateNode env fuel at') e.children (c.noteDependency e) with
    ⟨⟨children, d | pieces⟩, there⟩
  · rw [hchildren] at hrun
    cases hrun
  rw [hchildren] at hrun
  have hquiet := Context.Quiet.finishTag env at' { e with children } pieces there
  have hsnd : (finishTag env at' { e with children } pieces there).2 = c' := congrArg Prod.snd hrun
  rw [hsnd] at hquiet
  exact ((generateEach_threads hchildren).quiet_left (.noteDependency c e)).quiet_right hquiet

/-- An instance that is expanded is entered. -/
theorem exists_entry_of_expandInstance {e e' : Element} {id : Nat}
    (h : expandInstance env (fuel + 1) at' e c = ((e', .ok id), c')) :
    ∃ entry, enter? env fuel at' e c = some entry := by
  rw [← Option.ne_none_iff_exists']
  intro hentry
  unfold enter? at hentry
  rw [expandInstance_succ] at h
  split at hentry
  · rename_i hexternal
    rw [hexternal] at h
    cases h
  rename_i external hexternal
  rw [hexternal] at h
  dsimp only at h hentry
  split at hentry
  · rename_i d hstates
    rw [hstates] at h
    cases h
  rename_i states hstates
  rw [hstates] at h
  dsimp only at h
  split at hentry
  · rename_i attrs props context hprops
    rw [hprops] at h
    dsimp only at h
    rw [enterInstance_run] at h
    have hnone : wrapperKey? context (Element.componentName { e with children := [], attrs }) e.key
        = none := Option.map_eq_none_iff.1 hentry
    rw [hnone] at h
    cases h
  · rename_i hfailed
    rcases hprops : generateProps (generateElement env fuel at') at'.definitions e.attrs
      (combineProps at'.definitions.props (c.instantiate external).props)
      (c.reserve (c.instantiate external).node.keys) with ⟨⟨attrs, d | props⟩, context⟩
    · rw [hprops] at h
      cases h
    · exact hfailed _ _ _ hprops

/-- An instance that is expanded is entered, its tree is generated, its stages run, and it is
registered. -/
theorem exists_of_expandInstance {e e' : Element} {id : Nat}
    (h : expandInstance env (fuel + 1) at' e c = ((e', .ok id), c')) :
    ∃ entry wrapper there styled, enter? env fuel at' e c = some entry ∧
      generateElement env fuel entry.inside
          (wrapperElement entry.key (entry.component.node.withChildren e.children)) entry.context
        = ((wrapper, .ok id), there) ∧
      runInstanceStages env (entry.styled wrapper) id there = (.ok (), styled) ∧
      styled.Quiet c' ∧ e' = { e with children := [], attrs := entry.attrs } := by
  obtain ⟨entry, hentry⟩ := exists_entry_of_expandInstance h
  rw [expandInstance_entered hentry] at h
  unfold finishInstance at h
  rcases hwrapper : generateElement env fuel entry.inside
    (wrapperElement entry.key (entry.component.node.withChildren e.children)) entry.context with
    ⟨⟨wrapper, d | id'⟩, there⟩
  · rw [hwrapper] at h
    cases h
  rw [hwrapper] at h
  dsimp only at h
  rcases hstages : runInstanceStages env (entry.styled wrapper) id' there with ⟨d | _, styled⟩
  · rw [hstages] at h
    cases h
  rw [hstages] at h
  dsimp only at h
  have hquiet := Context.Quiet.registerElement e.key { e with children := [], attrs := entry.attrs }
    id' entry.inside.hierarchy styled
  rcases hregister : registerElement e.key { e with children := [], attrs := entry.attrs } id'
    entry.inside.hierarchy styled with ⟨d | _, c''⟩
  · rw [hregister] at h
    cases h
  rw [hregister] at h hquiet
  cases h
  exact ⟨entry, wrapper, there, styled, hentry, hwrapper, hstages, hquiet, rfl⟩

/-- An instance goes through its calls when the keys of its copy are reserved. -/
theorem instanceCalls_threads {e : Element} (he : e.isInstance = true)
    (h : (Call.mk (fuel + 2) at' (.element e) c).Ends env c') :
    ∃ external there, Dict.get? env.externals e.componentName = some external ∧
      Threads env (c.reserve (c.instantiate external).node.keys) (instanceCalls env fuel at' e c)
        there ∧
      Closes env ⟨fuel + 2, at', .element e, c⟩ there c' := by
  obtain ⟨e', id, hrun⟩ := Call.ends_element.1 h
  obtain ⟨below, c'', hfuel, hexpand, rfl⟩ := generateElement_ok_instance he hrun
  cases hfuel
  obtain ⟨entry, wrapper, there, styled, hentry, hwrapper, hstages, hquiet, -⟩ :=
    exists_of_expandInstance hexpand
  obtain ⟨external, hexternal, hcomponent, hstates, hprops, -, -⟩ := enter?_eq_some hentry
  rw [hcomponent] at hstates hprops
  refine ⟨external, there, hexternal, ?_, .stages he hentry hwrapper hstages
    (hquiet.trans (.of_canvas _ (.prepend_comment _ _ _)))⟩
  rw [instanceCalls, hexternal]
  dsimp only
  rw [hstates]
  dsimp only
  rw [hentry]
  exact (generateProps_threads hprops).append (.single (Call.ends_element.2 ⟨_, _, hwrapper⟩))

/-- **A call that succeeds** goes through the calls that it makes, all of which succeed, and closes.
-/
theorem Call.Ends.threads {call : Call} (h : call.Ends env c') :
    ∃ there, Threads env call.context (call.made env) there ∧ Closes env call there c' := by
  rcases call with ⟨_ | fuel, at', task, c⟩
  · cases task with
    | node node =>
      obtain ⟨node', piece, hrun⟩ := Call.ends_node.1 h
      rw [generateNode] at hrun
      cases hrun
    | reference r =>
      obtain ⟨piece, hrun⟩ := Call.ends_reference.1 h
      rw [generateReference] at hrun
      cases hrun
    | element e =>
      obtain ⟨e', id, hrun⟩ := Call.ends_element.1 h
      rw [generateElement] at hrun
      cases hrun
  cases task with
  | node node =>
    exact ⟨c', nodeCalls_threads h, .quiet (by cases fuel <;> rfl) (.refl _)⟩
  | reference r =>
    exact ⟨c', referenceCalls_threads h, .quiet (by cases fuel <;> rfl) (.refl _)⟩
  | element e =>
    by_cases he : e.isInstance
    · rcases fuel with _ | fuel
      · obtain ⟨e', id, hrun⟩ := Call.ends_element.1 h
        rw [generateElement_instance env 0 at' c he, expandInstance] at hrun
        cases hrun
      · rw [Call.made, if_pos he]
        obtain ⟨external, there, -, hthreads, hcloses⟩ := instanceCalls_threads he h
        exact ⟨there, hthreads.quiet_left (.reserve c _), hcloses⟩
    · have htag : e.isInstance = false := by simpa using he
      have hexpanded : (Call.mk (fuel + 1) at' (.element e) c).expanded? env = none := by
        rcases fuel with _ | fuel
        · rfl
        · exact if_neg he
      refine ⟨c', ?_, .quiet hexpanded (.refl _)⟩
      rcases fuel with _ | fuel
      · rw [Call.made, if_neg he]
        exact tagCalls_threads htag h
      · rw [Call.made, if_neg he]
        exact tagCalls_threads htag h

end Ends

end PageCompiler
