import PageCompiler.Proofs.Page.Ordered
import PageCompiler.Proofs.Page.Visits

/-!
# Conservation of elements

The generation moves elements about: the children of an instance go into the tree of its component,
and elements among attributes are put back as they are generated. No element gets lost into two
trees that way. All that a call leaves of itself, and all trees that are styled on the way, have a
key no more often than what the call is given, together with what comes in on the way: the copies of
components, the wrappers, and the defaults that references show.

* `Call.Balanced`: the account of a call, given those of the calls that it makes.
* `Call.Ends.conserves`: the account of a run.
-/

namespace PageCompiler

/-! ## Keys of elements -/

/-- How many of some elements have a key. -/
def keyCount (key : String) (es : List Element) : ℕ := (es.map (·.key)).count key

section Count

variable {key : String}

theorem keyCount_append (es fs : List Element) :
    keyCount key (es ++ fs) = keyCount key es + keyCount key fs := by
  rw [keyCount, List.map_append, List.count_append]
  rfl

theorem keyCount_cons (e : Element) (es : List Element) :
    keyCount key (e :: es) = keyCount key es + if e.key = key then 1 else 0 := by
  rw [keyCount, List.map_cons, List.count_cons]
  simp only [beq_iff_eq]
  rfl

theorem keyCount_element (e : Element) : keyCount key e.elements
    = keyCount key (attributesElements e.attrs) + keyCount key (nodesElements e.children)
      + if e.key = key then 1 else 0 := by
  rw [e.elements_eq, keyCount_cons, keyCount_append]

theorem keyCount_nodes (nodes : List Node) :
    keyCount key (nodesElements nodes) = (nodes.map fun node => keyCount key node.elements).sum := by
  induction nodes with
  | nil => rfl
  | cons node rest ih => rw [nodesElements, keyCount_append, ih, List.map_cons, List.sum_cons]

/-- An attribute that is in order takes the place of the one of its name. -/
theorem keyCount_insert (key : String) {attrs : Attributes} {name : String} {value : Attribute}
    (h : Dict.Sorted attrs) (hget : Dict.get? attrs name = some value) (value' : Attribute) :
    keyCount key (attributesElements (Dict.insert attrs name value')) + keyCount key value.elements
      = keyCount key (attributesElements attrs) + keyCount key value'.elements := by
  induction attrs with
  | nil => cases hget
  | cons entry rest ih =>
    obtain ⟨other, old⟩ := entry
    obtain ⟨hlt, hrest⟩ := List.pairwise_cons.1 h
    rw [Dict.get?_cons] at hget
    split at hget
    · rename_i heq
      cases hget
      rw [Dict.insert, if_neg heq.not_lt, if_pos heq, attributesElements, attributesElements,
        keyCount_append, keyCount_append]
      omega
    · rename_i hne
      have hname : other < name := hlt _ (Dict.mem_of_get? hget)
      have hih := ih hrest hget
      rw [Dict.insert, if_neg hname.not_gt, if_neg hne, attributesElements, attributesElements,
        keyCount_append, keyCount_append]
      omega

end Count

/-! ## Lists of parts -/

section Parts

variable {c c' : Context}

/-- The parts of a list that is generated are its calls, and what is left of them is left of the
list. -/
theorem eachCalls_eq {α β : Type} {generate : α → StateM Context (Generated α β)}
    {parts parts' : List α} {results : List β}
    (h : generateEach generate parts c = ((parts', .ok results), c')) :
    (eachCalls generate parts c).map (·.1) = parts ∧
      (eachCalls generate parts c).map (fun part => (generate part.1 part.2).1.1) = parts' := by
  induction parts generalizing c parts' results with
  | nil =>
    cases h
    exact ⟨rfl, rfl⟩
  | cons part rest ih =>
    obtain ⟨part', result, there, rest', results', hpart, rfl, -, hrest⟩ := generateEach_ok_cons h
    obtain ⟨hparts, htraces⟩ := ih hrest
    rw [eachCalls, hpart]
    rw [List.map_cons, List.map_cons, hparts, htraces, hpart]
    exact ⟨rfl, rfl⟩

/-- **What the attributes of an instance are left with**: the elements that are generated for its
props take their own places. -/
theorem propsCalls_balance (key : String)
    {generate : Element → StateM Context (Generated Element Nat)} {caller : Definitions}
    {attrs attrs' : Attributes} {props out : Dict PropDefinition}
    (hattrs : Dict.Sorted attrs)
    (h : generateProps generate caller attrs props c = ((attrs', .ok out), c')) :
    keyCount key (attributesElements attrs')
        + ((propsCalls generate caller attrs props c).map fun part =>
            keyCount key part.1.elements).sum
      = keyCount key (attributesElements attrs)
        + ((propsCalls generate caller attrs props c).map fun part =>
            keyCount key (generate part.1 part.2).1.1.elements).sum := by
  induction props generalizing attrs c out with
  | nil =>
    obtain ⟨rfl, -, -⟩ := generateProps_ok_nil h
    rfl
  | cons entry rest ih =>
    obtain ⟨name, own⟩ := entry
    rcases hvalue : Dict.get? attrs name with _ | value
    · obtain ⟨out', -, hrest⟩ := generateProps_ok_none hvalue h
      rw [propsCalls_none hvalue]
      exact ih hattrs hrest
    by_cases helement : ∃ e, value = .element e
    · obtain ⟨e, rfl⟩ := helement
      obtain ⟨e', id, there, out', he, -, hrest⟩ := generateProps_ok_element hvalue h
      rw [propsCalls_element hvalue, he]
      have hrest := ih (hattrs.insert name (.element e')) hrest
      have hplace := keyCount_insert key hattrs hvalue (.element e')
      have hold : keyCount key (Attribute.element e).elements = keyCount key e.elements := rfl
      have hnew : keyCount key (Attribute.element e').elements = keyCount key e'.elements := rfl
      simp only [List.map_cons, List.sum_cons, he]
      omega
    · have hplain : ∀ e, value ≠ .element e := by simpa using helement
      obtain ⟨definition, out', hprop, -, hrest⟩ := generateProps_ok_plain hvalue hplain h
      rw [propsCalls_plain hvalue hplain, hprop]
      exact ih hattrs hrest

end Parts

/-! ## The account of a call -/

section Account

variable (env : Environment)

/-- The elements of the default that a reference shows, unless it is registered already. -/
def Call.shown (call : Call) : List Element :=
  match call.task with
  | .reference _ => (call.made env).flatMap (·.task.elements)
  | _ => []

/-- The elements in the tree of the copy that a call expands. -/
def Call.copied (call : Call) : List Element :=
  (call.expanded? env).toList.flatMap fun external =>
    (call.context.instantiate external).node.elements

/-- The key of the wrapper of an instance that a call expands. -/
def Call.wrapped (call : Call) : List String := (call.entered? env).toList.map (·.key)

/-- The elements in the tree that is styled when a call closes. -/
def Call.styledTree (call : Call) : List Element :=
  (call.styled? env).toList.flatMap (·.node.elements)

/-- How often a key comes in with a call. -/
def Call.brings (key : String) (call : Call) : ℕ :=
  keyCount key (call.shown env) + keyCount key (call.copied env) + (call.wrapped env).count key

/-- The account of a call. What it leaves of itself, what is styled when it closes, and what the
calls that it makes are given, is at most what it is given, what it brings, and what these calls
leave of themselves. -/
def Call.Balanced (key : String) (call : Call) : Prop :=
  keyCount key (call.trace env) + keyCount key (call.styledTree env)
      + ((call.made env).map fun inner => keyCount key inner.task.elements).sum
    ≤ keyCount key call.task.elements + call.brings env key
      + ((call.made env).map fun inner => keyCount key (inner.trace env)).sum

variable {env} {key : String} {fuel : Nat} {at' : Surroundings} {c c' : Context}

theorem Call.entered?_eq_none {call : Call} (h : call.expanded? env = none) :
    call.entered? env = none := by
  rcases call with ⟨_ | _ | fuel, at', node | r | e, c⟩ <;> try rfl
  rw [entered?]
  rw [expanded?] at h
  split
  · rename_i he
    rw [if_pos he] at h
    rw [enter?, h]
  · rfl

/-- A call that expands nothing and shows nothing brings nothing. -/
theorem Call.Balanced.of_quiet {call : Call} (hexpanded : call.expanded? env = none)
    (h : keyCount key (call.trace env)
        + ((call.made env).map fun inner => keyCount key inner.task.elements).sum
      ≤ keyCount key call.task.elements + keyCount key (call.shown env)
        + ((call.made env).map fun inner => keyCount key (inner.trace env)).sum) :
    call.Balanced env key := by
  have hcopied : call.copied env = [] := by rw [copied, hexpanded]; rfl
  have hwrapped : call.wrapped env = [] := by rw [wrapped, entered?_eq_none hexpanded]; rfl
  have hstyled : call.styledTree env = [] := by rw [styledTree, styled?_eq_none hexpanded]; rfl
  rw [Balanced, brings, hcopied, hwrapped, hstyled]
  simp only [keyCount, List.map_nil, List.count_nil, Nat.add_zero] at h ⊢
  exact h

theorem Call.expanded?_node (node : Node) :
    (Call.mk fuel at' (.node node) c).expanded? env = none := by
  rcases fuel with _ | _ | fuel <;> rfl

theorem Call.expanded?_reference (r : Reference) :
    (Call.mk fuel at' (.reference r) c).expanded? env = none := by
  rcases fuel with _ | _ | fuel <;> rfl

theorem Call.expanded?_tag {e : Element} (he : e.isInstance = false) :
    (Call.mk fuel at' (.element e) c).expanded? env = none := by
  rcases fuel with _ | _ | fuel
  · rfl
  · rfl
  · exact if_neg (by simp [he])

theorem Call.made_tag {e : Element} (he : e.isInstance = false) :
    (Call.mk (fuel + 1) at' (.element e) c).made env = tagCalls env fuel at' e c := by
  rcases fuel with _ | fuel <;> exact if_neg (by simp [he])

/-- A node leaves of itself what its element or its body does. -/
theorem balanced_node (node : Node) :
    (Call.mk (fuel + 1) at' (.node node) c).Balanced env key := by
  refine .of_quiet (Call.expanded?_node node) ?_
  change keyCount key (generateNode env (fuel + 1) at' node c).1.1.elements
      + ((nodeCalls fuel at' node c).map fun inner => keyCount key inner.task.elements).sum
    ≤ keyCount key node.elements + 0
      + ((nodeCalls fuel at' node c).map fun inner => keyCount key (inner.trace env)).sum
  cases node with
  | element e =>
    rw [generateNode_element, nodeCalls]
    simp only [List.map_cons, List.map_nil, List.sum_cons, List.sum_nil]
    change keyCount key (generateElement env fuel at' e c).1.1.elements
        + (keyCount key e.elements + 0)
      ≤ keyCount key e.elements + 0 + (keyCount key (generateElement env fuel at' e c).1.1.elements + 0)
    omega
  | dynamic r =>
    rw [generateNode_dynamic]
    exact le_rfl
  | conditional q =>
    rw [generateNode_conditional, nodeCalls]
    obtain ⟨inner, reference, value, condition⟩ := q
    split
    · simp only [List.map_cons, List.map_nil, List.sum_cons, List.sum_nil]
      change keyCount key (generateNode env fuel at' inner c).1.1.elements
          + (keyCount key inner.elements + 0)
        ≤ keyCount key inner.elements + 0
          + (keyCount key (generateNode env fuel at' inner c).1.1.elements + 0)
      omega
    · exact le_rfl
  | slot _ | constant _ | raw _ | inject _ | expr _ | repetition _ =>
    rw [generateNode]
    exact le_rfl

/-- A reference shows what it brings, and leaves nothing of itself. -/
theorem balanced_reference (r : Reference) :
    (Call.mk fuel at' (.reference r) c).Balanced env key := by
  refine .of_quiet (Call.expanded?_reference r) ?_
  have hshown : ∀ calls : List Call, keyCount key (calls.flatMap (·.task.elements))
      = (calls.map fun inner => keyCount key inner.task.elements).sum := by
    intro calls
    induction calls with
    | nil => rfl
    | cons call rest ih => rw [List.flatMap_cons, keyCount_append, ih, List.map_cons, List.sum_cons]
  change 0 + _ ≤ 0 + keyCount key (((Call.mk fuel at' (.reference r) c).made env).flatMap
    (·.task.elements)) + _
  rw [hshown]
  omega

/-- A tag leaves of itself what its children do. -/
theorem balanced_tag {e : Element} (he : e.isInstance = false)
    (hends : (Call.mk (fuel + 1) at' (.element e) c).Ends env c') :
    (Call.mk (fuel + 1) at' (.element e) c).Balanced env key := by
  obtain ⟨e', id, hrun⟩ := Call.ends_element.1 hends
  have htag := TagRun.of_run he hrun
  obtain ⟨pieces, there, tagAttrs, hchildren, -⟩ := htag.children
  obtain ⟨hparts, htraces⟩ := eachCalls_eq hchildren
  have htrace : Call.trace env ⟨fuel + 1, at', .element e, c⟩ = e'.elements :=
    congrArg (·.1.1.elements) hrun
  have hattrs : e'.attrs = e.attrs := by
    obtain ⟨style, referencedStyles, children, -, rfl⟩ := htag.same
    rfl
  refine .of_quiet (Call.expanded?_tag he) ?_
  have hgiven : ((tagCalls env fuel at' e c).map fun inner => keyCount key inner.task.elements).sum
      = keyCount key (nodesElements e.children) := by
    rw [keyCount_nodes, ← hparts, tagCalls, List.map_map, List.map_map]
    rfl
  have hleft : ((tagCalls env fuel at' e c).map fun inner => keyCount key (inner.trace env)).sum
      = keyCount key (nodesElements e'.children) := by
    rw [keyCount_nodes, ← htraces, tagCalls, List.map_map, List.map_map]
    rfl
  rw [htrace, Call.made_tag he, hgiven, hleft, Task.elements, keyCount_element, keyCount_element,
    hattrs, htag.key]
  omega

/-- The calls of an instance that is entered. -/
theorem instanceCalls_entered {e : Element} {entry : Entry}
    (h : enter? env fuel at' e c = some entry) :
    instanceCalls env fuel at' e c
      = ((propsCalls (generateElement env fuel at') at'.definitions e.attrs
          (combineProps at'.definitions.props entry.component.props)
          (c.reserve entry.component.node.keys)).map fun part =>
            ⟨fuel, at', .element part.1, part.2⟩)
        ++ [⟨fuel, entry.inside,
          .element (wrapperElement entry.key (entry.component.node.withChildren e.children)),
          entry.context⟩] := by
  obtain ⟨external, hexternal, hcomponent, hstates, -, -, -⟩ := enter?_eq_some h
  rw [hcomponent] at hstates
  rw [instanceCalls, hexternal]
  dsimp only
  rw [hstates]
  dsimp only
  rw [h, ← hcomponent]
  rfl

/-- What there is to know about the account of an instance that is expanded. -/
structure InstanceRun (env : Environment) (fuel : Nat) (at' : Surroundings) (e : Element)
    (c : Context) (entry : Entry) (wrapper : Element) : Prop where
  entered : enter? env fuel at' e c = some entry
  generated : ∃ id there, generateElement env fuel entry.inside
      (wrapperElement entry.key (entry.component.node.withChildren e.children)) entry.context
    = ((wrapper, .ok id), there)
  trace : Call.trace env ⟨fuel + 2, at', .element e, c⟩
    = Element.elements { e with children := [], attrs := entry.attrs }

theorem exists_instanceRun {e : Element} (he : e.isInstance = true)
    (hends : (Call.mk (fuel + 2) at' (.element e) c).Ends env c') :
    ∃ entry wrapper, InstanceRun env fuel at' e c entry wrapper := by
  obtain ⟨e', id, hrun⟩ := Call.ends_element.1 hends
  have htrace : Call.trace env ⟨fuel + 2, at', .element e, c⟩ = e'.elements :=
    congrArg (·.1.1.elements) hrun
  obtain ⟨below, expanded, hfuel, hexpand, -⟩ := generateElement_ok_instance he hrun
  cases hfuel
  obtain ⟨entry, wrapper, there, styled, hentry, hwrapper, -, -, rfl⟩ :=
    exists_of_expandInstance hexpand
  exact ⟨entry, wrapper, hentry, ⟨_, there, hwrapper⟩, htrace⟩

section Instance

variable {e wrapper : Element} {entry : Entry}

theorem InstanceRun.styled?_eq (h : InstanceRun env fuel at' e c entry wrapper)
    (he : e.isInstance = true) :
    Call.styled? env ⟨fuel + 2, at', .element e, c⟩ = some (entry.styled wrapper) := by
  obtain ⟨id, there, hgenerated⟩ := h.generated
  rw [Call.styled?, if_pos he, h.entered, Option.map_some, hgenerated]

theorem InstanceRun.brings_eq (h : InstanceRun env fuel at' e c entry wrapper)
    (he : e.isInstance = true) : Call.brings env key ⟨fuel + 2, at', .element e, c⟩
      = keyCount key entry.component.node.elements + if entry.key = key then 1 else 0 := by
  obtain ⟨external, hexternal, hcomponent, -, -, -, -⟩ := enter?_eq_some h.entered
  have hexpanded : (Call.mk (fuel + 2) at' (.element e) c).expanded? env = some external :=
    (if_pos he).trans hexternal
  have hcopied : Call.copied env ⟨fuel + 2, at', .element e, c⟩ = entry.component.node.elements := by
    rw [Call.copied, hexpanded, hcomponent]
    exact List.flatMap_singleton _ _
  have hwrapped : Call.wrapped env ⟨fuel + 2, at', .element e, c⟩ = [entry.key] := by
    rw [Call.wrapped, Call.entered?, if_pos he, h.entered]
    rfl
  have hshown : Call.shown env ⟨fuel + 2, at', .element e, c⟩ = [] := rfl
  rw [Call.brings, hshown, hcopied, hwrapped, List.count_singleton]
  simp [keyCount]

/-- **An instance** gives its children away to its wrapper, and keeps its attributes. -/
theorem balanced_instance (he : e.isInstance = true) (hattrs : Dict.Sorted e.attrs)
    (h : InstanceRun env fuel at' e c entry wrapper) :
    (Call.mk (fuel + 2) at' (.element e) c).Balanced env key := by
  obtain ⟨id, there, hgenerated⟩ := h.generated
  obtain ⟨external, -, -, -, hprops, -, -⟩ := enter?_eq_some h.entered
  have hbalance := propsCalls_balance key hattrs hprops
  have hroot : keyCount key (entry.component.node.withChildren e.children).elements
      ≤ keyCount key entry.component.node.elements + keyCount key (nodesElements e.children) :=
    ((keys_withChildren _ _).count_le key).trans_eq List.count_append
  have hmade : Call.made env ⟨fuel + 2, at', .element e, c⟩ = _ :=
    (if_pos he).trans (instanceCalls_entered h.entered)
  have htrace : keyCount key (Call.trace env ⟨fuel + 2, at', .element e, c⟩)
      = keyCount key (attributesElements entry.attrs) + if e.key = key then 1 else 0 := by
    rw [h.trace, keyCount_element]
    rfl
  have htask : keyCount key (Task.element e).elements = keyCount key (attributesElements e.attrs)
      + keyCount key (nodesElements e.children) + if e.key = key then 1 else 0 :=
    keyCount_element e
  have hstyled : Call.styledTree env ⟨fuel + 2, at', .element e, c⟩ = wrapper.elements := by
    rw [Call.styledTree, h.styled?_eq he]
    exact List.flatMap_singleton _ _
  have hgiven : keyCount key (Task.element (wrapperElement entry.key
        (entry.component.node.withChildren e.children))).elements
      = keyCount key (entry.component.node.withChildren e.children).elements
        + if entry.key = key then 1 else 0 := by
    rw [Task.elements, wrapperElement_elements, keyCount_cons]
    rfl
  have hleft : Call.trace env ⟨fuel, entry.inside, .element (wrapperElement entry.key
      (entry.component.node.withChildren e.children)), entry.context⟩ = wrapper.elements :=
    congrArg (·.1.1.elements) hgenerated
  rw [Call.Balanced, h.brings_eq he, hmade, htrace, htask, hstyled]
  simp only [List.map_append, List.map_map, List.map_cons, List.map_nil, List.sum_append,
    List.sum_cons, List.sum_nil, hgiven, hleft]
  change _ + (((propsCalls (generateElement env fuel at') at'.definitions e.attrs
      (combineProps at'.definitions.props entry.component.props)
      (c.reserve entry.component.node.keys)).map fun part => keyCount key part.1.elements).sum + _)
    ≤ _ + (((propsCalls (generateElement env fuel at') at'.definitions e.attrs
      (combineProps at'.definitions.props entry.component.props)
      (c.reserve entry.component.node.keys)).map fun part =>
        keyCount key (generateElement env fuel at' part.1 part.2).1.1.elements).sum + _)
  omega

end Instance

/-- Every call that succeeds is balanced. -/
theorem Call.Ends.balanced {call : Call} (hcall : call.Ordered) (h : call.Ends env c')
    (key : String) : call.Balanced env key := by
  rcases call with ⟨_ | fuel, at', node | r | e, c⟩
  · obtain ⟨_, _, hrun⟩ := Call.ends_node.1 h
    rw [generateNode] at hrun
    cases hrun
  · exact balanced_reference r
  · obtain ⟨_, _, hrun⟩ := Call.ends_element.1 h
    rw [generateElement] at hrun
    cases hrun
  · exact balanced_node node
  · exact balanced_reference r
  · by_cases he : e.isInstance
    · rcases fuel with _ | fuel
      · obtain ⟨_, _, hrun⟩ := Call.ends_element.1 h
        rw [generateElement_instance env 0 at' c he, expandInstance] at hrun
        cases hrun
      · obtain ⟨entry, wrapper, hrun⟩ := exists_instanceRun he h
        exact balanced_instance he (hcall.task e e.mem_elements) hrun
    · exact balanced_tag (by simpa using he) h

/-! ## The account of a run -/

/-- A sum over the calls of a run is that over the runs of the calls that are made, and the call
itself. -/
theorem sum_finished (f : Call → ℕ) (call : Call) : ((call.finished env).map f).sum
    = ((call.made env).map fun inner => ((inner.finished env).map f).sum).sum + f call := by
  rw [call.finished_eq, List.map_append, List.sum_append, List.map_singleton, List.sum_singleton]
  refine congrArg (· + f call) ?_
  generalize call.made env = calls
  induction calls with
  | nil => rfl
  | cons inner rest ih =>
    rw [List.flatMap_cons, List.map_append, List.sum_append, ih, List.map_cons, List.sum_cons]

/-- **The account of a run.** A key is no more often in what is left of a call, and in all trees that
are styled on the way, than in what the call is given and in what comes in on the way. -/
theorem Call.Ends.conserves (hplain : env.Plain) (hexternals : TidyExternals env.externals)
    {call : Call} (hcall : call.Ordered) (h : call.Ends env c') (key : String) :
    keyCount key (call.trace env)
        + ((call.finished env).map fun inner => keyCount key (inner.styledTree env)).sum
      ≤ keyCount key call.task.elements
        + ((call.finished env).map (Call.brings env key)).sum := by
  induction hfuel : call.fuel using Nat.strong_induction_on generalizing call c' with
  | h fuel ih =>
    have hbalanced := h.balanced hcall key
    have hinside : ((call.made env).map fun inner => keyCount key (inner.trace env)
          + ((inner.finished env).map fun inner => keyCount key (inner.styledTree env)).sum).sum
        ≤ ((call.made env).map fun inner => keyCount key inner.task.elements
          + ((inner.finished env).map (Call.brings env key)).sum).sum := by
      refine List.sum_le_sum fun inner hinner => ?_
      have hmakes := mem_made.1 hinner
      obtain ⟨before, -, hends, -, -⟩ := hmakes.ends hplain h
      exact ih inner.fuel (hfuel ▸ hmakes.fuel_lt) (hmakes.ordered hexternals hcall) hends rfl
    rw [List.sum_map_add, List.sum_map_add] at hinside
    rw [Call.Balanced] at hbalanced
    rw [sum_finished, sum_finished]
    omega

end Account

end PageCompiler
