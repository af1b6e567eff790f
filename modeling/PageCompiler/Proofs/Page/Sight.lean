import PageCompiler.Proofs.Page.Congruence
import PageCompiler.Proofs.Page.Descent

/-!
# What a run comes across

A run can only come across what its node uses, what the defaults in its scope use, and what the
components use. An instance is given elements and definitions of its caller, and a reference shows a
default, but nothing comes in from elsewhere.

* `Call.Sees`: a call has only uses of a kind before it; `Leads.sees` for the calls below it.
* `Call.sight`: all that a call can come across, and the identifiers there (`Call.InSight`).
-/

namespace PageCompiler

/-- What a task uses. -/
def Task.uses : Task → List Use
  | .node part => part.uses
  | .reference r => [.shown r]
  | .element e => e.uses

/-- What the nodes among some definitions use. -/
def Definitions.uses (ds : Definitions) : List Use :=
  nodesUses (defaultNodes ds.props ++ stateNodes ds.states)

/-- What a call can come across: what it is given, its scope and the components. -/
def Call.sight (env : Environment) (call : Call) : List Use :=
  call.task.uses ++ (call.place.definitions.uses ++ env.externals.flatMap (·.2.uses))

/-- A node that a default is uses nothing but what is of a kind. -/
def UsesOnly (A : Use → Prop) (default : Option Default) : Prop :=
  ∀ node, default = some (.node node) → ∀ u ∈ node.uses, A u

/-- The defaults of a scope use nothing but what is of a kind. -/
structure Definitions.Within (A : Use → Prop) (ds : Definitions) : Prop where
  props : ∀ entry ∈ ds.props, UsesOnly A entry.2.default
  states : ∀ entry ∈ ds.states, UsesOnly A entry.2.default

/-- A call is given nothing but what is of a kind, and has nothing else in its scope. -/
structure Call.Sees (A : Use → Prop) (call : Call) : Prop where
  task : ∀ u ∈ call.task.uses, A u
  scope : call.place.definitions.Within A

section Sight

variable {env : Environment} {A : Use → Prop} {call inner : Call} {c c' : Context} {u : Use}

theorem Definitions.mem_uses {ds : Definitions} : u ∈ ds.uses ↔
    ∃ node, (node ∈ defaultNodes ds.props ∨ node ∈ stateNodes ds.states) ∧ u ∈ node.uses := by
  rw [uses, mem_nodesUses]
  simp only [List.mem_append]

theorem Call.sees_sight (env : Environment) (call : Call) : call.Sees (· ∈ call.sight env) where
  task u hu := List.mem_append_left _ hu
  scope := by
    have hscope : ∀ u ∈ call.place.definitions.uses, u ∈ call.sight env := fun u hu =>
      List.mem_append_right _ (List.mem_append_left _ hu)
    refine ⟨fun entry hentry node hnode u hu => hscope u (Definitions.mem_uses.2 ⟨node, ?_, hu⟩),
      fun entry hentry node hnode u hu => hscope u (Definitions.mem_uses.2 ⟨node, ?_, hu⟩)⟩
    · exact Or.inl (mem_defaultNodes.2 ⟨entry, hentry, hnode⟩)
    · exact Or.inr (mem_stateNodes.2 ⟨entry, hentry, hnode⟩)

theorem Definitions.Within.value {ds : Definitions} (h : ds.Within A) {r : Reference}
    {v : ReferredValue} (hv : ds.find r = .ok v) : UsesOnly A v.default := by
  rcases Definitions.find_ok hv with ⟨-, d, hd, rfl⟩ | ⟨-, d, hd, rfl⟩
  · exact h.props _ (Dict.mem_of_get? hd)
  · exact h.states _ (Dict.mem_of_get? hd)

theorem usesOnly_value (content : Json) : UsesOnly A (some (.value content)) := nofun

/-! ## Scopes of instances -/

theorem usesOnly_instanceProp {ds : Definitions} (h : ds.Within A) {value : Attribute}
    {own d : PropDefinition} (hown : UsesOnly A own.default)
    (hd : instanceProp ds value own = .ok d) : UsesOnly A d.default := by
  rcases instanceProp_cases hd with ⟨content, hvalue⟩ | rfl | ⟨r, -, hfind⟩
  · rw [hvalue]
    exact usesOnly_value content
  · exact hown
  · exact h.value hfind

theorem usesOnly_instanceState {attrs : Attributes} {entry entry' : String × StateDefinition}
    (h : instanceState attrs entry = .ok entry') (hentry : UsesOnly A entry.2.default) :
    UsesOnly A entry'.2.default := by
  rcases (instanceState_cases h).2 with ⟨content, hvalue⟩ | hsame
  · rw [hvalue]
    exact usesOnly_value content
  · rwa [hsame]

section Props

variable {generate : Element → StateM Context (Generated Element Nat)} {caller : Definitions}
  {attrs attrs' : Attributes} {props out : Dict PropDefinition}

/-- The props that an instance is given use what its component, the caller and its attributes
use. -/
theorem usesOnly_generateProps (htrace : ∀ e c, (generate e c).1.1.uses ⊆ e.uses)
    (hcaller : caller.Within A) (hprops : ∀ entry ∈ props, UsesOnly A entry.2.default)
    (hattrs : ∀ u ∈ attributesUses attrs, A u)
    (hrun : generateProps generate caller attrs props c = ((attrs', .ok out), c')) :
    ∀ entry ∈ out, UsesOnly A entry.2.default := by
  induction props generalizing attrs c out with
  | nil =>
    obtain ⟨-, rfl, -⟩ := generateProps_ok_nil hrun
    exact fun _ h => by cases h
  | cons entry rest ih =>
    obtain ⟨name, own⟩ := entry
    obtain ⟨hown, hrest⟩ := List.forall_mem_cons.1 hprops
    rcases hvalue : Dict.get? attrs name with _ | value
    · obtain ⟨out', rfl, hlater⟩ := generateProps_ok_none hvalue hrun
      exact List.forall_mem_cons.2 ⟨hown, ih hrest hattrs hlater⟩
    by_cases helement : ∃ e, value = .element e
    · obtain ⟨e, rfl⟩ := helement
      obtain ⟨e', id, there, out', he, rfl, hlater⟩ := generateProps_ok_element hvalue hrun
      have hsub : e'.uses ⊆ e.uses := by
        have htrace := htrace e c
        rwa [he] at htrace
      have hmem := Dict.mem_of_get? hvalue
      refine List.forall_mem_cons.2 ⟨fun node hnode u hu => ?_, ih hrest (fun u hu => ?_) hlater⟩
      · cases hnode
        exact hattrs u (mem_attributesUses.2 ⟨_, hmem, hsub hu⟩)
      · exact hattrs u ((usesLess_insert hvalue hsub).uses hu)
    · obtain ⟨d, out', hprop, rfl, hlater⟩ :=
        generateProps_ok_plain hvalue (by simpa using helement) hrun
      exact List.forall_mem_cons.2
        ⟨usesOnly_instanceProp hcaller hown hprop, ih hrest hattrs hlater⟩

/-- The elements that the props of an instance come to use what its attributes use. -/
theorem PropsReach.uses_subset {x : Element} {there : Context}
    (htrace : ∀ e c, (generate e c).1.1.uses ⊆ e.uses)
    (h : PropsReach generate caller x there attrs props c) : x.uses ⊆ attributesUses attrs := by
  induction h with
  | here value => exact fun u hu => mem_attributesUses.2 ⟨_, Dict.mem_of_get? value, hu⟩
  | none _ _ ih | plain _ _ _ _ ih => exact ih
  | @element attrs name own rest e e' id c c' value run _ ih =>
    have hsub : e'.uses ⊆ e.uses := by
      have htrace := htrace e c
      rwa [run] at htrace
    exact List.Subset.trans ih (usesLess_insert value hsub).uses

end Props

/-- **A call** sees nothing that the call that makes it does not see, or a component uses. -/
theorem Makes.sees (hexternals : ∀ entry ∈ env.externals, ∀ u ∈ entry.2.uses, A u)
    (h : Makes env call inner) (hcall : call.Sees A) : inner.Sees A := by
  cases h with
  | content | reference => exact ⟨hcall.task, hcall.scope⟩
  | @body fuel at' q c shown =>
    refine ⟨fun u hu => hcall.task u ?_, hcall.scope⟩
    rw [Task.uses, Node.uses, Conditional.uses_eq]
    exact List.mem_append_right _ hu
  | @default fuel at' r v node c value kind default new =>
    exact ⟨hcall.scope.value (Definitions.value_ok value) node default, hcall.scope⟩
  | @child fuel at' e child c there tag reaches =>
    refine ⟨fun u hu => hcall.task u ?_, hcall.scope⟩
    exact Element.mem_uses.2 (Or.inr (Or.inr (mem_nodesUses.2 ⟨child, reaches.mem, hu⟩)))
  | @given fuel at' e x external states c there isInstance component accepted reaches =>
    refine ⟨fun u hu => hcall.task u ?_, hcall.scope⟩
    exact Element.mem_uses.2
      (Or.inr (Or.inl (reaches.uses_subset ((traces_use env fuel).element at') hu)))
  | @wrapper fuel at' e entry c isInstance entered =>
    obtain ⟨external, hexternal, hcomponent, hstates, hprops, -, -⟩ := enter?_eq_some entered
    have hcopy {node : Node} (h : node = (c.instantiate external).node ∨
        node ∈ defaultNodes (c.instantiate external).props ∨
        node ∈ stateNodes (c.instantiate external).states) : ∀ u ∈ node.uses, A u :=
      fun u hu => hexternals _ (Dict.mem_of_get? hexternal) u (mem_uses_copy c external h hu)
    rw [hcomponent] at hstates hprops ⊢
    refine ⟨fun u hu => ?_, ?_, ?_⟩
    · rw [Task.uses, wrapperElement_uses] at hu
      rcases mem_uses_withChildren hu with hown | hroot
      · exact hcall.task u (Element.mem_uses.2 (Or.inr (Or.inr hown)))
      · exact hcopy (Or.inl rfl) u hroot
    · refine usesOnly_generateProps ((traces_use env fuel).element at') hcall.scope
        (fun entry hentry node hnode => ?_) (fun u hu => hcall.task u
          (Element.mem_uses.2 (Or.inr (Or.inl hu)))) hprops
      rcases mem_combineProps hentry with ⟨hcaller, -⟩ | hown
      · exact hcall.scope.props entry hcaller node hnode
      · exact hcopy (Or.inr (Or.inl (mem_defaultNodes.2 ⟨entry, hown, hnode⟩)))
    · intro entry' hentry'
      obtain ⟨entry, hentry, hstate⟩ := exists_of_forall₂_right (forall₂_of_mapM hstates) hentry'
      refine usesOnly_instanceState hstate fun node hnode => ?_
      rcases Dict.mem_merge hentry with hcaller | hown
      · exact hcall.scope.states entry hcaller node hnode
      · exact hcopy (Or.inr (Or.inr (mem_stateNodes.2 ⟨entry, hown, hnode⟩)))

theorem Leads.sees (hexternals : ∀ entry ∈ env.externals, ∀ u ∈ entry.2.uses, A u)
    (h : Leads env call inner) (hcall : call.Sees A) : inner.Sees A := by
  induction h with
  | refl => exact hcall
  | tail _ hmakes ih => exact hmakes.sees hexternals ih

end Sight

/-! ## Identifiers in sight -/

/-- A use has an identifier: that of a reference, or a title that an instance can have. -/
def Use.Names : Use → String → Prop
  | .shown r, id => id = r.id
  | .inst name, id => id = "" ∨ registryName id = name
  | _, _ => False

/-- An identifier is in the sight of a call. -/
def Call.InSight (env : Environment) (call : Call) (id : String) : Prop :=
  ∃ u ∈ call.sight env, u.Names id

end PageCompiler
