import PageCompiler.Generator
import PageCompiler.Proofs.Page.Congruence

/-!
# Instances that do without their caller

An instance without children and without references among its attributes gets nothing from its
caller but the definitions that it sees beside its own. It is expanded in the same way wherever it
stands if all that is used in it is in sight: defined by the component that it is written in, or by
the component of the instance that it is given to.

* `InSight`: what is used in an instance, however deep, is in sight; `closed_inSight`.
* `expandInstance_ignoresCaller`: an instance in two scopes that agree on the names in sight.
* `listInstance_rejected`: an object that is given to a state of the caller.
-/

namespace PageCompiler

/-! ## Uses in sight -/

/-- The components that the expansion of an instance of a component can come to. -/
inductive LeadsTo (externals : Dict Component) : String → Component → Prop
  | itself {name : String} {c : Component} (external : Dict.get? externals name = some c) :
      LeadsTo externals name c
  | through {name inner : String} {c d : Component} (external : Dict.get? externals name = some c)
      (mem : .inst inner ∈ c.uses) (leads : LeadsTo externals inner d) : LeadsTo externals name d

/-- A use that asks for some names only; what an instance leads to uses the names that are defined
where it is written. -/
def InSight (externals : Dict Component) (names : NameSet) (u : Use) : Prop :=
  u.Within externals names ∧ ∀ name, u = .inst name → ∀ c, LeadsTo externals name c →
    ∀ u' ∈ c.uses, u'.Within externals (names.declare c)

section Sight

variable {externals : Dict Component} {names names' : NameSet}

theorem NameSet.Has.mono {r : Reference} (h : names.Has r) (hprops : names.props ⊆ names'.props)
    (hstates : names.states ⊆ names'.states) : names'.Has r :=
  ⟨fun hscope => hprops (h.1 hscope), fun hscope => hstates (h.2 hscope)⟩

theorem Use.Within.mono {u : Use} (h : u.Within externals names)
    (hprops : names.props ⊆ names'.props) (hstates : names.states ⊆ names'.states) :
    u.Within externals names' := by
  cases u with
  | definition r | shown r => exact NameSet.Has.mono h hprops hstates
  | inst _ | passed _ => trivial
  | givenProp component name => exact fun c hc => (h c hc).imp_left (@hprops name)
  | givenState component name => exact fun c hc => (h c hc).imp_left (@hstates name)

theorem declare_props_mono (hprops : names.props ⊆ names'.props) (c : Component) :
    (names.declare c).props ⊆ (names'.declare c).props := fun name => Or.imp_left (@hprops name)

theorem declare_states_mono (hstates : names.states ⊆ names'.states) (c : Component) :
    (names.declare c).states ⊆ (names'.declare c).states := fun name => Or.imp_left (@hstates name)

theorem InSight.mono {u : Use} (h : InSight externals names u)
    (hprops : names.props ⊆ names'.props) (hstates : names.states ⊆ names'.states) :
    InSight externals names' u :=
  ⟨h.1.mono hprops hstates, fun name hname c hc u' hu' => (h.2 name hname c hc u' hu').mono
    (declare_props_mono hprops c) (declare_states_mono hstates c)⟩

theorem subset_declare (names : NameSet) (c : Component) :
    names.props ⊆ (names.declare c).props ∧ names.states ⊆ (names.declare c).states :=
  ⟨fun _ => Or.inl, fun _ => Or.inl⟩

/-- **What is in sight** stays in sight, however deep instances are expanded. -/
theorem closed_inSight (externals : Dict Component) : Closed externals (InSight externals) where
  within := fun h => h.1
  enter := by
    intro names name c u hinst hexternal hu
    refine ⟨hinst.2 name rfl c (.itself hexternal) u hu, fun inner hinner d hd u' hu' => ?_⟩
    subst hinner
    have hsub := subset_declare names c
    exact (hinst.2 name rfl d (.through hexternal hu hd) u' hu').mono
      (declare_props_mono hsub.1 d) (declare_states_mono hsub.2 d)
  widen := fun c h => h.mono (subset_declare _ c).1 (subset_declare _ c).2

end Sight

/-! ## Rejected objects -/

theorem Dict.mem_keys_merge {α : Type} {base later : Dict α} (hlater : later.Sorted) {name : String} :
    name ∈ Dict.keys (Dict.merge base later) ↔ name ∈ Dict.keys later ∨ name ∈ Dict.keys base := by
  rw [← not_iff_not, not_or, ← Dict.get?_eq_none_iff, ← Dict.get?_eq_none_iff,
    ← Dict.get?_eq_none_iff, Dict.get?_merge _ hlater, Option.or_eq_none_iff]

/-- An object among the attributes is given to one of the states. -/
def GivesObject (attrs : Attributes) (states : Dict StateDefinition) (name : String) : Prop :=
  name ∈ Dict.keys states ∧ ∃ content, Dict.get? attrs name = some (.object content)

theorem instanceState_eq_error {attrs : Attributes} {entry : String × StateDefinition}
    {d : Diagnostic} (h : instanceState attrs entry = .error d) :
    d = .objectForState entry.1 ∧ ∃ content, Dict.get? attrs entry.1 = some (.object content) := by
  unfold instanceState at h
  split at h
  · rename_i content hvalue
    cases h
    exact ⟨rfl, content, hvalue⟩
  · split at h <;> cases h
  · cases h

/-- **The states of an instance are rejected** over the objects that are given to them, and over
nothing else. -/
theorem mapM_instanceState_eq_error {attrs : Attributes} {states : Dict StateDefinition}
    {d : Diagnostic} (h : states.mapM (instanceState attrs) = .error d) :
    ∃ name, GivesObject attrs states name ∧ d = .objectForState name := by
  induction states with
  | nil => cases h
  | cons entry rest ih =>
    rw [mapM_cons_eq] at h
    rcases hentry : instanceState attrs entry with d' | entry'
    · rw [hentry] at h
      cases h
      obtain ⟨rfl, hobject⟩ := instanceState_eq_error hentry
      exact ⟨entry.1, ⟨List.mem_cons_self, hobject⟩, rfl⟩
    · rw [hentry] at h
      rcases hrest : rest.mapM (instanceState attrs) with d' | rest'
      · rw [hrest] at h
        cases h
        obtain ⟨name, ⟨hname, hobject⟩, hd⟩ := ih hrest
        exact ⟨name, ⟨List.mem_cons_of_mem _ hname, hobject⟩, hd⟩
      · rw [hrest] at h
        cases h

theorem not_givesObject_of_mapM {attrs : Attributes} {states states' : Dict StateDefinition}
    (h : states.mapM (instanceState attrs) = .ok states') (name : String) :
    ¬ GivesObject attrs states name := by
  rintro ⟨hname, content, hvalue⟩
  obtain ⟨entry, hentry, rfl⟩ := List.mem_map.1 hname
  have hgiven : ∃ entry', instanceState attrs entry = .ok entry' := by
    have hrel := forall₂_of_mapM h
    clear h hname hvalue
    induction hrel with
    | nil => cases hentry
    | cons hstep _ ih => exact (List.mem_cons.1 hentry).elim (fun heq => ⟨_, heq ▸ hstep⟩) ih
  obtain ⟨entry', hok⟩ := hgiven
  rw [instanceState, hvalue] at hok
  cases hok

/-- The states of an instance are rejected exactly when an object is given to one of them. -/
theorem exists_mapM_instanceState_iff {attrs : Attributes} {states : Dict StateDefinition} :
    (∃ name, states.mapM (instanceState attrs) = .error (.objectForState name)) ↔
      ∃ name, GivesObject attrs states name := by
  constructor
  · rintro ⟨name, h⟩
    obtain ⟨other, hgives, -⟩ := mapM_instanceState_eq_error h
    exact ⟨other, hgives⟩
  · rintro ⟨name, hgives⟩
    rcases h : states.mapM (instanceState attrs) with d | states'
    · obtain ⟨other, -, rfl⟩ := mapM_instanceState_eq_error h
      exact ⟨other, rfl⟩
    · exact absurd hgives (not_givesObject_of_mapM h name)

/-! ## Instances in two scopes -/

/-- An attribute that is written out looks nothing up. -/
theorem Attribute.uses_of_literal {value : Attribute} (h : value.literal?.isSome) :
    value.uses = [] := by
  cases value <;> first | rfl | cases h

theorem Attribute.givenUses_of_literal {value : Attribute} (h : value.literal?.isSome)
    {component name : String} {u : Use} (hu : u ∈ value.givenUses component name) :
    u = .givenState component name ∧ ∃ content, value = .object content := by
  cases value with
  | object content => exact ⟨List.mem_singleton.1 hu, content, rfl⟩
  | constant _ | raw _ | imported _ | expr _ => cases hu
  | dynamic _ | element _ => cases h

/-- **An instance depends on its caller only through what is passed to it.** Take an instance
without children, all of whose attributes are written out, and two callers that agree on some names;
with no names, these are any two callers none of whose props but elements stands for a node. If all
that is used in the instance is in sight and objects are given to states in sight only, the two
expansions are the same. The states are rejected exactly when an object is given to a state of the
component or of the caller. -/
theorem expandInstance_ignoresCaller {env : Environment}
    (hstages : ∀ stage ∈ env.styleStage :: env.stages, stage.IgnoresScope) {names : NameSet}
    {a b : Definitions} (hagree : Agree (InSight env.externals) names a b) {e : Element}
    (he : e.isInstance) (hchildren : e.children = [])
    (hattrs : ∀ entry ∈ e.attrs, entry.2.literal?.isSome)
    (hsight : InSight env.externals names (.inst e.componentName))
    (hobjects : ∀ name content, (name, .object content) ∈ e.attrs →
      InSight env.externals names (.givenState e.componentName name))
    (fuel : Nat) (hierarchy : List String) (c : Context) :
    expandInstance env fuel ⟨a, hierarchy⟩ e c = expandInstance env fuel ⟨b, hierarchy⟩ e c ∧
      ∀ external, Dict.get? env.externals e.componentName = some external →
        external.states.Sorted →
        ((∃ name, (Dict.merge a.states external.states).mapM (instanceState e.attrs)
            = .error (.objectForState name)) ↔
          ∃ name content, Dict.get? e.attrs name = some (.object content) ∧
            (name ∈ Dict.keys external.states ∨ name ∈ Dict.keys a.states)) ∧
        ∀ d, (Dict.merge a.states external.states).mapM (instanceState e.attrs) = .error d →
          (expandInstance env (fuel + 1) ⟨a, hierarchy⟩ e c).1.2 = .error d := by
  refine ⟨?_, fun external hexternal hstates => ⟨?_, fun d hrejected => ?_⟩⟩
  · refine (generate_agreeing (closed_inSight env.externals) hstages fuel).expand hagree hierarchy
      he (fun u hu => ?_) c
    rcases Element.mem_uses.1 hu with hown | hattr | hchild
    · rw [Element.ownUses_instance he] at hown
      rcases List.mem_cons.1 hown with rfl | hgiven
      · exact hsight
      · obtain ⟨⟨name, value⟩, hentry, hu⟩ := List.mem_flatMap.1 hgiven
        obtain ⟨rfl, content, rfl⟩ := Attribute.givenUses_of_literal (hattrs _ hentry) hu
        exact hobjects name content hentry
    · obtain ⟨entry, hentry, hu⟩ := mem_attributesUses.1 hattr
      rw [Attribute.uses_of_literal (hattrs entry hentry)] at hu
      cases hu
    · rw [hchildren] at hchild
      cases hchild
  · rw [exists_mapM_instanceState_iff]
    refine exists_congr fun name => ?_
    rw [GivesObject, Dict.mem_keys_merge hstates, and_comm, exists_and_right]
  · rw [expandInstance_succ, hexternal]
    dsimp only
    rw [c.copy_states external, hrejected]

/-! ## A state of the caller -/

/-- The state that is given an object, of an outcome that is about one. -/
def rejectedState? {α : Type} : Except Diagnostic α → Option String
  | .error (.objectForState name) => some name
  | _ => none

theorem eq_error_of_rejectedState? {α : Type} {x : Except Diagnostic α} {name : String}
    (h : rejectedState? x = some name) : x = .error (.objectForState name) := by
  unfold rejectedState? at h
  split at h
  · cases h
    rfl
  · cases h

/-- Pages that can have instances of some components. -/
def pageEnvironment (externals : Dict Component) : Environment where
  externals
  styleStage := stylesheetStage templateChunkName none
  stages := []
  options := {}
  folder := []

theorem pageEnvironment_ignoresScope (externals : Dict Component) :
    ∀ stage ∈ (pageEnvironment externals).styleStage :: (pageEnvironment externals).stages,
      stage.IgnoresScope := by
  intro stage hstage
  rw [List.mem_singleton.1 hstage]
  exact stylesheetStage_ignoresScope _ _

/-- An instance of a component with an attribute. -/
def instanceWith (key component name : String) (value : Attribute) : Element where
  key
  elementType := component
  dependency := some { origin := .project }
  attrs := [(name, value)]

/-- A component that shows what it is given. -/
def listing : Component where
  name := "List"
  node := .element { elementType := "ul", children := [.dynamic { scope := .prop, id := "items" }] }
  props := [("items", { kind := "object", default := some (.value (.object [])) })]

/-- Pages that can have instances of `listing`. -/
def listingEnvironment : Environment := pageEnvironment [("List", listing)]

/-- An instance of `listing` that is given an object. -/
def listInstance : Element :=
  instanceWith "list" "List" "items" (.object (.object [("first", .string "tea")]))

/-- A scope with definitions that `listing` does not use. -/
def shopScope : Definitions where
  props := [("title", { kind := "string", default := some (.value (.string "Shop")) })]
  states := [("open", { kind := "boolean", default := some (.value (.bool true)) })]

/-- A scope with a state of the name of a prop of `listing`. -/
def itemsScope : Definitions where
  states := [("items", { kind := "string", default := some (.value (.string "none")) })]

theorem listing_inSight (names : NameSet) :
    InSight listingEnvironment.externals names (.inst "List") := by
  refine ⟨trivial, fun name hname c hc u hu => ?_⟩
  cases hname
  have hlisting : c = listing := by
    cases hc with
    | itself external => exact (Option.some.inj external).symm
    | through external mem leads =>
      cases external
      cases List.mem_singleton.1 mem
  subst hlisting
  obtain rfl := List.mem_singleton.1 hu
  exact ⟨fun _ => Or.inr List.mem_cons_self, nofun⟩

/-- An object is rejected over a state of the caller, though the component has no states. -/
theorem listInstance_rejected :
    listInstance.isInstance ∧ listInstance.children = [] ∧
      (∀ entry ∈ listInstance.attrs, entry.2.literal?.isSome) ∧ listing.states = [] ∧
      InSight listingEnvironment.externals ⟨∅, ∅⟩ (.inst listInstance.componentName) ∧
      (expandInstance listingEnvironment 6 ⟨itemsScope, []⟩ listInstance {}).1.2
        = .error (.objectForState "items") ∧
      ∃ id, (expandInstance listingEnvironment 6 ⟨{}, []⟩ listInstance {}).1.2 = .ok id :=
  ⟨rfl, rfl, by decide, rfl, listing_inSight _, eq_error_of_rejectedState? (by decide +kernel),
    exists_of_isOk (by decide +kernel)⟩

theorem listInstance_ignoresShop :
    (∀ stage ∈ listingEnvironment.styleStage :: listingEnvironment.stages, stage.IgnoresScope) ∧
      Agree (InSight listingEnvironment.externals) ⟨∅, {"items"}⟩ shopScope {} ∧
      InSight listingEnvironment.externals ⟨∅, {"items"}⟩ (.inst "List") ∧
      InSight listingEnvironment.externals ⟨∅, {"items"}⟩ (.givenState "List" "items") ∧
      ∀ fuel hierarchy c, expandInstance listingEnvironment fuel ⟨shopScope, hierarchy⟩ listInstance c
        = expandInstance listingEnvironment fuel ⟨{}, hierarchy⟩ listInstance c := by
  have hstages := pageEnvironment_ignoresScope [("List", listing)]
  have hagree : Agree (InSight listingEnvironment.externals) ⟨∅, {"items"}⟩ shopScope {} := {
    prop := nofun
    state := fun name hname => by
      rw [Set.mem_singleton_iff.1 hname]
      rfl
    sorted := ⟨by decide, by decide⟩
    sorted' := ⟨by decide, by decide⟩
    propDefault := nofun
    stateDefault := fun name hname d hd => by
      rw [Set.mem_singleton_iff.1 hname] at hd
      cases hd
    plain := fun entry hentry _ _ node hnode => by
      rw [List.mem_singleton.1 hentry] at hnode
      cases hnode
    plain' := nofun }
  have hgiven : InSight listingEnvironment.externals ⟨∅, {"items"}⟩ (.givenState "List" "items") :=
    ⟨fun _ _ => Or.inl rfl, nofun⟩
  refine ⟨hstages, hagree, listing_inSight _, hgiven, fun fuel hierarchy c => ?_⟩
  refine (expandInstance_ignoresCaller hstages hagree (e := listInstance) rfl rfl (by decide)
    (listing_inSight _) (fun name content hentry => ?_) fuel hierarchy c).1
  cases List.mem_singleton.1 hentry
  exact hgiven

end PageCompiler
