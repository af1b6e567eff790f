import PageCompiler.Proofs.Page.Assembly
import PageCompiler.Proofs.Page.Calls
import PageCompiler.Proofs.Page.Forwarding

/-!
# Pages without self-reference

The generation of an instance goes on with the tree of its component, and that of a reference with
the default of a prop. A page ends if no component leads back to itself by the instances in it, and
if within a component no default leads back to itself by the references in it.

What a component is given can break this order: a default that is forwarded is generated in the scope
of the component that it is given to, and its references name the props of that component. So the
defaults that are forwarded must have neither references nor instances, and neither must those of
states, which every instance sees.

* `ScopeOf`: a scope that instances of a component can have; `scopeOf_instance`.
* `settled`: references in the scope of a component, and its instances, end.
* `generate_ends`: pages without self-reference.
* `loopingPage_endless`: a forwarded default that leads back to itself.
-/

namespace PageCompiler

/-! ## Self-reference -/

/-- A component has an instance of another one in its tree or in the default of a prop. -/
def Mentions (externals : Dict Component) (c d : Component) : Prop :=
  ∃ name, .inst name ∈ nodesUses c.trees ∧ Dict.get? externals name = some d

/-- A prop stands for an element, the given one. -/
def PropDefinition.ShowsNode (d : PropDefinition) (node : Node) : Prop :=
  d.kind = "element" ∧ d.default = some (.node node)

/-- A state stands for an element, the given one. -/
def StateDefinition.ShowsNode (d : StateDefinition) (node : Node) : Prop :=
  d.kind = "element" ∧ d.default = some (.node node)

/-- The default of a prop shows another prop of the component. -/
def Component.DefaultShows (c : Component) (p q : String) : Prop :=
  ∃ d node r, Dict.get? c.props p = some d ∧ d.ShowsNode node ∧ .shown r ∈ node.uses ∧
    r.scope = .prop ∧ r.id = q

/-- A node without references and instances. -/
def Node.Still (node : Node) : Prop :=
  ∀ u ∈ node.uses, (∀ r, u ≠ .shown r) ∧ ∀ name, u ≠ .inst name

section Page

variable (externals : Dict Component) (page : Component)

/-- No component leads back to itself by the instances in it, and no default of a prop leads back to
itself by the references in it. -/
structure NotSelfReferencing : Prop where
  components : ∀ c, ¬ Relation.TransGen (Mentions externals) c c
  defaults : ∀ c, TakesPart externals page c → ∀ name, ¬ Relation.TransGen c.DefaultShows name name

/-- Some instance is given the definition of a reference. -/
def PassedOn (r : Reference) : Prop :=
  ∃ c, TakesPart externals page c ∧ .passed r ∈ nodesUses c.trees

/-- The elements that come into the scope of another component as they are written have neither
references nor instances: those of props that are passed on, and those of states. -/
structure PassesStill : Prop where
  prop : ∀ {r}, PassedOn externals page r → r.scope = .prop → ∀ {c}, TakesPart externals page c →
    ∀ {d node}, Dict.get? c.props r.id = some d → d.ShowsNode node → node.Still
  state : ∀ {c}, TakesPart externals page c → ∀ {name d node}, Dict.get? c.states name = some d →
    d.ShowsNode node → node.Still

end Page

/-- A relation with finitely many targets and no cycles is well-founded. -/
theorem wellFounded_of_acyclic {α : Type} {r : α → α → Prop} {targets : Set α}
    (hfinite : targets.Finite) (htargets : ∀ {a b}, r a b → b ∈ targets)
    (hacyclic : ∀ a, ¬ Relation.TransGen r a a) :
    WellFounded fun b a => Relation.TransGen r a b := by
  let below : α → α → Prop := fun b a => Relation.TransGen r a b
  have htarget : ∀ {a b}, Relation.TransGen r a b → b ∈ targets := fun h => by
    cases h with
    | single h => exact htargets h
    | tail _ h => exact htargets h
  have : IsTrans α below := ⟨fun _ _ _ hab hbc => hbc.trans hab⟩
  have : Std.Irrefl below := ⟨hacyclic⟩
  have : IsStrictOrder α below := {}
  have hacc : ∀ {b}, b ∈ targets → Acc below b := fun hb =>
    (hfinite.wellFoundedOn (r := below)).induction hb fun b _ ih =>
      ⟨_, fun a hab => ih a (htarget hab) hab⟩
  exact ⟨fun a => ⟨_, fun b hb => hacc (htarget hb)⟩⟩

theorem mentions_wellFounded {externals : Dict Component} {page : Component}
    (h : NotSelfReferencing externals page) :
    WellFounded fun d c => Relation.TransGen (Mentions externals) c d := by
  refine wellFounded_of_acyclic (externals.map (·.2)).finite_toSet (fun h => ?_) h.components
  obtain ⟨name, -, hget⟩ := h
  exact List.mem_map.2 ⟨_, Dict.mem_of_get? hget, rfl⟩

theorem mem_nodesUses_trees {c : Component} {name : String} {d : PropDefinition} {node : Node}
    (hget : Dict.get? c.props name = some d) (hnode : d.default = some (.node node)) {u : Use}
    (hu : u ∈ node.uses) : u ∈ nodesUses c.trees :=
  mem_nodesUses.2 ⟨node, List.mem_cons_of_mem _
    (mem_defaultNodes.2 ⟨_, Dict.mem_of_get? hget, hnode⟩), hu⟩

/-- The reference that a node shows for a use. -/
def Use.shownName : Use → String
  | .shown r => r.id
  | _ => ""

theorem defaultShows_wellFounded {c : Component}
    (h : ∀ name, ¬ Relation.TransGen c.DefaultShows name name) :
    WellFounded fun q p => Relation.TransGen c.DefaultShows p q := by
  refine wellFounded_of_acyclic ((nodesUses c.trees).map Use.shownName).finite_toSet (fun h => ?_) h
  obtain ⟨d, node, r, hget, hshows, hmem, -, rfl⟩ := h
  exact List.mem_map.2 ⟨_, mem_nodesUses_trees hget hshows.2 hmem, rfl⟩

/-! ## Scopes of a component -/

/-- An element whose generation goes no further: it has neither references nor instances, or it is
registered. -/
def Harmless (c : Context) (node : Node) : Prop := node.Still ∨ (node.registered? c).isSome

theorem Node.registered?_mono {c c' : Context} (h : c.Extends c') {node : Node}
    (hregistered : (node.registered? c).isSome) : (node.registered? c').isSome := by
  cases node with
  | element e =>
    obtain ⟨id, hid⟩ := Option.isSome_iff_exists.1 hregistered
    exact Option.isSome_iff_exists.2 ⟨id, h.lookup hid⟩
  | _ => cases hregistered

theorem Harmless.mono {c c' : Context} {node : Node} (h : Harmless c node) (hextends : c.Extends c') :
    Harmless c' node := h.imp_right (Node.registered?_mono hextends)

/-- A scope of a component: what the elements in it use is used by the defaults of the component, or
they are harmless. -/
structure ScopeOf (component : Component) (c : Context) (ds : Definitions) : Prop where
  sorted : ds.Sorted
  prop : ∀ {name d node}, Dict.get? ds.props name = some d → d.ShowsNode node → Harmless c node ∨
    ∃ own original, Dict.get? component.props name = some own ∧ own.ShowsNode original ∧
      node.uses = original.uses
  state : ∀ {name d node}, Dict.get? ds.states name = some d → d.ShowsNode node → node.Still

theorem ScopeOf.mono {component : Component} {c c' : Context} {ds : Definitions}
    (h : ScopeOf component c ds) (hextends : c.Extends c') : ScopeOf component c' ds where
  sorted := h.sorted
  prop hget hshows := (h.prop hget hshows).imp_left (·.mono hextends)
  state := h.state

theorem get?_claimDefaultKeys {props : Dict PropDefinition} {l : KeyLedger} {name : String}
    {d' : PropDefinition} (h : Dict.get? (claimDefaultKeys props l).1 name = some d') {node' : Node}
    (hshows : d'.ShowsNode node') :
    ∃ d node, Dict.get? props name = some d ∧ d.ShowsNode node ∧ node'.uses = node.uses := by
  induction props generalizing l with
  | nil => cases h
  | cons entry rest ih =>
    obtain ⟨other, kind, default, isRequired⟩ := entry
    rw [claimDefaultKeys_cons] at h
    dsimp only at h
    rw [Dict.get?_cons] at h
    simp only [Dict.get?_cons]
    split at h
    · rename_i heq
      rw [if_pos heq]
      cases h
      obtain ⟨hkind, hdefault⟩ := hshows
      rcases default with _ | node | value
      · cases hdefault
      · cases hdefault
        exact ⟨_, node, rfl, ⟨hkind, rfl⟩, node.uses_claimKeys l⟩
      · cases hdefault
    · rename_i hne
      rw [if_neg hne]
      exact ih h

section Scope

variable {env : Environment} {page : Component}

theorem scopeOf_page (hsorted : page.props.Sorted ∧ page.states.Sorted)
    (hstill : PassesStill env.externals page) (c : Context) :
    ScopeOf page c ⟨page.props, page.states⟩ where
  sorted := ⟨hsorted.1, hsorted.2⟩
  prop hget hshows := Or.inr ⟨_, _, hget, hshows, rfl⟩
  state hget hshows := hstill.state (Or.inl rfl) hget hshows

theorem passed_mem_ownUses {e : Element} (he : e.isInstance = true) {name : String} {r : Reference}
    (h : Dict.get? e.attrs name = some (.dynamic r)) : .passed r ∈ e.ownUses := by
  rw [Element.ownUses_instance he]
  refine List.mem_cons_of_mem _ (List.mem_flatMap.2 ⟨_, Dict.mem_of_get? h, ?_⟩)
  exact List.mem_cons_of_mem _ List.mem_cons_self

/-- **The scope of an instance** is a scope of its component. -/
theorem scopeOf_instance (hstill : PassesStill env.externals page) {caller external : Component}
    (hcaller : TakesPart env.externals page caller) {e : Element} (he : e.isInstance = true)
    (hexternal : Dict.get? env.externals e.componentName = some external)
    (hsorted : external.props.Sorted ∧ external.states.Sorted)
    (hpassed : ∀ r, .passed r ∈ e.ownUses → PassedOn env.externals page r) {fuel : Nat}
    {at' : Surroundings} {c c' : Context} (hscope : ScopeOf caller c at'.definitions)
    {attrs : Attributes} {props : Dict PropDefinition} {states : Dict StateDefinition}
    (hstates : (Dict.merge at'.definitions.states (c.instantiate external).states).mapM
      (instanceState e.attrs) = .ok states)
    (hprops : generateProps (generateElement env fuel at') at'.definitions e.attrs
        (combineProps at'.definitions.props (c.instantiate external).props)
        (c.reserve (c.instantiate external).node.keys) = ((attrs, .ok props), c')) :
    ScopeOf external c' ⟨props, states⟩ := by
  have hinside : Inside (generateElement env fuel at') e.attrs at'.definitions
      (c.instantiate external) ⟨props, states⟩ :=
    .of_run hscope.sorted (hsorted.1.of_keys (c.copy_props_keys external)) hsorted.2 hstates
      (congrArg (·.1.2) hprops)
  have hextends : c.Extends c' := given_extends hprops
  refine ⟨hinside.sorted, fun {name d node} hget hshows => ?_, fun {name d node} hget hshows => ?_⟩
  · cases hinside.prop_stems hscope.sorted.props hprops hget hshows.2 with
    | own own => exact Or.inr (get?_claimDefaultKeys own hshows)
    | outer _ kind => exact absurd hshows.1 kind
    | given _ node_eq _ registered => exact Or.inl (node_eq ▸ Or.inr registered)
    | @passedProp r found value scope get kind_eq default =>
      rcases hscope.prop get ⟨kind_eq.trans hshows.1, default⟩ with
        hharmless | ⟨own, original, hown, hshown, huses⟩
      · exact Or.inl (hharmless.mono hextends)
      · have horiginal := hstill.prop (hpassed r (passed_mem_ownUses he value)) scope hcaller hown
          hshown
        exact Or.inl (Or.inl fun u hu => horiginal u (huses ▸ hu))
    | passedState _ _ get kind_eq default =>
      exact Or.inl (Or.inl (hscope.state get ⟨kind_eq.trans hshows.1, default⟩))
  · rcases hinside.state_stems hget hshows.2 with hcopy | houter
    · exact hstill.state (Or.inr ⟨_, hexternal⟩) hcopy hshows
    · exact hscope.state houter hshows

end Scope

/-! ## Settled components -/

section Settled

variable (env : Environment) (page : Component)

/-- The places in scopes of a component and of those that it leads to. -/
def Below (component : Component) (at' : Surroundings) (c : Context) : Prop :=
  ∃ d, Relation.ReflTransGen (Mentions env.externals) component d ∧ ScopeOf d c at'.definitions

/-- References in the scopes of a component end, and so do its instances, wherever they stand, if the
elements among their attributes and their children do. -/
structure Settled (component : Component) : Prop where
  reference : ∀ r at' c, ScopeOf component c at'.definitions →
    Ends id fun fuel => generateReference env fuel at' r c
  expand : ∀ {e : Element}, e.isInstance →
    Dict.get? env.externals e.componentName = some component →
    (∀ r, .passed r ∈ e.ownUses → PassedOn env.externals page r) →
    (∀ child ∈ e.children, EndsIn env (Below env component) child) →
    ∀ {caller}, TakesPart env.externals page caller →
    ∀ {at' c}, ScopeOf caller c at'.definitions →
    (∀ name x, Dict.get? e.attrs name = some (.element x) → ∀ c', c.Extends c' →
      Ends Prod.snd fun fuel => generateElement env fuel at' x c') →
    Ends Prod.snd fun fuel => expandInstance env fuel at' e c

/-- Uses that end in the places below a component. -/
def Fine (component : Component) : Use → Prop
  | .shown r => ∀ at' c, Below env component at' c →
      Ends id fun fuel => generateReference env fuel at' r c
  | .inst name => ∀ d, Dict.get? env.externals name = some d →
      Mentions env.externals component d ∧ Settled env page d
  | .passed r => PassedOn env.externals page r
  | _ => True

variable {env page} {component : Component}

theorem Below.mono {at' : Surroundings} {c c' : Context} (h : Below env component at' c)
    (hextends : c.Extends c') : Below env component at' c' := by
  obtain ⟨d, hd, hscope⟩ := h
  exact ⟨d, hd, hscope.mono hextends⟩

theorem Below.of_mentions {d : Component} (hd : Mentions env.externals component d)
    {at' : Surroundings} {c : Context} (h : Below env d at' c) : Below env component at' c := by
  obtain ⟨d', hd', hscope⟩ := h
  exact ⟨d', .head hd hd', hscope⟩

theorem takesPart_of_leads (h : TakesPart env.externals page component) {d : Component}
    (hd : Relation.ReflTransGen (Mentions env.externals) component d) :
    TakesPart env.externals page d := by
  cases hd with
  | refl => exact h
  | tail _ hd => exact Or.inr ⟨hd.choose, hd.choose_spec.2⟩

/-- A node without references and instances ends everywhere. -/
theorem Node.Still.ends {node : Node} (h : node.Still) (at' : Surroundings) (c : Context) :
    Ends Prod.snd fun fuel => generateNode env fuel at' node c := by
  let quiet (u : Use) : Prop := (∀ r, u ≠ .shown r) ∧ ∀ name, u ≠ .inst name
  have hhandles : Handles env (fun _ _ => True) quiet := {
    mono := fun _ _ => trivial
    shown := fun h => absurd rfl (h.1 _)
    expand := fun {e} he huses => by
      have hinst : quiet (.inst e.componentName) := huses _ (by
        rw [Element.ownUses_instance he]
        exact List.mem_cons_self)
      exact absurd rfl (hinst.2 _) }
  have hbuilt : Built quiet [] node := node.built h
  exact hbuilt.endsIn hhandles nofun at' c trivial

/-- An instance of a component that is missing ends. -/
theorem expandInstance_missing {e : Element} (h : Dict.get? env.externals e.componentName = none)
    (at' : Surroundings) (c : Context) :
    Ends Prod.snd fun fuel => expandInstance env fuel at' e c := by
  refine .succ ?_
  simp only [expandInstance_succ, h]
  exact .failed e nofun

/-- What is fine is handled in the places below a component. -/
theorem handles_fine (hcomponent : TakesPart env.externals page component) :
    Handles env (Below env component) (Fine env page component) where
  mono := .mono
  shown h := h
  expand {e} he huses hattrs hchildren at' c hplace := by
    rcases hexternal : Dict.get? env.externals e.componentName with _ | external
    · exact expandInstance_missing hexternal at' c
    obtain ⟨caller, hcaller, hscope⟩ := hplace
    have hinst : Fine env page component (.inst e.componentName) := huses _ (by
      rw [Element.ownUses_instance he]
      exact List.mem_cons_self)
    obtain ⟨hmentions, hsettled⟩ := hinst external hexternal
    refine hsettled.expand he hexternal (fun r hr => huses _ hr) (fun child hchild =>
      (hchildren child hchild).mono fun _ _ => .of_mentions hmentions)
      (takesPart_of_leads hcomponent hcaller) hscope fun name x hx c' hc' => ?_
    exact generateElement_ends_of_node
      (hattrs name x hx at' c' ⟨caller, hcaller, hscope.mono hc'⟩)

section Induction

variable (hcomponent : TakesPart env.externals page component)
  (hbelow : ∀ d, Relation.TransGen (Mentions env.externals) component d → Settled env page d)

include hcomponent hbelow

theorem fine_of_written {u : Use} (hu : u ∈ nodesUses component.trees)
    (hshown : ∀ r, u = .shown r → Fine env page component u) : Fine env page component u := by
  cases u with
  | shown r => exact hshown r rfl
  | inst name =>
    intro d hd
    have hmentions : Mentions env.externals component d := ⟨name, hu, hd⟩
    exact ⟨hmentions, hbelow d (.single hmentions)⟩
  | passed r => exact ⟨component, hcomponent, hu⟩
  | definition _ | givenProp _ _ | givenState _ _ => trivial

/-- A reference ends below a component if it does in the scopes of the component itself. -/
theorem fine_shown {r : Reference} (h : ∀ at' c, ScopeOf component c at'.definitions →
    Ends id fun fuel => generateReference env fuel at' r c) : Fine env page component (.shown r) := by
  rintro at' c ⟨d, hd, hscope⟩
  rcases Relation.reflTransGen_iff_eq_or_transGen.1 hd with rfl | hd
  · exact h at' c hscope
  · exact (hbelow d hd).reference r at' c hscope

omit hbelow in
/-- A reference ends if it does not stand for a default of the component, or if that default ends. -/
theorem reference_ends {r : Reference} (h : r.scope = .prop → ∀ own original,
      Dict.get? component.props r.id = some own → own.ShowsNode original →
      ∀ u ∈ original.uses, Fine env page component u)
    (at' : Surroundings) (c : Context) (hscope : ScopeOf component c at'.definitions) :
    Ends id fun fuel => generateReference env fuel at' r c := by
  refine generateReference_ends fun v node hvalue hkind hdefault hregistered => ?_
  rcases Definitions.find_ok (Definitions.value_ok hvalue) with
    ⟨hprop, d, hd, rfl⟩ | ⟨-, d, hd, rfl⟩
  · rcases hscope.prop hd ⟨hkind, hdefault⟩ with
      (hstill | hharmless) | ⟨own, original, hown, hshows, huses⟩
    · exact hstill.ends at' c
    · rw [hregistered] at hharmless
      cases hharmless
    · have hfine := h hprop own original hown hshows
      rw [← huses] at hfine
      have hbuilt : Built (Fine env page component) [] node := node.built hfine
      exact hbuilt.endsIn (handles_fine hcomponent) nofun at' c ⟨component, .refl, hscope⟩
  · exact (hscope.state hd ⟨hkind, hdefault⟩).ends at' c

/-- **References end** in the scopes of a component, by induction on the references among its
defaults. -/
theorem references_end (hself : NotSelfReferencing env.externals page) (r : Reference) :
    Fine env page component (.shown r) := by
  have hstep : ∀ name, ∀ r : Reference, r.scope = .prop → r.id = name →
      Fine env page component (.shown r) := fun name => by
    induction name using (defaultShows_wellFounded (hself.defaults component hcomponent)).induction
    rename_i name ih
    rintro r - rfl
    refine fine_shown hcomponent hbelow (reference_ends hcomponent
      fun _ own original hown hshows u hu => ?_)
    refine fine_of_written hcomponent hbelow (mem_nodesUses_trees hown hshows.2 hu) ?_
    rintro r' rfl
    by_cases hscope : r'.scope = .prop
    · exact ih r'.id (.single ⟨own, original, r', hown, hshows, hu, hscope, rfl⟩) r' hscope rfl
    · exact fine_shown hcomponent hbelow
        (reference_ends hcomponent fun hprop => absurd hprop hscope)
  by_cases hscope : r.scope = .prop
  · exact hstep _ r hscope rfl
  · exact fine_shown hcomponent hbelow
      (reference_ends hcomponent fun hprop => absurd hprop hscope)

/-- What is written in the tree of a component is fine. -/
theorem fine_tree (hself : NotSelfReferencing env.externals page) {u : Use}
    (hu : u ∈ component.node.uses) : Fine env page component u := by
  have hmem : u ∈ nodesUses component.trees :=
    mem_nodesUses.2 ⟨_, List.mem_cons_self, hu⟩
  refine fine_of_written hcomponent hbelow hmem ?_
  rintro r rfl
  exact references_end hcomponent hbelow hself r

end Induction

/-- **Every component is settled,** by induction on the components that it leads to. -/
theorem settled (hstages : ∀ stage ∈ env.styleStage :: env.stages, stage.Answers)
    (hsorted : ∀ c, TakesPart env.externals page c → c.props.Sorted ∧ c.states.Sorted)
    (hself : NotSelfReferencing env.externals page) (hstill : PassesStill env.externals page)
    (component : Component) (hcomponent : TakesPart env.externals page component) :
    Settled env page component := by
  induction component using (mentions_wellFounded hself).induction
  rename_i component ih
  have hbelow : ∀ d, Relation.TransGen (Mentions env.externals) component d →
      Settled env page d := fun d hd => ih d hd (takesPart_of_leads hcomponent hd.to_reflTransGen)
  refine ⟨fun r at' c hscope => ?_, ?_⟩
  · exact references_end hcomponent hbelow hself r at' c ⟨component, .refl, hscope⟩
  intro e he hexternal hpassed hchildren caller hcaller at' c hscope hattrs
  refine expandInstance_ends hstages hscope.sorted.props hattrs ?_
  intro external hexternal' fuel attrs props states c' hstates hprops c'' hc''
  obtain rfl := Option.some.inj (hexternal.symm.trans hexternal')
  have hinside := scopeOf_instance hstill hcaller he hexternal (hsorted _ hcomponent) hpassed hscope
    hstates hprops
  have hbuilt : Built (Fine env page component) e.children
      ((c.instantiate component).node.withChildren e.children) :=
    built_withChildren fun u hu =>
      fine_tree hcomponent hbelow hself (uses_copy_node c component ▸ hu)
  exact hbuilt.endsIn (handles_fine hcomponent) hchildren _ c''
    ⟨component, .refl, hinside.mono hc''⟩

end Settled

/-! ## Short ways -/

/-- Components without instances do not lead back to themselves. -/
theorem not_mentions_self {externals : Dict Component}
    (h : ∀ name c, Dict.get? externals name = some c → ∀ inner, .inst inner ∉ nodesUses c.trees)
    (c : Component) : ¬ Relation.TransGen (Mentions externals) c c := by
  intro hc
  obtain ⟨_, -, name, -, hget⟩ := Relation.TransGen.tail'_iff.1 hc
  obtain ⟨_, ⟨inner, hinner, -⟩, -⟩ := Relation.TransGen.head'_iff.1 hc
  exact h name c hget inner hinner

/-- Defaults that show props without such a default do not lead back to themselves. -/
theorem not_defaultShows_self {c : Component}
    (h : ∀ p q, c.DefaultShows p q → ∀ q', ¬ c.DefaultShows q q') (name : String) :
    ¬ Relation.TransGen c.DefaultShows name name := by
  intro hc
  obtain ⟨_, -, hlast⟩ := Relation.TransGen.tail'_iff.1 hc
  obtain ⟨_, hfirst, -⟩ := Relation.TransGen.head'_iff.1 hc
  exact h _ _ hlast _ hfirst

theorem get?_singleton {α : Type} {key name : String} {value other : α}
    (h : Dict.get? [(key, value)] name = some other) : name = key ∧ other = value := by
  cases List.mem_singleton.1 (Dict.mem_of_get? h)
  exact ⟨rfl, rfl⟩

/-! ## Pages -/

/-- **The generation of a page ends:** from some depth on it does the same, without having met the
limit, if no component leads back to itself by its instances, and no default by its references, and
what comes into the scope of another component as it is written has neither. The one exception is a
page on which all keys that could be tried for some wrapper are used. -/
theorem generate_ends {env : Environment} {page : Component}
    (hstages : ∀ stage ∈ env.styleStage :: env.stages, stage.Answers)
    (hsorted : ∀ c, TakesPart env.externals page c → c.props.Sorted ∧ c.states.Sorted)
    (hself : NotSelfReferencing env.externals page) (hstill : PassesStill env.externals page)
    (hierarchy : List String) (c : Context) :
    let run fuel := generateNode env fuel ⟨⟨page.props, page.states⟩, hierarchy⟩ page.node c
    ∃ n, (∀ fuel, n ≤ fuel → run fuel = run n) ∧
      ((run n).1.2 = .error .endless → (run n).2.Crowded) := by
  have hpage : TakesPart env.externals page page := Or.inl rfl
  have hbelow : ∀ d, Relation.TransGen (Mentions env.externals) page d → Settled env page d :=
    fun d hd => settled hstages hsorted hself hstill d
      (takesPart_of_leads hpage hd.to_reflTransGen)
  have hbuilt : Built (Fine env page page) [] page.node :=
    page.node.built fun u hu => fine_tree hpage hbelow hself hu
  exact hbuilt.endsIn (handles_fine hpage) nofun _ c
    ⟨page, .refl, scopeOf_page (hsorted page hpage) hstill c⟩

/-- A badge, which neither shows anything nor holds an instance. -/
def badge : Element where
  key := "badge"
  elementType := "b"
  children := [.raw "new"]

/-- A page that hands a badge on to a panel, with an introduction that shows a name. -/
def badgePage : Component where
  name := "Page"
  node := .element {
    elementType := "div"
    children := [.element (instanceWith "panel" "Panel" "content" (.dynamic (.toProp "badge"))),
      .dynamic (.toProp "intro")] }
  props := [("badge", { kind := "element", default := some (.node (.element badge)) }),
    ("intro", { kind := "element", default := some (.node (.element
      { key := "intro", elementType := "span", children := [.dynamic (.toProp "name")] })) }),
    ("name", { kind := "string", default := some (.value (.string "Ada")) })]

/-- Pages that can have panels. -/
def panelEnvironment : Environment := pageEnvironment [("Panel", panel)]

theorem panel_shows_nothing {d : PropDefinition} {name : String}
    (h : Dict.get? panel.props name = some d) (node : Node) : ¬ d.ShowsNode node := by
  obtain ⟨-, rfl⟩ := get?_singleton h
  exact fun hshows => nomatch hshows.2

theorem badgePage_notSelfReferencing :
    NotSelfReferencing panelEnvironment.externals badgePage := by
  refine ⟨not_mentions_self fun name c hget inner hinner => ?_, fun c hc =>
    not_defaultShows_self ?_⟩
  · obtain ⟨-, rfl⟩ := get?_singleton hget
    cases List.mem_singleton.1 hinner
  · rintro p q ⟨d, node, r, hget, hshows, hmem, -, rfl⟩ q' ⟨d', node', r', hget', hshows', -⟩
    rcases hc with rfl | ⟨name, hexternal⟩
    · have hentry := Dict.mem_of_get? hget
      simp only [badgePage, List.mem_cons, Prod.mk.injEq, List.not_mem_nil, or_false] at hentry
      rcases hentry with ⟨-, rfl⟩ | ⟨-, rfl⟩ | ⟨-, rfl⟩
      · cases hshows.2
        cases hmem
      · cases hshows.2
        cases List.mem_singleton.1 hmem
        cases hget'
        cases hshows'.2
      · cases hshows.2
    · obtain ⟨-, rfl⟩ := get?_singleton hexternal
      exact panel_shows_nothing hget _ hshows

theorem badgePage_passesStill : PassesStill panelEnvironment.externals badgePage where
  prop := by
    rintro r ⟨c, hc, hpassed⟩ - c' hc' d node hget hshows
    have hbadge : r = .toProp "badge" := by
      rcases hc with rfl | ⟨name, hexternal⟩
      · have huses : nodesUses badgePage.trees = [.inst "Panel", .givenProp "Panel" "content",
          .passed (.toProp "badge"), .definition (.toProp "badge"), .shown (.toProp "intro"),
          .shown (.toProp "name")] := rfl
        rw [huses] at hpassed
        simpa using hpassed
      · obtain ⟨-, rfl⟩ := get?_singleton hexternal
        cases List.mem_singleton.1 hpassed
    subst hbadge
    rcases hc' with rfl | ⟨name, hexternal⟩
    · cases hget
      cases hshows.2
      exact nofun
    · obtain ⟨-, rfl⟩ := get?_singleton hexternal
      exact absurd hshows (panel_shows_nothing hget _)
  state := by
    rintro c hc name d node hget -
    rcases hc with rfl | ⟨name, hexternal⟩
    · cases hget
    · obtain ⟨-, rfl⟩ := get?_singleton hexternal
      cases hget

theorem badgePage_ends :
    (∀ stage ∈ panelEnvironment.styleStage :: panelEnvironment.stages, stage.Answers) ∧
      NotSelfReferencing panelEnvironment.externals badgePage ∧
      PassesStill panelEnvironment.externals badgePage ∧
      ∃ n, ∀ fuel, n ≤ fuel →
        generateNode panelEnvironment fuel ⟨⟨badgePage.props, badgePage.states⟩, ["Page"]⟩
            badgePage.node {}
          = generateNode panelEnvironment n ⟨⟨badgePage.props, badgePage.states⟩, ["Page"]⟩
            badgePage.node {} := by
  have hstages : ∀ stage ∈ panelEnvironment.styleStage :: panelEnvironment.stages,
      stage.Answers := fun stage hstage => by
    rw [List.mem_singleton.1 hstage]
    exact stylesheetStage_answers _ _
  have hsorted : ∀ c, TakesPart panelEnvironment.externals badgePage c →
      c.props.Sorted ∧ c.states.Sorted := by
    rintro c (rfl | ⟨name, hexternal⟩)
    · exact ⟨by decide, by decide⟩
    · obtain ⟨-, rfl⟩ := get?_singleton hexternal
      exact ⟨by decide, by decide⟩
  obtain ⟨n, hstable, -⟩ := generate_ends hstages hsorted badgePage_notSelfReferencing
    badgePage_passesStill ["Page"] {}
  exact ⟨hstages, badgePage_notSelfReferencing, badgePage_passesStill, n, hstable⟩

/-! ## A page that does not end -/

section Endless

variable {env : Environment} {at' : Surroundings} {c : Context} {fuel : Nat}

theorem generateNode_element_endless {e : Element}
    (h : ∀ m < fuel, (generateElement env m at' e c).1.2 = .error .endless) :
    (generateNode env fuel at' (.element e) c).1.2 = .error .endless := by
  cases fuel with
  | zero => rfl
  | succ fuel =>
    rw [generateNode_element]
    dsimp only
    rw [h fuel (Nat.lt_succ_self fuel)]
    rfl

theorem generateNode_dynamic_endless {r : Reference}
    (h : ∀ m < fuel, (generateReference env m at' r c).1 = .error .endless) :
    (generateNode env fuel at' (.dynamic r) c).1.2 = .error .endless := by
  cases fuel with
  | zero => rfl
  | succ fuel =>
    rw [generateNode_dynamic]
    exact h fuel (Nat.lt_succ_self fuel)

theorem generateElement_tag_endless {e : Element} (he : e.isInstance = false) {child : Node}
    {rest : List Node} (hchildren : e.children = child :: rest)
    (h : ∀ m < fuel, (generateNode env m at' child (c.noteDependency e)).1.2 = .error .endless) :
    (generateElement env fuel at' e c).1.2 = .error .endless := by
  cases fuel with
  | zero => rfl
  | succ fuel =>
    have hchild := h fuel (Nat.lt_succ_self fuel)
    rw [generateElement_tag env fuel at' c he, hchildren, generateEach_cons]
    rcases hrun : generateNode env fuel at' child (c.noteDependency e) with ⟨⟨child', d | piece⟩, c'⟩
    · rw [hrun] at hchild
      cases hchild
      rfl
    · rw [hrun] at hchild
      cases hchild

theorem generateElement_instance_endless {e : Element} (he : e.isInstance = true)
    (h : ∀ m < fuel, (expandInstance env m at' e c).1.2 = .error .endless) :
    (generateElement env fuel at' e c).1.2 = .error .endless := by
  cases fuel with
  | zero => rfl
  | succ fuel =>
    have hexpand := h fuel (Nat.lt_succ_self fuel)
    rw [generateElement_instance env fuel at' c he]
    rcases hrun : expandInstance env fuel at' e c with ⟨⟨e', d | id⟩, c'⟩
    · rw [hrun] at hexpand
      exact hexpand
    · rw [hrun] at hexpand
      cases hexpand

theorem generateReference_endless {r : Reference} {node : Node}
    (hvalue : at'.definitions.value r = .ok ⟨"element", some (.node node)⟩)
    (hregistered : node.registered? c = none)
    (h : ∀ m < fuel, (generateNode env m at' node c).1.2 = .error .endless) :
    (generateReference env fuel at' r c).1 = .error .endless := by
  cases fuel with
  | zero => rfl
  | succ fuel =>
    rw [generateReference_of_element hvalue rfl rfl, hregistered]
    exact h fuel (Nat.lt_succ_self fuel)

end Endless

/-- A text that shows what stands for `body`. -/
def bodyText : Element where
  key := "text"
  elementType := "span"
  children := [.dynamic (.toProp "body")]

/-- A component that shows what it is given. -/
def bodyCard : Component where
  name := "Card"
  node := .element { elementType := "div", children := [.dynamic (.toProp "body")] }
  props := [("body", { kind := "element" })]

/-- A card that is given the introduction of its page. -/
def introducedCard : Element := instanceWith "card" "Card" "body" (.dynamic (.toProp "intro"))

/-- A page with a text that shows `body`, which is given to `bodyCard` as its `body`. -/
def loopingPage : Component where
  name := "Page"
  node := .element introducedCard
  props := [("body", { kind := "string", default := some (.value (.string "hello")) }),
    ("intro", { kind := "element", default := some (.node (.element bodyText)) })]

/-- Where the page is generated. -/
def loopingPlace : Surroundings := ⟨⟨loopingPage.props, loopingPage.states⟩, ["Page"]⟩

/-- Pages that can have instances of `bodyCard`. -/
def loopingEnvironment : Environment := pageEnvironment [("Card", bodyCard)]

/-- Where the tree of the card is generated. -/
def loopingEntry : Entry :=
  (enter? loopingEnvironment 0 loopingPlace introducedCard {}).get (by decide +kernel)

/-- The text that stands for `body` in the card shows `body`. -/
theorem body_endless (hierarchy : List String) (fuel : Nat) (c : Context)
    (hfree : Dict.get? c.lookup "text" = none) :
    (generateReference loopingEnvironment fuel ⟨loopingEntry.inside.definitions, hierarchy⟩
      (.toProp "body") c).1 = .error .endless := by
  induction fuel using Nat.strong_induction_on generalizing c with
  | h fuel ih =>
    have hvalue : loopingEntry.inside.definitions.value (.toProp "body")
        = .ok ⟨"element", some (.node (.element bodyText))⟩ := by rfl
    refine generateReference_endless hvalue hfree fun m hm => ?_
    refine generateNode_element_endless fun m' hm' => ?_
    refine generateElement_tag_endless rfl rfl fun m'' hm'' => ?_
    exact generateNode_dynamic_endless fun m₃ hm₃ => ih m₃ (by omega) _ hfree

theorem introducedCard_endless (fuel : Nat) :
    (expandInstance loopingEnvironment fuel loopingPlace introducedCard {}).1.2
      = .error .endless := by
  cases fuel with
  | zero => rfl
  | succ fuel =>
    have hwrapper : (generateElement loopingEnvironment fuel loopingEntry.inside
        (wrapperElement loopingEntry.key (loopingEntry.component.node.withChildren []))
        loopingEntry.context).1.2 = .error .endless := by
      refine generateElement_tag_endless rfl rfl fun m _ => ?_
      refine generateNode_element_endless fun m' _ => ?_
      refine generateElement_tag_endless rfl rfl fun m'' _ => ?_
      exact generateNode_dynamic_endless fun m₃ _ => body_endless _ _ _ rfl
    have hentry : enter? loopingEnvironment fuel loopingPlace introducedCard {} = some loopingEntry :=
      (Option.some_get _).symm
    have hexpand : expandInstance loopingEnvironment (fuel + 1) loopingPlace introducedCard {} = _ :=
      expandInstance_of_enter hentry []
    rw [hexpand]
    rcases hrun : generateElement loopingEnvironment fuel loopingEntry.inside
      (wrapperElement loopingEntry.key (loopingEntry.component.node.withChildren []))
      loopingEntry.context with ⟨⟨wrapper, d | id⟩, c⟩
    · rw [hrun] at hwrapper
      cases hwrapper
      rfl
    · rw [hrun] at hwrapper
      cases hwrapper

theorem bodyCard_shows_nothing (p q : String) : ¬ bodyCard.DefaultShows p q := by
  rintro ⟨d, node, r, hget, hshows, -⟩
  obtain ⟨-, rfl⟩ := get?_singleton hget
  cases hshows.2

/-- No component and no default of the page leads back to itself, and yet it does not end. -/
theorem loopingPage_endless :
    NotSelfReferencing loopingEnvironment.externals loopingPage ∧
      ∀ fuel, (generateNode loopingEnvironment fuel loopingPlace loopingPage.node {}).1.2
        = .error .endless := by
  refine ⟨⟨not_mentions_self fun name c hget inner hinner => ?_, fun c hc =>
    not_defaultShows_self ?_⟩, fun fuel => generateNode_element_endless fun _ _ =>
      generateElement_instance_endless rfl fun m _ => introducedCard_endless m⟩
  · obtain ⟨-, rfl⟩ := get?_singleton hget
    cases List.mem_singleton.1 hinner
  · rintro p q hshows q' hshows'
    rcases hc with rfl | ⟨name, hget⟩
    · obtain ⟨d, node, r, hget, hshow, hmem, -, rfl⟩ := hshows
      have hentry := Dict.mem_of_get? hget
      simp only [loopingPage, List.mem_cons, Prod.mk.injEq, List.not_mem_nil, or_false] at hentry
      rcases hentry with ⟨-, rfl⟩ | ⟨-, rfl⟩
      · cases hshow.2
      · cases hshow.2
        cases List.mem_singleton.1 hmem
        obtain ⟨d, node, r, hget, hshow, -⟩ := hshows'
        cases hget
        cases hshow.2
    · obtain ⟨-, rfl⟩ := get?_singleton hget
      exact bodyCard_shows_nothing _ _ hshows

end PageCompiler
