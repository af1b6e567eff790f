import PageCompiler.Proofs.Page.Forwarding

/-!
# The scope of a slot

The children of an instance are generated where the slot of its component stands, in the scope of
the instance whose tree they have become part of: its own definitions come first, and those of the
caller that are no elements are seen beside them. Where these are the definitions of the caller, the
children are generated as in the scope of the caller.

* `Reaches.scope`: how the scope at the slot comes about.
* `expandInstance_children`: the children in the scope of the slot and in that of the caller.
* `titledCard_title`: a title of the component in the place of that of the page.
-/

namespace PageCompiler

/-- The second scope is that of an instance that stands in the first one. -/
def ScopeOfInstance (env : Environment) (at' inside : Surroundings) : Prop :=
  ∃ (fuel : Nat) (e : Element) (c : Context) (external : Component),
    Dict.get? env.externals e.componentName = some external ∧
      Inside (generateElement env fuel at') e.attrs at'.definitions (c.instantiate external)
        inside.definitions

section Scope

variable {env : Environment} {depth fuel : Nat} {at' inside : Surroundings} {there c : Context}

theorem scopeOfInstance_of_enter (hexternals : SortedExternals env.externals)
    (hsorted : at'.definitions.Sorted) {e : Element} {entry : Entry}
    (h : enter? env fuel at' e c = some entry) : ScopeOfInstance env at' entry.inside := by
  obtain ⟨external, hexternal, hcomponent, -⟩ := enter?_eq_some h
  have hinside := Inside.of_enter hexternals hsorted h
  rw [hcomponent] at hinside
  exact ⟨fuel, e, c, external, hexternal, hinside⟩

/-- The scope at a slot is that of the tree, or of an instance that the slot is handed to. -/
theorem Reaches.scope (hexternals : SortedExternals env.externals) {node : Node}
    (hsorted : at'.definitions.Sorted) (h : Reaches env depth inside there fuel at' node c) :
    Relation.ReflTransGen (ScopeOfInstance env) at' inside := by
  induction h with
  | slot => exact .refl
  | tag _ _ _ _ _ ih => exact ih hsorted
  | conditional _ _ ih => exact ih hsorted
  | handed _ entered _ _ ih =>
    exact .head (scopeOfInstance_of_enter hexternals hsorted entered)
      (ih (Inside.of_enter hexternals hsorted entered).sorted)

/-- **The children of an instance** whose slot is reached are generated where the slot stands, and
what the expansion goes on with is the same for all children: the stages of the instance that they
have come to stand in run on them, with the style sets of its component. Their scope is that of this
instance. They are generated as they would be in the scope of the caller if the two scopes agree on
all that is used in them. -/
theorem expandInstance_children
    (hstages : ∀ stage ∈ env.styleStage :: env.stages, stage.IgnoresScope)
    (hexternals : SortedExternals env.externals) (hsorted : at'.definitions.Sorted) {e : Element}
    {entry : Entry} (hentry : enter? env (fuel + 1) at' e c = some entry)
    (hreaches : Reaches env depth inside there fuel entry.inside entry.component.node
      entry.context) :
    Relation.TransGen (ScopeOfInstance env) at' inside ∧
      ∃ goes, RunsStages env depth inside there goes ∧ ∀ own, own ≠ [] →
        expandInstance env (fuel + 2) at' { e with children := own } c
            = goes (generateEach (generateNode env depth inside) own there) ∧
          ∀ names, Agree (InSight env.externals) names inside.definitions at'.definitions →
            (∀ u ∈ nodesUses own, InSight env.externals names u) →
            expandInstance env (fuel + 2) at' { e with children := own } c
              = goes (generateEach (generateNode env depth ⟨at'.definitions, inside.hierarchy⟩) own
                there) := by
  have hinside := Inside.of_enter hexternals hsorted hentry
  obtain ⟨goes, hruns, hgoes⟩ := expandInstance_fills hentry hreaches
  refine ⟨.head' (scopeOfInstance_of_enter hexternals hsorted hentry)
    (hreaches.scope hexternals hinside.sorted), goes, hruns, fun own hown => ⟨hgoes own hown, ?_⟩⟩
  intro names hagree huses
  have hnodes : ∀ node ∈ own, ∀ c, generateNode env depth inside node c
      = generateNode env depth ⟨at'.definitions, inside.hierarchy⟩ node c := fun node hnode c =>
    (generate_agreeing (closed_inSight env.externals) hstages depth).node hagree inside.hierarchy
      (fun u hu => huses u (mem_nodesUses.2 ⟨node, hnode, hu⟩)) c
  rw [hgoes own hown, generateEach_congr hnodes]

end Scope

/-! ## A card with a title -/

/-- A component with a title and a style set, which shows the children it is given. -/
def titledCard : Component where
  name := "Card"
  node := .element { elementType := "div", children := [.slot {}] }
  props := [("title", { kind := "string", default := some (.value (.string "Card title")) })]
  styleSets := [("accent", { id := "accent", name := "card-accent" })]

/-- A scope with a title. -/
def titleScope : Definitions where
  props := [("title", { kind := "string", default := some (.value (.string "Page title")) })]

/-- An instance of a card with children. -/
def cardAround (children : List Node) : Element :=
  { key := "around", elementType := "Card", dependency := some { origin := .project }, children }

/-- The markup that a node gets on a page. -/
def shown (externals : Dict Component) (ds : Definitions) (node : Node) : Option String :=
  let r := generateNode (pageEnvironment externals) 12 ⟨ds, []⟩ node {}
  printed (r.1.2, r.2)

/-- The title of the page is shown as that of the card among the children of the card, and an
element with the style set of the page gets the class of that of the card. -/
theorem titledCard_title :
    shown [("Card", titledCard)] titleScope (.dynamic (.toProp "title"))
        = some "<span>Page title</span>" ∧
      shown [("Card", titledCard)] titleScope (.element (cardAround [.dynamic (.toProp "title")]))
        = some ("<card-wrapper class=\"card-wrapper\"><!-- component-->"
          ++ "<div><span>Card title</span></div></card-wrapper>") ∧
      shown [("Card", titledCard)] {} (.element (cardAround [.element {
          key := "note", elementType := "em"
          referencedStyles := [("style", { id := "style", content := .componentSet "accent" })] }]))
        = some ("<card-wrapper class=\"card-wrapper\"><!-- component-->"
          ++ "<div><em class=\"card-accent\"></em></div></card-wrapper>") := by
  decide +kernel

/-- A component that shows its children inside two tags. -/
def frame : Component where
  name := "Frame"
  node := .element {
    elementType := "main"
    children := [.element { elementType := "div", children := [.slot {}] }] }

/-- An instance of `frame`. -/
def frameInstance : Element :=
  { key := "frame", elementType := "Frame", dependency := some { origin := .project } }

theorem frame_reaches (env : Environment) {c : Context} {entry : Entry}
    (h : entry.component = c.instantiate frame) :
    Reaches env 4 entry.inside entry.context 8 entry.inside entry.component.node entry.context := by
  obtain ⟨key, inner, hnode⟩ : ∃ key inner, (c.instantiate frame).node = .element {
      key, elementType := "main"
      children := [.element { key := inner, elementType := "div", children := [.slot {}] }] } :=
    ⟨_, _, rfl⟩
  rw [h, hnode]
  exact .tag rfl (rfl : _ = [] ++ _ :: _) rfl rfl (.slot rfl (rfl : _ = [] ++ _ :: _) rfl rfl)

/-- Pages that can have instances of `frame`. -/
def frameEnvironment : Environment := pageEnvironment [("Frame", frame)]

theorem frameInstance_children :
    ∃ entry, enter? frameEnvironment 9 ⟨titleScope, []⟩ frameInstance {} = some entry ∧
      Reaches frameEnvironment 4 entry.inside entry.context 8 entry.inside entry.component.node
        entry.context ∧
      Agree (InSight frameEnvironment.externals) ⟨{"title"}, ∅⟩ entry.inside.definitions
        titleScope ∧
      ∃ goes, RunsStages frameEnvironment 4 entry.inside entry.context goes ∧ ∀ own, own ≠ [] →
        (∀ u ∈ nodesUses own, InSight frameEnvironment.externals ⟨{"title"}, ∅⟩ u) →
        expandInstance frameEnvironment 10 ⟨titleScope, []⟩
            { frameInstance with children := own } {}
          = goes (generateEach (generateNode frameEnvironment 4
              ⟨titleScope, entry.inside.hierarchy⟩) own entry.context) := by
  let entry := (enter? frameEnvironment 9 ⟨titleScope, []⟩ frameInstance {}).get (by decide +kernel)
  have hentry : enter? frameEnvironment 9 ⟨titleScope, []⟩ frameInstance {} = some entry :=
    (Option.some_get _).symm
  obtain ⟨external, hexternal, hcomponent, -⟩ := enter?_eq_some hentry
  obtain rfl : frame = external := Option.some.inj hexternal
  have hexternals : SortedExternals frameEnvironment.externals := by
    intro name c hc
    cases List.mem_singleton.1 (Dict.mem_of_get? hc)
    exact ⟨by decide, by decide⟩
  have hsorted : titleScope.Sorted := ⟨by decide, by decide⟩
  have hreaches := frame_reaches frameEnvironment hcomponent
  have hinside := Inside.of_enter hexternals hsorted hentry
  have htitle : Dict.get? entry.inside.definitions.props "title" = _ :=
    hinside.prop_of_caller rfl (by rw [hcomponent]; rfl) rfl (by decide)
  have hagree : Agree (InSight frameEnvironment.externals) ⟨{"title"}, ∅⟩
      entry.inside.definitions titleScope := {
    prop := fun name hname => by
      rw [Set.mem_singleton_iff.1 hname]
      exact htitle
    state := nofun
    sorted := hinside.sorted
    sorted' := hsorted
    propDefault := fun name hname d hd hkind => by
      rw [Set.mem_singleton_iff.1 hname, htitle] at hd
      cases hd
      exact absurd hkind (by decide)
    stateDefault := nofun
    plain := plainBeyond_of_plainProps (by decide +kernel) _
    plain' := plainBeyond_of_plainProps (by decide) _ }
  obtain ⟨-, goes, hruns, hgoes⟩ := expandInstance_children (pageEnvironment_ignoresScope _)
    hexternals hsorted hentry hreaches
  exact ⟨entry, hentry, hreaches, hagree, goes, hruns, fun own hown huses =>
    (hgoes own hown).2 _ hagree huses⟩

end PageCompiler
