import PageCompiler.Generator
import PageCompiler.Proofs.Page.Collision

/-!
# Doubled keys

Resolved components have no two elements of one key, and the expansion of instances keeps the keys
of all trees apart. So a page is only refused for a doubled key when one of its keys is loose: one
that wrappers and the elements of defaults use without reserving it.

* `templateStage_doubledKey`: a key that is doubled is loose.
* `nestedCards_doubledKey`: a card among the children of a card has a loose key.
-/

namespace PageCompiler

section Page

variable {page : Component}

/-- The tree of a page can be generated when its keys are reserved. -/
theorem input_page (env : Environment) (hkeys : (page.elements.map (·.key)).Nodup)
    (hsorted : page.props.Sorted) :
    Input env page (FreshInside env.externals page page.node.elements)
      { props := page.props, states := page.states } page.node.elements
      (({} : Context).reserve page.node.keys) := by
  have hpage : TakesPart env.externals page page := Or.inl rfl
  have helements : page.elements.map (·.key) = page.node.keys
      ++ ((defaultNodes page.props).flatMap Node.elements).map (·.key) := by
    rw [Component.elements, Component.trees, List.flatMap_cons, List.map_append]
    rfl
  rw [helements, List.nodup_append] at hkeys
  obtain ⟨hnodup, -, hdifferent⟩ := hkeys
  have hreserved : ∀ key, (({} : Context).reserve page.node.keys).Reserved key →
      key ∈ page.node.keys := by
    intro key hkey
    rcases (Context.reserved_reserve _).1 hkey with hkey | hkey
    · exact hkey
    · cases hkey
  refine ⟨⟨fun entry hentry node hnode => ?_, fun entry hentry node hnode => ?_, hsorted⟩,
    fun e he hinstance name hname => ?_, covers_freshInside _ _ _, ?_, fun key hkey => ?_⟩
  · have hmem := mem_defaultNodes.2 ⟨entry, hentry, hnode⟩
    refine fineDefault_page hmem fun x hx hused => ?_
    exact hdifferent _ (hreserved _ hused) _
      (List.mem_map_of_mem (List.mem_flatMap.2 ⟨node, hmem, hx⟩)) rfl
  · exact fineDefault_state hpage (mem_stateNodes.2 ⟨entry, hentry, hnode⟩)
  · exact .written ⟨page, hpage,
      Or.inl (List.mem_flatMap.2 ⟨_, List.mem_cons_self, he⟩)⟩ hinstance hname
  · exact hnodup.imp fun hne heq => absurd heq hne
  · have hnew : ¬ (({} : Context).reserve page.node.keys).Registered key := nofun
    exact Or.inr ⟨hnew, Or.inl ((Context.reserved_reserve _).2 (Or.inl hkey))⟩

/-- **Doubled keys are loose.** When the generation of a page complains that a key is doubled, the
key is one that nothing protects: the key of a wrapper inside a wrapper of the same key, one that
a wrapper or an element in a default shares with another element, or one of a default that may be
generated more than once. Without such keys no key of a page is ever doubled, whatever instances
it has and however they stand inside one another. -/
theorem templateStage_doubledKey (externals : Dict Component) (styleStage : Stage)
    (stages : List Stage) (hstages : ∀ stage ∈ styleStage :: stages, stage.AcceptsKeys)
    (page : Component) (hkeys : (page.elements.map (·.key)).Nodup) (hsorted : page.props.Sorted)
    (o : Options) {d : Diagnostic} {done : Compilation} {key : String}
    (hrun : (templateStage externals styleStage stages).run { component := page, options := o }
      = (.error d, done))
    (hkey : d.doubledKey? = some key) : LooseKey externals page key := by
  let env : Environment :=
    { externals, styleStage, stages, options := o, folder := page.folderPath }
  let at' : Surroundings :=
    { definitions := { props := page.props, states := page.states }, hierarchy := [page.name] }
  have hruns := @(generate_runs page hstages (env.depthBound at'.definitions page.node)).node
    _ at' _ _ (input_page env hkeys hsorted)
  change PageRuns env page _ _ _ (env.generate at' page.node _).1.2 _ at hruns
  unfold templateStage at hrun
  dsimp only [StateT.run] at hrun
  rcases hgenerated : env.generate at' page.node (({} : Context).reserve page.node.keys) with
    ⟨⟨node, d' | piece⟩, context⟩
  · rw [hgenerated] at hrun hruns
    cases hrun
    exact hruns key hkey
  · rw [hgenerated] at hrun
    cases hrun

end Page

/-! ## A card in a card -/

/-- The key that is doubled, of an outcome that is about one. -/
def doubledKeyIn? {α : Type} : Except Diagnostic α → Option String
  | .error d => d.doubledKey?
  | .ok _ => none

theorem exists_of_doubledKeyIn? {α : Type} {x : Except Diagnostic α} {key : String}
    (h : doubledKeyIn? x = some key) : ∃ d, x = .error d ∧ d.doubledKey? = some key := by
  cases x with
  | error d => exact ⟨d, rfl, h⟩
  | ok _ => cases h

theorem exists_run_of_doubledKeyIn? {α σ : Type} {x : Except Diagnostic α × σ} {key : String}
    (h : doubledKeyIn? x.1 = some key) : ∃ d s, x = (.error d, s) ∧ d.doubledKey? = some key := by
  obtain ⟨d, hd, hkey⟩ := exists_of_doubledKeyIn? h
  exact ⟨d, x.2, Prod.ext hd rfl, hkey⟩

/-- A component that shows the children it is given. -/
def card : Component where
  name := "Card"
  node := .element { elementType := "container", children := [.slot {}] }

/-- An instance of `card`. -/
def cardInstance (key : String) (children : List Node) : Node :=
  .element {
    key
    elementType := "Card"
    dependency := some { origin := .project }
    children }

/-- A page with a card that has a card among its children. -/
def nestedCards : Component where
  name := "Page"
  node := .element {
    key := "page"
    elementType := "div"
    children := [cardInstance "outer" [cardInstance "inner" []]] }

/-- The generator of plain pages with `card` registered. -/
def cardGenerator : PageGenerator := (PageGenerator.standard.register {} [card]).2

theorem nestedCards_doubledKey :
    (∀ e ∈ card.elements, e.isInstance = false) ∧
      (PageGenerator.standard.register {} [card]).1.isOk ∧
      ∃ d, cardGenerator.generate nestedCards {} = .error d ∧
        d.doubledKey? = some "card-wrapper" :=
  ⟨by decide +kernel, by decide +kernel, exists_of_doubledKeyIn? (by decide +kernel)⟩

theorem nestedCards_looseKey :
    (∀ stage ∈ [stylesheetStage templateChunkName none], stage.AcceptsKeys) ∧
      (nestedCards.elements.map (·.key)).Nodup ∧ nestedCards.props.Sorted ∧
      ∃ d done, (templateStage cardGenerator.externals (stylesheetStage templateChunkName none) []).run
          { component := nestedCards, options := {} } = (.error d, done) ∧
        d.doubledKey? = some "card-wrapper" ∧
        LooseKey cardGenerator.externals nestedCards "card-wrapper" := by
  have hstages : ∀ stage ∈ [stylesheetStage templateChunkName none], stage.AcceptsKeys := by
    intro stage hstage
    rw [List.mem_singleton.1 hstage]
    exact stylesheetStage_acceptsKeys _ _
  have hkeys : (nestedCards.elements.map (·.key)).Nodup := by decide +kernel
  have hsorted : nestedCards.props.Sorted := by decide
  obtain ⟨d, done, hrun, hkey⟩ := exists_run_of_doubledKeyIn? (by decide +kernel : doubledKeyIn?
    ((templateStage cardGenerator.externals (stylesheetStage templateChunkName none) []).run
      { component := nestedCards, options := {} }).1 = some "card-wrapper")
  exact ⟨hstages, hkeys, hsorted, d, done, hrun, hkey,
    templateStage_doubledKey _ _ [] hstages nestedCards hkeys hsorted {} hrun hkey⟩

end PageCompiler
