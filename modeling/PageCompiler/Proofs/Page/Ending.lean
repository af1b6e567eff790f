import PageCompiler.Proofs.Page.Instance
import PageCompiler.Proofs.Page.Extension

/-!
# Generation that ends

The depth that the generation is given is only a limit: a generation ends when there is a depth from
which on it does the same, without having met the limit. It meets the limit or it ends for a reason
of its own, with one exception: an instance may find that all keys for its wrapper are used. That
can be told from the context in the end (`Context.Crowded`).

* `Ends`: a run that ends; `Ends.bind` for what comes after it.
* `ends_each`, `ends_props`: lists of parts.
* `generateElement_ends`, `generateReference_ends`, `expandInstance_ends`: a part ends when the
  parts below it do.
-/

namespace PageCompiler

/-! ## Used up keys -/

/-- There is an instance that would find no key for its wrapper. -/
def Context.Crowded (c : Context) : Prop := ∃ name key, wrapperKey? c name key = none

theorem suffixedWrapperKey?_mono {c c' : Context} (h : c.Extends c') {base : String} {tries : Nat}
    {seed : String} (hnone : suffixedWrapperKey? c base tries seed = none) :
    suffixedWrapperKey? c' base tries seed = none := by
  induction tries generalizing seed with
  | zero => rfl
  | succ tries ih =>
    rw [suffixedWrapperKey?] at hnone ⊢
    split at hnone
    · rename_i hused
      rw [if_pos (Context.isUsed_iff.2 (h.used (Context.isUsed_iff.1 hused)))]
      exact ih hnone
    · cases hnone

theorem Context.Crowded.mono {c c' : Context} (hcrowded : c.Crowded) (h : c.Extends c') :
    c'.Crowded := by
  obtain ⟨name, key, hnone⟩ := hcrowded
  refine ⟨name, key, ?_⟩
  unfold wrapperKey? at hnone ⊢
  dsimp only at hnone ⊢
  split at hnone
  · rename_i hused
    rw [if_pos (Context.isUsed_iff.2 (h.used (Context.isUsed_iff.1 hused)))]
    exact suffixedWrapperKey?_mono h hnone
  · cases hnone

/-! ## Runs that end -/

/-- The outcome of a run is not that it met the limit, unless an instance found no key. -/
def Stops {β : Type} (outcome : Except Diagnostic β) (c : Context) : Prop :=
  outcome = .error .endless → c.Crowded

/-- There is a depth from which on a run does the same and does not meet the limit. -/
def Ends {β γ : Type} (outcome : γ → Except Diagnostic β) (run : Nat → γ × Context) : Prop :=
  ∃ n, (∀ fuel, n ≤ fuel → run fuel = run n) ∧ Stops (outcome (run n).1) (run n).2

theorem Stops.ok {β : Type} (b : β) (c : Context) : Stops (.ok b) c := nofun

theorem FailsWith.stops {α β : Type} {x : Except Diagnostic α} {d : Diagnostic}
    (h : FailsWith Diagnostic.IsLookup x) (hx : x = .error d) (c : Context) :
    Stops (.error d : Except Diagnostic β) c := fun heq => by
  cases heq
  exact (h _ hx).elim

/-- A failure that is passed on. -/
theorem Stops.pass {α β : Type} {d : Diagnostic} {c : Context}
    (h : Stops (.error d : Except Diagnostic α) c) : Stops (.error d : Except Diagnostic β) c :=
  fun heq => h (by cases heq; rfl)

theorem Stops.map {α β : Type} {x : Except Diagnostic α} {c : Context} (h : Stops x c) (f : α → β) :
    Stops (x.map f) c := by
  cases x with
  | error d => exact fun heq => h (by cases heq; rfl)
  | ok a => exact .ok _ c

theorem registerElement_stops (key : String) (e : Element) (id : Nat) (hierarchy : List String)
    (c : Context) : Stops (registerElement key e id hierarchy c).1
      (registerElement key e id hierarchy c).2 := by
  rcases registerElement_run key e id hierarchy c with ⟨-, hrun⟩ | ⟨-, d, hd, hrun⟩
  · rw [hrun]
    exact .ok _ _
  · rw [hrun]
    intro heq
    cases heq
    cases hd

namespace Ends

variable {β β' γ γ' : Type} {outcome : γ → Except Diagnostic β} {outcome' : γ' → Except Diagnostic β'}
  {run : Nat → γ × Context}

theorem const (x : γ × Context) (h : Stops (outcome x.1) x.2) : Ends outcome fun _ => x :=
  ⟨0, fun _ _ => rfl, h⟩

/-- Going down one level takes one step of the depth. -/
theorem succ (h : Ends outcome fun fuel => run (fuel + 1)) : Ends outcome run := by
  obtain ⟨n, hstable, hstops⟩ := h
  refine ⟨n + 1, fun fuel hfuel => ?_, hstops⟩
  obtain ⟨m, rfl⟩ : ∃ m, fuel = m + 1 := ⟨fuel - 1, by omega⟩
  exact hstable m (by omega)

/-- **What comes after** a run that ends is what comes after its end. -/
theorem bind {run' : Nat → γ' × Context} (h : Ends outcome run)
    (hnext : ∀ n, Stops (outcome (run n).1) (run n).2 → ∃ next, Ends outcome' next ∧
      ∀ fuel, run fuel = run n → run' fuel = next fuel) : Ends outcome' run' := by
  obtain ⟨n, hstable, hstops⟩ := h
  obtain ⟨next, ⟨m, hstable', hstops'⟩, hrun⟩ := hnext n hstops
  have hlate : ∀ fuel, max n m ≤ fuel → run' fuel = next m := fun fuel hfuel => by
    rw [hrun fuel (hstable fuel (le_of_max_le_left hfuel)),
      hstable' fuel (le_of_max_le_right hfuel)]
  refine ⟨max n m, fun fuel hfuel => ?_, ?_⟩
  · rw [hlate fuel hfuel, hlate _ le_rfl]
  · rwa [hlate _ le_rfl]

/-- A part that has failed. -/
theorem failed {α : Type} (part : α) {d : Diagnostic} {c : Context}
    (h : Stops (.error d : Except Diagnostic β) c) :
    Ends Prod.snd fun _ => (((part, .error d), c) : Generated α β × Context) := .const _ h

/-- A part that is done. -/
theorem done {α : Type} (part : α) (result : β) (c : Context) :
    Ends Prod.snd fun _ => (((part, .ok result), c) : Generated α β × Context) :=
  .const _ (.ok _ _)

theorem map (h : Ends outcome run) (f : γ → γ')
    (hf : ∀ x c, Stops (outcome x) c → Stops (outcome' (f x)) c) :
    Ends outcome' fun fuel => (f (run fuel).1, (run fuel).2) :=
  h.bind fun n hstops => ⟨_, .const (f (run n).1, (run n).2) (hf _ _ hstops), fun fuel hfuel => by
    rw [hfuel]⟩

end Ends

/-! ## Lists of parts -/

section Parts

variable {env : Environment} {at' : Surroundings} {c₀ : Context}

theorem ends_each {nodes : List Node}
    (h : ∀ node ∈ nodes, ∀ c, c₀.Extends c → Ends Prod.snd fun fuel => generateNode env fuel at' node c)
    {c : Context} (hc : c₀.Extends c) :
    Ends Prod.snd fun fuel => generateEach (generateNode env fuel at') nodes c := by
  induction nodes generalizing c with
  | nil => exact .const _ (.ok _ _)
  | cons node rest ih =>
    refine (h node List.mem_cons_self c hc).bind fun n hstops => ?_
    have hextends := (generate_extends env n).node at' node c
    rcases hrun : generateNode env n at' node c with ⟨⟨node', d | piece⟩, c'⟩
    · rw [hrun] at hstops
      refine ⟨_, .failed (node' :: rest) hstops.pass, fun fuel hfuel => ?_⟩
      rw [generateEach_cons, hfuel]
    · rw [hrun] at hextends
      have hrest := ih (fun node hnode => h node (List.mem_cons_of_mem _ hnode)) (hc.trans hextends)
      refine ⟨_, hrest.map (fun rs => (node' :: rs.1, rs.2.map (piece :: ·)))
        fun _ _ hstops => hstops.map _, fun fuel hfuel => ?_⟩
      rw [generateEach_cons, hfuel]

theorem ends_props {caller : Definitions} {props : Dict PropDefinition} {attrs : Attributes}
    (hnames : (Dict.keys props).Nodup)
    (h : ∀ name ∈ Dict.keys props, ∀ e, Dict.get? attrs name = some (.element e) →
      ∀ c, c₀.Extends c → Ends Prod.snd fun fuel => generateElement env fuel at' e c)
    {c : Context} (hc : c₀.Extends c) :
    Ends Prod.snd fun fuel => generateProps (generateElement env fuel at') caller attrs props c := by
  induction props generalizing attrs c with
  | nil =>
    simp only [generateProps_nil]
    exact .const _ (.ok _ _)
  | cons entry rest ih =>
    obtain ⟨name, own⟩ := entry
    obtain ⟨hname, hnames⟩ := List.nodup_cons.1 hnames
    have hrest := ih hnames (fun name hname => h name (List.mem_cons_of_mem _ hname)) hc
    rcases hvalue : Dict.get? attrs name with _ | value
    · simp only [generateProps_none hvalue]
      exact hrest.map (fun rs => (rs.1, rs.2.map ((name, own) :: ·)))
        fun _ _ hstops => hstops.map _
    by_cases helement : ∃ e, value = .element e
    · obtain ⟨e, rfl⟩ := helement
      refine (h name List.mem_cons_self e hvalue c hc).bind fun n hstops => ?_
      have hextends := (generate_extends env n).element at' e c
      rcases hrun : generateElement env n at' e c with ⟨⟨e', d | id⟩, c'⟩
      · rw [hrun] at hstops
        refine ⟨_, .failed (Dict.insert attrs name (.element e')) hstops.pass, fun fuel hfuel => ?_⟩
        rw [generateProps_element hvalue, hfuel]
      · rw [hrun] at hextends
        -- the generated element is filed under a name that does not come again
        have hothers : ∀ other ∈ Dict.keys rest, ∀ x,
            Dict.get? (Dict.insert attrs name (.element e')) other = some (.element x) →
              ∀ c, c₀.Extends c → Ends Prod.snd fun fuel => generateElement env fuel at' x c := by
          intro other hother x hx
          have hne : other ≠ name := fun heq => hname (heq ▸ hother)
          rw [Dict.get?_insert_of_ne _ _ hne] at hx
          exact h other (List.mem_cons_of_mem _ hother) x hx
        let definition := { own with default := some (.node (.element e')) }
        refine ⟨_, (ih hnames hothers (hc.trans hextends)).map
          (fun rs => (rs.1, rs.2.map ((name, definition) :: ·))) fun _ _ hstops => hstops.map _,
          fun fuel hfuel => ?_⟩
        rw [generateProps_element hvalue, hfuel]
    · have hplain : ∀ e, value ≠ .element e := by simpa using helement
      simp only [generateProps_plain hvalue hplain]
      rcases hprop : instanceProp caller value own with d | definition
      · exact .failed attrs ((instanceProp_fails caller value own).stops hprop c)
      · exact hrest.map (fun rs => (rs.1, rs.2.map ((name, definition) :: ·)))
          fun _ _ hstops => hstops.map _

end Parts

/-! ## Nodes -/

section Nodes

variable {env : Environment} {at' : Surroundings} {c : Context}

/-- A conditional ends when its body does. -/
theorem generateNode_conditional_ends {q : Conditional}
    (h : Ends Prod.snd fun fuel => generateNode env fuel at' q.node c) :
    Ends Prod.snd fun fuel => generateNode env fuel at' (.conditional q) c := by
  refine .succ ?_
  simp only [generateNode_conditional]
  split
  · exact h.map (fun r => (Node.conditional { q with node := r.1 }, r.2)) fun _ _ hstops => hstops
  · exact .done _ _ _

theorem generateNode_dynamic_ends {r : Reference}
    (h : Ends id fun fuel => generateReference env fuel at' r c) :
    Ends Prod.snd fun fuel => generateNode env fuel at' (.dynamic r) c := by
  refine .succ ?_
  simp only [generateNode_dynamic]
  exact h.map (fun result => (Node.dynamic r, result)) fun _ _ hstops => hstops

theorem generateNode_element_ends {e : Element}
    (h : Ends Prod.snd fun fuel => generateElement env fuel at' e c) :
    Ends Prod.snd fun fuel => generateNode env fuel at' (.element e) c := by
  refine .succ ?_
  simp only [generateNode_element]
  exact h.map (fun r => ((.element r.1, r.2.map .element) : Generated Node Piece))
    fun _ _ hstops => hstops.map _

/-- What is neither an element, a reference nor a conditional is generated at once. -/
theorem generateNode_plain_ends {node : Node} (h : node.isInert ∨ ∃ r, node = .repetition r) :
    Ends Prod.snd fun fuel => generateNode env fuel at' node c := by
  refine .succ ?_
  rcases h with h | ⟨r, rfl⟩
  · cases node with
    | constant _ | raw _ | inject _ | slot _ | expr _ =>
      simp only [generateNode]
      exact .done _ _ _
    | dynamic _ | element _ | conditional _ | repetition _ => cases h
  · simp only [generateNode]
    refine .failed _ fun heq => ?_
    cases heq

/-- A reference ends when the element that it stands for does, unless that is registered. -/
theorem generateReference_ends {r : Reference}
    (h : ∀ v node, at'.definitions.value r = .ok v → v.kind = "element" →
      v.default = some (.node node) → node.registered? c = none →
      Ends Prod.snd fun fuel => generateNode env fuel at' node c) :
    Ends id fun fuel => generateReference env fuel at' r c := by
  refine .succ ?_
  simp only [generateReference_succ]
  split
  · exact .const _ (.ok _ _)
  rcases hvalue : at'.definitions.value r with d | v
  · exact .const _ ((at'.definitions.value_fails r).stops hvalue c)
  dsimp only
  unfold generateValue
  split
  · exact .const _ (.ok _ _)
  split
  · rename_i hkind
    rcases hdefault : v.default with _ | node | content
    · exact .const _ (.ok _ _)
    · dsimp only
      simp only [bind_run, get_run]
      rcases hregistered : node.registered? c with _ | id
      · exact (h v node hvalue hkind hdefault hregistered).map (fun r => r.2)
          fun _ _ hstops => hstops
      · exact .const _ (.ok _ _)
    · exact .const _ (.ok _ _)
  · exact .const _ (.ok _ _)

end Nodes

/-! ## Elements -/

section Elements

variable {env : Environment} {at' : Surroundings} {c : Context}

theorem finishTag_stops (env : Environment) (at' : Surroundings) (e : Element)
    (pieces : List Piece) (c : Context) :
    Stops (finishTag env at' e pieces c).1.2 (finishTag env at' e pieces c).2 := by
  obtain ⟨-, -, hstyles⟩ := e.settleStyles_run at'.definitions
  rw [finishTag_run]
  rcases hsettled : e.settleStyles at'.definitions with ⟨styled, d | _⟩
  · exact hstyles.stops (congrArg Prod.snd hsettled) c
  have hattrs := pageAttributes_fails env.options env.folder at'.definitions styled.elementType
    styled.attrs
  dsimp only
  rcases hpage : pageAttributes env.options env.folder at'.definitions styled.elementType
    styled.attrs with ⟨attrs, d | _⟩
  · exact hattrs.stops (congrArg Prod.snd hpage) c
  · exact (registerElement_stops _ _ _ _ _).map _

/-- A tag ends when its children do. -/
theorem generateElement_tag_ends {e : Element} (he : e.isInstance = false)
    (h : ∀ node ∈ e.children, ∀ c', c.Extends c' →
      Ends Prod.snd fun fuel => generateNode env fuel at' node c') :
    Ends Prod.snd fun fuel => generateElement env fuel at' e c := by
  refine .succ ((ends_each h (.noteDependency c e)).bind fun n hstops => ?_)
  rcases hrun : generateEach (generateNode env n at') e.children (c.noteDependency e) with
    ⟨⟨children, d | pieces⟩, c'⟩
  · rw [hrun] at hstops
    refine ⟨_, .failed { e with children } hstops.pass, fun fuel hfuel => ?_⟩
    rw [generateElement_tag env fuel at' c he, hfuel]
  · refine ⟨_, .const (finishTag env at' { e with children } pieces c') (finishTag_stops _ _ _ _ _),
      fun fuel hfuel => ?_⟩
    rw [generateElement_tag env fuel at' c he, hfuel]

/-- An instance ends when its expansion does. -/
theorem generateElement_instance_ends {e : Element} (he : e.isInstance = true)
    (h : Ends Prod.snd fun fuel => expandInstance env fuel at' e c) :
    Ends Prod.snd fun fuel => generateElement env fuel at' e c := by
  refine .succ (h.bind fun n hstops => ?_)
  rcases hrun : expandInstance env n at' e c with ⟨⟨e', d | id⟩, c'⟩
  · rw [hrun] at hstops
    refine ⟨_, .failed e' hstops.pass, fun fuel hfuel => ?_⟩
    rw [generateElement_instance env fuel at' c he, hfuel]
  · let title := (e'.semanticType.or e'.name).getD ""
    refine ⟨_, .done e' id
      { c' with canvas := c'.canvas.prepend id (.comment (title ++ " component")) },
      fun fuel hfuel => ?_⟩
    rw [generateElement_instance env fuel at' c he, hfuel]

end Elements

/-! ## Instances -/

section Instances

variable {env : Environment} {at' : Surroundings}

/-- A stage that comes to an end of its own. -/
def Stage.Answers (stage : Stage) : Prop := ∀ c, (stage.run c).1 ≠ .error .endless

theorem stylesheetStage_answers (template : String) (chunkName : Option String) :
    (stylesheetStage template chunkName).Answers := by
  intro c
  rw [stylesheetStage]
  dsimp only
  split
  · intro heq
    cases heq
  · intro heq
    cases heq

theorem runInstanceStages_stops (hstages : ∀ stage ∈ env.styleStage :: env.stages, stage.Answers)
    (component : Component) (id : Nat) (c : Context) :
    Stops (runInstanceStages env component id c).1 (runInstanceStages env component id c).2 := by
  have hanswers := runStages_outcome (P := (· ≠ .error .endless)) nofun hstages
    { component, options := env.options, context := c.forInstance id }
  rw [runInstanceStages_run]
  rcases hrun : runStages (env.styleStage :: env.stages)
    { component, options := env.options, context := c.forInstance id } with ⟨d | _, done⟩
  · rw [hrun] at hanswers
    exact fun heq => absurd heq hanswers
  · exact .ok _ _

/-- The copy of a component ends inside its wrapper when its tree does. -/
theorem enterInstance_ends (hstages : ∀ stage ∈ env.styleStage :: env.stages, stage.Answers)
    (e : Element) (component : Component) {root : Node} {ds : Definitions} {c : Context}
    (h : ∀ c', c.Extends c' → Ends Prod.snd fun fuel =>
      generateNode env fuel ⟨ds, at'.hierarchy ++ [e.componentName]⟩ root c') :
    Ends Prod.snd fun fuel => enterInstance env fuel at' e component root ds c := by
  rcases hkey : wrapperKey? c e.componentName e.key with _ | key
  · simp only [enterInstance_run, hkey]
    exact .failed e fun _ => ⟨_, _, hkey⟩
  have hwrapper : Ends Prod.snd fun fuel => generateElement env fuel
      { definitions := ds, hierarchy := at'.hierarchy ++ [e.componentName] }
      (wrapperElement key root) c := by
    refine generateElement_tag_ends rfl fun node hnode c' hc' => ?_
    rw [List.mem_singleton.1 hnode]
    exact h c' hc'
  refine hwrapper.bind fun n hstops => ?_
  rcases hrun : generateElement env n
    { definitions := ds, hierarchy := at'.hierarchy ++ [e.componentName] }
    (wrapperElement key root) c with ⟨⟨wrapper, d | id⟩, c'⟩
  · rw [hrun] at hstops
    refine ⟨_, .failed e hstops.pass, fun fuel hfuel => ?_⟩
    rw [enterInstance_run, hkey]
    dsimp only
    rw [hfuel]
  let styled :=
    { component with node := .element wrapper, props := ds.props, states := ds.states }
  have hstops' := runInstanceStages_stops hstages styled id c'
  rcases hrun' : runInstanceStages env styled id c' with ⟨d | _, c''⟩
  · rw [hrun'] at hstops'
    refine ⟨_, .failed e hstops'.pass, fun fuel hfuel => ?_⟩
    rw [enterInstance_run, hkey]
    dsimp only
    rw [hfuel]
    dsimp only
    rw [hrun']
  · let done := registerElement e.key e id (at'.hierarchy ++ [e.componentName]) c''
    refine ⟨_, .const ((e, done.1.map fun _ => id), done.2) ((registerElement_stops _ _ _ _ _).map _),
      fun fuel hfuel => ?_⟩
    rw [enterInstance_run, hkey]
    dsimp only
    rw [hfuel]
    dsimp only
    rw [hrun']

/-- **An instance ends** when the elements among its attributes do, and the tree of its component
with the children of the instance in it. -/
theorem expandInstance_ends (hstages : ∀ stage ∈ env.styleStage :: env.stages, stage.Answers)
    {e : Element} {c : Context} (hsorted : at'.definitions.props.Sorted)
    (hattrs : ∀ name x, Dict.get? e.attrs name = some (.element x) → ∀ c', c.Extends c' →
      Ends Prod.snd fun fuel => generateElement env fuel at' x c')
    (htree : ∀ external, Dict.get? env.externals e.componentName = some external →
      ∀ fuel attrs props states c', (Dict.merge at'.definitions.states
          (c.instantiate external).states).mapM (instanceState e.attrs) = .ok states →
        generateProps (generateElement env fuel at') at'.definitions e.attrs
            (combineProps at'.definitions.props (c.instantiate external).props)
            (c.reserve (c.instantiate external).node.keys) = ((attrs, .ok props), c') →
        ∀ c'', c'.Extends c'' → Ends Prod.snd fun fuel =>
          generateNode env fuel ⟨⟨props, states⟩, at'.hierarchy ++ [e.componentName]⟩
            ((c.instantiate external).node.withChildren e.children) c'') :
    Ends Prod.snd fun fuel => expandInstance env fuel at' e c := by
  refine .succ ?_
  simp only [expandInstance_succ]
  rcases hexternal : Dict.get? env.externals e.componentName with _ | external
  · exact .failed e nofun
  dsimp only
  rcases hstates : (Dict.merge at'.definitions.states (c.instantiate external).states).mapM
    (instanceState e.attrs) with d | states
  · exact .failed { e with children := [] }
      ((FailsWith.mapM (instanceState_fails e.attrs) _).stops hstates _)
  have hreserve := Context.Extends.reserve c (c.instantiate external).node.keys
  have hprops : Ends Prod.snd fun fuel =>
      generateProps (generateElement env fuel at') at'.definitions e.attrs
        (combineProps at'.definitions.props (c.instantiate external).props)
        (c.reserve (c.instantiate external).node.keys) :=
    ends_props (sorted_combineProps hsorted _).nodup_keys (fun name _ x hx => hattrs name x hx)
      hreserve
  dsimp only
  refine hprops.bind fun n hstops => ?_
  rcases hrun : generateProps (generateElement env n at') at'.definitions e.attrs
    (combineProps at'.definitions.props (c.instantiate external).props)
    (c.reserve (c.instantiate external).node.keys) with ⟨⟨attrs, d | props⟩, c'⟩
  · rw [hrun] at hstops
    refine ⟨_, .failed { e with children := [], attrs } hstops.pass, fun fuel hfuel => ?_⟩
    rw [hfuel]
  · refine ⟨_, enterInstance_ends hstages { e with children := [], attrs } (c.instantiate external)
      (htree external hexternal n attrs props states c' hstates hrun), fun fuel hfuel => ?_⟩
    rw [hfuel]

end Instances

end PageCompiler
