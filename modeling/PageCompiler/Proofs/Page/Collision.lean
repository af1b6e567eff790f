import PageCompiler.Proofs.Page.Instance

/-!
# Collisions of keys

Whatever a page and its components look like, a key that the generation finds doubled is a loose
one. The proof follows the generation: each part of it leaves the keys of what is still to be
generated ready.

* `generate_runs`: every part of the generation, by induction on its depth.
-/

namespace PageCompiler

section Page

variable {env : Environment} {page : Component} {fresh : String → Prop}

/-- Elements that can be generated in a scope. -/
structure Input (env : Environment) (page : Component) (fresh : String → Prop) (ds : Definitions)
    (es : List Element) (c : Context) : Prop where
  scope : FineScope env.externals page c ds
  placed : Placed env.externals page es
  covers : Covers env.externals page fresh (instanceNames es)
  ready : Ready (LooseKey env.externals page) fresh (es.map (·.key)) c

/-- A run for elements of a page. -/
abbrev PageRuns {β : Type} (env : Environment) (page : Component) (fresh : String → Prop)
    (keys : List String) (c : Context) (outcome : Except Diagnostic β) (c' : Context) : Prop :=
  Runs (LooseKey env.externals page) (TreeKey env.externals) fresh keys c outcome c'

/-- A run that generates an element with a key: it keeps the key, and registers the element under
it. -/
structure ElementRuns (env : Environment) (page : Component) (fresh : String → Prop)
    (keys : List String) (key : String) (c : Context)
    (r : Generated Element Nat × Context) : Prop where
  runs : PageRuns env page fresh keys c r.1.2 r.2
  key_eq : r.1.1.key = key
  registered : r.1.2.isOk → r.2.Registered key

/-- What holds of every part of the generation within some depth. -/
structure Generates (env : Environment) (page : Component) (fuel : Nat) : Prop where
  node : ∀ {fresh at' node c}, Input env page fresh at'.definitions node.elements c →
    let r := generateNode env fuel at' node c
    PageRuns env page fresh node.keys c r.1.2 r.2
  reference : ∀ {fresh at' r c}, FineScope env.externals page c at'.definitions →
    Covers env.externals page fresh [] →
    let result := generateReference env fuel at' r c
    PageRuns env page fresh [] c result.1 result.2
  element : ∀ {fresh at' e c}, Input env page fresh at'.definitions e.elements c →
    ElementRuns env page fresh (e.elements.map (·.key)) e.key c (generateElement env fuel at' e c)
  expand : ∀ {fresh at' e c}, e.isInstance → Input env page fresh at'.definitions e.elements c →
    ElementRuns env page fresh (e.elements.map (·.key)) e.key c (expandInstance env fuel at' e c)

namespace ElementRuns

variable {keys keys' : List String} {key : String} {c c' : Context}
  {r : Generated Element Nat × Context}

/-- A run that starts where another one has ended. -/
theorem after (h : ElementRuns env page fresh keys' key c' r)
    (hgrows : Grows (LooseKey env.externals page) (TreeKey env.externals) fresh keys c c') :
    ElementRuns env page fresh (keys ++ keys') key c r :=
  ⟨h.runs.after hgrows, h.key_eq, h.registered⟩

theorem mono (h : ElementRuns env page fresh keys key c r)
    (hkeys : ∀ key ∈ keys, key ∈ keys' ∨ LooseKey env.externals page key ∨
      ¬ c.Used key ∧ fresh key) : ElementRuns env page fresh keys' key c r :=
  ⟨h.runs.mono hkeys fun _ => Or.inl, h.key_eq, h.registered⟩

theorem sameKeys (hsame : c.SameKeys c') (h : ElementRuns env page fresh keys key c' r) :
    ElementRuns env page fresh keys key c r :=
  h.after (.of_sameKeys hsame : Grows _ _ fresh [] c c')

/-- A run that fails, but not over a key. -/
theorem of_keyFree {e' : Element} {d : Diagnostic} (hd : d.doubledKey? = none)
    (hkey : e'.key = key) : ElementRuns env page fresh keys key c ((e', .error d), c') :=
  ⟨.of_keyFree hd, hkey, fun hok => by cases hok⟩

/-- A run that fails as another one did. -/
theorem of_error {α : Type} {fresh' : String → Prop} {e' : Element} {d : Diagnostic}
    {c'' : Context} (h : PageRuns env page fresh' keys' c' (.error d : Except Diagnostic α) c'')
    (hkey : e'.key = key) : ElementRuns env page fresh keys key c ((e', .error d), c'') :=
  ⟨h, hkey, fun hok => by cases hok⟩

/-- The registration of an element whose key is ready. -/
theorem of_register {e' : Element} (h : Ready (LooseKey env.externals page) fresh [key] c)
    (hkey : e'.key = key) (id : Nat) (hierarchy : List String) :
    ElementRuns env page fresh [key] key c
      ((e', (registerElement e'.key e' id hierarchy c).1.map fun _ => id),
        (registerElement e'.key e' id hierarchy c).2) := by
  rw [hkey]
  obtain ⟨hruns, hregistered⟩ := registerElement_runs h e' id hierarchy
  refine ⟨hruns.map _, hkey, fun hok => hregistered ?_⟩
  cases hrun : (registerElement key e' id hierarchy c).1 with
  | error d =>
    rw [hrun] at hok
    cases hok
  | ok _ => rfl

end ElementRuns

/-! ## Input for parts -/

namespace Input

variable {ds : Definitions} {es fs : List Element} {c c' : Context}

/-- Some of the elements, with a context that uses the same keys. -/
theorem part (h : Input env page fresh ds es c) (hsub : fs ⊆ es)
    (hkeys : (fs.map (·.key)).Subperm (es.map (·.key))) (hsame : c.SameKeys c') :
    Input env page fresh ds fs c' where
  scope := h.scope.mono (.of_sameKeys hsame : Grows _ _ fresh [] c c')
  placed := h.placed.subset hsub
  covers := h.covers.subset (instanceNames_subset hsub)
  ready := (h.ready.subperm hkeys).sameKeys hsame

theorem left (h : Input env page fresh ds (es ++ fs) c) : Input env page fresh ds es c where
  scope := h.scope
  placed := h.placed.subset (List.subset_append_left _ _)
  covers := h.covers.subset (instanceNames_subset (List.subset_append_left _ _))
  ready := by
    have hready := h.ready
    rw [List.map_append] at hready
    exact hready.left

theorem right (h : Input env page fresh ds (es ++ fs) c)
    (hgrows : Grows (LooseKey env.externals page) (TreeKey env.externals) fresh
      (es.map (·.key)) c c') : Input env page fresh ds fs c' where
  scope := h.scope.mono hgrows
  placed := h.placed.subset (List.subset_append_right _ _)
  covers := h.covers.subset (instanceNames_subset (List.subset_append_right _ _))
  ready := by
    have hready := h.ready
    rw [List.map_append] at hready
    exact hready.after hgrows

end Input

/-! ## Lists of nodes -/

theorem generateEach_runs {fuel : Nat} (ih : Generates env page fuel) {at' : Surroundings}
    {nodes : List Node} {c : Context}
    (h : Input env page fresh at'.definitions (nodesElements nodes) c) :
    let r := generateEach (generateNode env fuel at') nodes c
    PageRuns env page fresh ((nodesElements nodes).map (·.key)) c r.1.2 r.2 := by
  induction nodes generalizing c with
  | nil => exact Grows.of_sameKeys (.refl c)
  | cons node rest ihrest =>
    have hnode := ih.node h.left
    rw [generateEach_cons, nodesElements, List.map_append]
    rcases hrun : generateNode env fuel at' node c with ⟨⟨node', d | piece⟩, c₁⟩
    · rw [hrun] at hnode
      exact hnode
    · rw [hrun] at hnode
      have hrest := ihrest (h.right hnode)
      rcases hruns : generateEach (generateNode env fuel at') rest c₁ with ⟨⟨rest', d | pieces⟩, c₂⟩
      · rw [hruns] at hrest
        simp only [hruns]
        exact hrest
      · rw [hruns] at hrest
        simp only [hruns]
        exact Grows.trans hnode hrest

/-! ## Tags -/

theorem finishTag_runs (at' : Surroundings) (e : Element) (pieces : List Piece) {c : Context}
    (h : Ready (LooseKey env.externals page) fresh [e.key] c) :
    ElementRuns env page fresh [e.key] e.key c (finishTag env at' e pieces c) := by
  obtain ⟨hkey, -, hstyles⟩ := e.settleStyles_run at'.definitions
  rw [finishTag_run]
  rcases hstyled : e.settleStyles at'.definitions with ⟨styled, d | _⟩
  · rw [hstyled] at hkey hstyles
    exact .of_keyFree (hstyles.keyFree d rfl) hkey
  rw [hstyled] at hkey
  dsimp only at hkey ⊢
  have hattrs := pageAttributes_fails env.options env.folder at'.definitions styled.elementType
    styled.attrs
  rcases hpage : pageAttributes env.options env.folder at'.definitions styled.elementType
    styled.attrs with ⟨attrs, d | _⟩
  · rw [hpage] at hattrs
    exact .of_keyFree (hattrs.keyFree d rfl) hkey
  · have htag := createTag_sameKeys
      { name := styled.elementType, attrs, children := pieces } c
    exact .sameKeys htag (.of_register (h.sameKeys htag) hkey _ _)

theorem Element.keys_eq (e : Element) : e.elements.map (·.key)
    = e.key :: ((attributesElements e.attrs).map (·.key)
      ++ (nodesElements e.children).map (·.key)) := by
  rw [elements_eq, List.map_cons, List.map_append]

theorem noteDependency_sameKeys (c : Context) (e : Element) : c.SameKeys (c.noteDependency e) := by
  unfold Context.noteDependency
  split <;> exact ⟨rfl, rfl⟩

theorem generateElement_runs_tag {fuel : Nat} (ih : Generates env page fuel) {at' : Surroundings}
    {e : Element} {c : Context} (he : e.isInstance = false)
    (h : Input env page fresh at'.definitions e.elements c) :
    ElementRuns env page fresh (e.elements.map (·.key)) e.key c
      (generateElement env (fuel + 1) at' e c) := by
  have hnote := noteDependency_sameKeys c e
  have hkeys : ((nodesElements e.children).map (·.key) ++ [e.key]).Subperm
      (e.elements.map (·.key)) := by
    rw [e.keys_eq]
    exact List.perm_append_comm.subperm.trans
      ((List.subperm_cons _).2 (List.sublist_append_right _ _).subperm)
  have hready : Ready (LooseKey env.externals page) fresh
      ((nodesElements e.children).map (·.key) ++ [e.key]) (c.noteDependency e) :=
    (h.ready.subperm hkeys).sameKeys hnote
  have hchildren := generateEach_runs ih (h.part e.children_subset
    ((List.sublist_append_left _ _).subperm.trans hkeys) hnote)
  rw [generateElement_tag env fuel at' c he]
  rcases hrun : generateEach (generateNode env fuel at') e.children (c.noteDependency e) with
    ⟨⟨children, d | pieces⟩, c₁⟩
  · rw [hrun] at hchildren
    exact .of_error hchildren rfl
  · rw [hrun] at hchildren
    have hfinish := finishTag_runs at' { e with children } pieces (hready.after hchildren)
    exact (hfinish.after (.sameKeys_trans hnote hchildren)).mono fun key hkey => Or.inl (hkeys.subset hkey)

/-! ## References -/

theorem generateNode_inert (env : Environment) (fuel : Nat) (at' : Surroundings) {node : Node}
    (h : node.isInert) (c : Context) :
    let r := generateNode env fuel at' node c
    c.SameKeys r.2 ∧ KeyFree r.1.2 := by
  cases fuel with
  | zero =>
    rw [generateNode]
    exact ⟨.refl c, fun d hd => by cases hd; rfl⟩
  | succ fuel =>
    cases node with
    | constant _ | raw _ | inject _ | expr _ | slot _ =>
      rw [generateNode]
      exact ⟨⟨rfl, rfl⟩, .ok _⟩
    | dynamic _ | element _ | conditional _ | repetition _ => cases h

theorem generateEach_inert (env : Environment) (fuel : Nat) (at' : Surroundings)
    {nodes : List Node} (h : ∀ node ∈ nodes, node.isInert) (c : Context) :
    let r := generateEach (generateNode env fuel at') nodes c
    c.SameKeys r.2 ∧ KeyFree r.1.2 := by
  induction nodes generalizing c with
  | nil => exact ⟨.refl c, .ok _⟩
  | cons node rest ih =>
    obtain ⟨hsame, hfree⟩ := generateNode_inert env fuel at' (h node List.mem_cons_self) c
    rw [generateEach_cons]
    rcases hrun : generateNode env fuel at' node c with ⟨⟨node', d | piece⟩, c₁⟩
    · rw [hrun] at hsame hfree
      exact ⟨hsame, fun d' hd => by cases hd; exact hfree d rfl⟩
    · rw [hrun] at hsame
      obtain ⟨hsame', hfree'⟩ := ih (fun node hnode => h node (List.mem_cons_of_mem _ hnode)) c₁
      exact ⟨hsame.trans hsame', hfree'.map _⟩

/-- A single element registers no key but its own. -/
theorem generateNode_leaf (env : Environment) (fuel : Nat) (at' : Surroundings) {e : Element}
    {c : Context} (hleaf : (Node.element e).IsLeaf)
    (h : Ready (LooseKey env.externals page) fresh [e.key] c) :
    let r := generateNode env fuel at' (.element e) c
    PageRuns env page fresh [e.key] c r.1.2 r.2 := by
  obtain ⟨_, ⟨⟩, hinstance, hinert⟩ := hleaf
  cases fuel with
  | zero =>
    rw [generateNode]
    exact .of_keyFree rfl
  | succ fuel =>
    rw [generateNode_element]
    refine Runs.map ?_ _
    cases fuel with
    | zero =>
      rw [generateElement]
      exact .of_keyFree rfl
    | succ fuel =>
      obtain ⟨hsame, hfree⟩ := generateEach_inert env fuel at' hinert (c.noteDependency e)
      have hsame := (noteDependency_sameKeys c e).trans hsame
      rw [generateElement_tag env fuel at' c hinstance]
      rcases hrun : generateEach (generateNode env fuel at') e.children (c.noteDependency e) with
        ⟨⟨children, d | pieces⟩, c₁⟩
      · rw [hrun] at hfree
        exact .of_keyFree (hfree d rfl)
      · rw [hrun] at hsame
        exact (ElementRuns.sameKeys hsame
          (finishTag_runs at' { e with children } pieces (h.sameKeys hsame))).runs

theorem generateNode_fine {fuel : Nat} (ih : Generates env page fuel) {at' : Surroundings}
    {node : Node} {c : Context} (hnode : FineDefault env.externals page c node)
    (hnew : node.registered? c = none) (hscope : FineScope env.externals page c at'.definitions)
    (hcovers : Covers env.externals page fresh []) :
    let r := generateNode env fuel at' node c
    PageRuns env page fresh [] c r.1.2 r.2 := by
  cases hnode with
  | registered h =>
    rw [Node.registered?] at hnew
    rw [Context.Registered, Dict.contains, hnew] at h
    cases h
  | @leaf e hleaf hkey' =>
    have hfree : ¬ c.Registered e.key := by
      rw [Node.registered?] at hnew
      rw [Context.Registered, Dict.contains, hnew]
      exact Bool.false_ne_true
    -- nothing else can be registered by the way, so that its key may be a fresh one
    have hready : Ready (LooseKey env.externals page) (fun _ => False) [e.key] c :=
      ⟨List.pairwise_singleton _ _, fun key hkey => by
        rw [List.mem_singleton.1 hkey]
        exact Or.inr ⟨hfree, Or.inr id⟩⟩
    refine (generateNode_leaf env fuel at' hleaf hready).mono (fun key hkey => ?_) fun _ => False.elim
    rw [List.mem_singleton.1 hkey]
    rcases hkey' with hloose | ⟨hdefault, hunreserved⟩
    · exact Or.inr (Or.inl hloose)
    · exact Or.inr (Or.inr ⟨not_or.2 ⟨hfree, hunreserved⟩, hcovers.element (Or.inr hdefault)⟩)
  | loose hkeys hplaced hwrappers =>
    have hloose : ∀ key ∈ node.elements.map (·.key), LooseKey env.externals page key := by
      intro key hkey
      obtain ⟨x, hx, rfl⟩ := List.mem_map.1 hkey
      exact hkeys x hx
    have hruns := ih.node ⟨hscope, hplaced, ⟨hcovers.element, fun houter _ hwithin _ hkey =>
      Or.inr (hwrappers _ houter _ hwithin _ hkey)⟩, .of_loose hloose⟩
    exact hruns.mono (fun key hkey => Or.inr (Or.inl (hloose key hkey))) fun _ => Or.inl

theorem spanWith_runs (piece : Piece) (c : Context) :
    PageRuns env page fresh [] c (spanWith piece c).1 (spanWith piece c).2 :=
  Grows.of_sameKeys (createTag_sameKeys { name := "span", children := [piece] } c)

theorem generateReference_runs {fuel : Nat} (ih : Generates env page fuel) {at' : Surroundings}
    {r : Reference} {c : Context} (hscope : FineScope env.externals page c at'.definitions)
    (hcovers : Covers env.externals page fresh []) :
    let result := generateReference env (fuel + 1) at' r c
    PageRuns env page fresh [] c result.1 result.2 := by
  rw [generateReference_succ]
  split
  · exact spanWith_runs _ c
  rcases hvalue : at'.definitions.value r with d | v
  · exact .of_keyFree ((at'.definitions.value_fails r).keyFree d hvalue)
  dsimp only
  unfold generateValue
  split
  · exact Grows.of_sameKeys (.refl c)
  split
  · rcases hdefault : v.default with _ | node | value
    · exact spanWith_runs _ c
    · have hnode : FineDefault env.externals page c node := by
        rcases Definitions.find_ok (Definitions.value_ok hvalue) with
          ⟨-, d, hd, rfl⟩ | ⟨-, d, hd, rfl⟩
        · exact hscope.props _ (Dict.mem_of_get? hd) node hdefault
        · exact hscope.states _ (Dict.mem_of_get? hd) node hdefault
      dsimp only
      rw [bind_run, get_run]
      dsimp only
      rcases hnew : node.registered? c with _ | id
      · exact generateNode_fine ih hnode hnew hscope hcovers
      · exact Grows.of_sameKeys (.refl c)
    · exact spanWith_runs _ c
  · exact spanWith_runs _ c

/-! ## Props of an instance -/

/-- A run that generates the props of an instance. -/
structure PropsRuns (env : Environment) (page : Component) (fresh : String → Prop)
    (keys names : List String) (c : Context)
    (r : Generated Attributes (Dict PropDefinition) × Context) : Prop where
  runs : PageRuns env page fresh keys c r.1.2 r.2
  fine : ∀ {props}, r.1.2 = .ok props → Dict.keys props = names ∧
    ∀ entry ∈ props, FineValue env.externals page r.2 entry.2.default

/-- One more prop in front. -/
theorem PropsRuns.cons {keys keys' names : List String} {c c' : Context}
    {r : Generated Attributes (Dict PropDefinition) × Context} {d : PropDefinition}
    (h : PropsRuns env page fresh keys' names c' r) (name : String)
    (hgrows : Grows (LooseKey env.externals page) (TreeKey env.externals) fresh keys c c')
    (hfine : FineValue env.externals page c' d.default) :
    PropsRuns env page fresh (keys ++ keys') (name :: names) c
      ((r.1.1, r.1.2.map ((name, d) :: ·)), r.2) := by
  obtain ⟨⟨attrs, outcome⟩, c''⟩ := r
  cases outcome with
  | error d => exact ⟨h.runs, fun hok => by cases hok⟩
  | ok props =>
    obtain ⟨hnames, hprops⟩ := h.fine rfl
    refine ⟨hgrows.trans h.runs, fun hok => ?_⟩
    cases hok
    refine ⟨congrArg (name :: ·) hnames, fun entry hentry => ?_⟩
    rcases List.mem_cons.1 hentry with rfl | hentry
    · exact hfine.mono h.runs
    · exact hprops entry hentry

/-- The elements of the attribute of a name. -/
def namedElements (attrs : Attributes) (name : String) : List Element :=
  match Dict.get? attrs name with
  | some (.element e) => e.elements
  | _ => []

/-- The elements among attributes that props are given. -/
def passedElements (attrs : Attributes) (props : Dict PropDefinition) : List Element :=
  props.flatMap fun entry => namedElements attrs entry.1

theorem generateProps_runs {fuel : Nat} (ih : Generates env page fuel) {at' : Surroundings}
    (attrs₀ : Attributes) {props : Dict PropDefinition} {attrs : Attributes} {c : Context}
    (hnames : (Dict.keys props).Nodup)
    (hattrs : ∀ name ∈ Dict.keys props, Dict.get? attrs name = Dict.get? attrs₀ name)
    (h : Input env page fresh at'.definitions (passedElements attrs₀ props) c)
    (hprops : ∀ entry ∈ props, FineValue env.externals page c entry.2.default) :
    PropsRuns env page fresh ((passedElements attrs₀ props).map (·.key)) (Dict.keys props) c
      (generateProps (generateElement env fuel at') at'.definitions attrs props c) := by
  induction props generalizing attrs c with
  | nil =>
    rw [generateProps_nil]
    exact ⟨Grows.of_sameKeys (.refl c), fun hok => by cases hok; exact ⟨rfl, fun _ hmem => by cases hmem⟩⟩
  | cons entry rest ihrest =>
    obtain ⟨name, own⟩ := entry
    obtain ⟨hname, hnames⟩ := List.nodup_cons.1 hnames
    have hget := hattrs name List.mem_cons_self
    have hrest : ∀ name ∈ Dict.keys rest, Dict.get? attrs name = Dict.get? attrs₀ name :=
      fun name hname => hattrs name (List.mem_cons_of_mem _ hname)
    have hown := hprops _ List.mem_cons_self
    have hfine : ∀ entry ∈ rest, FineValue env.externals page c entry.2.default :=
      fun entry hentry => hprops entry (List.mem_cons_of_mem _ hentry)
    rw [passedElements, List.flatMap_cons, List.map_append]
    rw [passedElements, List.flatMap_cons] at h
    rcases hvalue : Dict.get? attrs name with _ | value
    · rw [generateProps_none hvalue]
      have hnone : namedElements attrs₀ name = [] := by
        rw [namedElements, ← hget, hvalue]
      rw [hnone] at h ⊢
      exact (ihrest hnames hrest h hfine).cons name (.of_sameKeys (.refl c)) hown
    by_cases helement : ∃ e, value = .element e
    · obtain ⟨e, rfl⟩ := helement
      have hsome : namedElements attrs₀ name = e.elements := by
        rw [namedElements, ← hget, hvalue]
      rw [generateProps_element hvalue]
      rw [hsome] at h ⊢
      have hruns := ih.element h.left
      rcases hrun : generateElement env fuel at' e c with ⟨⟨e', d | id⟩, c₁⟩
      · rw [hrun] at hruns
        exact ⟨hruns.runs, fun hok => by cases hok⟩
      · rw [hrun] at hruns
        have hregistered : FineValue env.externals page c₁ (some (.node (.element e'))) := by
          intro node hnode
          cases hnode
          refine .registered ?_
          rw [hruns.key_eq]
          exact hruns.registered rfl
        have hothers : ∀ name' ∈ Dict.keys rest,
            Dict.get? (Dict.insert attrs name (.element e')) name' = Dict.get? attrs₀ name' := by
          intro name' hname'
          have hne : name' ≠ name := by
            rintro rfl
            exact hname hname'
          rw [Dict.get?_insert_of_ne _ _ hne]
          exact hrest name' hname'
        exact (ihrest hnames hothers (h.right hruns.runs)
          fun entry hentry => (hfine entry hentry).mono hruns.runs).cons name hruns.runs hregistered
    · have hplain : ∀ e, value ≠ .element e := by simpa using helement
      have hnone : namedElements attrs₀ name = [] := by
        rw [namedElements, ← hget, hvalue]
        cases value with
        | element e => exact absurd rfl (hplain e)
        | _ => rfl
      rw [generateProps_plain hvalue hplain]
      rw [hnone] at h ⊢
      rcases hprop : instanceProp at'.definitions value own with d | definition
      · exact ⟨.of_keyFree ((instanceProp_fails _ _ _).keyFree d hprop), fun hok => by cases hok⟩
      · exact (ihrest hnames hrest h hfine).cons name (.of_sameKeys (.refl c))
          (fineValue_instanceProp hprop h.scope hown)

/-! ## Wrappers -/

theorem suffixedWrapperKey?_some {c : Context} {base key : String} :
    ∀ {tries : Nat} {seed : String}, suffixedWrapperKey? c base tries seed = some key →
      ¬ c.Used key ∧ ∃ seed, key = base ++ "-" ++ Sha256.suffix seed
  | 0, _, h => by cases h
  | tries + 1, seed, h => by
    rw [suffixedWrapperKey?] at h
    split at h
    · exact suffixedWrapperKey?_some h
    · rename_i hunused
      cases h
      exact ⟨fun hused => hunused (Context.isUsed_iff.2 hused), seed, rfl⟩

/-- The key of a wrapper is not used when it is chosen. -/
theorem wrapperKey?_some {c : Context} {name seed key : String}
    (h : wrapperKey? c name seed = some key) : ¬ c.Used key ∧ WrapperKey name key := by
  unfold wrapperKey? at h
  dsimp only at h
  split at h
  · obtain ⟨hunused, hkey⟩ := suffixedWrapperKey?_some h
    exact ⟨hunused, Or.inr hkey⟩
  · rename_i hunused
    cases h
    exact ⟨fun hused => hunused (Context.isUsed_iff.2 hused), Or.inl rfl⟩

theorem wrapperElement_elements (key : String) (root : Node) :
    (wrapperElement key root).elements = wrapperElement key root :: root.elements := by
  simp [wrapperElement, attributesElements, nodesElements]

/-- The keys that the generation of some elements can register by the way. -/
def FreshInside (externals : Dict Component) (page : Component) (es : List Element)
    (key : String) : Prop :=
  (TreeKey externals key ∨ DefaultKey externals page key) ∨
    ∃ outer ∈ instanceNames es, ∃ name,
      Relation.ReflTransGen (Within externals page) outer name ∧ WrapperKey name key

theorem covers_freshInside (externals : Dict Component) (page : Component) (es : List Element) :
    Covers externals page (FreshInside externals page es) (instanceNames es) where
  element := Or.inl
  wrapper houter _ hwithin _ hkey := Or.inl (Or.inr ⟨_, houter, _, hwithin, hkey⟩)

section Wrapper

variable {e : Element} {root : Node} {c : Context} {key : String}

/-- What can be registered inside a wrapper can be registered by the instance. -/
theorem fresh_of_freshInside
    (hwithin : ∀ name ∈ instanceNames root.elements,
      Within env.externals page e.componentName name)
    (hcovers : Covers env.externals page fresh [e.componentName])
    (hkey : FreshInside env.externals page root.elements key) :
    fresh key ∨ LooseKey env.externals page key := by
  rcases hkey with helement | ⟨outer, houter, name, hreach, hkey⟩
  · exact Or.inl (hcovers.element helement)
  · exact hcovers.wrapper List.mem_cons_self (.head (hwithin outer houter) hreach) hkey

/-- The key of a wrapper cannot be registered inside it, unless it is a loose one. -/
theorem not_freshInside_wrapperKey
    (hwithin : ∀ name ∈ instanceNames root.elements,
      Within env.externals page e.componentName name)
    (hwrapper : WrapperKey e.componentName key) :
    LooseKey env.externals page key ∨ ¬ FreshInside env.externals page root.elements key := by
  by_cases hloose : LooseKey env.externals page key
  · exact Or.inl hloose
  · refine Or.inr fun hinside => hloose ?_
    rcases hinside with helement | ⟨outer, houter, name, hreach, hkey⟩
    · exact .wrapper hwrapper helement
    · exact .nested (.head' (hwithin outer houter) hreach) hwrapper hkey

/-- **A wrapper with the tree of an instance in it can be generated.** -/
theorem input_wrapper {ds : Definitions} (hscope : FineScope env.externals page c ds)
    (hplaced : Placed env.externals page root.elements)
    (hwithin : ∀ name ∈ instanceNames root.elements,
      Within env.externals page e.componentName name)
    (hcovers : Covers env.externals page fresh [e.componentName])
    (hready : Ready (LooseKey env.externals page) fresh root.keys c)
    (hunused : ¬ c.Used key) (hwrapper : WrapperKey e.componentName key) :
    Input env page (FreshInside env.externals page root.elements) ds
      (wrapperElement key root).elements c := by
  have hmono := hready.mono fun _ => fresh_of_freshInside hwithin hcovers
  have hfresh : fresh key ∨ LooseKey env.externals page key :=
    hcovers.wrapper List.mem_cons_self .refl hwrapper
  rw [wrapperElement_elements]
  have hinside := covers_freshInside env.externals page root.elements
  refine ⟨hscope, fun x hx => ?_, ⟨hinside.element, hinside.wrapper⟩, ?_, ?_⟩
  · rcases List.mem_cons.1 hx with rfl | hx
    · exact fun hfalse => by cases hfalse
    · exact hplaced x hx
  · refine List.pairwise_cons.2 ⟨fun other hother heq => ?_, hmono.apart⟩
    -- the keys of the tree are used, as far as an instance could register them
    have heq : key = other := heq
    subst heq
    rcases hready.free _ hother with hloose | ⟨-, hreserved | hnot⟩
    · exact hloose
    · exact absurd (Or.inr hreserved) hunused
    · exact hfresh.resolve_left hnot
  · intro other hother
    rcases List.mem_cons.1 hother with rfl | hother
    · rcases not_freshInside_wrapperKey hwithin hwrapper with hloose | hnot
      · exact Or.inl hloose
      · exact Or.inr ⟨fun hold => hunused (Or.inl hold), Or.inr hnot⟩
    · exact hmono.free other hother

end Wrapper

/-- The stages of an instance and its registration. -/
theorem finishInstance_runs
    (hstages : ∀ stage ∈ env.styleStage :: env.stages, stage.AcceptsKeys) {e : Element}
    (component : Component) (id : Nat) (hierarchy : List String) {c : Context}
    (h : Ready (LooseKey env.externals page) fresh [e.key] c) :
    let s := runInstanceStages env component id c
    ElementRuns env page fresh [e.key] e.key c (
      match s.1 with
      | .error d => ((e, .error d), s.2)
      | .ok _ =>
        let t := registerElement e.key e id hierarchy s.2
        ((e, t.1.map fun _ => id), t.2)) := by
  have hsame := runInstanceStages_sameKeys env component id c
  have hfree := runInstanceStages_keyFree hstages component id c
  rcases hrun : runInstanceStages env component id c with ⟨d | _, c'⟩
  · rw [hrun] at hfree
    exact .of_keyFree (hfree d rfl) rfl
  · rw [hrun] at hsame
    exact .sameKeys hsame (.of_register (h.sameKeys hsame) rfl id hierarchy)

theorem enterInstance_runs {fuel : Nat} (ih : Generates env page fuel)
    (hstages : ∀ stage ∈ env.styleStage :: env.stages, stage.AcceptsKeys) (at' : Surroundings)
    {e : Element} (component : Component) {root : Node} {ds : Definitions} {c : Context}
    (hscope : FineScope env.externals page c ds)
    (hplaced : Placed env.externals page root.elements)
    (hwithin : ∀ name ∈ instanceNames root.elements,
      Within env.externals page e.componentName name)
    (hcovers : Covers env.externals page fresh [e.componentName])
    (hready : Ready (LooseKey env.externals page) fresh (root.keys ++ [e.key]) c) :
    ElementRuns env page fresh (root.keys ++ [e.key]) e.key c
      (enterInstance env fuel at' e component root ds c) := by
  rw [enterInstance_run]
  rcases hkey : wrapperKey? c e.componentName e.key with _ | key
  · exact .of_keyFree rfl rfl
  obtain ⟨hunused, hwrapper⟩ := wrapperKey?_some hkey
  have hinput := input_wrapper hscope hplaced hwithin hcovers hready.left hunused hwrapper
  have hruns := @ih.element _ ⟨ds, at'.hierarchy ++ [e.componentName]⟩ _ c hinput
  dsimp only
  rcases hrun : generateElement env fuel _ (wrapperElement key root) c with ⟨⟨wrapper, d | id⟩, c₁⟩
  · rw [hrun] at hruns
    exact .of_error (α := Nat) hruns.runs rfl
  rw [hrun] at hruns
  have hgrows : Grows (LooseKey env.externals page) (TreeKey env.externals) fresh root.keys c c₁ := by
    refine Grows.mono hruns.runs (fun other hother => ?_)
      fun key => fresh_of_freshInside hwithin hcovers
    rw [wrapperElement_elements] at hother
    rcases List.mem_cons.1 hother with rfl | hother
    · have hfresh : fresh other ∨ LooseKey env.externals page other :=
        hcovers.wrapper List.mem_cons_self .refl hwrapper
      exact Or.inr (hfresh.elim (fun hfresh => Or.inr ⟨hunused, hfresh⟩) Or.inl)
    · exact Or.inl hother
  exact .after (finishInstance_runs hstages _ id _ (hready.after hgrows)) hgrows

/-! ## Instances -/

theorem namedElements_cons (name : String) (value : Attribute) (rest : Attributes) (other : String) :
    namedElements ((name, value) :: rest) other =
      if other = name then value.elements else namedElements rest other := by
  rw [namedElements, Dict.get?_cons]
  by_cases h : other = name
  · rw [if_pos h, if_pos h]
    cases value <;> rfl
  · rw [if_neg h, if_neg h, namedElements]

/-- Different names have different attributes. -/
theorem namedElements_subperm (attrs : Attributes) {names : List String} (h : names.Nodup) :
    (names.flatMap (namedElements attrs)).Subperm (attributesElements attrs) := by
  induction attrs generalizing names with
  | nil =>
    have hnil : names.flatMap (namedElements []) = [] := List.flatMap_eq_nil_iff.2 fun _ _ => rfl
    rw [hnil]
    exact List.nil_subperm
  | cons entry rest ih =>
    obtain ⟨name, value⟩ := entry
    have hothers : ∀ {others : List String}, name ∉ others →
        others.flatMap (namedElements ((name, value) :: rest)) = others.flatMap (namedElements rest) := by
      intro others hname
      refine List.flatMap_congr fun other hother => ?_
      have hne : other ≠ name := by
        rintro rfl
        exact hname hother
      rw [namedElements_cons, if_neg hne]
    rw [attributesElements]
    by_cases hname : name ∈ names
    · have hperm := List.perm_cons_erase hname
      have hrest : name ∉ names.erase name := h.not_mem_erase
      refine (hperm.flatMap_right _).subperm.trans ?_
      rw [List.flatMap_cons, namedElements_cons, if_pos rfl, hothers hrest]
      exact (List.subperm_append_left _).2 (ih (h.erase _))
    · rw [hothers hname]
      exact (ih h).trans (List.sublist_append_right _ _).subperm

theorem keys_subperm_of_subperm {es fs : List Element} (h : es.Subperm fs) :
    (es.map (·.key)).Subperm (fs.map (·.key)) := by
  obtain ⟨between, hperm, hsublist⟩ := h
  exact ⟨between.map (·.key), hperm.map _, hsublist.map _⟩

theorem passedElements_subperm (attrs : Attributes) {props : Dict PropDefinition}
    (h : props.Sorted) : (passedElements attrs props).Subperm (attributesElements attrs) := by
  have hnames := namedElements_subperm attrs h.nodup_keys
  rwa [Dict.keys, List.flatMap_map] at hnames

/-- The keys of a copy are ready when they are reserved, beside all that was ready before. -/
theorem ready_copy {keys : List String} {name : String} {external : Component} {c : Context}
    (h : Ready (LooseKey env.externals page) fresh keys c)
    (hexternal : Dict.get? env.externals name = some external)
    (hfresh : ∀ key, TreeKey env.externals key → fresh key) :
    Ready (LooseKey env.externals page) fresh ((c.instantiate external).node.keys ++ keys)
      (c.reserve (c.instantiate external).node.keys) := by
  obtain ⟨-, hnodup, hnew⟩ := c.copy_tree external
  refine ⟨List.pairwise_append.2 ⟨hnodup.imp fun hne heq => absurd heq hne, h.apart, ?_⟩, ?_⟩
  · intro key hkey other hother heq
    have heq : key = other := heq
    subst heq
    rcases h.free key hother with hloose | ⟨-, hreserved | hnot⟩
    · exact hloose
    · exact absurd (Or.inr hreserved) (hnew key hkey)
    · exact absurd (hfresh key (treeKey_copy hexternal hkey)) hnot
  · intro key hkey
    rw [Context.registered_reserve, Context.reserved_reserve]
    rcases List.mem_append.1 hkey with hkey | hkey
    · exact Or.inr ⟨fun hold => hnew key hkey (Or.inl hold), Or.inl (Or.inl hkey)⟩
    · exact (h.free key hkey).imp_right fun hfree => ⟨hfree.1, hfree.2.imp_left Or.inr⟩

section Expand

variable {ds : Definitions} {e : Element} {external : Component} {c : Context}

theorem grows_reserve_copy (page : Component) (fresh : String → Prop) (c : Context)
    (hexternal : Dict.get? env.externals e.componentName = some external) :
    Grows (LooseKey env.externals page) (TreeKey env.externals) fresh [] c
      (c.reserve (c.instantiate external).node.keys) :=
  .reserve fun _ => treeKey_copy hexternal

/-- What is ready when the copy for an instance is made: the elements among the attributes, the
tree of the copy with the children, and the instance itself, in the order of the generation. -/
theorem ready_instance (h : Input env page fresh ds e.elements c)
    (hexternal : Dict.get? env.externals e.componentName = some external) :
    Ready (LooseKey env.externals page) fresh
      ((passedElements e.attrs (combineProps ds.props (c.instantiate external).props)).map (·.key)
        ++ (((c.instantiate external).node.withChildren e.children).keys ++ [e.key]))
      (c.reserve (c.instantiate external).node.keys) := by
  refine (ready_copy h.ready hexternal fun key htree => h.covers.element (Or.inl htree)).subperm ?_
  have hpassed := keys_subperm_of_subperm (passedElements_subperm e.attrs
    (sorted_combineProps h.scope.sorted (c.instantiate external).props))
  have hroot := keys_withChildren (c.instantiate external).node e.children
  refine (hpassed.append (hroot.append (List.Subperm.refl [e.key]))).trans (List.Perm.subperm ?_)
  rw [e.keys_eq, List.perm_iff_count]
  intro key
  simp only [List.count_append, List.count_cons, List.count_nil]
  omega

/-- Every key that is registered for an instance is a key of its elements, or a new one. -/
theorem mem_keys_instance (h : Input env page fresh ds e.elements c)
    (hexternal : Dict.get? env.externals e.componentName = some external) {key : String}
    (hkey : key ∈ [] ++ (passedElements e.attrs
        (combineProps ds.props (c.instantiate external).props)).map (·.key)
      ++ (((c.instantiate external).node.withChildren e.children).keys ++ [e.key])) :
    key ∈ e.elements.map (·.key) ∨ LooseKey env.externals page key ∨ ¬ c.Used key ∧ fresh key := by
  have hpassed := keys_subperm_of_subperm (passedElements_subperm e.attrs
    (sorted_combineProps h.scope.sorted (c.instantiate external).props))
  have hroot := keys_withChildren (c.instantiate external).node e.children
  rw [e.keys_eq, List.mem_cons, List.mem_append]
  rw [List.nil_append, List.mem_append, List.mem_append, List.mem_singleton] at hkey
  rcases hkey with hkey | hkey | hkey
  · exact Or.inl (Or.inr (Or.inl (hpassed.subset hkey)))
  · rcases List.mem_append.1 (hroot.subset hkey) with hcopy | hchild
    · exact Or.inr (Or.inr ⟨(c.copy_tree external).2.2 key hcopy,
        h.covers.element (Or.inl (treeKey_copy hexternal hcopy))⟩)
    · exact Or.inl (Or.inr (Or.inr hchild))
  · exact Or.inl (Or.inl hkey)

theorem input_props (h : Input env page fresh ds e.elements c)
    (hexternal : Dict.get? env.externals e.componentName = some external) :
    Input env page fresh ds
      (passedElements e.attrs (combineProps ds.props (c.instantiate external).props))
      (c.reserve (c.instantiate external).node.keys) := by
  have hsub : passedElements e.attrs (combineProps ds.props (c.instantiate external).props)
      ⊆ e.elements := by
    intro x hx
    have hx := (passedElements_subperm e.attrs
      (sorted_combineProps h.scope.sorted (c.instantiate external).props)).subset hx
    rw [Element.elements_eq]
    exact List.mem_cons_of_mem _ (List.mem_append_left _ hx)
  exact ⟨h.scope.mono (grows_reserve_copy page fresh c hexternal), h.placed.subset hsub,
    h.covers.subset (instanceNames_subset hsub),
    (ready_instance h hexternal).left⟩

theorem fine_combineProps (hscope : FineScope env.externals page c ds)
    (hexternal : Dict.get? env.externals e.componentName = some external) :
    ∀ entry ∈ combineProps ds.props (c.instantiate external).props,
      FineValue env.externals page (c.reserve (c.instantiate external).node.keys)
        entry.2.default := by
  intro entry hentry
  rcases mem_combineProps hentry with ⟨hcaller, -⟩ | hown
  · exact (hscope.props entry hcaller).mono (grows_reserve_copy page (fun _ => False) c hexternal)
  · exact fineDefault_copy hexternal hown

/-- **The scope of an instance** is fine when that of its caller is. -/
theorem fineScope_instance {c' : Context} {keys : List String} {props : Dict PropDefinition}
    {states : Dict StateDefinition} (hscope : FineScope env.externals page c ds)
    (hexternal : Dict.get? env.externals e.componentName = some external)
    (hgrows : Grows (LooseKey env.externals page) (TreeKey env.externals) fresh keys c c')
    (hstates : (Dict.merge ds.states (c.instantiate external).states).mapM
      (instanceState e.attrs) = .ok states)
    (hprops : Dict.keys props = Dict.keys (combineProps ds.props (c.instantiate external).props) ∧
      ∀ entry ∈ props, FineValue env.externals page c' entry.2.default) :
    FineScope env.externals page c' { props, states } where
  props := hprops.2
  sorted := (sorted_combineProps hscope.sorted _).of_keys hprops.1
  states entry hentry := by
    obtain ⟨original, horiginal, hrun⟩ := exists_of_mem_mapM hstates hentry
    refine fineValue_instanceState hrun ?_
    rcases Dict.mem_merge horiginal with hcaller | hown
    · exact (hscope.states original hcaller).mono hgrows
    · exact fun node hnode => fineDefault_state (Or.inr ⟨_, hexternal⟩)
        (mem_stateNodes.2 ⟨original, hown, hnode⟩)

end Expand

theorem expandInstance_runs {fuel : Nat} (ih : Generates env page fuel)
    (hstages : ∀ stage ∈ env.styleStage :: env.stages, stage.AcceptsKeys) {at' : Surroundings}
    {e : Element} {c : Context} (hinstance : e.isInstance)
    (h : Input env page fresh at'.definitions e.elements c) :
    ElementRuns env page fresh (e.elements.map (·.key)) e.key c
      (expandInstance env (fuel + 1) at' e c) := by
  rw [expandInstance_succ]
  rcases hexternal : Dict.get? env.externals e.componentName with _ | external
  · exact .of_keyFree rfl rfl
  dsimp only
  rcases hstates : (Dict.merge at'.definitions.states (c.instantiate external).states).mapM
    (instanceState e.attrs) with d | states
  · exact .of_keyFree ((FailsWith.mapM (instanceState_fails e.attrs) _).keyFree d hstates) rfl
  have hready := ready_instance h hexternal
  have hprops := generateProps_runs ih e.attrs
    (sorted_combineProps h.scope.sorted (c.instantiate external).props).nodup_keys
    (fun _ _ => rfl) (input_props h hexternal) (fine_combineProps h.scope hexternal)
  dsimp only
  rcases hrun : generateProps (generateElement env fuel at') at'.definitions e.attrs
    (combineProps at'.definitions.props (c.instantiate external).props)
    (c.reserve (c.instantiate external).node.keys) with ⟨⟨attrs, d | props⟩, c'⟩
  · rw [hrun] at hprops
    exact .of_error (α := Dict PropDefinition) hprops.runs rfl
  rw [hrun] at hprops
  have hcovers := h.covers.subset (List.cons_subset.2
    ⟨mem_instanceNames.2 ⟨e, e.mem_elements, hinstance, rfl⟩, List.nil_subset _⟩)
  have hgrows := (grows_reserve_copy page fresh c hexternal).trans hprops.runs
  have hscope := fineScope_instance h.scope hexternal hgrows hstates (hprops.fine rfl)
  have henter := enterInstance_runs ih hstages at' (c.instantiate external)
    (e := { e with children := [], attrs }) hscope (placed_root hexternal hinstance h.placed)
    (fun _ => within_root hexternal hinstance h.placed) hcovers (hready.after hprops.runs)
  exact (henter.after hgrows).mono fun key => mem_keys_instance h hexternal

/-! ## Pages -/

theorem generateNode_runs {fuel : Nat} (ih : Generates env page fuel) {at' : Surroundings}
    {node : Node} {c : Context} (h : Input env page fresh at'.definitions node.elements c) :
    let r := generateNode env (fuel + 1) at' node c
    PageRuns env page fresh node.keys c r.1.2 r.2 := by
  have hinert : node.isInert → PageRuns env page fresh node.keys c
      (generateNode env (fuel + 1) at' node c).1.2 (generateNode env (fuel + 1) at' node c).2 :=
    fun hinert =>
      have hrun := generateNode_inert env (fuel + 1) at' hinert c
      .of_sameKeys hrun.1 hrun.2
  cases node with
  | constant _ | raw _ | inject _ | slot _ | expr _ => exact hinert rfl
  | repetition _ =>
    rw [generateNode]
    exact .of_keyFree rfl
  | dynamic r =>
    rw [generateNode_dynamic]
    exact ih.reference h.scope h.covers
  | element e =>
    rw [generateNode_element]
    exact (ih.element h).runs.map _
  | conditional q =>
    rw [generateNode_conditional]
    obtain ⟨inner, reference, value, condition⟩ := q
    have hinner : Input env page fresh at'.definitions inner.elements c := h
    split
    · exact ih.node hinner
    · exact Grows.of_sameKeys (.refl c)

theorem generateElement_runs_instance {fuel : Nat} (ih : Generates env page fuel)
    {at' : Surroundings} {e : Element} {c : Context} (he : e.isInstance)
    (h : Input env page fresh at'.definitions e.elements c) :
    ElementRuns env page fresh (e.elements.map (·.key)) e.key c
      (generateElement env (fuel + 1) at' e c) := by
  have hruns := ih.expand he h
  rw [generateElement_instance env fuel at' c he]
  rcases hrun : expandInstance env fuel at' e c with ⟨⟨e', d | id⟩, c'⟩
  · rw [hrun] at hruns
    exact .of_error (α := Nat) hruns.runs hruns.key_eq
  · rw [hrun] at hruns
    exact ⟨Grows.trans_sameKeys hruns.runs ⟨rfl, rfl⟩, hruns.key_eq, hruns.registered⟩

/-- **Every part of the generation** leaves ready what was ready, and complains about loose keys
only. -/
theorem generate_runs (page : Component)
    (hstages : ∀ stage ∈ env.styleStage :: env.stages, stage.AcceptsKeys) (fuel : Nat) :
    Generates env page fuel := by
  induction fuel with
  | zero =>
    refine ⟨fun _ => ?_, fun _ _ => ?_, fun _ => ?_, fun _ _ => ?_⟩
    · rw [generateNode]
      exact .of_keyFree rfl
    · rw [generateReference]
      exact .of_keyFree rfl
    · rw [generateElement]
      exact .of_keyFree rfl rfl
    · rw [expandInstance]
      exact .of_keyFree rfl rfl
  | succ fuel ih =>
    refine ⟨generateNode_runs ih, generateReference_runs ih, fun {fresh at' e c} h => ?_,
      expandInstance_runs ih hstages⟩
    by_cases he : e.isInstance
    · exact generateElement_runs_instance ih he h
    · exact generateElement_runs_tag ih (by simpa using he) h

end Page

end PageCompiler
