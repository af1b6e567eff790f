import PageCompiler.Proofs.Page.Extension
import PageCompiler.Proofs.Page.Steps

/-!
# What the calls of a generation register

A key that is registered in the end was registered by one of the calls: by the generation of an
element that has the key, and the number under the key is what that call came to.

* `Yields`: a call leads to the generation of an element with a key.
* `Call.stems`, `Leads.stems`: where registered keys come from.
* `Inside.prop_stems`: where the nodes in the scope of an instance come from.
-/

namespace PageCompiler

/-! ## Keys that are registered -/

/-- A call leads to the generation of an element with a key, which comes to a number. -/
def Yields (env : Environment) (call : Call) (key : String) (id : Nat) : Prop :=
  ∃ fuel at' e c, Leads env call ⟨fuel, at', .element e, c⟩ ∧ e.key = key ∧
    (generateElement env fuel at' e c).1.2 = .ok id

/-- The keys that are registered from one context to another one are of a kind. -/
def Context.AddsOnly (P : String → Nat → Prop) (c c' : Context) : Prop :=
  ∀ ⦃key id⦄, Dict.get? c'.lookup key = some id → Dict.get? c.lookup key = some id ∨ P key id

namespace Context.AddsOnly

variable {P Q : String → Nat → Prop} {c c' c'' : Context}

theorem of_lookup (h : c'.lookup = c.lookup) : c.AddsOnly P c' := fun _ _ hkey => Or.inl (h ▸ hkey)

theorem refl (c : Context) : c.AddsOnly P c := of_lookup rfl

theorem trans (h : c.AddsOnly P c') (h' : c'.AddsOnly P c'') : c.AddsOnly P c'' :=
  fun _ _ hkey => (h' hkey).elim (fun hthere => h hthere) Or.inr

theorem mono (h : c.AddsOnly P c') (hPQ : ∀ {key id}, P key id → Q key id) : c.AddsOnly Q c' :=
  fun _ _ hkey => (h hkey).imp_right hPQ

end Context.AddsOnly

section Calls

variable {env : Environment} {call inner : Call} {c c' : Context} {key : String} {id : Nat}

theorem Yields.of_leads (hleads : Leads env call inner) (h : Yields env inner key id) :
    Yields env call key id := by
  obtain ⟨fuel, at', e, c, hinner, hkey, hok⟩ := h
  exact ⟨fuel, at', e, c, hleads.trans hinner, hkey, hok⟩

theorem Context.lookup_noteDependency (c : Context) (e : Element) :
    (c.noteDependency e).lookup = c.lookup := by
  unfold Context.noteDependency
  split <;> rfl

theorem registerElement_stems {other : String} {e : Element} {id' : Nat} {hierarchy : List String}
    (h : Dict.get? (registerElement other e id' hierarchy c).2.lookup key = some id) :
    Dict.get? c.lookup key = some id ∨
      key = other ∧ id = id' ∧ (registerElement other e id' hierarchy c).1 = .ok () := by
  rcases registerElement_run other e id' hierarchy c with ⟨-, hrun⟩ | ⟨-, d, -, hrun⟩
  · rw [hrun] at h ⊢
    by_cases hkey : key = other
    · subst hkey
      rw [Dict.get?_insert_self] at h
      exact Or.inr ⟨rfl, (Option.some.inj h).symm, rfl⟩
    · rw [Dict.get?_insert_of_ne _ _ hkey] at h
      exact Or.inl h
  · rw [hrun] at h
    exact Or.inl h

theorem finishTag_stems {at' : Surroundings} {e : Element} {pieces : List Piece}
    (h : Dict.get? (finishTag env at' e pieces c).2.lookup key = some id) :
    Dict.get? c.lookup key = some id ∨
      key = e.key ∧ (finishTag env at' e pieces c).1.2 = .ok id := by
  obtain ⟨hkey, -, -⟩ := e.settleStyles_run at'.definitions
  rw [finishTag_run] at h ⊢
  rcases hsettled : e.settleStyles at'.definitions with ⟨styled, d | _⟩
  · rw [hsettled] at h
    exact Or.inl h
  rw [hsettled] at h hkey
  dsimp only at h hkey ⊢
  rcases hpage : pageAttributes env.options env.folder at'.definitions styled.elementType
    styled.attrs with ⟨attrs, d | _⟩
  · rw [hpage] at h
    exact Or.inl h
  · rw [hpage] at h
    dsimp only at h ⊢
    rcases registerElement_stems h with hold | ⟨rfl, rfl, hok⟩
    · exact Or.inl hold
    · rw [hok]
      exact Or.inr ⟨hkey, rfl⟩

theorem finishInstance_stems {e : Element} {entry : Entry} {r : Generated Element Nat × Context}
    (h : Dict.get? (finishInstance env e entry r).2.lookup key = some id) :
    Dict.get? r.2.lookup key = some id ∨
      key = e.key ∧ (finishInstance env e entry r).1.2 = .ok id := by
  rcases r with ⟨⟨wrapper, d | id'⟩, c⟩
  · exact Or.inl h
  have hstages : (runInstanceStages env (entry.styled wrapper) id' c).2.lookup = c.lookup := by
    rw [runInstanceStages_run]
    rcases runStages (env.styleStage :: env.stages) _ with ⟨_ | _, done⟩ <;> rfl
  unfold finishInstance at h ⊢
  dsimp only at h hstages ⊢
  rcases hrun : runInstanceStages env (entry.styled wrapper) id' c with ⟨d | _, c'⟩
  · rw [hrun] at h hstages
    exact Or.inl (hstages ▸ h)
  · rw [hrun] at h hstages
    dsimp only at h hstages ⊢
    rcases registerElement_stems h with hold | ⟨rfl, rfl, hok⟩
    · exact Or.inl (hstages ▸ hold)
    · rw [hok]
      exact Or.inr ⟨rfl, rfl⟩

/-- A step registers the element of its call, or nothing. -/
theorem Acts.stems (h : Acts env call c c') : c.AddsOnly (Yields env call) c' := by
  cases h with
  | slot | locale _ | empty _ _ _ | text _ | reserve _ _ | title _ _ => exact .of_lookup rfl
  | note _ => exact .of_lookup (Context.lookup_noteDependency _ _)
  | @finish fuel at' e children pieces c there tag generated =>
    intro key id hkey
    rcases finishTag_stems hkey with hold | ⟨rfl, hok⟩
    · exact Or.inl hold
    · refine Or.inr ⟨fuel + 1, at', e, c, .refl, rfl, ?_⟩
      rw [generateElement_tag env fuel at' c tag, generated]
      exact hok
  | @settle fuel at' e entry r c isInstance entered generated =>
    intro key id hkey
    rcases finishInstance_stems hkey with hold | ⟨rfl, hok⟩
    · exact Or.inl hold
    · refine Or.inr ⟨fuel + 2, at', e, c, .refl, rfl, ?_⟩
      rw [generateElement_instance env (fuel + 1) at' c isInstance, expandInstance_entered entered,
        generated]
      dsimp only
      rw [hok]

/-- The keys that steps register are those of the elements that their calls generate. -/
theorem Steps.stems (h : Steps env call c c') : c.AddsOnly (Yields env call) c' :=
  h.related .refl .trans fun _ hleads _ _ hacts => hacts.stems.mono (.of_leads hleads)

/-- **The keys that are registered by a call** are those of the elements that it leads to. -/
theorem Call.stems (env : Environment) (call : Call) :
    call.context.AddsOnly (Yields env call) (call.run env).2 := (call.steps env).stems

/-- **The keys in the context of a call** are those of the call that leads to it, and those that this
one has registered since. -/
theorem Leads.stems (h : Leads env call inner) :
    call.context.AddsOnly (Yields env call) inner.context := h.steps.stems

/-- The keys that are registered when props are made are those of the elements that are given. -/
theorem generateProps_stems {fuel : Nat} {at' : Surroundings} {caller : Definitions}
    {attrs : Attributes} {props : Dict PropDefinition} :
    c.AddsOnly (fun key id => ∃ x there,
        PropsReach (generateElement env fuel at') caller x there attrs props c ∧
          Yields env ⟨fuel, at', .element x, there⟩ key id)
      (generateProps (generateElement env fuel at') caller attrs props c).2 :=
  generateProps_related .refl .trans fun x there hreaches =>
    (Call.stems env ⟨fuel, at', .element x, there⟩).mono fun hyields =>
      ⟨x, there, hreaches, hyields⟩

end Calls

/-- **An element among the attributes** is generated when the props of its instance are made. The
prop stands for what it has become, which is registered. -/
theorem generateProps_registers {generate : Element → StateM Context (Generated Element Nat)}
    (hextends : ∀ e (c : Context), c.Extends (generate e c).2)
    (hregisters : ∀ e c, Registers e (generate e c)) {caller : Definitions}
    {props out : Dict PropDefinition} {attrs attrs' : Attributes} {c c' : Context}
    (hnames : (Dict.keys props).Nodup)
    (hrun : generateProps generate caller attrs props c = ((attrs', .ok out), c'))
    {name : String} {d : PropDefinition} (hd : (name, d) ∈ out) {e : Element}
    (he : Dict.get? attrs name = some (.element e)) :
    ∃ e' id there there', PropsReach generate caller e there attrs props c ∧
      generate e there = ((e', .ok id), there') ∧ e'.key = e.key ∧
      d.default = some (.node (.element e')) ∧ Dict.get? c'.lookup e'.key = some id := by
  induction props generalizing attrs c out with
  | nil =>
    rw [generateProps_nil] at hrun
    cases hrun
    cases hd
  | cons entry rest ih =>
    obtain ⟨other, own⟩ := entry
    obtain ⟨hother, hrest⟩ := List.nodup_cons.1 hnames
    replace hnames : (Dict.keys rest).Nodup := hrest
    have hkeys : ∀ {attrs c attrs' c'} {out : Dict PropDefinition},
        generateProps generate caller attrs rest c = ((attrs', .ok out), c') →
          (name, d) ∈ out → name ≠ other := by
      rintro attrs c attrs' c' out hrest hmem rfl
      refine hother ?_
      change name ∈ Dict.keys rest
      rw [← Dict.keys_forall₂ (generateProps_given hnames (congrArg (·.1.2) hrest))]
      exact List.mem_map.2 ⟨_, hmem, rfl⟩
    rcases hvalue : Dict.get? attrs other with _ | value
    · obtain ⟨out', rfl, hrest⟩ := generateProps_ok_none hvalue hrun
      rcases List.mem_cons.1 hd with heq | hd
      · cases heq
        rw [hvalue] at he
        cases he
      · obtain ⟨e', id, there, there', hreaches, hfound⟩ := ih hnames hrest hd he
        exact ⟨e', id, there, there', .none hvalue hreaches, hfound⟩
    by_cases helement : ∃ e, value = .element e
    · obtain ⟨x, rfl⟩ := helement
      obtain ⟨x', id, c₁, out', hx, rfl, hrest⟩ := generateProps_ok_element hvalue hrun
      rcases List.mem_cons.1 hd with heq | hd
      · cases heq
        rw [hvalue] at he
        cases he
        have hregister := hregisters e c
        rw [hx] at hregister
        obtain ⟨hkey, hregistered⟩ := hregister _ rfl
        have hgrows :=
          generateProps_extends hextends caller rest (Dict.insert attrs name (.element x')) c₁
        rw [hrest] at hgrows
        exact ⟨x', id, c, c₁, .here hvalue, hx, hkey, rfl, hgrows.lookup (hkey ▸ hregistered)⟩
      · have hne := hkeys hrest hd
        rw [← Dict.get?_insert_of_ne attrs (.element x') hne] at he
        obtain ⟨e', id', there, there', hreaches, hfound⟩ := ih hnames hrest hd he
        exact ⟨e', id', there, there', .element hvalue hx hreaches, hfound⟩
    · have hplain : ∀ e, value ≠ .element e := by simpa using helement
      obtain ⟨definition, out', hprop, rfl, hrest⟩ := generateProps_ok_plain hvalue hplain hrun
      rcases List.mem_cons.1 hd with heq | hd
      · cases heq
        rw [hvalue] at he
        exact absurd (Option.some.inj he) (hplain e)
      · obtain ⟨e', id, there, there', hreaches, hfound⟩ := ih hnames hrest hd he
        exact ⟨e', id, there, there', .plain hvalue hplain hprop hreaches, hfound⟩

/-! ## Scopes of instances -/

section Scopes

variable {env : Environment} {fuel : Nat}

theorem PropsReach.extends {at' : Surroundings} {caller : Definitions} {x : Element}
    {there : Context} {attrs : Attributes} {props : Dict PropDefinition} {c : Context}
    (h : PropsReach (generateElement env fuel at') caller x there attrs props c) :
    c.Extends there :=
  h.related .refl .trans fun e there _ => (generate_extends env fuel).element at' e there

section Given

variable {at' : Surroundings} {e : Element} {component : Component} {c c' : Context}
  {attrs : Attributes} {ds : Definitions}

/-- What an instance is given is generated when the keys of its tree are reserved. -/
theorem given_extends {props : Dict PropDefinition}
    (h : generateProps (generateElement env fuel at') at'.definitions e.attrs
        (combineProps at'.definitions.props component.props) (c.reserve component.node.keys)
      = ((attrs, .ok props), c')) : c.Extends c' := by
  have hextends := generateProps_extends ((generate_extends env fuel).element at') at'.definitions
    (combineProps at'.definitions.props component.props) e.attrs (c.reserve component.node.keys)
  rw [h] at hextends
  exact (Context.Extends.reserve c _).trans hextends

theorem enter?_extends {entry : Entry} (h : enter? env fuel at' e c = some entry) :
    c.Extends entry.context := by
  obtain ⟨-, -, -, -, hprops, -, -⟩ := enter?_eq_some h
  exact given_extends hprops

/-- Where the node comes from that a prop stands for in the scope of an instance. -/
inductive NodeStems (at' : Surroundings) (e : Element) (component : Component) (c : Context)
    (name : String) (d : PropDefinition) (node : Node) : Prop
  /-- It is the default of the component. -/
  | own (own : Dict.get? component.props name = some d)
  /-- The caller has it under the same name, in a prop that is no element. -/
  | outer (outer : Dict.get? at'.definitions.props name = some d) (kind : d.kind ≠ "element")
  /-- It is an element among the attributes, which is registered. -/
  | given {x x' : Element} (value : Dict.get? e.attrs name = some (.element x))
      (node_eq : node = .element x') (key_eq : x'.key = x.key) (registered : c.Registered x'.key)
  /-- It is that of a prop of the caller that an attribute refers to. -/
  | passedProp {r : Reference} {found : PropDefinition}
      (value : Dict.get? e.attrs name = some (.dynamic r)) (scope : r.scope = .prop)
      (get : Dict.get? at'.definitions.props r.id = some found) (kind_eq : found.kind = d.kind)
      (default : found.default = some (.node node))
  /-- It is that of a state of the caller that an attribute refers to. -/
  | passedState {r : Reference} {found : StateDefinition}
      (value : Dict.get? e.attrs name = some (.dynamic r)) (scope : r.scope = .state)
      (get : Dict.get? at'.definitions.states r.id = some found) (kind_eq : found.kind = d.kind)
      (default : found.default = some (.node node))

/-- **The nodes that props stand for in the scope of an instance** are its own, or the caller has
them, or they are elements that it is given. -/
theorem Inside.prop_stems
    (hinside : Inside (generateElement env fuel at') e.attrs at'.definitions component ds)
    (hsorted : at'.definitions.props.Sorted)
    (hrun : generateProps (generateElement env fuel at') at'.definitions e.attrs
        (combineProps at'.definitions.props component.props) (c.reserve component.node.keys)
      = ((attrs, .ok ds.props), c')) {name : String} {d : PropDefinition} {node : Node}
    (hget : Dict.get? ds.props name = some d) (hdefault : d.default = some (.node node)) :
    NodeStems at' e component c' name d node := by
  have hrel := hinside.prop name
  rw [hget] at hrel
  rcases hbase : (Dict.get? component.props name).or
    ((Dict.get? at'.definitions.props name).filter fun d => d.kind ≠ "element") with _ | base
  · rw [hbase] at hrel
    cases hrel
  rw [hbase] at hrel
  cases hrel with
  | some hgiven =>
  -- a definition without an attribute, or one whose attribute does not change it
  have hkept : d = base → NodeStems at' e component c' name d node := by
    rintro rfl
    rcases Option.or_eq_some_iff.1 hbase with hown | ⟨-, houter⟩
    · exact .own hown
    · obtain ⟨houter, hkind⟩ := Option.filter_eq_some_iff.1 houter
      exact .outer houter (by simpa using hkind)
  by_cases helement : ∃ x, Dict.get? e.attrs name = some (.element x)
  · obtain ⟨x, hx⟩ := helement
    have hcombined := sorted_combineProps hsorted component.props
    obtain ⟨x', id, -, -, -, -, hkey, hdefault', hregistered⟩ := generateProps_registers
      ((generate_extends env fuel).element at') (generate_registers env fuel at')
      hcombined.nodup_keys hrun (Dict.mem_of_get? hget) hx
    rw [hdefault] at hdefault'
    cases hdefault'
    exact .given hx rfl hkey (Option.isSome_iff_exists.2 ⟨id, hregistered⟩)
  · rcases hvalue : Dict.get? e.attrs name with _ | value
    · rw [PropGiven, hvalue] at hgiven
      exact hkept hgiven
    have hinstance : instanceProp at'.definitions value base = .ok d := by
      rw [PropGiven, hvalue] at hgiven
      cases value with
      | element x => exact absurd ⟨x, hvalue⟩ helement
      | _ => exact hgiven
    rcases instanceProp_cases hinstance with ⟨content, hcontent⟩ | heq | ⟨r, rfl, hfind⟩
    · rw [hdefault] at hcontent
      cases hcontent
    · exact hkept heq
    · rcases Definitions.find_ok hfind with ⟨hscope, found, hfound, heq⟩ | ⟨hscope, found, hfound, heq⟩
      · obtain ⟨hkind, hsame⟩ := ReferredValue.mk.inj heq
        exact .passedProp hvalue hscope hfound hkind.symm (hsame.symm.trans hdefault)
      · obtain ⟨hkind, hsame⟩ := ReferredValue.mk.inj heq
        exact .passedState hvalue hscope hfound hkind.symm (hsame.symm.trans hdefault)

/-- The nodes that states stand for in the scope of an instance are its own, or the caller has
them. -/
theorem Inside.state_stems
    (hinside : Inside (generateElement env fuel at') e.attrs at'.definitions component ds)
    {name : String} {d : StateDefinition} {node : Node} (hget : Dict.get? ds.states name = some d)
    (hdefault : d.default = some (.node node)) :
    Dict.get? component.states name = some d ∨ Dict.get? at'.definitions.states name = some d := by
  have hrel := hinside.state name
  rw [hget] at hrel
  rcases hbase : (Dict.get? component.states name).or (Dict.get? at'.definitions.states name)
    with _ | base
  · rw [hbase] at hrel
    cases hrel
  rw [hbase] at hrel
  cases hrel with
  | some hgiven =>
  rcases (instanceState_cases hgiven).2 with ⟨content, hcontent⟩ | rfl
  · dsimp only at hcontent
    rw [hdefault] at hcontent
    cases hcontent
  · exact (Option.or_eq_some_iff.1 hbase).imp_right (·.2)

end Given

end Scopes

end PageCompiler
