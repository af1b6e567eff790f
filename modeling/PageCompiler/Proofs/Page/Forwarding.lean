import PageCompiler.Proofs.Page.Filling
import PageCompiler.Proofs.Page.Isolation

/-!
# Forwarded definitions

An instance that is given a reference for one of its props gets the definition that the reference
names: its kind and its default, but not the path of the reference. What the prop stands for inside
the instance is what the reference stands for outside, as far as the path makes no difference. An
element among the forwarded defaults is generated where it is shown, so its own references are
answered by the scope of the instance.

* `Forwards`: a definition is handed on through nested instances.
* `Forwards.find`: the definition arrives.
* `Forwards.shows`: when it is shown in the same way.
-/

namespace PageCompiler

/-- A reference to a prop without a path. -/
def Reference.toProp (name : String) : Reference := { scope := .prop, id := name }

/-- What a forwarded reference stands for becomes the definition of the prop. -/
theorem forwarded_of_find {ds : Definitions} {r : Reference} {v : ReferredValue}
    (h : ds.find r = .ok v) {own d : PropDefinition} (hd : forwarded ds r own = .ok d) :
    v = ⟨d.kind, d.default⟩ := by
  rcases Definitions.find_ok h with ⟨hscope, found, hfound, rfl⟩ | ⟨hscope, found, hfound, rfl⟩
  · rw [forwarded, hscope] at hd
    dsimp only at hd
    rw [hfound] at hd
    cases hd
    rfl
  · rw [forwarded, hscope] at hd
    dsimp only at hd
    rw [hfound] at hd
    cases hd
    rfl

theorem Definitions.find_toProp {ds : Definitions} {name : String} {d : PropDefinition}
    (h : Dict.get? ds.props name = some d) :
    ds.find (.toProp name) = .ok ⟨d.kind, d.default⟩ := by
  rw [find, Reference.toProp]
  dsimp only
  rw [h]

/-! ## Definitions handed on -/

section Forwards

variable (env : Environment)

/-- The definition that a reference names is handed on to a prop of an instance, through any number
of instances inside one another. -/
inductive Forwards (at' : Surroundings) (r : Reference) : Surroundings → String → Prop
  /-- An instance is given the reference. -/
  | once {fuel : Nat} {e : Element} {c : Context} {entry : Entry} {external : Component}
      {name : String} (entered : enter? env fuel at' e c = some entry)
      (registered : Dict.get? env.externals e.componentName = some external)
      (declared : name ∈ Dict.keys external.props)
      (given : Dict.get? e.attrs name = some (.dynamic r)) : Forwards at' r entry.inside name
  /-- An instance inside is given a reference to the prop. -/
  | onwards {between : Surroundings} {fuel : Nat} {e : Element} {c : Context} {entry : Entry}
      {external : Component} {name name' : String} {path : Option (List String)}
      (forwards : Forwards at' r between name') (entered : enter? env fuel between e c = some entry)
      (registered : Dict.get? env.externals e.componentName = some external)
      (declared : name ∈ Dict.keys external.props)
      (given : Dict.get? e.attrs name = some (.dynamic ⟨.prop, name', path⟩)) :
      Forwards at' r entry.inside name

variable {env}

/-- The definition that an instance is given arrives at the prop. -/
theorem find_of_enter (hexternals : SortedExternals env.externals) {fuel : Nat}
    {at' : Surroundings} (hsorted : at'.definitions.Sorted) {e : Element} {c : Context}
    {entry : Entry} (hentered : enter? env fuel at' e c = some entry) {external : Component}
    (hexternal : Dict.get? env.externals e.componentName = some external) {name : String}
    (hdeclared : name ∈ Dict.keys external.props) {r : Reference}
    (hgiven : Dict.get? e.attrs name = some (.dynamic r)) {v : ReferredValue}
    (hfind : at'.definitions.find r = .ok v) :
    entry.inside.definitions.find (.toProp name) = .ok v := by
  obtain ⟨external', hexternal', hcomponent, -⟩ := enter?_eq_some hentered
  obtain rfl : external' = external := Option.some.inj (hexternal'.symm.trans hexternal)
  have hprop := (Inside.of_enter hexternals hsorted hentered).prop name
  obtain ⟨own, hown⟩ : ∃ own, Dict.get? entry.component.props name = some own := by
    refine Option.ne_none_iff_exists'.1 fun hnone => Dict.get?_eq_none_iff.1 hnone ?_
    rwa [hcomponent, c.copy_props_keys]
  rw [hown, Option.some_or] at hprop
  rcases hinside : Dict.get? entry.inside.definitions.props name with _ | d
  · rw [hinside] at hprop
    cases hprop
  rw [hinside] at hprop
  obtain hd : PropGiven (generateElement env fuel at') e.attrs at'.definitions name own d := by
    cases hprop
    assumption
  rw [PropGiven, hgiven] at hd
  rw [forwarded_of_find hfind hd]
  exact Definitions.find_toProp hinside

theorem Forwards.sorted (hexternals : SortedExternals env.externals) {at' inside : Surroundings}
    (hsorted : at'.definitions.Sorted) {r : Reference} {name : String}
    (h : Forwards env at' r inside name) : inside.definitions.Sorted := by
  induction h with
  | once entered => exact (Inside.of_enter hexternals hsorted entered).sorted
  | onwards forwards entered _ _ _ ih => exact (Inside.of_enter hexternals ih entered).sorted

/-- **A forwarded definition arrives:** the prop stands for the kind and the default that the
reference stands for outside. -/
theorem Forwards.find (hexternals : SortedExternals env.externals) {at' inside : Surroundings}
    (hsorted : at'.definitions.Sorted) {r : Reference} {name : String}
    (h : Forwards env at' r inside name) {v : ReferredValue}
    (hfind : at'.definitions.find r = .ok v) :
    inside.definitions.find (.toProp name) = .ok v := by
  induction h with
  | once entered registered declared given =>
    exact find_of_enter hexternals hsorted entered registered declared given hfind
  | onwards forwards entered registered declared given ih =>
    exact find_of_enter hexternals (forwards.sorted hexternals hsorted) entered registered declared
      given ih

/-! ## Showing what is handed on -/

theorem Definitions.value_eq_ok_iff {ds : Definitions} {r : Reference} {v : ReferredValue}
    (h : ds.find r = .ok v) : ds.value r = .ok v ↔
      supportedKinds.contains v.kind ∧ (v.kind = "element" ∨ v.default.isSome) := by
  rw [value, h]
  change (if _ then _ else if _ then _ else _) = _ ↔ _
  split
  · rename_i hkind
    simp at hkind ⊢
    exact fun hmem => absurd hmem hkind
  · rename_i hkind
    split
    · rename_i hdefault
      simp at hkind hdefault ⊢
      exact fun _ => ⟨hdefault.1, hdefault.2⟩
    · rename_i hdefault
      simp at hkind hdefault ⊢
      refine ⟨hkind, ?_⟩
      by_cases helement : v.kind = "element"
      · exact Or.inl helement
      · exact Or.inr (Option.isSome_iff_ne_none.2 (hdefault helement))

theorem scope_ne_locale {ds : Definitions} {r : Reference} {v : ReferredValue}
    (h : ds.find r = .ok v) : r.scope ≠ .locale := by
  rcases Definitions.find_ok h with ⟨hscope, -⟩ | ⟨hscope, -⟩ <;> rw [hscope] <;> nofun

theorem extractValue_none (value : Json) : extractValue value none = value := by
  cases value <;> rfl

/-- The text of an attribute that refers to a value. -/
theorem pageText_of_value {ds : Definitions} {r : Reference} {v : ReferredValue}
    (h : ds.value r = .ok v) (o : Options) (folder : List String) (elementType name : String) :
    Attribute.pageText o folder ds elementType name (.dynamic r) = .ok (some (v.text r)) := by
  rw [Attribute.pageText, h]
  rfl

theorem generateReference_of_value {at' : Surroundings} {r : Reference} {v : ReferredValue}
    (h : at'.definitions.value r = .ok v) (fuel : Nat) (c : Context) :
    generateReference env (fuel + 1) at' r c = generateValue env fuel at' v r c := by
  rw [generateReference_succ, if_neg (scope_ne_locale (Definitions.value_ok h)), h]

/-- A reference that stands for an element shows the one that is registered, or generates it. -/
theorem generateReference_of_element {at' : Surroundings} {r : Reference} {v : ReferredValue}
    (h : at'.definitions.value r = .ok v) (hkind : v.kind = "element") {node : Node}
    (hnode : v.default = some (.node node)) (fuel : Nat) (c : Context) :
    generateReference env (fuel + 1) at' r c =
      match node.registered? c with
      | some id => (.ok (.element id), c)
      | none =>
        let result := generateNode env fuel at' node c
        (result.1.2, result.2) := by
  have hcompound : ¬ (v.kind = "object" || v.kind = "array") = true := by simp [hkind]
  rw [generateReference_of_value h, generateValue, if_neg hcompound, if_pos hkind, hnode]
  dsimp only
  rw [bind_run, get_run]
  dsimp only
  rcases node.registered? c with _ | id <;> rfl

/-- Two references that stand for one plain value are generated alike if their paths are. -/
theorem generateReference_congr {a b : Surroundings} {r r' : Reference} {v : ReferredValue}
    (h : a.definitions.value r = .ok v) (h' : b.definitions.value r' = .ok v)
    (hkind : v.kind ≠ "element")
    (htext : v.kind = "object" ∨ v.kind = "array" → v.text r = v.text r') (fuel : Nat)
    (c : Context) : generateReference env fuel a r c = generateReference env fuel b r' c := by
  cases fuel with
  | zero => rw [generateReference, generateReference]
  | succ fuel =>
    rw [generateReference_of_value h, generateReference_of_value h', generateValue, generateValue]
    split
    · rename_i hcompound
      rw [htext (by simpa using hcompound)]
    · rfl

/-- Two references that stand for one element are generated alike in scopes that agree on what is
used in the element. -/
theorem generateReference_element_congr
    (hstages : ∀ stage ∈ env.styleStage :: env.stages, stage.IgnoresScope) {a b : Definitions}
    {r r' : Reference} {v : ReferredValue} (h : a.value r = .ok v) (h' : b.value r' = .ok v)
    (hkind : v.kind = "element") {node : Node} (hnode : v.default = some (.node node))
    {names : NameSet} (hagree : Agree (InSight env.externals) names a b)
    (huses : ∀ u ∈ node.uses, InSight env.externals names u) (hierarchy : List String) (fuel : Nat)
    (c : Context) :
    generateReference env fuel ⟨a, hierarchy⟩ r c = generateReference env fuel ⟨b, hierarchy⟩ r' c := by
  cases fuel with
  | zero => rw [generateReference, generateReference]
  | succ fuel =>
    have hagreeing := generate_agreeing (closed_inSight env.externals) hstages fuel
    rw [generateReference_of_element h hkind hnode, generateReference_of_element h' hkind hnode,
      hagreeing.node hagree hierarchy huses]

/-- **What is forwarded is shown as outside,** where the definition of the prop is what the
reference of the caller stands for. Both show something or neither does. The path of the reference
is lost: an attribute has the same text exactly if the path makes no difference to the text, and so
has a plain value in the tree. An element is shown as outside if the instance has the definitions of
the caller under all names that are used in it. -/
theorem Forwards.shows (hstages : ∀ stage ∈ env.styleStage :: env.stages, stage.IgnoresScope)
    (hexternals : SortedExternals env.externals) {at' inside : Surroundings}
    (hsorted : at'.definitions.Sorted) {r : Reference} {name : String}
    (h : Forwards env at' r inside name) {v : ReferredValue}
    (hfind : at'.definitions.find r = .ok v) :
    (inside.definitions.value (.toProp name) = .ok v ↔ at'.definitions.value r = .ok v) ∧
      (at'.definitions.value r = .ok v → ∀ o folder elementType attr,
        (Attribute.pageText o folder inside.definitions elementType attr (.dynamic (.toProp name))
            = Attribute.pageText o folder at'.definitions elementType attr (.dynamic r) ↔
          v.plain.text = (extractValue v.plain r.path).text)) ∧
      (at'.definitions.value r = .ok v → v.kind ≠ "element" →
        (v.kind = "object" ∨ v.kind = "array" →
          v.plain.text = (extractValue v.plain r.path).text) →
        ∀ fuel c, generateReference env fuel inside (.toProp name) c
          = generateReference env fuel at' r c) ∧
      ∀ node, v.kind = "element" → v.default = some (.node node) →
        ∀ names, Agree (InSight env.externals) names inside.definitions at'.definitions →
          (∀ u ∈ node.uses, InSight env.externals names u) →
          ∀ fuel c, generateReference env fuel inside (.toProp name) c
            = generateReference env fuel ⟨at'.definitions, inside.hierarchy⟩ r c := by
  have hinside := h.find hexternals hsorted hfind
  have hiff : inside.definitions.value (.toProp name) = .ok v ↔ at'.definitions.value r = .ok v :=
    (Definitions.value_eq_ok_iff hinside).trans (Definitions.value_eq_ok_iff hfind).symm
  have htext : v.text (.toProp name) = v.plain.text :=
    congrArg Json.text (extractValue_none v.plain)
  refine ⟨hiff, fun hvalue o folder elementType attr => ?_, fun hvalue hkind hpath fuel c => ?_,
    fun node hkind hnode names hagree huses fuel c => ?_⟩
  · rw [pageText_of_value hvalue, pageText_of_value (hiff.2 hvalue), htext]
    refine ⟨fun heq => Option.some.inj (Except.ok.inj heq), fun heq => ?_⟩
    rw [heq, ReferredValue.text]
  · refine generateReference_congr (hiff.2 hvalue) hvalue hkind (fun hcompound => ?_) fuel c
    rw [htext]
    exact hpath hcompound
  · have hsupported : at'.definitions.value r = .ok v := by
      rw [Definitions.value_eq_ok_iff hfind, hkind]
      exact ⟨by decide, Or.inl rfl⟩
    obtain ⟨definitions, hierarchy⟩ := inside
    exact generateReference_element_congr hstages (hiff.2 hsupported) hsupported hkind hnode hagree
      huses hierarchy fuel c

end Forwards

/-! ## A path that is lost -/

/-- A component that shows a text, with a label of its own. -/
def profile : Component where
  name := "Profile"
  node := .element { elementType := "p", children := [.dynamic (.toProp "title")] }
  props := [("label", { kind := "string", default := some (.value (.string "profile")) }),
    ("title", { kind := "string" })]

/-- A component that hands a text on to `profile`. -/
def banner : Component where
  name := "Banner"
  node := .element {
    elementType := "div"
    children := [.element (instanceWith "panel" "Panel" "content" (.dynamic (.toProp "body")))] }
  props := [("body", { kind := "element" })]

/-- A component that shows what it is given. -/
def panel : Component where
  name := "Panel"
  node := .element { elementType := "p", children := [.dynamic (.toProp "content")] }
  props := [("content", { kind := "element" })]

/-- A scope with a user and with a text that shows the label. -/
def userScope : Definitions where
  props := [
    ("intro", { kind := "element", default := some (.node (.element
      { key := "intro", elementType := "span", children := [.dynamic (.toProp "label")] })) }),
    ("label", { kind := "string", default := some (.value (.string "page")) }),
    ("user", {
      kind := "object"
      default := some (.value (.object [("name", .string "Ada")])) })]

/-- The markup of what is generated. -/
def printed (r : Except Diagnostic Piece × Context) : Option String :=
  r.1.toOption.map r.2.canvas.print

/-- The name of a user is forwarded, and the whole user arrives. A text that shows the label of the
page is forwarded, and it shows the label of the component. -/
theorem forwardedUser_whole :
    (∃ entry, enter? (pageEnvironment [("Profile", profile)]) 6 ⟨userScope, []⟩
        (instanceWith "profile" "Profile" "title" (.dynamic ⟨.prop, "user", some ["name"]⟩)) {}
          = some entry ∧
      (Attribute.pageText {} [] userScope "p" "title"
        (.dynamic ⟨.prop, "user", some ["name"]⟩)).toOption = some (some "Ada") ∧
      (Attribute.pageText {} [] entry.inside.definitions "p" "title"
        (.dynamic (.toProp "title"))).toOption = some (some "\x7b\"name\":\"Ada\"\x7d")) ∧
    ∃ entry, enter? (pageEnvironment [("Profile", profile)]) 6 ⟨userScope, []⟩
        (instanceWith "profile" "Profile" "title" (.dynamic (.toProp "intro"))) {} = some entry ∧
      printed (generateReference (pageEnvironment []) 6 ⟨userScope, []⟩ (.toProp "intro") {})
        = some "<span><span>page</span></span>" ∧
      printed (generateReference (pageEnvironment []) 6 entry.inside (.toProp "title") {})
        = some "<span><span>profile</span></span>" :=
  ⟨⟨_, (Option.some_get (by decide +kernel)).symm, by decide +kernel, by decide +kernel⟩,
    _, (Option.some_get (by decide +kernel)).symm, by decide +kernel, by decide +kernel⟩

/-- Pages with a banner around a panel. -/
def bannerEnvironment : Environment := pageEnvironment [("Banner", banner), ("Panel", panel)]

/-- A banner that is given the introduction of the page. -/
def bannerInstance : Element := instanceWith "banner" "Banner" "body" (.dynamic (.toProp "intro"))

/-- The panel in the tree of `banner`. -/
def panelInstance : Element := instanceWith "panel" "Panel" "content" (.dynamic (.toProp "body"))

/-- The props but elements have plain values, as far as a table shows. -/
def plainProps (props : Dict PropDefinition) : Bool :=
  props.all fun entry => entry.2.kind == "element" || entry.2.default.all (·.asValue?.isSome)

theorem plainBeyond_of_plainProps {ds : Definitions} (h : plainProps ds.props) (names : NameSet) :
    PlainBeyond names ds := by
  intro entry hentry _ hkind node hnode
  have := List.all_eq_true.1 h entry hentry
  simp [hnode, hkind, Default.asValue?] at this

/-- The definition of a prop that is not declared and not given comes from the caller. -/
theorem Inside.prop_of_caller {generate : Element → StateM Context (Generated Element Nat)}
    {attrs : Attributes} {caller ds : Definitions} {component : Component}
    (h : Inside generate attrs caller component ds) {name : String} {d : PropDefinition}
    (hattr : Dict.get? attrs name = none) (hown : Dict.get? component.props name = none)
    (hcaller : Dict.get? caller.props name = some d) (hkind : d.kind ≠ "element") :
    Dict.get? ds.props name = some d := by
  have hprop := h.prop name
  rw [hown, hcaller, Option.none_or, Option.filter_some, if_pos (by simpa using hkind)] at hprop
  rcases hinside : Dict.get? ds.props name with _ | d'
  · rw [hinside] at hprop
    cases hprop
  · rw [hinside] at hprop
    cases hprop with
    | some hgiven =>
      rw [PropGiven, hattr] at hgiven
      rw [hgiven]

theorem bannerInstance_shows :
    ∃ first second, enter? bannerEnvironment 8 ⟨userScope, []⟩ bannerInstance {} = some first ∧
      enter? bannerEnvironment 6 first.inside panelInstance first.context = some second ∧
      SortedExternals bannerEnvironment.externals ∧ userScope.Sorted ∧
      Forwards bannerEnvironment ⟨userScope, []⟩ (.toProp "intro") second.inside "content" ∧
      ∀ fuel c, generateReference bannerEnvironment fuel second.inside (.toProp "content") c
        = generateReference bannerEnvironment fuel ⟨userScope, second.inside.hierarchy⟩
          (.toProp "intro") c := by
  let first := (enter? bannerEnvironment 8 ⟨userScope, []⟩ bannerInstance {}).get (by decide +kernel)
  let second := (enter? bannerEnvironment 6 first.inside panelInstance first.context).get
    (by decide +kernel)
  have hfirst : enter? bannerEnvironment 8 ⟨userScope, []⟩ bannerInstance {} = some first :=
    (Option.some_get _).symm
  have hsecond : enter? bannerEnvironment 6 first.inside panelInstance first.context = some second :=
    (Option.some_get _).symm
  have hexternals : SortedExternals bannerEnvironment.externals := by
    intro name c hc
    have hmem := Dict.mem_of_get? hc
    simp only [bannerEnvironment, pageEnvironment, List.mem_cons, List.not_mem_nil, or_false,
      Prod.mk.injEq] at hmem
    rcases hmem with ⟨-, rfl⟩ | ⟨-, rfl⟩ <;> exact ⟨by decide, by decide⟩
  have hsorted : userScope.Sorted := ⟨by decide, by decide⟩
  have hforwards : Forwards bannerEnvironment ⟨userScope, []⟩ (.toProp "intro") second.inside
      "content" :=
    .onwards (.once hfirst rfl (by decide) rfl) hsecond rfl (by decide) rfl
  have hinside := Inside.of_enter hexternals hsorted hfirst
  have hinside' := Inside.of_enter hexternals hinside.sorted hsecond
  have hlabel : Dict.get? second.inside.definitions.props "label"
      = Dict.get? userScope.props "label" := by
    have hbetween : Dict.get? first.inside.definitions.props "label" = _ :=
      hinside.prop_of_caller rfl (by rfl) rfl (by decide)
    exact hinside'.prop_of_caller rfl (by rfl) hbetween (by decide)
  have hagree : Agree (InSight bannerEnvironment.externals) ⟨{"label"}, ∅⟩
      second.inside.definitions userScope := {
    prop := fun name hname => by rw [Set.mem_singleton_iff.1 hname, hlabel]
    state := nofun
    sorted := hinside'.sorted
    sorted' := hsorted
    propDefault := fun name hname d hd hkind => by
      rw [Set.mem_singleton_iff.1 hname, hlabel] at hd
      cases hd
      exact absurd hkind (by decide)
    stateDefault := nofun
    plain := plainBeyond_of_plainProps (by decide +kernel) _
    plain' := plainBeyond_of_plainProps (by decide) _ }
  refine ⟨first, second, hfirst, hsecond, hexternals, hsorted, hforwards, fun fuel c => ?_⟩
  refine (hforwards.shows (pageEnvironment_ignoresScope _) hexternals hsorted
    (v := ⟨"element", _⟩) rfl).2.2.2 _ rfl rfl _ hagree (fun u hu => ?_) fuel c
  obtain rfl := List.mem_singleton.1 hu
  exact ⟨⟨fun _ => rfl, nofun⟩, nofun⟩

end PageCompiler
