import PageCompiler.Proofs.Page.Lookup

/-!
# Scopes that agree

Two scopes agree on some names when they have the same definitions under them, as far as these
definitions go: the elements among their defaults use nothing but such names either. The scopes of
two instances of one component, in two scopes that agree, agree on more names: on those of the
component as well.

* `Closed`: what may be used under which names, however deep instances are expanded.
* `Agree`: two scopes that agree.
* `generateProps_restrict`, `mapM_restrict`: the scope of an instance, name by name.
* `Agree.instance`: the step from two scopes to those of an instance.
-/

namespace PageCompiler

/-! ## Parts of a scope -/

/-- An attribute that changes the default of a prop or leaves the prop alone, and does nothing
else. -/
def Attribute.IsPlain : Attribute → Prop
  | .dynamic _ | .element _ => False
  | _ => True

theorem Attribute.IsPlain.instanceProp {value : Attribute} (h : value.IsPlain) (ds : Definitions)
    (own : PropDefinition) : ∃ d, PageCompiler.instanceProp ds value own = .ok d ∧
      ((∃ content, d.default = some (.value content)) ∨ d = own) := by
  cases value with
  | dynamic r => exact h.elim
  | element e => exact h.elim
  | imported id => exact ⟨own, rfl, Or.inr rfl⟩
  | constant _ | raw _ | expr _ | object _ => exact ⟨_, rfl, Or.inl ⟨_, rfl⟩⟩

/-- A state that no object is given to is accepted. -/
theorem instanceState_eq_ok {attrs : Attributes} {entry : String × StateDefinition}
    (h : ∀ content, Dict.get? attrs entry.1 ≠ some (.object content)) :
    ∃ entry', instanceState attrs entry = .ok entry' := by
  unfold instanceState
  split
  · rename_i content hvalue
    exact absurd hvalue (h content)
  · split
    · exact ⟨_, rfl⟩
    · exact ⟨_, rfl⟩
  · exact ⟨_, rfl⟩

section Restrict

variable {ε α : Type} {p : String → Bool}

theorem map_restrict_pos {entry : String × α} (h : p entry.1 = true) (x : Except ε (Dict α)) :
    (x.map (entry :: ·)).map (Dict.restrict p) = (x.map (Dict.restrict p)).map (entry :: ·) := by
  cases x with
  | error _ => rfl
  | ok rest => exact congrArg Except.ok (Dict.restrict_cons_pos h rest)

theorem map_restrict_neg {entry : String × α} (h : ¬ p entry.1 = true) (x : Except ε (Dict α)) :
    (x.map (entry :: ·)).map (Dict.restrict p) = x.map (Dict.restrict p) := by
  cases x with
  | error _ => rfl
  | ok rest => exact congrArg Except.ok (Dict.restrict_cons_neg h rest)

theorem mapM_cons_eq {α β : Type} (f : α → Except ε β) (a : α) (l : List α) :
    (a :: l).mapM f = f a >>= fun b => (l.mapM f).map (b :: ·) := by
  rw [List.mapM_cons]
  rcases f a with d | b
  · rfl
  · rcases l.mapM f with d | rest <;> rfl

/-- Steps that only fail for some keys can be made on the entries of these keys alone. -/
theorem mapM_restrict {f : String × α → Except ε (String × α)}
    (hkey : ∀ {entry entry'}, f entry = .ok entry' → entry'.1 = entry.1)
    (hother : ∀ entry, ¬ p entry.1 = true → ∃ entry', f entry = .ok entry') (d : Dict α) :
    (Dict.restrict p d).mapM f = (d.mapM f).map (Dict.restrict p) := by
  induction d with
  | nil => rfl
  | cons entry rest ih =>
    rw [mapM_cons_eq]
    by_cases hp : p entry.1 = true
    · rw [Dict.restrict_cons_pos hp, mapM_cons_eq, ih]
      rcases hentry : f entry with d | entry'
      · rfl
      · exact (map_restrict_pos (by rwa [hkey hentry]) _).symm
    · obtain ⟨entry', hentry⟩ := hother entry hp
      rw [Dict.restrict_cons_neg hp, ih, hentry]
      exact (map_restrict_neg (by rwa [hkey hentry]) _).symm

end Restrict

/-- The props that only plain attributes are given to make no difference to the others. -/
theorem generateProps_restrict {generate : Element → StateM Context (Generated Element Nat)}
    {caller : Definitions} {p : String → Bool} {attrs : Attributes}
    (hattrs : ∀ name value, Dict.get? attrs name = some value → ¬ p name = true → value.IsPlain)
    (props : Dict PropDefinition) (c : Context) :
    generateProps generate caller attrs (Dict.restrict p props) c =
      let r := generateProps generate caller attrs props c
      ((r.1.1, r.1.2.map (Dict.restrict p)), r.2) := by
  induction props generalizing attrs c with
  | nil => rfl
  | cons entry rest ih =>
    obtain ⟨name, own⟩ := entry
    rcases hvalue : Dict.get? attrs name with _ | value
    · rw [generateProps_none hvalue]
      dsimp only
      by_cases hp : p name = true
      · rw [Dict.restrict_cons_pos hp, generateProps_none hvalue, ih hattrs, map_restrict_pos hp]
      · rw [Dict.restrict_cons_neg hp, ih hattrs, map_restrict_neg hp]
    by_cases helement : ∃ e, value = .element e
    · obtain ⟨e, rfl⟩ := helement
      have hp : p name = true := by_contra fun hp => hattrs name _ hvalue hp
      rw [Dict.restrict_cons_pos hp, generateProps_element hvalue, generateProps_element hvalue]
      rcases generate e c with ⟨⟨e', d | id⟩, c'⟩
      · rfl
      have hattrs' : ∀ other value, Dict.get? (Dict.insert attrs name (.element e')) other
          = some value → ¬ p other = true → value.IsPlain := by
        intro other value hother hnot
        have hne : other ≠ name := fun heq => hnot (heq ▸ hp)
        rw [Dict.get?_insert_of_ne _ _ hne] at hother
        exact hattrs other value hother hnot
      dsimp only
      rw [ih hattrs', map_restrict_pos hp]
    · have hplain : ∀ e, value ≠ .element e := by simpa using helement
      rw [generateProps_plain hvalue hplain]
      by_cases hp : p name = true
      · rw [Dict.restrict_cons_pos hp, generateProps_plain hvalue hplain]
        rcases instanceProp caller value own with d | definition
        · rfl
        dsimp only
        rw [ih hattrs, map_restrict_pos hp]
      · obtain ⟨definition, hok, -⟩ := (hattrs name value hvalue hp).instanceProp caller own
        rw [Dict.restrict_cons_neg hp, ih hattrs, hok]
        dsimp only
        rw [map_restrict_neg hp]

/-- The props of an instance in two scopes that answer its attributes in the same way. -/
theorem generateProps_congr {generate generate' : Element → StateM Context (Generated Element Nat)}
    {caller caller' : Definitions} {good : Use → Prop}
    (hgenerate : ∀ e c, (∀ u ∈ e.uses, good u) → generate e c = generate' e c)
    (htrace : ∀ e c, (generate e c).1.1.uses ⊆ e.uses)
    (hprop : ∀ value own, (∀ u ∈ value.uses, good u) →
      instanceProp caller value own = instanceProp caller' value own)
    {attrs : Attributes} (hattrs : ∀ u ∈ attributesUses attrs, good u)
    (props : Dict PropDefinition) (c : Context) :
    generateProps generate caller attrs props c = generateProps generate' caller' attrs props c := by
  induction props generalizing attrs c with
  | nil => rfl
  | cons entry rest ih =>
    obtain ⟨name, own⟩ := entry
    rcases hvalue : Dict.get? attrs name with _ | value
    · rw [generateProps_none hvalue, generateProps_none hvalue, ih hattrs]
    have hgood : ∀ u ∈ value.uses, good u := fun u hu =>
      hattrs u (mem_attributesUses.2 ⟨_, Dict.mem_of_get? hvalue, hu⟩)
    by_cases helement : ∃ e, value = .element e
    · obtain ⟨e, rfl⟩ := helement
      have hinsert := usesLess_insert hvalue (htrace e c)
      rw [generateProps_element hvalue, generateProps_element hvalue, ← hgenerate e c hgood]
      dsimp only
      rcases (generate e c).1.2 with d | id
      · rfl
      · dsimp only
        rw [ih fun u hu => hattrs u (hinsert.uses hu)]
    · have hplain : ∀ e, value ≠ .element e := by simpa using helement
      rw [generateProps_plain hvalue hplain, generateProps_plain hvalue hplain,
        hprop value own hgood]
      rcases instanceProp caller' value own with d | definition
      · rfl
      · dsimp only
        rw [ih hattrs]

/-! ## Agreement -/

/-- The default is no element, or one that uses good things only. -/
def DefaultUses (good : Use → Prop) (default : Option Default) : Prop :=
  ∀ node, default = some (.node node) → ∀ u ∈ node.uses, good u

/-- What may be used in a scope where some names can be looked up: what asks for these names. An
instance brings the names of its component along, and what its component uses may be used then. -/
structure Closed (externals : Dict Component) (good : NameSet → Use → Prop) : Prop where
  within : ∀ {names u}, good names u → u.Within externals names
  enter : ∀ {names name c u}, good names (.inst name) → Dict.get? externals name = some c →
    u ∈ c.uses → good (names.declare c) u
  widen : ∀ {names u} c, good names u → good (NameSet.declare names c) u

/-- The definitions of all other names that are passed on to instances have plain defaults. -/
def PlainBeyond (names : NameSet) (ds : Definitions) : Prop :=
  ∀ entry ∈ ds.props, entry.1 ∉ names.props → entry.2.kind ≠ "element" →
    ∀ node, entry.2.default ≠ some (.node node)

/-- Two scopes agree on some names: they have the same definitions under them, and the elements
among their defaults use what may be used. -/
structure Agree (good : NameSet → Use → Prop) (names : NameSet) (a b : Definitions) : Prop
    extends SameOn names a b where
  sorted : a.Sorted
  sorted' : b.Sorted
  propDefault : ∀ name ∈ names.props, ∀ d, Dict.get? a.props name = some d → d.kind = "element" →
    DefaultUses (good names) d.default
  stateDefault : ∀ name ∈ names.states, ∀ d, Dict.get? a.states name = some d →
    d.kind = "element" → DefaultUses (good names) d.default
  plain : PlainBeyond names a
  plain' : PlainBeyond names b

section Agree

variable {externals : Dict Component} {good : NameSet → Use → Prop} {names : NameSet}
  {a b : Definitions}

/-- The element that a reference in sight stands for uses what may be used. -/
theorem Agree.found (h : Agree good names a b) {r : Reference} (hr : names.Has r)
    {v : ReferredValue} (hv : a.find r = .ok v) (hkind : v.kind = "element") :
    DefaultUses (good names) v.default := by
  rcases Definitions.find_ok hv with ⟨hscope, d, hd, rfl⟩ | ⟨hscope, d, hd, rfl⟩
  · exact h.propDefault _ (hr.1 hscope) d hd hkind
  · exact h.stateDefault _ (hr.2 hscope) d hd hkind

/-! ## The step to an instance -/

section Instance

variable {e : Element} {external : Component} {c : Context}
  {generate : Element → StateM Context (Generated Element Nat)}

theorem good_given (he : e.isInstance) (huses : ∀ u ∈ e.uses, good names u) {name : String}
    {value : Attribute} (hvalue : Dict.get? e.attrs name = some value) {u : Use}
    (hu : u ∈ value.givenUses e.componentName name) : good names u := by
  refine huses u (Element.mem_uses.2 (Or.inl ?_))
  rw [Element.ownUses_instance he]
  exact List.mem_cons_of_mem _ (List.mem_flatMap.2 ⟨_, Dict.mem_of_get? hvalue, hu⟩)

/-- A prop that is not in sight gets no more than a plain value. -/
theorem plain_of_notMem (hclosed : Closed externals good)
    (hexternal : Dict.get? externals e.componentName = some external) (he : e.isInstance)
    (huses : ∀ u ∈ e.uses, good names u) {name : String} {value : Attribute}
    (hvalue : Dict.get? e.attrs name = some value)
    (hnot : name ∉ (names.declare external).props) : value.IsPlain := by
  have hgiven : Use.givenProp e.componentName name ∉ value.givenUses e.componentName name :=
    fun hu => hnot (hclosed.within (good_given he huses hvalue hu) external hexternal)
  cases value with
  | dynamic r => exact hgiven List.mem_cons_self
  | element e' => exact hgiven List.mem_cons_self
  | _ => trivial

/-- A state that is not in sight is accepted. -/
theorem accepted_of_notMem (hclosed : Closed externals good)
    (hexternal : Dict.get? externals e.componentName = some external) (he : e.isInstance)
    (huses : ∀ u ∈ e.uses, good names u) {entry : String × StateDefinition}
    (hnot : entry.1 ∉ (names.declare external).states) :
    ∃ entry', instanceState e.attrs entry = .ok entry' := by
  refine instanceState_eq_ok fun content hvalue => hnot ?_
  exact hclosed.within (good_given he huses hvalue List.mem_cons_self) external hexternal

theorem good_copy (hclosed : Closed externals good)
    (hexternal : Dict.get? externals e.componentName = some external) (he : e.isInstance)
    (huses : ∀ u ∈ e.uses, good names u) {u : Use} (hu : u ∈ external.uses) :
    good (names.declare external) u := by
  refine hclosed.enter (huses (.inst e.componentName) (Element.mem_uses.2 (Or.inl ?_))) hexternal hu
  rw [Element.ownUses_instance he]
  exact List.mem_cons_self

/-- The default of a prop of an instance uses what may be used there. -/
theorem propDefault_instance (hclosed : Closed externals good) (h : Agree good names a b)
    (hexternal : Dict.get? externals e.componentName = some external) (he : e.isInstance)
    (huses : ∀ u ∈ e.uses, good names u)
    (htrace : ∀ e c, (generate e c).1.1.uses ⊆ e.uses) {name : String}
    {own d : PropDefinition}
    (hown : (name, own) ∈ combineProps a.props (c.instantiate external).props)
    (hgiven : PropGiven generate e.attrs a name own d) (hkind : d.kind = "element") :
    DefaultUses (good (names.declare external)) d.default := by
  have hown' : own.kind = "element" →
      DefaultUses (good (names.declare external)) own.default := by
    intro hkind node hnode u hu
    rcases mem_combineProps hown with ⟨-, hplain⟩ | hcopy
    · exact absurd hkind hplain
    · exact good_copy hclosed hexternal he huses (mem_uses_copy c external
        (Or.inr (Or.inl (mem_defaultNodes.2 ⟨_, hcopy, hnode⟩))) hu)
  have hattr : ∀ {value}, Dict.get? e.attrs name = some value → ∀ u ∈ value.uses,
      good names u := fun hvalue u hu => huses u (Element.mem_uses.2
    (Or.inr (Or.inl (mem_attributesUses.2 ⟨_, Dict.mem_of_get? hvalue, hu⟩))))
  rw [PropGiven] at hgiven
  split at hgiven
  · cases hgiven
    exact hown' hkind
  · rename_i e' hvalue
    obtain ⟨c', rfl⟩ := hgiven
    intro node hnode u hu
    cases hnode
    exact hclosed.widen external (hattr hvalue u (htrace e' c' hu))
  · rename_i value _ hvalue
    rcases instanceProp_cases hgiven with ⟨content, hdefault⟩ | rfl | ⟨r, rfl, hfind⟩
    · rw [hdefault]
      exact fun node hnode => by cases hnode
    · exact hown' hkind
    · have hr : names.Has r := hclosed.within (hattr hvalue _ List.mem_cons_self)
      exact fun node hnode u hu =>
        hclosed.widen external (h.found hr hfind hkind node hnode u hu)

/-- The default of a state of an instance uses what may be used there. -/
theorem stateDefault_instance (hclosed : Closed externals good) (h : Agree good names a b)
    (hexternal : Dict.get? externals e.componentName = some external) (he : e.isInstance)
    (huses : ∀ u ∈ e.uses, good names u) {name : String}
    (hname : name ∈ (names.declare external).states) {own d : StateDefinition}
    (hown : (name, own) ∈ Dict.merge a.states (c.instantiate external).states)
    (hgiven : StateGiven e.attrs name own d) (hkind : d.kind = "element") :
    DefaultUses (good (names.declare external)) d.default := by
  intro node hnode u hu
  rcases (instanceState_cases hgiven).2 with ⟨content, hdefault⟩ | hsame
  · rw [hdefault] at hnode
    cases hnode
  dsimp only at hsame
  subst hsame
  rcases h.sorted.states.mem_merge hown with hcopy | ⟨hcaller, hnot⟩
  · exact good_copy hclosed hexternal he huses (mem_uses_copy c external
      (Or.inr (Or.inr (mem_stateNodes.2 ⟨_, hcopy, hnode⟩))) hu)
  · have hold : name ∈ names.states := hname.resolve_right hnot
    exact hclosed.widen external (h.stateDefault name hold d
      (h.sorted.states.get?_eq_some_iff.2 hcaller) hkind node hnode u hu)

/-- Beyond the names in sight, an instance has what its caller passes on. -/
theorem plain_instance (hclosed : Closed externals good) (hplain : PlainBeyond names a)
    (hexternal : Dict.get? externals e.componentName = some external) (he : e.isInstance)
    (huses : ∀ u ∈ e.uses, good names u) {ds : Definitions}
    (hgiven : List.Forall₂ (fun entry entry' => entry'.1 = entry.1 ∧
      PropGiven generate e.attrs a entry.1 entry.2 entry'.2)
      (combineProps a.props (c.instantiate external).props) ds.props) :
    ∀ entry ∈ ds.props, entry.1 ∉ (names.declare external).props →
      ∀ node, entry.2.default ≠ some (.node node) := by
  intro entry' hentry' hnot node
  obtain ⟨⟨name, own⟩, hown, hname, hentry⟩ := exists_of_forall₂_right hgiven hentry'
  obtain ⟨name', d⟩ := entry'
  obtain rfl : name' = name := hname
  have hown' : own.default ≠ some (.node node) := by
    rcases mem_combineProps hown with ⟨hcaller, hkind⟩ | hcopy
    · exact hplain _ hcaller (fun hmem => hnot (Or.inl hmem)) hkind node
    · refine absurd (Or.inr ?_) hnot
      rw [← c.copy_props_keys external]
      exact List.mem_map.2 ⟨_, hcopy, rfl⟩
  dsimp only [PropGiven] at hentry hnot ⊢
  split at hentry
  · rwa [hentry]
  · rename_i e' hvalue
    exact (plain_of_notMem hclosed hexternal he huses hvalue hnot).elim
  · rename_i value _ hvalue
    obtain ⟨d', hok, hd'⟩ :=
      (plain_of_notMem hclosed hexternal he huses hvalue hnot).instanceProp a own
    obtain rfl : d' = d := by simpa [hok] using hentry
    rcases hd' with ⟨content, hdefault⟩ | rfl
    · simp [hdefault]
    · exact hown'

/-! ## The scopes of two instances -/

open Classical in
/-- Whether a name is among some names. -/
noncomputable def isAmong (names : Set String) (name : String) : Bool := decide (name ∈ names)

theorem isAmong_iff {names : Set String} {name : String} :
    isAmong names name = true ↔ name ∈ names := by
  simp [isAmong]

/-- The part of a table that belongs to some names. -/
noncomputable def Dict.part {α : Type} (names : Set String) (d : Dict α) : Dict α :=
  Dict.restrict (isAmong names) d

theorem Dict.Sorted.part_eq {α : Type} {d d' : Dict α} (h : d.Sorted) (h' : d'.Sorted)
    {names : Set String} (hget : ∀ name ∈ names, Dict.get? d name = Dict.get? d' name) :
    d.part names = d'.part names :=
  h.restrict_eq h' fun name hname => hget name (isAmong_iff.1 hname)

theorem Dict.Sorted.get?_eq_of_part_eq {α : Type} {d d' : Dict α} (h : d.Sorted) (h' : d'.Sorted)
    {names : Set String} (heq : d.part names = d'.part names) {name : String}
    (hname : name ∈ names) : Dict.get? d name = Dict.get? d' name := by
  have hp := isAmong_iff.2 hname
  rw [← h.get?_restrict hp, ← h'.get?_restrict hp]
  exact congrArg (Dict.get? · name) heq

theorem defaultNodes_part {names : Set String} {props : Dict PropDefinition}
    (h : ∀ entry ∈ props, entry.1 ∉ names → ∀ node, entry.2.default ≠ some (.node node)) :
    defaultNodes (props.part names) = defaultNodes props := by
  rw [defaultNodes, defaultNodes, Dict.part, Dict.restrict, List.filterMap_filter]
  refine List.filterMap_congr fun entry hentry => ?_
  by_cases hname : entry.1 ∈ names
  · rw [if_pos (isAmong_iff.2 hname)]
  · rw [if_neg (mt isAmong_iff.1 hname)]
    rcases hdefault : entry.2.default with _ | node | value
    · rfl
    · exact absurd hdefault (h entry hentry hname node)
    · rfl

/-- The states that the instances get are the same under the names in sight. -/
theorem mapM_instanceState_agree (hclosed : Closed externals good) (h : Agree good names a b)
    (hexternal : Dict.get? externals e.componentName = some external) (he : e.isInstance)
    (huses : ∀ u ∈ e.uses, good names u) (c : Context) :
    let names' := (names.declare external).states
    ((Dict.merge a.states (c.instantiate external).states).mapM (instanceState e.attrs)).map
        (Dict.part names')
      = ((Dict.merge b.states (c.instantiate external).states).mapM (instanceState e.attrs)).map
        (Dict.part names') := by
  have hother : ∀ entry : String × StateDefinition,
      ¬ isAmong (names.declare external).states entry.1 = true →
        ∃ entry', instanceState e.attrs entry = .ok entry' := fun entry hentry =>
    accepted_of_notMem hclosed hexternal he huses (mt isAmong_iff.2 hentry)
  have hkey : ∀ {entry entry'}, instanceState e.attrs entry = .ok entry' → entry'.1 = entry.1 :=
    fun hentry => (instanceState_cases hentry).1
  have hmerged : (Dict.merge a.states (c.instantiate external).states).part
      (names.declare external).states
        = (Dict.merge b.states (c.instantiate external).states).part
          (names.declare external).states := by
    refine (h.sorted.states.merge _).part_eq (h.sorted'.states.merge _) fun name hname => ?_
    exact Dict.get?_merge_congr _ (hname.elim (fun hold => Or.inr (h.state name hold)) Or.inl)
  dsimp only
  rw [Dict.part, Dict.part] at hmerged
  unfold Dict.part
  rw [← mapM_restrict hkey hother, ← mapM_restrict hkey hother, hmerged]

/-- The props that two instances start from are the same under the names in sight. -/
theorem combineProps_agree (h : Agree good names a b) (c : Context) (external : Component) :
    (combineProps a.props (c.instantiate external).props).part (names.declare external).props
      = (combineProps b.props (c.instantiate external).props).part
        (names.declare external).props := by
  refine (sorted_combineProps h.sorted.props _).part_eq (sorted_combineProps h.sorted'.props _)
    fun name hname => ?_
  refine Dict.get?_merge_congr _ ?_
  rw [c.copy_props_keys external]
  refine hname.elim (fun hold => Or.inr ?_) Or.inl
  rw [h.sorted.props.get?_filter, h.sorted'.props.get?_filter, h.prop name hold]

/-- **The scopes of two instances agree** when those around them do. -/
theorem Agree.instance (hclosed : Closed externals good) (h : Agree good names a b)
    (hexternal : Dict.get? externals e.componentName = some external) (he : e.isInstance)
    (huses : ∀ u ∈ e.uses, good names u)
    {generate' : Element → StateM Context (Generated Element Nat)}
    (htrace : ∀ e c, (generate e c).1.1.uses ⊆ e.uses) {ds ds' : Definitions}
    (hgiven : List.Forall₂ (fun entry entry' => entry'.1 = entry.1 ∧
      PropGiven generate e.attrs a entry.1 entry.2 entry'.2)
      (combineProps a.props (c.instantiate external).props) ds.props)
    (hgiven' : List.Forall₂ (fun entry entry' => entry'.1 = entry.1 ∧
      PropGiven generate' e.attrs b entry.1 entry.2 entry'.2)
      (combineProps b.props (c.instantiate external).props) ds'.props)
    (hstates : (Dict.merge a.states (c.instantiate external).states).mapM
      (instanceState e.attrs) = .ok ds.states)
    (hstates' : (Dict.merge b.states (c.instantiate external).states).mapM
      (instanceState e.attrs) = .ok ds'.states)
    (hprops : ds.props.part (names.declare external).props
      = ds'.props.part (names.declare external).props)
    (hsame : ds.states.part (names.declare external).states
      = ds'.states.part (names.declare external).states) :
    Agree good (names.declare external) ds ds' ∧ defaultNodes ds'.props = defaultNodes ds.props := by
  have hplain := plain_instance hclosed h.plain hexternal he huses hgiven
  have hplain' := plain_instance hclosed h.plain' hexternal he huses hgiven'
  have hgivenStates := mapM_instanceState hstates
  have hsorted : ds.Sorted :=
    ⟨(sorted_combineProps h.sorted.props _).of_keys (Dict.keys_forall₂ hgiven),
      (h.sorted.states.merge _).of_keys (Dict.keys_forall₂ hgivenStates)⟩
  have hsorted' : ds'.Sorted :=
    ⟨(sorted_combineProps h.sorted'.props _).of_keys (Dict.keys_forall₂ hgiven'),
      (h.sorted'.states.merge _).of_keys (Dict.keys_forall₂ (mapM_instanceState hstates'))⟩
  refine ⟨{
    prop := fun name hname => hsorted.props.get?_eq_of_part_eq hsorted'.props hprops hname
    state := fun name hname => hsorted.states.get?_eq_of_part_eq hsorted'.states hsame hname
    sorted := hsorted
    sorted' := hsorted'
    propDefault := fun name hname d hd hkind => ?_
    stateDefault := fun name hname d hd hkind => ?_
    plain := fun entry hentry hnot _ => hplain entry hentry hnot
    plain' := fun entry hentry hnot _ => hplain' entry hentry hnot }, ?_⟩
  · obtain ⟨⟨_, own⟩, hown, rfl, hd⟩ := exists_of_forall₂_right hgiven (Dict.mem_of_get? hd)
    exact propDefault_instance hclosed h hexternal he huses htrace hown hd hkind
  · obtain ⟨⟨_, own⟩, hown, rfl, hd⟩ := exists_of_forall₂_right hgivenStates (Dict.mem_of_get? hd)
    exact stateDefault_instance hclosed h hexternal he huses hname hown hd hkind
  · rw [← defaultNodes_part hplain, ← defaultNodes_part hplain', hprops]

end Instance

end Agree

end PageCompiler
