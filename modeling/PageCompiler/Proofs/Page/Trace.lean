import PageCompiler.Proofs.Page.Uses

/-!
# Traces of the generation

The generation of a node answers the node as it is afterwards: styles are settled, an instance has
given its children away, and the elements among its attributes are generated. Whatever happens on
the way, the trace of a node uses nothing that the node does not use.
-/

namespace PageCompiler

/-! ## Settled styles -/

theorem mem_sweep {α : Type} {f : α → Except Diagnostic α} {l : List α} {y : α}
    (h : y ∈ (sweep f l).1) : y ∈ l ∨ ∃ x ∈ l, f x = .ok y := by
  induction l with
  | nil => cases h
  | cons x rest ih =>
    rw [sweep] at h
    split at h
    · rename_i y' hy'
      rcases List.mem_cons.1 h with rfl | h
      · exact Or.inr ⟨x, List.mem_cons_self, hy'⟩
      · rcases ih h with h | ⟨x', hx', hf⟩
        · exact Or.inl (List.mem_cons_of_mem _ h)
        · exact Or.inr ⟨x', List.mem_cons_of_mem _ hx', hf⟩
    · exact Or.inl h

/-- A settled value is the value itself or a text. -/
theorem StyleValue.settle_uses {ds : Definitions} {value value' : StyleValue}
    (h : value.settle ds = .ok value') : value'.uses ⊆ value.uses := by
  cases value with
  | constant content =>
    cases h
    exact fun _ hu => hu
  | dynamic r =>
    unfold settle at h
    dsimp only at h
    split at h
    · cases h
      exact fun _ hu => hu
    · obtain ⟨v, -, h⟩ := exists_of_bind_eq_ok h
      split at h
      · cases h
        exact List.nil_subset _
      · cases h
        exact fun _ hu => hu

theorem StyleMap.settle_uses (ds : Definitions) (styles : StyleMap) :
    StyleMap.uses (styles.settle ds).1 ⊆ styles.uses := by
  intro u hu
  obtain ⟨entry', hentry', hu⟩ := List.mem_flatMap.1 hu
  rcases mem_sweep hentry' with hentry | ⟨entry, hentry, hsettled⟩
  · exact List.mem_flatMap.2 ⟨entry', hentry, hu⟩
  · obtain ⟨value, hvalue, hsettled⟩ := exists_of_bind_eq_ok hsettled
    cases hsettled
    exact List.mem_flatMap.2 ⟨entry, hentry, StyleValue.settle_uses hvalue hu⟩

theorem settleReferenced_uses (ds : Definitions) (styles : Dict ReferencedStyle) :
    (settleReferenced ds styles).1.flatMap (·.2.uses) ⊆ styles.flatMap (·.2.uses) := by
  induction styles with
  | nil => exact fun _ hu => hu
  | cons entry rest ih =>
    obtain ⟨key, s⟩ := entry
    rw [settleReferenced, List.flatMap_cons]
    split
    · rename_i conditions own hcontent
      have hown : StyleMap.uses (StyleMap.settle ds own).1 ⊆ s.uses := by
        rw [ReferencedStyle.uses, hcontent]
        exact StyleMap.settle_uses ds own
      rcases hrun : StyleMap.settle ds own with ⟨own', d | _⟩
      · rw [hrun] at hown
        exact List.append_subset.2 ⟨List.Subset.trans hown (List.subset_append_left _ _),
          List.subset_append_right _ _⟩
      · rw [hrun] at hown
        exact List.append_subset.2 ⟨List.Subset.trans hown (List.subset_append_left _ _),
          List.Subset.trans ih (List.subset_append_right _ _)⟩
    · exact List.append_subset.2 ⟨List.subset_append_left _ _,
        List.Subset.trans ih (List.subset_append_right _ _)⟩

/-- An element with settled styles uses no more for them, and is the same otherwise. -/
theorem Element.settleStyles_uses (ds : Definitions) (e : Element) :
    (e.settleStyles ds).1.styleUses ⊆ e.styleUses ∧
      ∃ style referencedStyles, (e.settleStyles ds).1 = { e with style, referencedStyles } := by
  have href := settleReferenced_uses ds e.referencedStyles
  have hown := StyleMap.settle_uses ds e.style
  rw [settleStyles]
  rcases hrun : settleReferenced ds e.referencedStyles with ⟨styles, d | _⟩
  · rw [hrun] at href
    exact ⟨List.append_subset.2 ⟨List.subset_append_left _ _,
      List.Subset.trans href (List.subset_append_right _ _)⟩, _, _, rfl⟩
  · rw [hrun] at href
    exact ⟨List.append_subset.2 ⟨List.Subset.trans hown (List.subset_append_left _ _),
      List.Subset.trans href (List.subset_append_right _ _)⟩, _, _, rfl⟩

/-! ## Traces -/

theorem Element.uses_subset {e e' : Element} (hown : e'.ownUses ⊆ e.ownUses)
    (hattrs : attributesUses e'.attrs ⊆ attributesUses e.attrs)
    (hchildren : nodesUses e'.children ⊆ nodesUses e.children) : e'.uses ⊆ e.uses := by
  intro u hu
  rw [mem_uses] at hu ⊢
  exact hu.imp (@hown u) (Or.imp (@hattrs u) (@hchildren u))

/-- A tag with other children uses what it uses itself and what these use. -/
theorem Element.uses_withChildren {e : Element} (he : e.isInstance = false) {children : List Node}
    (hchildren : nodesUses children ⊆ nodesUses e.children) :
    Element.uses { e with children } ⊆ e.uses := by
  have he' : Element.isInstance { e with children } = false := he
  refine uses_subset ?_ (fun _ hu => hu) hchildren
  rw [ownUses_tag he, ownUses_tag he']
  exact fun _ hu => hu

theorem generateEach_uses {generate : Node → StateM Context (Generated Node Piece)}
    (h : ∀ node c, (generate node c).1.1.uses ⊆ node.uses) (nodes : List Node) (c : Context) :
    nodesUses (generateEach generate nodes c).1.1 ⊆ nodesUses nodes := by
  induction nodes generalizing c with
  | nil => exact fun _ hu => hu
  | cons node rest ih =>
    have hnode := h node c
    rw [generateEach_cons]
    rcases hrun : generate node c with ⟨⟨node', d | piece⟩, c'⟩
    · rw [hrun] at hnode
      exact List.append_subset.2 ⟨List.Subset.trans hnode (List.subset_append_left _ _),
        List.subset_append_right _ _⟩
    · rw [hrun] at hnode
      exact List.append_subset.2 ⟨List.Subset.trans hnode (List.subset_append_left _ _),
        List.Subset.trans (ih c') (List.subset_append_right _ _)⟩

/-- Attributes that are used for no more than others, and are given no further. -/
structure UsesLess (attrs attrs' : Attributes) : Prop where
  uses : attributesUses attrs' ⊆ attributesUses attrs
  given : ∀ component, attributesGiven component attrs' ⊆ attributesGiven component attrs

theorem UsesLess.refl (attrs : Attributes) : UsesLess attrs attrs :=
  ⟨List.Subset.refl _, fun _ => List.Subset.refl _⟩

theorem UsesLess.trans {attrs attrs' attrs'' : Attributes} (h : UsesLess attrs attrs')
    (h' : UsesLess attrs' attrs'') : UsesLess attrs attrs'' :=
  ⟨List.Subset.trans h'.uses h.uses, fun component =>
    List.Subset.trans (h'.given component) (h.given component)⟩

/-- Filing a generated element among the attributes that it comes from. -/
theorem usesLess_insert {attrs : Attributes} {name : String} {e e' : Element}
    (h : Dict.get? attrs name = some (.element e)) (hsub : e'.uses ⊆ e.uses) :
    UsesLess attrs (Dict.insert attrs name (.element e')) := by
  have hmem := Dict.mem_of_get? h
  refine ⟨fun u hu => ?_, fun component u hu => ?_⟩
  · rw [mem_attributesUses] at hu ⊢
    obtain ⟨entry, hentry, hu⟩ := hu
    rcases Dict.mem_insert hentry with rfl | hentry
    · exact ⟨_, hmem, hsub hu⟩
    · exact ⟨entry, hentry, hu⟩
  · obtain ⟨entry, hentry, hu⟩ := List.mem_flatMap.1 hu
    rcases Dict.mem_insert hentry with rfl | hentry
    · exact List.mem_flatMap.2 ⟨_, hmem, hu⟩
    · exact List.mem_flatMap.2 ⟨entry, hentry, hu⟩

theorem generateProps_uses {generate : Element → StateM Context (Generated Element Nat)}
    (h : ∀ e c, (generate e c).1.1.uses ⊆ e.uses) (caller : Definitions)
    (props : Dict PropDefinition) (attrs : Attributes) (c : Context) :
    UsesLess attrs (generateProps generate caller attrs props c).1.1 := by
  induction props generalizing attrs c with
  | nil => exact .refl attrs
  | cons entry rest ih =>
    obtain ⟨name, own⟩ := entry
    rcases hvalue : Dict.get? attrs name with _ | value
    · rw [generateProps_none hvalue]
      exact ih attrs c
    by_cases helement : ∃ e, value = .element e
    · obtain ⟨e, rfl⟩ := helement
      have hinsert := usesLess_insert hvalue (h e c)
      rw [generateProps_element hvalue]
      rcases hrun : generate e c with ⟨⟨e', d | id⟩, c'⟩
      · rw [hrun] at hinsert
        exact hinsert
      · rw [hrun] at hinsert
        exact hinsert.trans (ih (Dict.insert attrs name (.element e')) c')
    · rw [generateProps_plain hvalue (by simpa using helement)]
      rcases instanceProp caller value own with d | definition
      · exact .refl attrs
      · exact ih attrs c

section Generate

variable (env : Environment)

/-- The traces of the generation to some depth use no more than what they are traces of. -/
structure TracesUse (fuel : Nat) : Prop where
  node : ∀ at' node c, (generateNode env fuel at' node c).1.1.uses ⊆ node.uses
  element : ∀ at' e c, (generateElement env fuel at' e c).1.1.uses ⊆ e.uses
  expand : ∀ at' e c, e.isInstance = true → (expandInstance env fuel at' e c).1.1.uses ⊆ e.uses

theorem finishTag_trace (at' : Surroundings) (e : Element) (pieces : List Piece) (c : Context) :
    (finishTag env at' e pieces c).1.1 = (e.settleStyles at'.definitions).1 := by
  rw [finishTag_run]
  rcases e.settleStyles at'.definitions with ⟨styled, d | _⟩
  · rfl
  dsimp only
  rcases pageAttributes env.options env.folder at'.definitions styled.elementType styled.attrs with
    ⟨attrs, d | _⟩ <;> rfl

theorem enterInstance_trace (fuel : Nat) (at' : Surroundings) (e : Element)
    (component : Component) (root : Node) (ds : Definitions) (c : Context) :
    (enterInstance env fuel at' e component root ds c).1.1 = e := by
  rw [enterInstance_run]
  rcases wrapperKey? c e.componentName e.key with _ | key
  · rfl
  dsimp only
  rcases generateElement env fuel _ (wrapperElement key root) c with ⟨⟨wrapper, d | id⟩, c'⟩
  · rfl
  dsimp only
  rcases runInstanceStages env _ id c' with ⟨d | _, c''⟩ <;> rfl

theorem finishTag_uses (at' : Surroundings) {e : Element} (he : e.isInstance = false)
    (pieces : List Piece) (c : Context) : (finishTag env at' e pieces c).1.1.uses ⊆ e.uses := by
  rw [finishTag_trace]
  obtain ⟨hstyle, style, referencedStyles, heq⟩ := e.settleStyles_uses at'.definitions
  have he' : Element.isInstance { e with style, referencedStyles } = false := he
  rw [heq] at hstyle ⊢
  refine Element.uses_subset ?_ (fun _ hu => hu) (fun _ hu => hu)
  rwa [Element.ownUses_tag he, Element.ownUses_tag he']

variable {env}

/-- An instance that has given its children away and has other attributes. -/
theorem spent_uses {e : Element} (he : e.isInstance = true) {attrs : Attributes}
    (h : UsesLess e.attrs attrs) : Element.uses { e with children := [], attrs } ⊆ e.uses := by
  have he' : Element.isInstance { e with children := [], attrs } = true := he
  refine Element.uses_subset ?_ h.uses (List.nil_subset _)
  rw [Element.ownUses_instance he, Element.ownUses_instance he']
  exact List.cons_subset_cons _ (h.given e.componentName)

theorem expandInstance_trace_uses {fuel : Nat} (ih : TracesUse env fuel) (at' : Surroundings)
    {e : Element} (he : e.isInstance = true) (c : Context) :
    (expandInstance env (fuel + 1) at' e c).1.1.uses ⊆ e.uses := by
  rw [expandInstance_succ]
  rcases Dict.get? env.externals e.componentName with _ | external
  · exact fun _ hu => hu
  dsimp only
  rcases (Dict.merge at'.definitions.states (c.instantiate external).states).mapM
    (instanceState e.attrs) with d | states
  · exact spent_uses he (.refl e.attrs)
  have hprops := generateProps_uses (ih.element at') at'.definitions
    (combineProps at'.definitions.props (c.instantiate external).props) e.attrs
    (c.reserve (c.instantiate external).node.keys)
  have hspent := spent_uses he hprops
  dsimp only
  rcases hrun : generateProps (generateElement env fuel at') at'.definitions e.attrs
    (combineProps at'.definitions.props (c.instantiate external).props)
    (c.reserve (c.instantiate external).node.keys) with ⟨⟨attrs, d | props⟩, c'⟩
  · rw [hrun] at hspent
    exact hspent
  · rw [hrun] at hspent
    rw [enterInstance_trace]
    exact hspent

theorem generateElement_trace_uses {fuel : Nat} (ih : TracesUse env fuel) (at' : Surroundings)
    (e : Element) (c : Context) : (generateElement env (fuel + 1) at' e c).1.1.uses ⊆ e.uses := by
  by_cases he : e.isInstance
  · have hexpand := ih.expand at' e c he
    rw [generateElement_instance env fuel at' c he]
    rcases hrun : expandInstance env fuel at' e c with ⟨⟨e', d | id⟩, c'⟩
    · rw [hrun] at hexpand
      exact hexpand
    · rw [hrun] at hexpand
      exact hexpand
  · have he : e.isInstance = false := by simpa using he
    have hchildren := generateEach_uses (ih.node at') e.children (c.noteDependency e)
    rw [generateElement_tag env fuel at' c he]
    rcases hrun : generateEach (generateNode env fuel at') e.children (c.noteDependency e) with
      ⟨⟨children, d | pieces⟩, c'⟩
    · rw [hrun] at hchildren
      exact Element.uses_withChildren he hchildren
    · rw [hrun] at hchildren
      have he' : Element.isInstance { e with children } = false := he
      exact List.Subset.trans (finishTag_uses env at' he' pieces c')
        (Element.uses_withChildren he hchildren)

theorem generateNode_trace_uses {fuel : Nat} (ih : TracesUse env fuel) (at' : Surroundings)
    (node : Node) (c : Context) : (generateNode env (fuel + 1) at' node c).1.1.uses ⊆ node.uses := by
  cases node with
  | element e =>
    rw [generateNode_element]
    exact ih.element at' e c
  | dynamic r =>
    rw [generateNode_dynamic]
    exact fun _ hu => hu
  | conditional q =>
    rw [generateNode_conditional]
    split
    · intro u hu
      rw [Node.uses, Conditional.uses_eq, List.mem_append] at hu ⊢
      exact hu.imp_right fun hu => ih.node at' q.node c hu
    · exact fun _ hu => hu
  | constant _ | raw _ | inject _ | slot _ | expr _ | repetition _ =>
    rw [generateNode]
    exact fun _ hu => hu

/-- **A trace uses no more than the node** that it is left by. -/
theorem traces_use (env : Environment) (fuel : Nat) : TracesUse env fuel := by
  induction fuel with
  | zero =>
    refine ⟨fun at' node c => ?_, fun at' e c => ?_, fun at' e c _ => ?_⟩
    · rw [generateNode]
      exact fun _ hu => hu
    · rw [generateElement]
      exact fun _ hu => hu
    · rw [expandInstance]
      exact fun _ hu => hu
  | succ fuel ih =>
    exact ⟨generateNode_trace_uses ih, generateElement_trace_uses ih,
      fun at' e c he => expandInstance_trace_uses ih at' he c⟩

end Generate

end PageCompiler
