import PageCompiler.Proofs.Outcome
import PageCompiler.Proofs.Page.Context

/-!
# References and definitions

What a reference stands for comes from the definition it names. Looking it up, and settling styles
and attributes with it, can fail, but only over the reference (`Diagnostic.IsLookup`): never over a
key, and never for want of depth.
-/

namespace PageCompiler

/-- A found value is the kind and the default of a definition. -/
theorem Definitions.find_ok {ds : Definitions} {r : Reference} {v : ReferredValue}
    (h : ds.find r = .ok v) :
    (r.scope = .prop ∧ ∃ d, Dict.get? ds.props r.id = some d ∧ v = ⟨d.kind, d.default⟩) ∨
      r.scope = .state ∧ ∃ d, Dict.get? ds.states r.id = some d ∧ v = ⟨d.kind, d.default⟩ := by
  rw [find] at h
  split at h
  · rename_i hscope
    split at h
    · rename_i d hd
      cases h
      exact Or.inl ⟨hscope, d, hd, rfl⟩
    · cases h
  · rename_i hscope
    split at h
    · rename_i d hd
      cases h
      exact Or.inr ⟨hscope, d, hd, rfl⟩
    · cases h
  · cases h

theorem Definitions.value_ok {ds : Definitions} {r : Reference} {v : ReferredValue}
    (h : ds.value r = .ok v) : ds.find r = .ok v := by
  obtain ⟨v', hfind, h⟩ := exists_of_bind_eq_ok h
  split at h
  · cases h
  · split at h
    · cases h
    · cases h
      exact hfind

/-! ## Definitions of an instance -/

/-- A prop of an instance has a plain value, is the given one or is forwarded by a reference. -/
theorem instanceProp_cases {ds : Definitions} {value : Attribute} {own d : PropDefinition}
    (h : instanceProp ds value own = .ok d) :
    (∃ content, d.default = some (.value content)) ∨ d = own ∨
      ∃ r, value = .dynamic r ∧ ds.find r = .ok ⟨d.kind, d.default⟩ := by
  unfold instanceProp at h
  split at h
  · rename_i r
    unfold forwarded at h
    split at h
    · rename_i hscope
      cases h
      rcases hget : Dict.get? ds.props r.id with _ | found
      · exact Or.inr (Or.inl rfl)
      · refine Or.inr (Or.inr ⟨r, rfl, ?_⟩)
        rw [Definitions.find, hscope, hget]
        rfl
    · rename_i hscope
      split at h
      · rename_i s hget
        cases h
        refine Or.inr (Or.inr ⟨r, rfl, ?_⟩)
        rw [Definitions.find, hscope, hget]
      · cases h
        exact Or.inr (Or.inl rfl)
    · cases h
  · split at h
    · rename_i content _
      cases h
      exact Or.inl ⟨_, rfl⟩
    · cases h
      exact Or.inr (Or.inl rfl)

/-- A state of an instance has a plain value or is the given one. -/
theorem instanceState_cases {attrs : Attributes} {entry entry' : String × StateDefinition}
    (h : instanceState attrs entry = .ok entry') :
    entry'.1 = entry.1 ∧
      ((∃ content, entry'.2.default = some (.value content)) ∨ entry'.2 = entry.2) := by
  unfold instanceState at h
  split at h
  · cases h
  · split at h
    · cases h
      exact ⟨rfl, Or.inl ⟨_, rfl⟩⟩
    · cases h
      exact ⟨rfl, Or.inr rfl⟩
  · cases h
    exact ⟨rfl, Or.inr rfl⟩

/-! ## Failures -/

/-- The cause is a reference that cannot be resolved, or an attribute that an instance cannot take. -/
def Diagnostic.IsLookup : Diagnostic → Prop
  | .missingDefinition .. | .missingDefault .. | .unresolvable _ | .unsupportedKind ..
  | .unforwardable _ | .objectForState _ => True
  | _ => False

theorem FailsWith.keyFree {α : Type} {x : Except Diagnostic α}
    (h : FailsWith Diagnostic.IsLookup x) : KeyFree x := by
  intro d hd
  have hlookup := h d hd
  cases d <;> first | rfl | exact hlookup.elim

theorem Definitions.value_fails (ds : Definitions) (r : Reference) :
    FailsWith Diagnostic.IsLookup (ds.value r) := by
  refine .bind ?_ fun v => ?_
  · rw [find]
    split
    · split
      · exact .ok _
      · exact .error trivial
    · split
      · exact .ok _
      · exact .error trivial
    · exact .error trivial
  · split
    · exact .error trivial
    · split
      · exact .error trivial
      · exact .ok _

theorem instanceState_fails (attrs : Attributes) (entry : String × StateDefinition) :
    FailsWith Diagnostic.IsLookup (instanceState attrs entry) := by
  rw [instanceState]
  split
  · exact .error trivial
  · split
    · exact .ok _
    · exact .ok _
  · exact .ok _

theorem instanceProp_fails (ds : Definitions) (value : Attribute) (own : PropDefinition) :
    FailsWith Diagnostic.IsLookup (instanceProp ds value own) := by
  unfold instanceProp
  split
  · unfold forwarded
    split
    · exact .ok _
    · split
      · exact .ok _
      · exact .ok _
    · exact .error trivial
  · split
    · exact .ok _
    · exact .ok _

/-! ## Styles and attributes -/

theorem sweep_fails {α : Type} {sort : Diagnostic → Prop} {f : α → Except Diagnostic α}
    (hf : ∀ a, FailsWith sort (f a)) (l : List α) : FailsWith sort (sweep f l).2 := by
  induction l with
  | nil => exact .ok _
  | cons x rest ih =>
    rw [sweep]
    split
    · exact ih
    · rename_i d hd
      exact .error (hf x d hd)

theorem StyleMap.settle_fails (ds : Definitions) (styles : StyleMap) :
    FailsWith Diagnostic.IsLookup (styles.settle ds).2 := by
  refine sweep_fails (fun entry => .bind ?_ fun value => .ok _) styles
  unfold StyleValue.settle
  split
  · exact .ok _
  · split
    · exact .ok _
    · exact (ds.value_fails _).bind fun v => .ok _

theorem settleReferenced_fails (ds : Definitions) (styles : Dict ReferencedStyle) :
    FailsWith Diagnostic.IsLookup (settleReferenced ds styles).2 := by
  induction styles with
  | nil => exact .ok _
  | cons entry rest ih =>
    obtain ⟨key, s⟩ := entry
    rw [settleReferenced]
    split
    · rename_i conditions own _
      have hown := StyleMap.settle_fails ds own
      rcases hrun : StyleMap.settle ds own with ⟨own', d | _⟩
      · rw [hrun] at hown
        exact hown
      · exact ih
    · exact ih

/-- Settled styles leave the key and the children of an element alone. -/
theorem Element.settleStyles_run (ds : Definitions) (e : Element) :
    (e.settleStyles ds).1.key = e.key ∧ (e.settleStyles ds).1.children = e.children ∧
      FailsWith Diagnostic.IsLookup (e.settleStyles ds).2 := by
  have href := settleReferenced_fails ds e.referencedStyles
  have hown := StyleMap.settle_fails ds e.style
  rw [settleStyles]
  rcases hrun : settleReferenced ds e.referencedStyles with ⟨styles, d | _⟩
  · rw [hrun] at href
    exact ⟨rfl, rfl, href⟩
  · exact ⟨rfl, rfl, hown⟩

theorem pageAttributes_fails (o : Options) (folder : List String) (ds : Definitions)
    (elementType : String) (attrs : Attributes) :
    FailsWith Diagnostic.IsLookup (pageAttributes o folder ds elementType attrs).2 := by
  induction attrs with
  | nil => exact .ok _
  | cons entry rest ih =>
    obtain ⟨name, value⟩ := entry
    have hvalue : FailsWith Diagnostic.IsLookup (value.pageText o folder ds elementType name) := by
      unfold Attribute.pageText
      split
      · exact .ok _
      · exact (ds.value_fails _).bind fun v => .ok _
      · exact .ok _
      · exact .ok _
    rw [pageAttributes]
    split
    · exact ih
    · rename_i d hd
      exact .error (hvalue d hd)

end PageCompiler
