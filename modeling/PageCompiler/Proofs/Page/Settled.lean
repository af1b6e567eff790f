import PageCompiler.Proofs.Page.StyleStage

/-!
# Tags and their styles

What a tag comes to when its generation succeeds: its children are generated, its styles are settled,
an element is made for it, and that element is registered under its key.

* `TagRun`: the generation of a tag that succeeds.
* `TagRun.style`: each style of the tag is settled in its trace.
-/

namespace PageCompiler

/-! ## Settled styles -/

theorem forall₂_of_sweep {α : Type} {f : α → Except Diagnostic α} {l l' : List α}
    (h : sweep f l = (l', .ok ())) : List.Forall₂ (fun x y => f x = .ok y) l l' := by
  induction l generalizing l' with
  | nil =>
    cases h
    exact .nil
  | cons x rest ih =>
    rw [sweep] at h
    split at h
    · rename_i y hy
      rcases hrest : sweep f rest with ⟨rest', outcome⟩
      rw [hrest] at h
      cases h
      exact .cons hy (ih hrest)
    · cases h

/-- Styles that are settled hold the settled value of each entry. -/
theorem StyleMap.mem_of_settle {ds : Definitions} {styles styles' : StyleMap}
    (h : styles.settle ds = (styles', .ok ())) {entry : String × StyleValue} (he : entry ∈ styles) :
    ∃ value, entry.2.settle ds = .ok value ∧ (entry.1, value) ∈ styles' := by
  obtain ⟨entry', hentry', hsettled⟩ := exists_of_forall₂_left (forall₂_of_sweep h) he
  obtain ⟨value, hvalue, hsettled⟩ := exists_of_bind_eq_ok hsettled
  cases hsettled
  exact ⟨value, hvalue, hentry'⟩

/-- An element whose styles are settled, and that is the same otherwise. -/
theorem Element.exists_of_settleStyles {ds : Definitions} {e e' : Element}
    (h : e.settleStyles ds = (e', .ok ())) : ∃ style referencedStyles,
      e.style.settle ds = (style, .ok ()) ∧ e' = { e with style, referencedStyles } := by
  rw [settleStyles] at h
  rcases hreferenced : settleReferenced ds e.referencedStyles with ⟨referencedStyles, d | _⟩
  · rw [hreferenced] at h
    cases h
  rw [hreferenced] at h
  dsimp only at h
  rcases hstyle : e.style.settle ds with ⟨style, outcome⟩
  rw [hstyle] at h
  cases h
  exact ⟨style, referencedStyles, rfl, rfl⟩

/-! ## Tags -/

/-- The generation of a tag that succeeds. -/
structure TagRun (env : Environment) (fuel : Nat) (at' : Surroundings) (e : Element) (c : Context)
    (e' : Element) (id : Nat) (c' : Context) : Prop where
  children : ∃ pieces there attrs,
    generateEach (generateNode env fuel at') e.children (c.noteDependency e)
      = ((e'.children, .ok pieces), there) ∧
    there.canvas.create ⟨e.elementType, attrs, pieces⟩ = (id, c'.canvas)
  same : ∃ style referencedStyles children,
    e.style.settle at'.definitions = (style, .ok ()) ∧
      e' = { e with style, referencedStyles, children }
  registered : Dict.get? c'.lookup e.key = some id

section Tags

variable {env : Environment} {fuel : Nat} {at' : Surroundings} {e e' : Element} {c c' : Context}
  {id : Nat}

theorem TagRun.of_run (he : e.isInstance = false)
    (h : generateElement env (fuel + 1) at' e c = ((e', .ok id), c')) :
    TagRun env fuel at' e c e' id c' := by
  have hregistered := generate_registers env (fuel + 1) at' e c
  rw [h] at hregistered
  rw [generateElement_tag env fuel at' c he] at h
  rcases hchildren : generateEach (generateNode env fuel at') e.children (c.noteDependency e) with
    ⟨⟨children, d | pieces⟩, there⟩
  · rw [hchildren] at h
    cases h
  rw [hchildren] at h
  dsimp only at h
  rw [finishTag_run] at h
  rcases hstyled : Element.settleStyles at'.definitions { e with children } with ⟨styled, d | _⟩
  · rw [hstyled] at h
    cases h
  rw [hstyled] at h
  dsimp only at h
  rcases hattrs : pageAttributes env.options env.folder at'.definitions styled.elementType
    styled.attrs with ⟨attrs, d | _⟩
  · rw [hattrs] at h
    cases h
  rw [hattrs] at h
  dsimp only at h
  obtain ⟨style, referencedStyles, hstyle, rfl⟩ := Element.exists_of_settleStyles hstyled
  rcases registerElement_run e.key { e with children, style, referencedStyles }
    there.canvas.tags.size at'.hierarchy (createTag ⟨e.elementType, attrs, pieces⟩ there).2 with
    ⟨-, hregister⟩ | ⟨-, d, -, hregister⟩
  · rw [show registerElement _ _ (createTag _ there).1 _ _ = _ from hregister] at h
    cases h
    exact ⟨⟨pieces, there, attrs, hchildren, rfl⟩, ⟨style, referencedStyles, children, hstyle, rfl⟩,
      (hregistered _ rfl).2⟩
  · rw [show registerElement _ _ (createTag _ there).1 _ _ = _ from hregister] at h
    cases h

/-- Each style of a tag is settled in its trace. -/
theorem TagRun.style (h : TagRun env fuel at' e c e' id c') {entry : String × StyleValue}
    (hentry : entry ∈ e.style) :
    ∃ value, entry.2.settle at'.definitions = .ok value ∧ (entry.1, value) ∈ e'.style := by
  obtain ⟨style, referencedStyles, children, hstyle, rfl⟩ := h.same
  exact StyleMap.mem_of_settle hstyle hentry

theorem TagRun.key (h : TagRun env fuel at' e c e' id c') : e'.key = e.key := by
  obtain ⟨_, _, _, -, rfl⟩ := h.same
  rfl

end Tags

end PageCompiler
