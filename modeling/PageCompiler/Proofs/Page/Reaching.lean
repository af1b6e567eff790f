import PageCompiler.Proofs.Page.Run

/-!
# The parts of a generation

The children of a tag are generated one after the other, each in the context that those before it
leave behind, until one fails, and so are the elements among the attributes of an instance. A preorder
that each part keeps from the context that it is reached in is kept all the way.

* `EachReaches`, `PropsReach`: the generation comes to a part in some context.
* `generateEach_related`, `generateProps_related`: how the context is related to the one in the end.
* `EachReaches.related`, `PropsReach.related`: and to those on the way.
-/

namespace PageCompiler

/-- The generation of a list of parts comes to a part in some context. -/
inductive EachReaches {α β : Type} (generate : α → StateM Context (Generated α β)) (part : α)
    (there : Context) : List α → Context → Prop
  | here {rest : List α} : EachReaches generate part there (part :: rest) there
  | later {first first' : α} {result : β} {rest : List α} {c c' : Context}
      (run : generate first c = ((first', .ok result), c'))
      (reaches : EachReaches generate part there rest c') :
      EachReaches generate part there (first :: rest) c

/-- The generation of the props of an instance comes to an element among its attributes in some
context. -/
inductive PropsReach (generate : Element → StateM Context (Generated Element Nat))
    (caller : Definitions) (x : Element) (there : Context) :
    Attributes → Dict PropDefinition → Context → Prop
  | here {attrs : Attributes} {name : String} {own : PropDefinition} {rest : Dict PropDefinition}
      (value : Dict.get? attrs name = some (.element x)) :
      PropsReach generate caller x there attrs ((name, own) :: rest) there
  | none {attrs : Attributes} {name : String} {own : PropDefinition} {rest : Dict PropDefinition}
      {c : Context} (value : Dict.get? attrs name = none)
      (reaches : PropsReach generate caller x there attrs rest c) :
      PropsReach generate caller x there attrs ((name, own) :: rest) c
  | element {attrs : Attributes} {name : String} {own : PropDefinition}
      {rest : Dict PropDefinition} {e e' : Element} {id : Nat} {c c' : Context}
      (value : Dict.get? attrs name = some (.element e))
      (run : generate e c = ((e', .ok id), c'))
      (reaches : PropsReach generate caller x there (Dict.insert attrs name (.element e')) rest c') :
      PropsReach generate caller x there attrs ((name, own) :: rest) c
  | plain {attrs : Attributes} {name : String} {own d : PropDefinition}
      {rest : Dict PropDefinition} {value : Attribute} {c : Context}
      (given : Dict.get? attrs name = some value) (plain : ∀ e, value ≠ .element e)
      (prop : instanceProp caller value own = .ok d)
      (reaches : PropsReach generate caller x there attrs rest c) :
      PropsReach generate caller x there attrs ((name, own) :: rest) c

/-! ## Preorders that the parts keep -/

section Preorder

variable {R : Context → Context → Prop} (hrefl : ∀ c, R c c)
  (htrans : ∀ {c c' c''}, R c c' → R c' c'' → R c c'')

section Each

variable {α β : Type} {generate : α → StateM Context (Generated α β)} {parts : List α} {c : Context}

include hrefl htrans in
/-- A preorder that each part keeps where it is reached is kept by all of them. -/
theorem generateEach_related
    (h : ∀ part there, EachReaches generate part there parts c → R there (generate part there).2) :
    R c (generateEach generate parts c).2 := by
  induction parts generalizing c with
  | nil => exact hrefl c
  | cons part rest ih =>
    have hpart := h part c .here
    rw [generateEach_cons]
    rcases hrun : generate part c with ⟨⟨part', d | result⟩, c'⟩
    · rw [hrun] at hpart
      exact hpart
    · rw [hrun] at hpart
      exact htrans hpart (ih fun other there hreaches => h other there (.later hrun hreaches))

include hrefl htrans in
/-- It relates the context to every one in which a part is reached. -/
theorem EachReaches.related {part : α} {there : Context}
    (hreaches : EachReaches generate part there parts c)
    (h : ∀ part there, EachReaches generate part there parts c → R there (generate part there).2) :
    R c there := by
  induction hreaches with
  | here => exact hrefl _
  | @later first first' result rest c c' run _ ih =>
    have hfirst := h first c .here
    rw [run] at hfirst
    exact htrans hfirst (ih fun other there hreaches => h other there (.later run hreaches))

end Each

section Props

variable {generate : Element → StateM Context (Generated Element Nat)} {caller : Definitions}
  {props : Dict PropDefinition} {attrs : Attributes} {c : Context}

include hrefl htrans in
/-- A preorder that the elements among the attributes keep where they are reached is kept when the
props of an instance are made. -/
theorem generateProps_related
    (h : ∀ e there, PropsReach generate caller e there attrs props c → R there (generate e there).2) :
    R c (generateProps generate caller attrs props c).2 := by
  induction props generalizing attrs c with
  | nil => exact hrefl c
  | cons entry rest ih =>
    obtain ⟨name, own⟩ := entry
    rcases hvalue : Dict.get? attrs name with _ | value
    · rw [generateProps_none hvalue]
      exact ih fun e there hreaches => h e there (.none hvalue hreaches)
    by_cases helement : ∃ e, value = .element e
    · obtain ⟨e, rfl⟩ := helement
      have hgenerate := h e c (.here hvalue)
      rw [generateProps_element hvalue]
      rcases hrun : generate e c with ⟨⟨e', d | id⟩, c'⟩
      · rw [hrun] at hgenerate
        exact hgenerate
      · rw [hrun] at hgenerate
        exact htrans hgenerate
          (ih fun x there hreaches => h x there (.element hvalue hrun hreaches))
    · have hplain : ∀ e, value ≠ .element e := by simpa using helement
      rw [generateProps_plain hvalue hplain]
      rcases hprop : instanceProp caller value own with d | definition
      · exact hrefl c
      · exact ih fun e there hreaches => h e there (.plain hvalue hplain hprop hreaches)

include hrefl htrans in
/-- It relates the context to every one in which an element is reached. -/
theorem PropsReach.related {x : Element} {there : Context}
    (hreaches : PropsReach generate caller x there attrs props c)
    (h : ∀ e there, PropsReach generate caller e there attrs props c → R there (generate e there).2) :
    R c there := by
  induction hreaches with
  | here => exact hrefl _
  | none value _ ih => exact ih fun e there hreaches => h e there (.none value hreaches)
  | @element attrs name own rest e e' id c c' value run _ ih =>
    have hgenerate := h e c (.here value)
    rw [run] at hgenerate
    exact htrans hgenerate (ih fun x there hreaches => h x there (.element value run hreaches))
  | plain given plain prop _ ih =>
    exact ih fun e there hreaches => h e there (.plain given plain prop hreaches)

end Props

end Preorder

end PageCompiler
