import PageCompiler.Proofs.Page.Scope

/-!
# Lookups in two scopes

Two scopes that have the same definitions under some names answer every reference to these names in
the same way, and so are styles, attributes and conditions settled in the same way in both.

* `Use.Within`: a use that asks for these names only.
* `SameOn.value`, `SameOn.settleStyles`, `SameOn.pageAttributes`: one equation for each lookup.
-/

namespace PageCompiler

/-- Names of props and of states. -/
structure NameSet where
  props : Set String
  states : Set String

namespace NameSet

/-- A reference names one of the props or states, if it names any. -/
def Has (names : NameSet) (r : Reference) : Prop :=
  (r.scope = .prop → r.id ∈ names.props) ∧ (r.scope = .state → r.id ∈ names.states)

/-- The names together with those that a component has definitions of its own for. -/
def declare (names : NameSet) (c : Component) : NameSet where
  props := {name | name ∈ names.props ∨ name ∈ Dict.keys c.props}
  states := {name | name ∈ names.states ∨ name ∈ Dict.keys c.states}

end NameSet

/-- A use that asks for some names only; an attribute of an instance also for those that the
component of the instance defines. -/
def Use.Within (externals : Dict Component) (names : NameSet) : Use → Prop
  | .definition r | .shown r => names.Has r
  | .inst _ | .passed _ => True
  | .givenProp component name => ∀ c, Dict.get? externals component = some c →
    name ∈ (names.declare c).props
  | .givenState component name => ∀ c, Dict.get? externals component = some c →
    name ∈ (names.declare c).states

/-- Two scopes have the same definitions under some names. -/
structure SameOn (names : NameSet) (a b : Definitions) : Prop where
  prop : ∀ name ∈ names.props, Dict.get? a.props name = Dict.get? b.props name
  state : ∀ name ∈ names.states, Dict.get? a.states name = Dict.get? b.states name

theorem sweep_congr {α : Type} {f g : α → Except Diagnostic α} {l : List α}
    (h : ∀ x ∈ l, f x = g x) : sweep f l = sweep g l := by
  induction l with
  | nil => rfl
  | cons x rest ih =>
    have hrest := ih fun y hy => h y (List.mem_cons_of_mem _ hy)
    rw [sweep, sweep, h x List.mem_cons_self]
    cases g x with
    | error d => rfl
    | ok y => rw [hrest]

namespace SameOn

variable {externals : Dict Component} {names : NameSet} {a b : Definitions}

theorem symm (h : SameOn names a b) : SameOn names b a :=
  ⟨fun name hname => (h.prop name hname).symm, fun name hname => (h.state name hname).symm⟩

/-! ## References -/

theorem find (h : SameOn names a b) {r : Reference} (hr : names.Has r) : a.find r = b.find r := by
  unfold Definitions.find
  rcases hscope : r.scope with _ | _ | _ | _ | _ | _ | _
  all_goals try rfl
  · dsimp only
    rw [h.prop _ (hr.1 hscope)]
  · dsimp only
    rw [h.state _ (hr.2 hscope)]

theorem value (h : SameOn names a b) {r : Reference} (hr : names.Has r) : a.value r = b.value r := by
  rw [Definitions.value, Definitions.value, h.find hr]

theorem isShown (h : SameOn names a b) {q : Conditional}
    (hq : ∀ u ∈ conditionUses q.reference, u.Within externals names) :
    q.isShown a = q.isShown b := by
  unfold Conditional.isShown
  rcases hreference : q.reference with _ | r | _ | _ | _ | _ | _ | _ | _
  all_goals try rfl
  dsimp only
  by_cases hscope : r.scope = .prop
  · rw [hreference, conditionUses, if_pos hscope] at hq
    have hr : names.Has r := hq _ List.mem_cons_self
    rw [h.prop _ (hr.1 hscope)]
  · rw [if_neg hscope, if_neg hscope]

/-! ## Styles -/

theorem settle (h : SameOn names a b) {value : StyleValue}
    (hvalue : ∀ u ∈ value.uses, u.Within externals names) : value.settle a = value.settle b := by
  cases value with
  | constant _ => rfl
  | dynamic r =>
    have hr : names.Has r := hvalue _ List.mem_cons_self
    rw [StyleValue.settle, StyleValue.settle, h.value hr]

theorem settleMap (h : SameOn names a b) {styles : StyleMap}
    (hstyles : ∀ u ∈ styles.uses, u.Within externals names) :
    styles.settle a = styles.settle b := by
  refine sweep_congr fun entry hentry => ?_
  rw [h.settle fun u hu => hstyles u (List.mem_flatMap.2 ⟨entry, hentry, hu⟩)]

theorem settleReferenced (h : SameOn names a b) {styles : Dict ReferencedStyle}
    (hstyles : ∀ u ∈ styles.flatMap (·.2.uses), u.Within externals names) :
    settleReferenced a styles = settleReferenced b styles := by
  induction styles with
  | nil => rfl
  | cons entry rest ih =>
    obtain ⟨key, s⟩ := entry
    have hrest := ih fun u hu => hstyles u (List.mem_append_right _ hu)
    rw [PageCompiler.settleReferenced, PageCompiler.settleReferenced, hrest]
    rcases hcontent : s.content with conditions | _ | _
    · rename_i own
      have hown : ∀ u ∈ StyleMap.uses own, u.Within externals names := by
        intro u hu
        refine hstyles u (List.mem_append_left _ ?_)
        change u ∈ s.uses
        rw [ReferencedStyle.uses, hcontent]
        exact hu
      dsimp only
      rw [h.settleMap hown]
    · rfl
    · rfl

theorem settleStyles (h : SameOn names a b) {e : Element}
    (he : ∀ u ∈ e.styleUses, u.Within externals names) : e.settleStyles a = e.settleStyles b := by
  unfold Element.settleStyles
  rw [h.settleReferenced fun u hu => he u (List.mem_append_right _ hu)]
  rcases PageCompiler.settleReferenced b e.referencedStyles with ⟨styles, d | _⟩
  · rfl
  · dsimp only
    rw [h.settleMap fun u hu => he u (List.mem_append_left _ hu)]

/-! ## Attributes -/

theorem pageText (h : SameOn names a b) {value : Attribute}
    (hvalue : ∀ u ∈ value.uses, u.Within externals names) (o : Options) (folder : List String)
    (elementType name : String) :
    value.pageText o folder a elementType name = value.pageText o folder b elementType name := by
  cases value with
  | dynamic r =>
    have hr : names.Has r := hvalue _ List.mem_cons_self
    rw [Attribute.pageText, Attribute.pageText, h.value hr]
  | _ => rfl

theorem pageAttributes (h : SameOn names a b) {attrs : Attributes}
    (hattrs : ∀ u ∈ attributesUses attrs, u.Within externals names) (o : Options)
    (folder : List String) (elementType : String) :
    pageAttributes o folder a elementType attrs = pageAttributes o folder b elementType attrs := by
  induction attrs with
  | nil => rfl
  | cons entry rest ih =>
    obtain ⟨name, value⟩ := entry
    have hrest := ih fun u hu => hattrs u (List.mem_append_right _ hu)
    have hvalue := h.pageText (fun u hu => hattrs u (List.mem_append_left _ hu)) o folder
      elementType name
    rw [PageCompiler.pageAttributes, PageCompiler.pageAttributes, hvalue, hrest]

theorem instanceProp (h : SameOn names a b) {value : Attribute}
    (hvalue : ∀ u ∈ value.uses, u.Within externals names) (own : PropDefinition) :
    instanceProp a value own = instanceProp b value own := by
  cases value with
  | dynamic r =>
    have hr : names.Has r := hvalue _ List.mem_cons_self
    change forwarded a r own = forwarded b r own
    unfold forwarded
    rcases hscope : r.scope with _ | _ | _ | _ | _ | _ | _
    all_goals try rfl
    · dsimp only
      rw [h.prop _ (hr.1 hscope)]
    · dsimp only
      rw [h.state _ (hr.2 hscope)]
  | _ => rfl

end SameOn

end PageCompiler
