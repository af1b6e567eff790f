import PageCompiler.Proofs.Page.Instance
import PageCompiler.Proofs.Page.Trace

/-!
# Scopes of instances

The scope of an instance holds the definitions of its component and those of the caller that are
no elements, each with the attribute of its name as the default. The definitions of the component
come first.

* `generateProps_given`, `mapM_instanceState`: how every definition of the scope comes about.
* `Inside`: what the scope of an instance has under each name; `Inside.of_run` for a run.
-/

namespace PageCompiler

/-! ## Tables entry by entry -/

/-- Tables with the same keys and related values have related values under every key. -/
theorem Dict.get?_forall₂ {α β : Type} {R : String → α → β → Prop} {d : Dict α} {d' : Dict β}
    (h : List.Forall₂ (fun entry entry' => entry'.1 = entry.1 ∧ R entry.1 entry.2 entry'.2) d d')
    (key : String) : Option.Rel (R key) (Dict.get? d key) (Dict.get? d' key) := by
  induction h with
  | nil => exact .none
  | @cons entry entry' rest rest' hentry hrest ih =>
    obtain ⟨name, value⟩ := entry
    obtain ⟨name', value'⟩ := entry'
    obtain ⟨rfl, hvalue⟩ := hentry
    rw [Dict.get?_cons, Dict.get?_cons]
    split
    · rename_i heq
      exact heq ▸ .some hvalue
    · exact ih

theorem Dict.keys_forall₂ {α β : Type} {R : String → α → β → Prop} {d : Dict α} {d' : Dict β}
    (h : List.Forall₂ (fun entry entry' => entry'.1 = entry.1 ∧ R entry.1 entry.2 entry'.2) d d') :
    Dict.keys d' = Dict.keys d := by
  induction h with
  | nil => rfl
  | cons hentry _ ih => exact congrArg₂ List.cons hentry.1 ih

/-! ## Props and states of an instance -/

section Given

variable (generate : Element → StateM Context (Generated Element Nat)) (attrs : Attributes)
  (caller : Definitions)

/-- What an instance makes of the definition of a prop: the attribute of its name becomes the
default, an element as it is generated for the caller. -/
def PropGiven (name : String) (own d : PropDefinition) : Prop :=
  match Dict.get? attrs name with
  | none => d = own
  | some (.element e) => ∃ c, d = { own with default := some (.node (.element (generate e c).1.1)) }
  | some value => instanceProp caller value own = .ok d

/-- What an instance makes of the definition of a state. -/
def StateGiven (name : String) (own d : StateDefinition) : Prop :=
  instanceState attrs (name, own) = .ok (name, d)

variable {generate attrs caller}

theorem PropGiven.congr {attrs' : Attributes} {name : String} {own d : PropDefinition}
    (h : PropGiven generate attrs' caller name own d)
    (hattrs : Dict.get? attrs' name = Dict.get? attrs name) :
    PropGiven generate attrs caller name own d := by
  rwa [PropGiven, ← hattrs]

theorem forall₂_congr_attrs {attrs' : Attributes} {props out : Dict PropDefinition}
    (h : List.Forall₂ (fun entry entry' => entry'.1 = entry.1 ∧
      PropGiven generate attrs' caller entry.1 entry.2 entry'.2) props out)
    (hattrs : ∀ name ∈ Dict.keys props, Dict.get? attrs' name = Dict.get? attrs name) :
    List.Forall₂ (fun entry entry' => entry'.1 = entry.1 ∧
      PropGiven generate attrs caller entry.1 entry.2 entry'.2) props out := by
  induction h with
  | nil => exact .nil
  | cons hentry _ ih =>
    exact .cons ⟨hentry.1, hentry.2.congr (hattrs _ List.mem_cons_self)⟩
      (ih fun name hname => hattrs name (List.mem_cons_of_mem _ hname))

/-- **The props of an instance** are the given ones, each with its attribute. -/
theorem generateProps_given {props out : Dict PropDefinition} {c : Context}
    (hnames : (Dict.keys props).Nodup)
    (hout : (generateProps generate caller attrs props c).1.2 = .ok out) :
    List.Forall₂ (fun entry entry' => entry'.1 = entry.1 ∧
      PropGiven generate attrs caller entry.1 entry.2 entry'.2) props out := by
  induction props generalizing attrs c out with
  | nil =>
    cases hout
    exact .nil
  | cons entry rest ih =>
    obtain ⟨name, own⟩ := entry
    obtain ⟨hname, hnames⟩ := List.nodup_cons.1 hnames
    rcases hvalue : Dict.get? attrs name with _ | value
    · rw [generateProps_none hvalue] at hout
      obtain ⟨others, hrest, rfl⟩ := exists_of_map_eq_ok hout
      refine .cons ⟨rfl, ?_⟩ (ih hnames hrest)
      rw [PropGiven, hvalue]
    by_cases helement : ∃ e, value = .element e
    · obtain ⟨e, rfl⟩ := helement
      rw [generateProps_element hvalue] at hout
      rcases hrun : generate e c with ⟨⟨e', d | id⟩, c'⟩
      · rw [hrun] at hout
        cases hout
      rw [hrun] at hout
      obtain ⟨others, hrest, rfl⟩ := exists_of_map_eq_ok hout
      refine .cons ⟨rfl, ?_⟩ (forall₂_congr_attrs (ih hnames hrest) fun other hother => ?_)
      · rw [PropGiven, hvalue]
        exact ⟨c, by rw [hrun]⟩
      · have hne : other ≠ name := fun heq => hname (heq ▸ hother)
        exact Dict.get?_insert_of_ne _ _ hne
    · rw [generateProps_plain hvalue (by simpa using helement)] at hout
      rcases hprop : instanceProp caller value own with d | definition
      · rw [hprop] at hout
        cases hout
      rw [hprop] at hout
      obtain ⟨others, hrest, rfl⟩ := exists_of_map_eq_ok hout
      refine .cons ⟨rfl, ?_⟩ (ih hnames hrest)
      rw [PropGiven, hvalue]
      cases value with
      | element e => exact absurd ⟨e, rfl⟩ helement
      | _ => exact hprop

/-- **The states of an instance** are the given ones, each with its attribute. -/
theorem mapM_instanceState {states out : Dict StateDefinition}
    (h : states.mapM (instanceState attrs) = .ok out) :
    List.Forall₂ (fun entry entry' => entry'.1 = entry.1 ∧
      StateGiven attrs entry.1 entry.2 entry'.2) states out := by
  refine (forall₂_of_mapM h).imp fun entry entry' hentry => ?_
  have hname := (instanceState_cases hentry).1
  exact ⟨hname, by rw [StateGiven, hentry, ← hname]⟩

end Given

/-! ## The scope of an instance -/

/-- The definitions of a scope are in the order of their names. -/
structure Definitions.Sorted (ds : Definitions) : Prop where
  props : ds.props.Sorted
  states : ds.states.Sorted

theorem get?_combineProps {caller own : Dict PropDefinition} (hcaller : caller.Sorted)
    (hown : own.Sorted) (name : String) :
    Dict.get? (combineProps caller own) name
      = (Dict.get? own name).or ((Dict.get? caller name).filter fun d => d.kind ≠ "element") := by
  rw [combineProps, Dict.get?_merge _ hown, hcaller.get?_filter]

/-- The definitions of an instance of a component: under each name the definition of the component,
or else that of the caller if it is no element, with the attribute of that name. -/
structure Inside (generate : Element → StateM Context (Generated Element Nat)) (attrs : Attributes)
    (caller : Definitions) (component : Component) (ds : Definitions) : Prop where
  prop : ∀ name, Option.Rel (PropGiven generate attrs caller name)
    ((Dict.get? component.props name).or
      ((Dict.get? caller.props name).filter fun d => d.kind ≠ "element"))
    (Dict.get? ds.props name)
  state : ∀ name, Option.Rel (StateGiven attrs name)
    ((Dict.get? component.states name).or (Dict.get? caller.states name))
    (Dict.get? ds.states name)
  sorted : ds.Sorted

/-- **What an instance sees.** -/
theorem Inside.of_run {generate : Element → StateM Context (Generated Element Nat)}
    {attrs : Attributes} {caller : Definitions} {component : Component} {ds : Definitions}
    {c : Context} (hcaller : caller.Sorted) (hprops : component.props.Sorted)
    (hstates : component.states.Sorted)
    (hstatesRun : (Dict.merge caller.states component.states).mapM (instanceState attrs)
      = .ok ds.states)
    (hpropsRun : (generateProps generate caller attrs
      (combineProps caller.props component.props) c).1.2 = .ok ds.props) :
    Inside generate attrs caller component ds := by
  have hcombined := sorted_combineProps hcaller.props component.props
  have hgivenProps := generateProps_given hcombined.nodup_keys hpropsRun
  have hgivenStates := mapM_instanceState hstatesRun
  refine ⟨fun name => ?_, fun name => ?_, ?_, ?_⟩
  · rw [← get?_combineProps hcaller.props hprops]
    exact Dict.get?_forall₂ hgivenProps name
  · rw [← Dict.get?_merge _ hstates]
    exact Dict.get?_forall₂ hgivenStates name
  · exact hcombined.of_keys (Dict.keys_forall₂ hgivenProps)
  · exact (hcaller.states.merge _).of_keys (Dict.keys_forall₂ hgivenStates)

end PageCompiler
