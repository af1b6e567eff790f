import PageCompiler.Document.Transform
import PageCompiler.Proofs.Outcome
import PageCompiler.Resolve.Component

/-!
# What keeps a component from being resolved

Of the steps that make a component ready for a target four can fail: the check of names, a walk that
goes into what it changes, the naming of data sources, and the head. Each has one cause of its own
(`Diagnostic.OfResolution`), whatever the mapping says.

* `Node.transform_fails`: a walk that changes elements only fails for want of depth.
* `Component.resolveWith_fails`: with any steps for the abilities of elements.
-/

namespace PageCompiler

/-- The causes for which a component cannot be resolved. -/
def Diagnostic.OfResolution : Diagnostic → Prop
  | .illegalName .. | .duplicateDataSource .. | .missingDefinition _ .metaTag | .endless => True
  | _ => False

/-! ## Walks -/

section Transform

variable {sort : Diagnostic → Prop} (h : sort .endless) (f : Element → Element)
include h

mutual

/-- **A walk that changes elements** only fails for want of depth. -/
theorem Node.transform_fails : (fuel : ℕ) → (node : Node) → FailsWith sort (node.transform f fuel)
  | 0, _ => .error h
  | fuel + 1, .slot content => (content.transform_fails fuel).bind fun _ => .ok _
  | fuel + 1, .element content => (content.transform_fails fuel).bind fun _ => .ok _
  | fuel + 1, .conditional content => (content.transform_fails fuel).bind fun _ => .ok _
  | fuel + 1, .repetition content => (content.transform_fails fuel).bind fun _ => .ok _
  | _ + 1, .constant _ => .ok _
  | _ + 1, .dynamic _ => .ok _
  | _ + 1, .raw _ => .ok _
  | _ + 1, .inject _ => .ok _
  | _ + 1, .expr _ => .ok _

theorem Slot.transform_fails : (fuel : ℕ) → (slot : Slot) → FailsWith sort (slot.transform f fuel)
  | 0, _ => .error h
  | _ + 1, ⟨_, none⟩ => .ok _
  | fuel + 1, ⟨_, some node⟩ => (node.transform_fails fuel).bind fun _ => .ok _

theorem Conditional.transform_fails : (fuel : ℕ) → (q : Conditional) →
    FailsWith sort (q.transform f fuel)
  | 0, _ => .error h
  | fuel + 1, ⟨node, _, _, _⟩ => (node.transform_fails fuel).bind fun _ => .ok _

theorem Repetition.transform_fails : (fuel : ℕ) → (r : Repetition) →
    FailsWith sort (r.transform f fuel)
  | 0, _ => .error h
  | fuel + 1, ⟨node, _, _⟩ => (node.transform_fails fuel).bind fun _ => .ok _

theorem Element.transform_fails : (fuel : ℕ) → (e : Element) → FailsWith sort (e.transform f fuel)
  | 0, _ => .error h
  | fuel + 1, _ =>
    (FailsWith.mapM (fun entry => (entry.2.transform_fails fuel).bind fun _ => .ok _) _).bind
      fun _ => (FailsWith.mapM (Node.transform_fails fuel) _).bind fun _ => .ok _

theorem Attribute.transform_fails : (fuel : ℕ) → (value : Attribute) →
    FailsWith sort (value.transform f fuel)
  | 0, _ => .error h
  | fuel + 1, .element content => (content.transform_fails fuel).bind fun _ => .ok _
  | _ + 1, .constant _ => .ok _
  | _ + 1, .dynamic _ => .ok _
  | _ + 1, .raw _ => .ok _
  | _ + 1, .imported _ => .ok _
  | _ + 1, .expr _ => .ok _
  | _ + 1, .object _ => .ok _

end

end Transform

/-! ## Components -/

namespace Component

variable {sort : Diagnostic → Prop} (c : Component)

theorem updateTreesM_fails {f : Node → Except Diagnostic Node}
    (hf : ∀ node, FailsWith sort (f node)) : FailsWith sort (c.updateTreesM f) := by
  refine (hf c.node).bind fun node => .bind (.mapM (fun entry => ?_) c.props) fun _ => .ok _
  refine .bind ?_ fun _ => .ok _
  unfold PropDefinition.updateM
  split
  · exact (hf _).bind fun _ => .ok _
  · exact .ok _

theorem checkNames_fails (mapping : Mapping) :
    FailsWith Diagnostic.OfResolution (c.checkNames mapping) := by
  unfold checkNames
  split
  · exact .error trivial
  · exact .ok _

theorem embed_fails : FailsWith Diagnostic.OfResolution c.embed :=
  (Node.transform_fails trivial _ _ _).bind fun _ => .ok _

theorem applyMapping_fails (mapping : Mapping) (o : Options) :
    FailsWith Diagnostic.OfResolution (c.applyMapping mapping o) :=
  c.updateTreesM_fails fun _ => Node.transform_fails trivial _ _ _

theorem nameDataSources_fails : FailsWith Diagnostic.OfResolution c.nameDataSources := by
  unfold nameDataSources
  split
  · exact .error trivial
  · exact .ok _

theorem resolveHead_fails (assets : Assets) :
    FailsWith Diagnostic.OfResolution (c.resolveHead assets) := by
  have hvalue (value : MetaValue) :
      FailsWith Diagnostic.OfResolution (value.resolve assets c) := by
    unfold MetaValue.resolve
    split
    · exact .ok _
    · exact .ok _
    · split
      · exact .ok _
      · exact .error trivial
    · exact .ok _
  have hhead (head : HeadContent) : FailsWith Diagnostic.OfResolution (head.resolve assets c) := by
    refine .bind (.mapM (fun tag => .mapM (fun entry => ?_) tag) _) fun _ => .ok _
    exact (hvalue entry.2).bind fun _ => .ok _
  unfold resolveHead
  split
  · exact (hhead _).bind fun _ => .ok _
  · exact .ok _

/-- **A component that cannot be resolved** has a refused name or a data source twice, its tree leads
back into itself, or its head refers to what is not there; or a step for abilities has failed. -/
theorem resolveWith_fails (himplies : ∀ d : Diagnostic, d.OfResolution → sort d)
    {steps : List AbilityStep} (hsteps : ∀ (c : Component) o, FailsWith sort (c.carryOut steps o))
    (base : Mapping) (o : Options) : FailsWith sort (c.resolveWith steps base o) := by
  refine ((checkNames_fails _ _).mono himplies).bind fun _ => ?_
  refine (hsteps _ o).bind fun _ => ?_
  refine ((embed_fails _).mono himplies).bind fun _ => ?_
  refine ((applyMapping_fails _ _ o).mono himplies).bind fun _ => ?_
  refine ((nameDataSources_fails _).mono himplies).bind fun _ => ?_
  exact (resolveHead_fails _ _).mono himplies

theorem resolve_fails (base : Mapping) (o : Options) :
    FailsWith Diagnostic.OfResolution (c.resolve base o) :=
  c.resolveWith_fails (fun _ h => h) (fun _ _ => .ok _) base o

end Component

end PageCompiler
