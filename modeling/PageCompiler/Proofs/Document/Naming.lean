import PageCompiler.Proofs.Document.Walk

/-!
# What a walk does to the names of repetitions

A walk that visits the repetitions of a document meets them in the order in which `repetitions`
lists them, and it changes nothing but their names.

* `Named`: the repetitions of a changed document, visit by visit (`Component.named`).
* `Component.mapNames_updateM`: nothing but the names is changed.
-/

namespace PageCompiler

/-! ## Repetitions of a changed document -/

section Named

variable {σ : Type} (f : Repetition → StateM σ RepetitionNames)

/-- Visiting each of the first repetitions in turn leads from the first state to the second one, and
the second repetitions are the first ones with the names they got. -/
inductive Named : σ → List Repetition → List Repetition → σ → Prop
  | nil (s : σ) : Named s [] [] s
  | cons {s s' : σ} {r r' : Repetition} {rs rs' : List Repetition} (names : r'.names = (f r s).1)
      (source : r'.source = r.source) (rest : Named (f r s).2 rs rs' s') :
      Named s (r :: rs) (r' :: rs') s'

variable {f}

theorem Named.append {s s' s'' : σ} {rs rs' qs qs' : List Repetition} (h : Named f s rs rs' s')
    (h' : Named f s' qs qs' s'') : Named f s (rs ++ qs) (rs' ++ qs') s'' := by
  induction h with
  | nil => exact h'
  | cons names source _ ih => exact .cons names source (ih h')

variable (f)

mutual

theorem Node.named : (node : Node) → (s : σ) →
    Named f s node.repetitions (node.updateM (.ofNames f) s).1.repetitions
      (node.updateM (.ofNames f) s).2
  | .slot content, s => content.named s
  | .element content, s => content.named s
  | .conditional content, s => content.named s
  | .repetition content, s => content.named s
  | .constant _, s => .nil s
  | .dynamic _, s => .nil s
  | .raw _, s => .nil s
  | .inject _, s => .nil s
  | .expr _, s => .nil s

theorem Slot.named : (slot : Slot) → (s : σ) →
    Named f s slot.repetitions (slot.updateM (.ofNames f) s).1.repetitions
      (slot.updateM (.ofNames f) s).2
  | ⟨_, none⟩, s => .nil s
  | ⟨_, some node⟩, s => node.named s

theorem Conditional.named : (q : Conditional) → (s : σ) →
    Named f s q.repetitions (q.updateM (.ofNames f) s).1.repetitions (q.updateM (.ofNames f) s).2
  | ⟨node, _, _, _⟩, s => node.named s

theorem Repetition.named : (r : Repetition) → (s : σ) →
    Named f s r.repetitions (r.updateM (.ofNames f) s).1.repetitions (r.updateM (.ofNames f) s).2
  | ⟨node, _, _⟩, _ => .cons rfl rfl (node.named _)

theorem Element.named : (e : Element) → (s : σ) →
    Named f s e.repetitions (e.updateM (.ofNames f) s).1.repetitions (e.updateM (.ofNames f) s).2
  | ⟨_, _, _, _, _, attrs, _, _, _, _, children, _⟩, _ =>
    (attributesNamed attrs _).append (nodesNamed children _)

theorem nodesNamed : (nodes : List Node) → (s : σ) →
    Named f s (nodesRepetitions nodes) (nodesRepetitions (nodesUpdateM (.ofNames f) nodes s).1)
      (nodesUpdateM (.ofNames f) nodes s).2
  | [], s => .nil s
  | node :: rest, s => (node.named s).append (nodesNamed rest _)

theorem attributesNamed : (attrs : List (String × Attribute)) → (s : σ) →
    Named f s (attributesRepetitions attrs)
      (attributesRepetitions (attributesUpdateM (.ofNames f) attrs s).1)
      (attributesUpdateM (.ofNames f) attrs s).2
  | [], s => .nil s
  | (_, value) :: rest, s => (value.named s).append (attributesNamed rest _)

theorem Attribute.named : (value : Attribute) → (s : σ) →
    Named f s value.repetitions (value.updateM (.ofNames f) s).1.repetitions
      (value.updateM (.ofNames f) s).2
  | .element content, s => content.named s
  | .constant _, s => .nil s
  | .dynamic _, s => .nil s
  | .raw _, s => .nil s
  | .imported _, s => .nil s
  | .expr _, s => .nil s
  | .object _, s => .nil s

end

end Named

/-! ## Undoing a walk -/

/-- A visitor that gives repetitions names of their own. -/
abbrev Visitor.rename (g : Repetition → RepetitionNames) : Visitor Id :=
  .ofNames fun r => pure (g r)

section Undone

variable {σ : Type} {f : Repetition → StateM σ RepetitionNames} {g : Repetition → RepetitionNames}

/-- A renaming does not see the names that a visitor gave. -/
def Hides (g : Repetition → RepetitionNames) (f : Repetition → StateM σ RepetitionNames) : Prop :=
  ∀ r s node, g ⟨node, r.source, (f r s).1⟩ = g r

mutual

theorem Node.rename_updateM (hg : Hides g f) : (node : Node) → (s : σ) →
    (node.updateM (.ofNames f) s).1.updateM (.rename g) = node.updateM (.rename g)
  | .slot content, s => congrArg Node.slot (content.rename_updateM hg s)
  | .element content, s => congrArg Node.element (content.rename_updateM hg s)
  | .conditional content, s => congrArg Node.conditional (content.rename_updateM hg s)
  | .repetition content, s => congrArg Node.repetition (content.rename_updateM hg s)
  | .constant _, _ => rfl
  | .dynamic _, _ => rfl
  | .raw _, _ => rfl
  | .inject _, _ => rfl
  | .expr _, _ => rfl

theorem Slot.rename_updateM (hg : Hides g f) : (slot : Slot) → (s : σ) →
    (slot.updateM (.ofNames f) s).1.updateM (.rename g) = slot.updateM (.rename g)
  | ⟨_, none⟩, _ => rfl
  | ⟨name, some node⟩, s =>
    congrArg (fun node => Slot.mk name (some node)) (node.rename_updateM hg s)

theorem Conditional.rename_updateM (hg : Hides g f) : (q : Conditional) → (s : σ) →
    (q.updateM (.ofNames f) s).1.updateM (.rename g) = q.updateM (.rename g)
  | ⟨node, reference, value, condition⟩, s =>
    congrArg (Conditional.mk · reference value condition) (node.rename_updateM hg s)

theorem Repetition.rename_updateM (hg : Hides g f) : (r : Repetition) → (s : σ) →
    (r.updateM (.ofNames f) s).1.updateM (.rename g) = r.updateM (.rename g)
  | ⟨node, source, names⟩, s =>
    congrArg₂ (Repetition.mk · source ·) (node.rename_updateM hg _) (hg ⟨node, source, names⟩ s _)

theorem Element.rename_updateM (hg : Hides g f) : (e : Element) → (s : σ) →
    (e.updateM (.ofNames f) s).1.updateM (.rename g) = e.updateM (.rename g)
  | ⟨key, elementType, name, semanticType, dependency, attrs, events, style, referencedStyles,
      abilities, children, selfClosing⟩, _ =>
    congrArg₂ (fun attrs children => Element.mk key elementType name semanticType dependency attrs
      events style referencedStyles abilities children selfClosing)
      (attributes_rename_updateM hg attrs _) (nodes_rename_updateM hg children _)

theorem nodes_rename_updateM (hg : Hides g f) : (nodes : List Node) → (s : σ) →
    nodesUpdateM (.rename g) (nodesUpdateM (.ofNames f) nodes s).1 = nodesUpdateM (.rename g) nodes
  | [], _ => rfl
  | node :: rest, s =>
    congrArg₂ List.cons (node.rename_updateM hg s) (nodes_rename_updateM hg rest _)

theorem attributes_rename_updateM (hg : Hides g f) : (attrs : List (String × Attribute)) → (s : σ) →
    attributesUpdateM (.rename g) (attributesUpdateM (.ofNames f) attrs s).1
      = attributesUpdateM (.rename g) attrs
  | [], _ => rfl
  | (name, value) :: rest, s =>
    congrArg₂ (fun value rest => (name, value) :: rest) (value.rename_updateM hg s)
      (attributes_rename_updateM hg rest _)

theorem Attribute.rename_updateM (hg : Hides g f) : (value : Attribute) → (s : σ) →
    (value.updateM (.ofNames f) s).1.updateM (.rename g) = value.updateM (.rename g)
  | .element content, s => congrArg Attribute.element (content.rename_updateM hg s)
  | .constant _, _ => rfl
  | .dynamic _, _ => rfl
  | .raw _, _ => rfl
  | .imported _, _ => rfl
  | .expr _, _ => rfl
  | .object _, _ => rfl

end

end Undone

/-! ## Components -/

/-- Change the element defaults of props. -/
def updateDefaults {m : Type → Type} [Monad m] (f : Node → m Node) (props : Dict PropDefinition) :
    m (Dict PropDefinition) :=
  props.mapM fun entry => do return (entry.1, ← entry.2.updateM f)

section Components

variable {σ : Type} (f : Repetition → StateM σ RepetitionNames)

theorem updateDefaults_cons (f : Node → StateM σ Node) (entry : String × PropDefinition)
    (rest : Dict PropDefinition) (s : σ) : updateDefaults f (entry :: rest) s =
      let d := entry.2.updateM f s
      let ds := updateDefaults f rest d.2
      ((entry.1, d.1) :: ds.1, ds.2) := by
  rw [updateDefaults, List.mapM_cons]
  rfl

theorem updateDefaults_id_cons (f : Node → Id Node) (entry : String × PropDefinition)
    (rest : Dict PropDefinition) : updateDefaults f (entry :: rest) =
      (entry.1, entry.2.updateM f) :: updateDefaults f rest := by
  rw [updateDefaults, List.mapM_cons]
  rfl

theorem defaultsNamed : (props : Dict PropDefinition) → (s : σ) →
    Named f s ((defaultNodes props).flatMap Node.repetitions)
      ((defaultNodes (updateDefaults (Node.updateM (.ofNames f)) props s).1).flatMap
        Node.repetitions)
      (updateDefaults (Node.updateM (.ofNames f)) props s).2
  | [], s => .nil s
  | (_, ⟨_, none, _⟩) :: rest, s | (_, ⟨_, some (.value _), _⟩) :: rest, s => by
    rw [updateDefaults_cons]
    exact defaultsNamed rest s
  | (_, ⟨_, some (.node node), _⟩) :: rest, s => by
    rw [updateDefaults_cons]
    exact (node.named f s).append (defaultsNamed rest _)

/-- **The repetitions of a component are visited in the order of its walk.** -/
theorem Component.named (c : Component) (s : σ) :
    Named f s c.repetitions (c.updateM (.ofNames f) s).1.repetitions
      (c.updateM (.ofNames f) s).2 :=
  (c.node.named f s).append (defaultsNamed f c.props _)

variable {f} {g : Repetition → RepetitionNames}

theorem defaults_rename_updateM (hg : Hides g f) : (props : Dict PropDefinition) → (s : σ) →
    updateDefaults (Node.updateM (.rename g))
        (updateDefaults (Node.updateM (.ofNames f)) props s).1
      = updateDefaults (Node.updateM (.rename g)) props
  | [], _ => rfl
  | (name, ⟨kind, none, required⟩) :: rest, s
  | (name, ⟨kind, some (.value value), required⟩) :: rest, s => by
    rw [updateDefaults_cons, updateDefaults_id_cons, updateDefaults_id_cons,
      defaults_rename_updateM hg rest]
    rfl
  | (name, ⟨kind, some (.node node), required⟩) :: rest, s => by
    rw [updateDefaults_cons, updateDefaults_id_cons, updateDefaults_id_cons,
      defaults_rename_updateM hg rest]
    exact congrArg (fun node => (name, PropDefinition.mk kind (some (.node node)) required) :: _)
      (node.rename_updateM hg s)

/-- A component with other names of its repetitions. -/
def Component.mapNames (g : Repetition → RepetitionNames) (c : Component) : Component :=
  Id.run (c.updateM (.rename g))

/-- **A walk over the repetitions of a component changes their names only:** a renaming that does
not see these names makes the same component as before. -/
theorem Component.mapNames_updateM (hg : Hides g f) (c : Component) (s : σ) :
    (c.updateM (.ofNames f) s).1.mapNames g = c.mapNames g :=
  congrArg₂ (fun node props => { c with node, props })
    (c.node.rename_updateM hg s) (defaults_rename_updateM hg c.props _)

theorem defaults_rename_names : ∀ props : Dict PropDefinition,
    updateDefaults (Node.updateM (.rename fun r => r.names)) props = props
  | [] => rfl
  | (name, ⟨kind, none, required⟩) :: rest
  | (name, ⟨kind, some (.value value), required⟩) :: rest => by
    rw [updateDefaults_id_cons, defaults_rename_names rest]
    rfl
  | (name, ⟨kind, some (.node node), required⟩) :: rest => by
    rw [updateDefaults_id_cons, defaults_rename_names rest]
    have hnode : node.updateM (.rename fun r => r.names) = pure node :=
      node.updateM_fixed (fun _ => rfl) fun _ _ => rfl
    exact congrArg (fun node : Node =>
      (name, PropDefinition.mk kind (some (.node node)) required) :: rest) hnode

theorem Component.mapNames_names (c : Component) : c.mapNames (fun r => r.names) = c := by
  have hnode : c.node.updateM (.rename fun r => r.names) = pure c.node :=
    c.node.updateM_fixed (fun _ => rfl) fun _ _ => rfl
  exact congrArg₂ (fun (node : Node) (props : Dict PropDefinition) => { c with node, props }) hnode
    (defaults_rename_names c.props)

/-- A walk that leaves the names leaves the component. -/
theorem Component.updateM_ofNames_eq (hf : ∀ r s, (f r s).1 = r.names) (c : Component) (s : σ) :
    (c.updateM (.ofNames f) s).1 = c := by
  have hhides : Hides (fun r => r.names) f := fun r s _ => hf r s
  rw [← mapNames_names (c.updateM (.ofNames f) s).1, mapNames_updateM hhides, mapNames_names]

end Components

end PageCompiler
