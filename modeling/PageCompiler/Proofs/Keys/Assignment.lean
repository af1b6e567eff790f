import PageCompiler.Proofs.Document.Walk
import PageCompiler.Proofs.Keys.Ledger
import PageCompiler.Proofs.Outcome
import PageCompiler.Proofs.Page.Slot
import PageCompiler.Resolve.Component

/-!
# Keys given by a walk

A walk claims a key for each element it meets, in the order in which `elements` lists them. What
follows in the resolution of a component leaves the keys as they are.

* `Component.claimed`: the walk over a component is a row of claims.
* `Component.assignKeys_unique`: the keys it gives are new and pairwise distinct, for every
  ledger, and they stay so in a resolved component.
-/

namespace PageCompiler

/-! ## Elements of an updated tree -/

@[simp] theorem Element.elements_eq (e : Element) :
    e.elements = e :: (attributesElements e.attrs ++ nodesElements e.children) := by
  cases e
  rfl

theorem Element.mem_elements (e : Element) : e ∈ e.elements := by
  rw [elements_eq]
  exact List.mem_cons_self

theorem Element.children_subset (e : Element) : nodesElements e.children ⊆ e.elements := by
  intro x hx
  rw [elements_eq]
  exact List.mem_cons_of_mem _ (List.mem_append_right _ hx)

/-! ## Slots of an updated tree -/

section Slots

variable (own : List Node)

mutual

/-- New keys leave a slot where it is. -/
theorem Node.isSome_fillSlot : (node : Node) → (l : KeyLedger) →
    ((node.claimKeys l).1.fillSlot own).isSome = (node.fillSlot own).isSome
  | .element content, l => by
    change ((Element.fillSlot own _).map Node.element).isSome = _
    rw [Node.fillSlot, Option.isSome_map, Option.isSome_map]
    exact content.isSome_fillSlot l
  | .conditional content, l => by
    change ((Conditional.fillSlot own _).map Node.conditional).isSome = _
    rw [Node.fillSlot, Option.isSome_map, Option.isSome_map]
    exact content.isSome_fillSlot l
  | .repetition content, l => by
    change ((Repetition.fillSlot own _).map Node.repetition).isSome = _
    rw [Node.fillSlot, Option.isSome_map, Option.isSome_map]
    exact content.isSome_fillSlot l
  | .slot ⟨_, none⟩, _ => rfl
  | .slot ⟨_, some _⟩, _ => rfl
  | .constant _, _ => rfl
  | .dynamic _, _ => rfl
  | .raw _, _ => rfl
  | .inject _, _ => rfl
  | .expr _, _ => rfl

theorem Conditional.isSome_fillSlot : (q : Conditional) → (l : KeyLedger) →
    (Conditional.fillSlot own (q.updateM (.ofElement claimKey) l).1).isSome
      = (q.fillSlot own).isSome
  | ⟨node, _, _, _⟩, l => by
    change ((Node.fillSlot own _).map _).isSome = _
    rw [Conditional.fillSlot, Option.isSome_map, Option.isSome_map]
    exact node.isSome_fillSlot l

theorem Repetition.isSome_fillSlot : (r : Repetition) → (l : KeyLedger) →
    (Repetition.fillSlot own (r.updateM (.ofElement claimKey) l).1).isSome
      = (r.fillSlot own).isSome
  | ⟨node, _, _⟩, l => by
    change ((Node.fillSlot own _).map _).isSome = _
    rw [Repetition.fillSlot, Option.isSome_map, Option.isSome_map]
    exact node.isSome_fillSlot _

theorem Element.isSome_fillSlot : (e : Element) → (l : KeyLedger) →
    (Element.fillSlot own (e.updateM (.ofElement claimKey) l).1).isSome = (e.fillSlot own).isSome
  | ⟨_, _, _, _, _, _, _, _, _, _, children, _⟩, _ => by
    change ((nodesFillSlot own _).map _).isSome = _
    rw [Element.fillSlot, Option.isSome_map, Option.isSome_map]
    exact nodes_isSome_fillSlot children _

theorem nodes_isSome_fillSlot : (nodes : List Node) → (l : KeyLedger) →
    (nodesFillSlot own (nodesUpdateM (.ofElement claimKey) nodes l).1).isSome
      = (nodesFillSlot own nodes).isSome
  | [], _ => rfl
  | node :: rest, l => by
    change (nodesFillSlot own ((node.claimKeys l).1 :: _)).isSome = _
    by_cases hslot : ∃ slot, node = .slot slot
    · obtain ⟨⟨_, _ | _⟩, rfl⟩ := hslot <;> rfl
    · have hnode : ∀ slot, node ≠ .slot slot := by simpa using hslot
      have hclaimed : ∀ slot, (node.claimKeys l).1 ≠ .slot slot := by
        intro slot
        cases node with
        | slot slot' => exact absurd rfl (hnode slot')
        | _ => exact Node.noConfusion
      rw [isSome_nodesFillSlot_cons hclaimed, isSome_nodesFillSlot_cons hnode,
        node.isSome_fillSlot l, nodes_isSome_fillSlot rest]

end

end Slots

mutual

theorem Node.claimed : (node : Node) → (l : KeyLedger) →
    Claimed l node.elements (node.claimKeys l).1.elements (node.claimKeys l).2
  | .slot content, l => content.claimed l
  | .element content, l => content.claimed l
  | .conditional content, l => content.claimed l
  | .repetition content, l => content.claimed l
  | .constant _, l => .nil l
  | .dynamic _, l => .nil l
  | .raw _, l => .nil l
  | .inject _, l => .nil l
  | .expr _, l => .nil l

theorem Slot.claimed : (slot : Slot) → (l : KeyLedger) →
    Claimed l slot.elements (slot.updateM (.ofElement claimKey) l).1.elements
      (slot.updateM (.ofElement claimKey) l).2
  | ⟨_, none⟩, l => .nil l
  | ⟨_, some node⟩, l => node.claimed l

theorem Conditional.claimed : (c : Conditional) → (l : KeyLedger) →
    Claimed l c.elements (c.updateM (.ofElement claimKey) l).1.elements
      (c.updateM (.ofElement claimKey) l).2
  | ⟨node, _, _, _⟩, l => node.claimed l

theorem Repetition.claimed : (r : Repetition) → (l : KeyLedger) →
    Claimed l r.elements (r.updateM (.ofElement claimKey) l).1.elements
      (r.updateM (.ofElement claimKey) l).2
  | ⟨node, _, _⟩, l => node.claimed l

theorem Element.claimed : (e : Element) → (l : KeyLedger) →
    Claimed l e.elements (e.updateM (.ofElement claimKey) l).1.elements
      (e.updateM (.ofElement claimKey) l).2
  | ⟨_, _, _, _, _, attrs, _, _, _, _, children, _⟩, _ =>
    .cons rfl ⟨⟨rfl, rfl, rfl, rfl⟩, (nodesClaimed children _).sameKind,
        fun own => nodes_isSome_fillSlot own children _⟩
      ((attributesClaimed attrs _).append (nodesClaimed children _))

theorem nodesClaimed : (nodes : List Node) → (l : KeyLedger) →
    Claimed l (nodesElements nodes) (nodesElements (nodesUpdateM (.ofElement claimKey) nodes l).1)
      (nodesUpdateM (.ofElement claimKey) nodes l).2
  | [], l => .nil l
  | node :: rest, l => (node.claimed l).append (nodesClaimed rest _)

theorem attributesClaimed : (attrs : List (String × Attribute)) → (l : KeyLedger) →
    Claimed l (attributesElements attrs)
      (attributesElements (attributesUpdateM (.ofElement claimKey) attrs l).1)
      (attributesUpdateM (.ofElement claimKey) attrs l).2
  | [], l => .nil l
  | (_, value) :: rest, l => (value.claimed l).append (attributesClaimed rest _)

theorem Attribute.claimed : (value : Attribute) → (l : KeyLedger) →
    Claimed l value.elements (value.updateM (.ofElement claimKey) l).1.elements
      (value.updateM (.ofElement claimKey) l).2
  | .element content, l => content.claimed l
  | .constant _, l => .nil l
  | .dynamic _, l => .nil l
  | .raw _, l => .nil l
  | .imported _, l => .nil l
  | .expr _, l => .nil l
  | .object _, l => .nil l

end

/-! ## Keys of a component -/

/-- The defaults of props with keys of their own. -/
def claimDefaultKeys (props : Dict PropDefinition) : StateM KeyLedger (Dict PropDefinition) :=
  props.mapM fun entry => do return (entry.1, ← entry.2.updateM Node.claimKeys)

theorem claimDefaultKeys_cons (entry : String × PropDefinition) (rest : Dict PropDefinition)
    (l : KeyLedger) :
    claimDefaultKeys (entry :: rest) l =
      let d := entry.2.updateM Node.claimKeys l
      let ds := claimDefaultKeys rest d.2
      ((entry.1, d.1) :: ds.1, ds.2) := by
  rw [claimDefaultKeys, List.mapM_cons]
  rfl

theorem defaultNodes_claimed : ∀ (props : Dict PropDefinition) (l : KeyLedger),
    Claimed l ((defaultNodes props).flatMap Node.elements)
      ((defaultNodes (claimDefaultKeys props l).1).flatMap Node.elements)
      (claimDefaultKeys props l).2
  | [], l => .nil l
  | (_, ⟨_, none, _⟩) :: rest, l => by
    rw [claimDefaultKeys_cons]
    exact defaultNodes_claimed rest l
  | (_, ⟨_, some (.value _), _⟩) :: rest, l => by
    rw [claimDefaultKeys_cons]
    exact defaultNodes_claimed rest l
  | (_, ⟨_, some (.node node), _⟩) :: rest, l => by
    rw [claimDefaultKeys_cons]
    exact (node.claimed l).append (defaultNodes_claimed rest _)

/-- **The keys of a component are claimed in the order of its walk.** -/
theorem Component.claimed (c : Component) (l : KeyLedger) :
    Claimed l c.elements (c.claimKeys l).1.elements (c.claimKeys l).2 :=
  (c.node.claimed l).append (defaultNodes_claimed c.props _)

/-- Counting the elements first makes no difference to which keys are taken. -/
theorem Component.assignKeys_claimed (c : Component) (l : KeyLedger) :
    Claimed (countElements l c.elements) c.elements (c.assignKeys l).1.elements
      (c.assignKeys l).2 :=
  c.claimed _

/-! ## Resolved components

The steps after the assignment of keys change the names of repetitions and the head, no key. -/

section Naming

variable {σ : Type} (f : Repetition → StateM σ RepetitionNames)

theorem ofNames_relates : (Visitor.ofNames f).Relates fun e e' => e'.key = e.key :=
  fun _ => .pure fun _ _ => rfl

theorem Component.keys_naming (c : Component) (s : σ) :
    (c.updateM (.ofNames f) s).1.elements.map (·.key) = c.elements.map (·.key) := by
  have hkeys := (c.returns (ofNames_relates f)).state s
  rw [← List.forall₂_eq_eq_eq, List.forall₂_map_left_iff, List.forall₂_map_right_iff]
  exact hkeys.flip

end Naming

theorem Component.keys_nameDataSources {c named : Component} (h : c.nameDataSources = .ok named) :
    named.elements.map (·.key) = c.elements.map (·.key) := by
  rw [nameDataSources] at h
  split at h
  · cases h
  · cases h
    exact c.keys_naming nameSource _

theorem Component.elements_resolveHead {c resolved : Component} {assets : Assets}
    (h : c.resolveHead assets = .ok resolved) : resolved.elements = c.elements := by
  rw [resolveHead] at h
  split at h
  · rename_i head _
    cases hhead : head.resolve assets c with
    | error d =>
      rw [hhead] at h
      cases h
    | ok head' =>
      rw [hhead] at h
      cases h
      rfl
  · cases h
    rfl

theorem Component.nodup_keys_assignFreshKeys (c : Component) :
    (c.assignFreshKeys.elements.map (·.key)).Nodup :=
  (c.assignKeys_claimed {}).nodup_keys

/-- The component as it is when its keys are assigned: made ready up to the mapping. -/
def Component.mapWith (steps : List AbilityStep) (c : Component) (base : Mapping) (o : Options) :
    Except Diagnostic Component := do
  let mapping := o.effectiveMapping base
  let c := (c.resolveStyleSets o.assets).nameOutput
  c.checkNames mapping
  let c ← (c.placeDefaults o.assets).carryOut steps o
  let c ← (c.resolveStyles o.assets).embed
  c.applyMapping mapping o

theorem Component.resolveWith_eq (steps : List AbilityStep) (c : Component) (base : Mapping)
    (o : Options) : c.resolveWith steps base o = (do
      let mapped ← c.mapWith steps base o
      let named ← mapped.assignFreshKeys.nameDataSources
      named.resolveHead o.assets) := by
  simp only [resolveWith, mapWith, bind_assoc]

/-- A resolved component has the keys that were assigned on the way. -/
theorem Component.exists_of_resolveWith {steps : List AbilityStep} {c resolved : Component}
    {base : Mapping} {o : Options} (h : c.resolveWith steps base o = .ok resolved) :
    ∃ mapped, c.mapWith steps base o = .ok mapped ∧
      resolved.elements.map (·.key) = mapped.assignFreshKeys.elements.map (·.key) := by
  rw [resolveWith_eq] at h
  obtain ⟨mapped, hmapped, h⟩ := exists_of_bind_eq_ok h
  obtain ⟨named, hnamed, h⟩ := exists_of_bind_eq_ok h
  exact ⟨mapped, hmapped, by rw [elements_resolveHead h, keys_nameDataSources hnamed]⟩

theorem Component.nodup_keys_resolveWith {steps : List AbilityStep} {c resolved : Component}
    {base : Mapping} {o : Options} (h : c.resolveWith steps base o = .ok resolved) :
    (resolved.elements.map (·.key)).Nodup := by
  obtain ⟨mapped, -, hkeys⟩ := exists_of_resolveWith h
  rw [hkeys]
  exact mapped.nodup_keys_assignFreshKeys

/-- The keys of a resolved component can be claimed. -/
theorem Component.claimable_resolveWith {steps : List AbilityStep} {c resolved : Component}
    {base : Mapping} {o : Options} (h : c.resolveWith steps base o = .ok resolved) {x : Element}
    (hx : x ∈ resolved.elements) : ∃ e : Element, Claimable e.baseKey x.key := by
  obtain ⟨mapped, -, hkeys⟩ := exists_of_resolveWith h
  have hmem : x.key ∈ mapped.assignFreshKeys.elements.map (·.key) :=
    hkeys ▸ List.mem_map_of_mem hx
  obtain ⟨y, hy, hkey⟩ := List.mem_map.1 hmem
  obtain ⟨e, -, -, hclaimable⟩ := exists_of_forall₂_right (mapped.assignKeys_claimed {}).forall₂ hy
  exact ⟨e, hkey ▸ hclaimable⟩

/-- **Keys are unique.** Whatever keys a ledger holds as taken, assigning keys to a component
gives each of its elements, in the order of the walk and with its type and name, a key that its
base can claim; these keys are pairwise distinct and none was taken. So no two elements of a
resolved component share a key, whatever steps carry out its abilities. -/
theorem Component.assignKeys_unique (c : Component) :
    (∀ l : KeyLedger, let assigned := (c.assignKeys l).1
      List.Forall₂ (fun e e' => e.SameKind e' ∧ Claimable e.baseKey e'.key)
        c.elements assigned.elements ∧
      (assigned.elements.map (·.key)).Nodup ∧ ∀ e ∈ assigned.elements, e.key ∉ l.taken) ∧
    ∀ (steps : List AbilityStep) (base : Mapping) (o : Options) (resolved : Component),
      c.resolveWith steps base o = .ok resolved → (resolved.elements.map (·.key)).Nodup := by
  refine ⟨fun l => ?_, fun _ _ _ _ h => nodup_keys_resolveWith h⟩
  have h := c.assignKeys_claimed l
  refine ⟨h.forall₂.imp fun _ _ he => ⟨he.1.toSameKind, he.2⟩, h.nodup_keys, fun e he => ?_⟩
  rw [← taken_countElements l c.elements]
  exact h.notMem_taken (List.mem_map_of_mem he)

/-- Three elements whose bases and authored keys get in the way of one another. -/
def hintBox : Component where
  name := "Hint"
  node := .element {
    elementType := "box"
    children := [.element { elementType := "hint", key := "hint-1" },
      .element { elementType := "hint" }, .element { elementType := "hint" }] }

theorem hintBox_keys_unique : ∃ resolved, hintBox.resolveWith [linkStep] {} {} = .ok resolved ∧
    (resolved.elements.map (·.key)).Nodup := by
  obtain ⟨resolved, h⟩ := exists_of_isOk
    (by decide +kernel : (hintBox.resolveWith [linkStep] {} {}).isOk = true)
  exact ⟨resolved, h, hintBox.assignKeys_unique.2 _ _ _ _ h⟩

end PageCompiler
