import PageCompiler.Document.Transform
import PageCompiler.Proofs.Outcome

/-!
# Passes over trees

What holds for any walk that changes the elements of a tree, whatever it does to each of them.

* `Node.Becomes`: the outcome of a walk that changes elements before it enters them. It does not
  depend on the depth that the walk is given (`Node.Becomes.unique`).
* `Node.Holds`: a tree stands in another one. A pass that goes on into the children of an element
  takes what stands there to what it takes the tree to by itself (`Carries.holds`).
-/

namespace PageCompiler

/-! ## The depth of a walk -/

section Depth

variable {f : Element → Element}

mutual

theorem Node.transform_succ : {fuel : ℕ} → {node node' : Node} →
    node.transform f fuel = .ok node' → node.transform f (fuel + 1) = .ok node'
  | fuel + 1, .slot content, _, h => by
    obtain ⟨content', hcontent, h⟩ := exists_of_bind_eq_ok h
    rw [Node.transform, content.transform_succ hcontent]
    exact h
  | fuel + 1, .element content, _, h => by
    obtain ⟨content', hcontent, h⟩ := exists_of_bind_eq_ok h
    rw [Node.transform, content.transform_succ hcontent]
    exact h
  | fuel + 1, .conditional content, _, h => by
    obtain ⟨content', hcontent, h⟩ := exists_of_bind_eq_ok h
    rw [Node.transform, content.transform_succ hcontent]
    exact h
  | fuel + 1, .repetition content, _, h => by
    obtain ⟨content', hcontent, h⟩ := exists_of_bind_eq_ok h
    rw [Node.transform, content.transform_succ hcontent]
    exact h
  | _ + 1, .constant _, _, h => h
  | _ + 1, .dynamic _, _, h => h
  | _ + 1, .raw _, _, h => h
  | _ + 1, .inject _, _, h => h
  | _ + 1, .expr _, _, h => h

theorem Slot.transform_succ : {fuel : ℕ} → {slot slot' : Slot} →
    slot.transform f fuel = .ok slot' → slot.transform f (fuel + 1) = .ok slot'
  | _ + 1, ⟨_, none⟩, _, h => h
  | fuel + 1, ⟨name, some node⟩, _, h => by
    obtain ⟨node', hnode, h⟩ := exists_of_bind_eq_ok h
    change (node.transform f (fuel + 1) >>= _) = _
    rw [node.transform_succ hnode]
    exact h

theorem Conditional.transform_succ : {fuel : ℕ} → {q q' : Conditional} →
    q.transform f fuel = .ok q' → q.transform f (fuel + 1) = .ok q'
  | fuel + 1, ⟨node, _, _, _⟩, _, h => by
    obtain ⟨node', hnode, h⟩ := exists_of_bind_eq_ok h
    rw [Conditional.transform, node.transform_succ hnode]
    exact h

theorem Repetition.transform_succ : {fuel : ℕ} → {r r' : Repetition} →
    r.transform f fuel = .ok r' → r.transform f (fuel + 1) = .ok r'
  | fuel + 1, ⟨node, _, _⟩, _, h => by
    obtain ⟨node', hnode, h⟩ := exists_of_bind_eq_ok h
    rw [Repetition.transform, node.transform_succ hnode]
    exact h

theorem Element.transform_succ : {fuel : ℕ} → {e e' : Element} →
    e.transform f fuel = .ok e' → e.transform f (fuel + 1) = .ok e'
  | fuel + 1, e, _, h => by
    obtain ⟨attrs, hattrs, h⟩ := exists_of_bind_eq_ok h
    obtain ⟨children, hchildren, h⟩ := exists_of_bind_eq_ok h
    have hentry : ∀ (entry entry' : String × Attribute),
        (do return (entry.1, ← entry.2.transform f fuel) : Except Diagnostic _) = .ok entry' →
        (do return (entry.1, ← entry.2.transform f (fuel + 1)) : Except Diagnostic _)
          = .ok entry' := fun entry entry' hentry => by
      obtain ⟨value, hvalue, hentry⟩ := exists_of_bind_eq_ok hentry
      rw [entry.2.transform_succ hvalue]
      exact hentry
    rw [Element.transform]
    rw [mapM_congr_ok hentry hattrs,
      mapM_congr_ok (fun (node _ : Node) => node.transform_succ) hchildren]
    exact h

theorem Attribute.transform_succ : {fuel : ℕ} → {value value' : Attribute} →
    value.transform f fuel = .ok value' → value.transform f (fuel + 1) = .ok value'
  | fuel + 1, .element content, _, h => by
    obtain ⟨content', hcontent, h⟩ := exists_of_bind_eq_ok h
    rw [Attribute.transform, content.transform_succ hcontent]
    exact h
  | _ + 1, .constant _, _, h => h
  | _ + 1, .dynamic _, _, h => h
  | _ + 1, .raw _, _, h => h
  | _ + 1, .imported _, _, h => h
  | _ + 1, .expr _, _, h => h
  | _ + 1, .object _, _, h => h

end

theorem Node.transform_le {node node' : Node} {fuel fuel' : ℕ} (hle : fuel ≤ fuel')
    (h : node.transform f fuel = .ok node') : node.transform f fuel' = .ok node' := by
  induction hle with
  | refl => exact h
  | step _ ih => exact node.transform_succ ih

/-- A walk that is deep enough makes one tree of another. -/
def Node.Becomes (f : Element → Element) (node node' : Node) : Prop :=
  ∃ fuel, node.transform f fuel = .ok node'

/-- What a walk makes of a tree does not depend on the depth it is given. -/
theorem Node.Becomes.unique {node a b : Node} (ha : node.Becomes f a) (hb : node.Becomes f b) :
    a = b := by
  obtain ⟨m, ha⟩ := ha
  obtain ⟨n, hb⟩ := hb
  have h := transform_le (le_max_left m n) ha
  rw [transform_le (le_max_right m n) hb] at h
  exact (Except.ok.inj h).symm

end Depth

/-! ## Properties that a walk keeps -/

section Kept

variable {f : Element → Element} {p : Element → Prop}

/-- Whether an element has a property does not depend on what hangs below it. -/
def Own (p : Element → Prop) : Prop := ∀ e attrs children, p e → p { e with attrs, children }

/-- A change of an element keeps a property of all elements in sight. -/
def KeepsAll (p : Element → Prop) (f : Element → Element) : Prop :=
  ∀ e : Element, (∀ x ∈ e.elements, p x) → ∀ x ∈ (f e).elements, p x

theorem forall_nodesElements {nodes : List Node} :
    (∀ x ∈ nodesElements nodes, p x) ↔ ∀ node ∈ nodes, ∀ x ∈ node.elements, p x := by
  induction nodes with
  | nil => simp [nodesElements]
  | cons node rest ih => rw [nodesElements, List.forall_mem_append, List.forall_mem_cons, ih]

theorem forall_attributesElements {attrs : List (String × Attribute)} :
    (∀ x ∈ attributesElements attrs, p x) ↔ ∀ entry ∈ attrs, ∀ x ∈ entry.2.elements, p x := by
  induction attrs with
  | nil => simp [attributesElements]
  | cons entry rest ih => rw [attributesElements, List.forall_mem_append, List.forall_mem_cons, ih]

theorem Element.forall_elements {e : Element} :
    (∀ x ∈ e.elements, p x) ↔ p e ∧ (∀ entry ∈ e.attrs, ∀ x ∈ entry.2.elements, p x) ∧
      ∀ node ∈ e.children, ∀ x ∈ node.elements, p x := by
  rw [← forall_nodesElements, ← forall_attributesElements, ← List.forall_mem_append,
    ← List.forall_mem_cons]
  cases e
  rfl

mutual

/-- A walk keeps a property of all elements when its change keeps it. -/
theorem Node.transform_keeps (hp : Own p) (hf : KeepsAll p f) : {fuel : ℕ} → {node node' : Node} →
    node.transform f fuel = .ok node' → (∀ x ∈ node.elements, p x) → ∀ x ∈ node'.elements, p x
  | _ + 1, .slot content, _, h => by
    obtain ⟨content', hcontent, h⟩ := exists_of_bind_eq_ok h
    cases h
    exact content.transform_keeps hp hf hcontent
  | _ + 1, .element content, _, h => by
    obtain ⟨content', hcontent, h⟩ := exists_of_bind_eq_ok h
    cases h
    exact content.transform_keeps hp hf hcontent
  | _ + 1, .conditional content, _, h => by
    obtain ⟨content', hcontent, h⟩ := exists_of_bind_eq_ok h
    cases h
    exact content.transform_keeps hp hf hcontent
  | _ + 1, .repetition content, _, h => by
    obtain ⟨content', hcontent, h⟩ := exists_of_bind_eq_ok h
    cases h
    exact content.transform_keeps hp hf hcontent
  | _ + 1, .constant _, _, h => by cases h; exact id
  | _ + 1, .dynamic _, _, h => by cases h; exact id
  | _ + 1, .raw _, _, h => by cases h; exact id
  | _ + 1, .inject _, _, h => by cases h; exact id
  | _ + 1, .expr _, _, h => by cases h; exact id

theorem Slot.transform_keeps (hp : Own p) (hf : KeepsAll p f) : {fuel : ℕ} → {slot slot' : Slot} →
    slot.transform f fuel = .ok slot' → (∀ x ∈ slot.elements, p x) → ∀ x ∈ slot'.elements, p x
  | _ + 1, ⟨_, none⟩, _, h => by cases h; exact id
  | _ + 1, ⟨_, some node⟩, _, h => by
    obtain ⟨node', hnode, h⟩ := exists_of_bind_eq_ok h
    cases h
    exact node.transform_keeps hp hf hnode

theorem Conditional.transform_keeps (hp : Own p) (hf : KeepsAll p f) : {fuel : ℕ} →
    {q q' : Conditional} → q.transform f fuel = .ok q' →
    (∀ x ∈ q.elements, p x) → ∀ x ∈ q'.elements, p x
  | _ + 1, ⟨node, _, _, _⟩, _, h => by
    obtain ⟨node', hnode, h⟩ := exists_of_bind_eq_ok h
    cases h
    exact node.transform_keeps hp hf hnode

theorem Repetition.transform_keeps (hp : Own p) (hf : KeepsAll p f) : {fuel : ℕ} →
    {r r' : Repetition} → r.transform f fuel = .ok r' →
    (∀ x ∈ r.elements, p x) → ∀ x ∈ r'.elements, p x
  | _ + 1, ⟨node, _, _⟩, _, h => by
    obtain ⟨node', hnode, h⟩ := exists_of_bind_eq_ok h
    cases h
    exact node.transform_keeps hp hf hnode

theorem Element.transform_keeps (hp : Own p) (hf : KeepsAll p f) : {fuel : ℕ} →
    {e e' : Element} → e.transform f fuel = .ok e' →
    (∀ x ∈ e.elements, p x) → ∀ x ∈ e'.elements, p x
  | _ + 1, e, _, h, hall => by
    obtain ⟨attrs, hattrs, h⟩ := exists_of_bind_eq_ok h
    obtain ⟨children, hchildren, h⟩ := exists_of_bind_eq_ok h
    cases h
    obtain ⟨he, hbefore, hbelow⟩ := Element.forall_elements.1 (hf e hall)
    refine Element.forall_elements.2 ⟨hp _ _ _ he, fun entry' hentry' => ?_, fun node' hnode' => ?_⟩
    · obtain ⟨entry, hentry, hchanged⟩ := exists_of_mem_mapM hattrs hentry'
      obtain ⟨value, hvalue, hchanged⟩ := exists_of_bind_eq_ok hchanged
      cases hchanged
      exact entry.2.transform_keeps hp hf hvalue (hbefore entry hentry)
    · obtain ⟨node, hnode, hchanged⟩ := exists_of_mem_mapM hchildren hnode'
      exact node.transform_keeps hp hf hchanged (hbelow node hnode)

theorem Attribute.transform_keeps (hp : Own p) (hf : KeepsAll p f) : {fuel : ℕ} →
    {value value' : Attribute} → value.transform f fuel = .ok value' →
    (∀ x ∈ value.elements, p x) → ∀ x ∈ value'.elements, p x
  | _ + 1, .element content, _, h => by
    obtain ⟨content', hcontent, h⟩ := exists_of_bind_eq_ok h
    cases h
    exact content.transform_keeps hp hf hcontent
  | _ + 1, .constant _, _, h => by cases h; exact id
  | _ + 1, .dynamic _, _, h => by cases h; exact id
  | _ + 1, .raw _, _, h => by cases h; exact id
  | _ + 1, .imported _, _, h => by cases h; exact id
  | _ + 1, .expr _, _, h => by cases h; exact id
  | _ + 1, .object _, _, h => by cases h; exact id

end

end Kept

/-! ## Walks that change nothing -/

section Fixed

variable {f : Element → Element}

theorem eq_of_mapM_fixed {α : Type} {g : α → Except Diagnostic α} {l results : List α}
    (hg : ∀ a ∈ l, ∀ b, g a = .ok b → b = a) (h : l.mapM g = .ok results) : results = l := by
  induction l generalizing results with
  | nil =>
    cases h
    rfl
  | cons a rest ih =>
    rw [List.mapM_cons] at h
    obtain ⟨first, hfirst, h⟩ := exists_of_bind_eq_ok h
    obtain ⟨others, hothers, h⟩ := exists_of_bind_eq_ok h
    cases h
    rw [hg a List.mem_cons_self first hfirst,
      ih (fun b hb => hg b (List.mem_cons_of_mem _ hb)) hothers]

mutual

/-- A walk leaves a tree as it is when its change leaves each element. -/
theorem Node.transform_fixed : {fuel : ℕ} → {node node' : Node} →
    node.transform f fuel = .ok node' → (∀ e ∈ node.elements, f e = e) → node' = node
  | _ + 1, .slot content, _, h, hall => by
    obtain ⟨content', hcontent, h⟩ := exists_of_bind_eq_ok h
    cases h
    rw [content.transform_fixed hcontent hall]
  | _ + 1, .element content, _, h, hall => by
    obtain ⟨content', hcontent, h⟩ := exists_of_bind_eq_ok h
    cases h
    rw [content.transform_fixed hcontent hall]
  | _ + 1, .conditional content, _, h, hall => by
    obtain ⟨content', hcontent, h⟩ := exists_of_bind_eq_ok h
    cases h
    rw [content.transform_fixed hcontent hall]
  | _ + 1, .repetition content, _, h, hall => by
    obtain ⟨content', hcontent, h⟩ := exists_of_bind_eq_ok h
    cases h
    rw [content.transform_fixed hcontent hall]
  | _ + 1, .constant _, _, h, _ => by cases h; rfl
  | _ + 1, .dynamic _, _, h, _ => by cases h; rfl
  | _ + 1, .raw _, _, h, _ => by cases h; rfl
  | _ + 1, .inject _, _, h, _ => by cases h; rfl
  | _ + 1, .expr _, _, h, _ => by cases h; rfl

theorem Slot.transform_fixed : {fuel : ℕ} → {slot slot' : Slot} →
    slot.transform f fuel = .ok slot' → (∀ e ∈ slot.elements, f e = e) → slot' = slot
  | _ + 1, ⟨_, none⟩, _, h, _ => by cases h; rfl
  | _ + 1, ⟨_, some node⟩, _, h, hall => by
    obtain ⟨node', hnode, h⟩ := exists_of_bind_eq_ok h
    cases h
    rw [node.transform_fixed hnode hall]

theorem Conditional.transform_fixed : {fuel : ℕ} → {q q' : Conditional} →
    q.transform f fuel = .ok q' → (∀ e ∈ q.elements, f e = e) → q' = q
  | _ + 1, ⟨node, _, _, _⟩, _, h, hall => by
    obtain ⟨node', hnode, h⟩ := exists_of_bind_eq_ok h
    cases h
    rw [node.transform_fixed hnode hall]

theorem Repetition.transform_fixed : {fuel : ℕ} → {r r' : Repetition} →
    r.transform f fuel = .ok r' → (∀ e ∈ r.elements, f e = e) → r' = r
  | _ + 1, ⟨node, _, _⟩, _, h, hall => by
    obtain ⟨node', hnode, h⟩ := exists_of_bind_eq_ok h
    cases h
    rw [node.transform_fixed hnode hall]

theorem Element.transform_fixed : {fuel : ℕ} → {e e' : Element} →
    e.transform f fuel = .ok e' → (∀ x ∈ e.elements, f x = x) → e' = e
  | _ + 1, e, _, h, hall => by
    obtain ⟨he, hbefore, hbelow⟩ := Element.forall_elements.1 hall
    obtain ⟨attrs, hattrs, h⟩ := exists_of_bind_eq_ok h
    obtain ⟨children, hchildren, h⟩ := exists_of_bind_eq_ok h
    rw [he] at hattrs hchildren h
    cases h
    have hattrs : attrs = e.attrs := eq_of_mapM_fixed (fun entry hentry entry' hchanged => by
      obtain ⟨value, hvalue, hchanged⟩ := exists_of_bind_eq_ok hchanged
      cases hchanged
      rw [entry.2.transform_fixed hvalue (hbefore entry hentry)]) hattrs
    have hchildren : children = e.children := eq_of_mapM_fixed (fun node hnode _ hchanged =>
      node.transform_fixed hchanged (hbelow node hnode)) hchildren
    rw [hattrs, hchildren]
    cases e
    rfl

theorem Attribute.transform_fixed : {fuel : ℕ} → {value value' : Attribute} →
    value.transform f fuel = .ok value' → (∀ e ∈ value.elements, f e = e) → value' = value
  | _ + 1, .element content, _, h, hall => by
    obtain ⟨content', hcontent, h⟩ := exists_of_bind_eq_ok h
    cases h
    rw [content.transform_fixed hcontent hall]
  | _ + 1, .constant _, _, h, _ => by cases h; rfl
  | _ + 1, .dynamic _, _, h, _ => by cases h; rfl
  | _ + 1, .raw _, _, h, _ => by cases h; rfl
  | _ + 1, .imported _, _, h, _ => by cases h; rfl
  | _ + 1, .expr _, _, h, _ => by cases h; rfl
  | _ + 1, .object _, _, h, _ => by cases h; rfl

end

end Fixed

/-! ## Trees inside trees -/

section Holds

variable {keeps keeps' : Element → Prop}

/-- A tree stands in another one, as that tree itself or below elements of a kind. -/
inductive Node.Holds (keeps : Element → Prop) : Node → Node → Prop
  | self (node : Node) : Node.Holds keeps node node
  | slot {name : Option String} {node inner : Node} (holds : Node.Holds keeps node inner) :
      Node.Holds keeps (.slot ⟨name, some node⟩) inner
  | conditional {q : Conditional} {inner : Node} (holds : Node.Holds keeps q.node inner) :
      Node.Holds keeps (.conditional q) inner
  | repetition {r : Repetition} {inner : Node} (holds : Node.Holds keeps r.node inner) :
      Node.Holds keeps (.repetition r) inner
  | child {e : Element} {node inner : Node} (kept : keeps e) (child : node ∈ e.children)
      (holds : Node.Holds keeps node inner) : Node.Holds keeps (.element e) inner

/-- A pass over trees goes on into the trees that a tree is made of, and into the children of the
elements of a kind. -/
structure Carries (pass : Node → Node → Prop) (keeps keeps' : Element → Prop) : Prop where
  slot : ∀ {name node after}, pass (.slot ⟨name, some node⟩) after →
    ∃ node', after = .slot ⟨name, some node'⟩ ∧ pass node node'
  conditional : ∀ {q after}, pass (.conditional q) after →
    ∃ q', after = .conditional q' ∧ pass q.node q'.node
  repetition : ∀ {r after}, pass (.repetition r) after →
    ∃ r', after = .repetition r' ∧ pass r.node r'.node
  element : ∀ {e after}, keeps e → pass (.element e) after →
    ∃ e', after = .element e' ∧ keeps' e' ∧
      ∀ node ∈ e.children, ∃ node' ∈ e'.children, pass node node'

/-- **A pass is the same everywhere.** What stands in a tree becomes, in the changed tree, what the
pass makes of it by itself. -/
theorem Carries.holds {pass : Node → Node → Prop} (h : Carries pass keeps keeps')
    {tree inner : Node} (hinner : tree.Holds keeps inner) {after : Node} (hpass : pass tree after) :
    ∃ inner', after.Holds keeps' inner' ∧ pass inner inner' := by
  induction hinner generalizing after with
  | self => exact ⟨after, .self after, hpass⟩
  | slot _ ih =>
    obtain ⟨node', rfl, hnode⟩ := h.slot hpass
    obtain ⟨inner', hholds, hinner⟩ := ih hnode
    exact ⟨inner', .slot hholds, hinner⟩
  | conditional _ ih =>
    obtain ⟨q', rfl, hnode⟩ := h.conditional hpass
    obtain ⟨inner', hholds, hinner⟩ := ih hnode
    exact ⟨inner', .conditional hholds, hinner⟩
  | repetition _ ih =>
    obtain ⟨r', rfl, hnode⟩ := h.repetition hpass
    obtain ⟨inner', hholds, hinner⟩ := ih hnode
    exact ⟨inner', .repetition hholds, hinner⟩
  | child kept child _ ih =>
    obtain ⟨e', rfl, hkeeps, hchildren⟩ := h.element kept hpass
    obtain ⟨node', hmem, hnode⟩ := hchildren _ child
    obtain ⟨inner', hholds, hinner⟩ := ih hnode
    exact ⟨inner', .child hkeeps hmem hholds, hinner⟩

/-- A walk that changes elements first carries what stands below elements whose children its change
leaves. -/
theorem carries_becomes {f : Element → Element}
    (hkeeps : ∀ e, keeps e → (f e).children = e.children ∧
      ∀ attrs children, keeps' { f e with attrs, children }) :
    Carries (Node.Becomes f) keeps keeps' where
  slot := by
    rintro name node after ⟨_ | _ | fuel, h⟩
    · cases h
    · cases h
    · obtain ⟨slot, hslot, h⟩ := exists_of_bind_eq_ok h
      obtain ⟨node', hnode, hslot⟩ := exists_of_bind_eq_ok hslot
      cases hslot
      cases h
      exact ⟨node', rfl, fuel, hnode⟩
  conditional := by
    rintro q after ⟨_ | _ | fuel, h⟩
    · cases h
    · cases h
    · obtain ⟨q', hq, h⟩ := exists_of_bind_eq_ok h
      obtain ⟨node', hnode, hq⟩ := exists_of_bind_eq_ok hq
      cases hq
      cases h
      exact ⟨_, rfl, fuel, hnode⟩
  repetition := by
    rintro r after ⟨_ | _ | fuel, h⟩
    · cases h
    · cases h
    · obtain ⟨r', hr, h⟩ := exists_of_bind_eq_ok h
      obtain ⟨node', hnode, hr⟩ := exists_of_bind_eq_ok hr
      cases hr
      cases h
      exact ⟨_, rfl, fuel, hnode⟩
  element := by
    rintro e after hkept ⟨_ | _ | fuel, h⟩
    · cases h
    · cases h
    · obtain ⟨e', he, h⟩ := exists_of_bind_eq_ok h
      obtain ⟨attrs, -, he⟩ := exists_of_bind_eq_ok he
      obtain ⟨children, hchildren, he⟩ := exists_of_bind_eq_ok he
      cases he
      cases h
      obtain ⟨hsame, hkeeps⟩ := hkeeps e hkept
      rw [hsame] at hchildren
      refine ⟨_, rfl, hkeeps attrs children, fun node hnode => ?_⟩
      obtain ⟨node', hmem, hnode⟩ := exists_of_forall₂_left (forall₂_of_mapM hchildren) hnode
      exact ⟨node', hmem, fuel, hnode⟩

end Holds

end PageCompiler
