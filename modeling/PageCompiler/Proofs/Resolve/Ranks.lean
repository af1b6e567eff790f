import PageCompiler.Proofs.Document.Depth
import PageCompiler.Proofs.Resolve.Brought

/-!
# Mappings without circles

Mapping an element can put new elements below it, which are mapped in turn, so a walk that maps the
elements of a tree need not end. It ends when no type leads back to itself: then types have ranks,
the elements that an entry brings have smaller ranks than the type of the entry, and what they bring
deepens the tree only so often.

* `MappedOnce`: what the walk comes to is mapped once, each element of the tree at most one time.
* `MapsAbove`: elements of small ranks end soon after what hangs below them.
* `Mapping.Leads`, `Mapping.Acyclic`, `Mapping.exists_rank`: which types lead to which, mappings
  without circles, and their ranks.
* `Component.applyMapping_once`: such a mapping can be applied to every component.
-/

namespace PageCompiler

/-! ## What the walk comes to -/

/-- What an element becomes, whatever becomes of what hangs below it. -/
def Element.Mapped (mapping : Mapping) (o : Options) (e e' : Element) : Prop :=
  ∃ attrs children, e' = { e.applyMapping mapping o with attrs, children }

/-- The elements that a walk comes to are mapped, one by one. They are elements that were there or
that the entries for others of them bring, and none more often than it is there or brought. -/
structure MappedOnce (mapping : Mapping) (o : Options) (visited authored after : List Element) :
    Prop where
  mapped : List.Forall₂ (Element.Mapped mapping o) visited after
  share : (visited : Multiset Element) ≤ (authored : Multiset Element) +
    (visited : Multiset Element).bind fun e => (mapping.brought e : Multiset Element)

namespace MappedOnce

variable {mapping : Mapping} {o : Options} {visited visited' authored authored' after after' :
  List Element}

theorem nil : MappedOnce mapping o [] [] [] := ⟨.nil, Multiset.zero_le _⟩

theorem append (h : MappedOnce mapping o visited authored after)
    (h' : MappedOnce mapping o visited' authored' after') :
    MappedOnce mapping o (visited ++ visited') (authored ++ authored') (after ++ after') where
  mapped := List.rel_append h.mapped h'.mapped
  share := by
    rw [← Multiset.coe_add, ← Multiset.coe_add, Multiset.add_bind, add_add_add_comm]
    exact add_le_add h.share h'.share

/-- An element is mapped before what hangs below it. -/
theorem cons {e : Element} {attrs : Attributes} {children : List Node}
    (h : MappedOnce mapping o visited (attributesElements (e.applyMapping mapping o).attrs ++
      nodesElements (e.applyMapping mapping o).children)
      (attributesElements attrs ++ nodesElements children)) :
    MappedOnce mapping o (e :: visited) e.elements
      ({ e.applyMapping mapping o with attrs, children } : Element).elements where
  mapped := .cons ⟨attrs, children, rfl⟩ h.mapped
  share := by
    rw [Element.elements_eq, ← Multiset.cons_coe, ← Multiset.cons_coe, ← Multiset.coe_add,
      Multiset.cons_add, Multiset.cons_bind, ← add_assoc]
    refine Multiset.cons_le_cons _ (h.share.trans ?_)
    rw [← Multiset.coe_add]
    exact add_le_add_left (e.below_applyMapping mapping o) _

end MappedOnce

/-! ## The depth it takes -/

/-- Mapping what a walk comes to ends within a depth. -/
def MapsWithin (mapping : Mapping) (o : Options) {α : Type} (list : α → List Element)
    (authored : List Element) (run : ℕ → Except Diagnostic α) (depth : ℕ) : Prop :=
  ∃ result visited, DoneBy run depth result ∧ MappedOnce mapping o visited authored (list result)

namespace MapsWithin

variable {mapping : Mapping} {o : Options} {α β : Type} {list : α → List Element}
  {authored : List Element} {run : ℕ → Except Diagnostic α} {depth depth' : ℕ}

theorem mono (h : MapsWithin mapping o list authored run depth) (hle : depth ≤ depth') :
    MapsWithin mapping o list authored run depth' := by
  obtain ⟨result, visited, hrun, honce⟩ := h
  exact ⟨result, visited, hrun.mono hle, honce⟩

theorem down (h : MapsWithin mapping o list authored (fun fuel => run (fuel + 1)) depth)
    (hlt : depth < depth') : MapsWithin mapping o list authored run depth' := by
  obtain ⟨result, visited, hrun, honce⟩ := h
  exact ⟨result, visited, hrun.down.mono hlt, honce⟩

theorem map {list' : β → List Element} (g : α → β)
    (h : MapsWithin mapping o list authored run depth)
    (hlist : ∀ a, list' (g a) = list a) :
    MapsWithin mapping o list' authored (fun fuel => do return g (← run fuel)) depth := by
  obtain ⟨result, visited, hrun, honce⟩ := h
  exact ⟨g result, visited, hrun.bind .ok, by rwa [hlist]⟩

/-- Nothing to map. -/
theorem flat {a : α} (h : list a = []) (depth : ℕ) :
    MapsWithin mapping o list [] (fun _ => .ok a) depth :=
  ⟨a, [], .ok, by rw [h]; exact .nil⟩

/-- Nothing to map in the next step. -/
theorem leaf {a : α} {steps cost : ℕ} (hrun : ∀ fuel, run (fuel + 1) = .ok a) (h : list a = [])
    (hcost : steps < cost) : MapsWithin mapping o list [] run (1 * cost) := by
  have hbelow : MapsWithin mapping o list [] (fun fuel => run (fuel + 1)) 0 :=
    ⟨a, [], fun fuel _ => hrun fuel, by rw [h]; exact .nil⟩
  exact hbelow.down (Nat.mul_pos Nat.one_pos (Nat.zero_lt_of_lt hcost))

end MapsWithin

section Trees

variable (mapping : Mapping) (o : Options)

/-- Mapping the elements of a tree ends within a depth. -/
def Node.MapsBy (node : Node) (depth : ℕ) : Prop :=
  MapsWithin mapping o Node.elements node.elements
    (fun fuel => node.transform (Element.applyMapping mapping o) fuel) depth

/-- Mapping the elements of an attribute ends within a depth. -/
def Attribute.MapsBy (value : Attribute) (depth : ℕ) : Prop :=
  MapsWithin mapping o Attribute.elements value.elements
    (fun fuel => value.transform (Element.applyMapping mapping o) fuel) depth

/-- Mapping an element and what hangs below it ends within a depth. -/
def Element.MapsBy (e : Element) (depth : ℕ) : Prop :=
  MapsWithin mapping o Element.elements e.elements
    (fun fuel => e.transform (Element.applyMapping mapping o) fuel) depth

variable {mapping o} {depth : ℕ}

theorem MapsWithin.nodes {nodes : List Node} (h : ∀ node ∈ nodes, node.MapsBy mapping o depth) :
    MapsWithin mapping o nodesElements (nodesElements nodes)
      (fun fuel => nodes.mapM (Node.transform (Element.applyMapping mapping o) fuel)) depth := by
  induction nodes with
  | nil => exact .flat rfl _
  | cons node rest ih =>
    obtain ⟨hnode, hrest⟩ := List.forall_mem_cons.1 h
    obtain ⟨node', visited, hrun, honce⟩ := hnode
    obtain ⟨rest', visited', hruns, honces⟩ := ih hrest
    exact ⟨node' :: rest', visited ++ visited', hrun.nodes_cons hruns, honce.append honces⟩

theorem MapsWithin.attributes {attrs : Attributes}
    (h : ∀ entry ∈ attrs, entry.2.MapsBy mapping o depth) :
    MapsWithin mapping o attributesElements (attributesElements attrs)
      (fun fuel => attrs.mapM fun entry => do
        return (entry.1, ← entry.2.transform (Element.applyMapping mapping o) fuel)) depth := by
  induction attrs with
  | nil => exact .flat rfl _
  | cons entry rest ih =>
    obtain ⟨hvalue, hrest⟩ := List.forall_mem_cons.1 h
    obtain ⟨value', visited, hrun, honce⟩ := hvalue
    obtain ⟨rest', visited', hruns, honces⟩ := ih hrest
    exact ⟨(entry.1, value') :: rest', visited ++ visited', hrun.attributes_cons hruns,
      honce.append honces⟩

/-- A mapped element ends one step above what hangs below it. -/
theorem Element.mapsBy_of_below {e : Element}
    (hattrs : ∀ entry ∈ (e.applyMapping mapping o).attrs, entry.2.MapsBy mapping o depth)
    (hchildren : ∀ node ∈ (e.applyMapping mapping o).children, node.MapsBy mapping o depth) :
    e.MapsBy mapping o (depth + 1) := by
  obtain ⟨attrs, visited, hattrs, honce⟩ := MapsWithin.attributes hattrs
  obtain ⟨children, visited', hchildren, honces⟩ := MapsWithin.nodes hchildren
  exact ⟨_, e :: (visited ++ visited'), .element hattrs hchildren, (honce.append honces).cons⟩

end Trees

/-! ## Elements of small ranks -/

/-- Elements of types below a rank end a number of steps above what hangs below them. -/
def MapsAbove (mapping : Mapping) (o : Options) (rank : String → ℕ) (r steps : ℕ) : Prop :=
  ∀ e : Element, rank e.elementType < r → ∀ depth,
    (∀ entry ∈ e.attrs, entry.2.MapsBy mapping o depth) →
    (∀ node ∈ e.children, node.MapsBy mapping o depth) → e.MapsBy mapping o (depth + steps)

section Ranked

variable {mapping : Mapping} {o : Options} {rank : String → ℕ} {r steps cost : ℕ}

theorem mul_lt_succ_mul (hcost : steps < cost) (d : ℕ) : d * cost < (d + 1) * cost :=
  Nat.mul_lt_mul_of_pos_right (Nat.lt_succ_self d) (Nat.zero_lt_of_lt hcost)

/-- A node that stays in a template needs no more depth than by itself. -/
theorem Node.MapsBy.kept {node : Node} {own : List Node} {depth d : ℕ}
    (h : node.MapsBy mapping o d) (hown : ∀ x ∈ own, x.MapsBy mapping o depth) :
    (∀ x ∈ [node], x.MapsBy mapping o (depth + d)) ∧ ∀ x ∈ own, x.MapsBy mapping o depth :=
  ⟨List.forall_mem_singleton.2 (h.mono (Nat.le_add_left _ _)), hown⟩

mutual

/-- Trees with elements of small ranks end within a multiple of their depth. -/
theorem Node.mapsBy (h : MapsAbove mapping o rank r steps) (hcost : steps < cost) : (node : Node) →
    (∀ x ∈ node.elements, rank x.elementType < r) → node.MapsBy mapping o (node.depth * cost)
  | .slot content, hall =>
    ((content.mapsBy h hcost hall).map Node.slot fun _ => rfl).down (mul_lt_succ_mul hcost _)
  | .element content, hall =>
    ((content.mapsBy h hcost hall).map Node.element fun _ => rfl).down (mul_lt_succ_mul hcost _)
  | .conditional content, hall =>
    ((content.mapsBy h hcost hall).map Node.conditional fun _ => rfl).down (mul_lt_succ_mul hcost _)
  | .repetition content, hall =>
    ((content.mapsBy h hcost hall).map Node.repetition fun _ => rfl).down (mul_lt_succ_mul hcost _)
  | .constant _, _ => .leaf (fun _ => rfl) rfl hcost
  | .dynamic _, _ => .leaf (fun _ => rfl) rfl hcost
  | .raw _, _ => .leaf (fun _ => rfl) rfl hcost
  | .inject _, _ => .leaf (fun _ => rfl) rfl hcost
  | .expr _, _ => .leaf (fun _ => rfl) rfl hcost

theorem Slot.mapsBy (h : MapsAbove mapping o rank r steps) (hcost : steps < cost) : (slot : Slot) →
    (∀ x ∈ slot.elements, rank x.elementType < r) →
    MapsWithin mapping o Slot.elements slot.elements
      (fun fuel => slot.transform (Element.applyMapping mapping o) fuel) (slot.depth * cost)
  | ⟨_, none⟩, _ => .leaf (fun _ => rfl) rfl hcost
  | ⟨name, some node⟩, hall => ((node.mapsBy h hcost hall).map
    (fun node => (⟨name, some node⟩ : Slot)) fun _ => rfl).down (mul_lt_succ_mul hcost _)

theorem Conditional.mapsBy (h : MapsAbove mapping o rank r steps) (hcost : steps < cost) :
    (q : Conditional) → (∀ x ∈ q.elements, rank x.elementType < r) →
    MapsWithin mapping o Conditional.elements q.elements
      (fun fuel => q.transform (Element.applyMapping mapping o) fuel) (q.depth * cost)
  | ⟨node, reference, value, condition⟩, hall => ((node.mapsBy h hcost hall).map
    (fun node => (⟨node, reference, value, condition⟩ : Conditional)) fun _ => rfl).down
      (mul_lt_succ_mul hcost _)

theorem Repetition.mapsBy (h : MapsAbove mapping o rank r steps) (hcost : steps < cost) :
    (repetition : Repetition) → (∀ x ∈ repetition.elements, rank x.elementType < r) →
    MapsWithin mapping o Repetition.elements repetition.elements
      (fun fuel => repetition.transform (Element.applyMapping mapping o) fuel)
      (repetition.depth * cost)
  | ⟨node, source, names⟩, hall => ((node.mapsBy h hcost hall).map
    (fun node => (⟨node, source, names⟩ : Repetition)) fun _ => rfl).down
      (mul_lt_succ_mul hcost _)

theorem Element.mapsBy (h : MapsAbove mapping o rank r steps) (hcost : steps < cost) :
    (e : Element) → (∀ x ∈ e.elements, rank x.elementType < r) → e.MapsBy mapping o (e.depth * cost)
  | ⟨_, _, _, _, _, attrs, _, _, _, _, children, _⟩, hall => by
    rw [Element.elements, List.forall_mem_cons, List.forall_mem_append] at hall
    refine (h _ hall.1 (max (attributesDepth attrs) (nodesDepth children) * cost)
      (fun entry hentry => ?_) fun node hnode => ?_).mono ?_
    · exact (attributes_mapBy h hcost attrs hall.2.1 entry hentry).mono
        (Nat.mul_le_mul_right _ (le_max_left _ _))
    · exact (nodes_mapBy h hcost children hall.2.2 node hnode).mono
        (Nat.mul_le_mul_right _ (le_max_right _ _))
    · rw [Element.depth, Nat.add_one_mul]
      omega

theorem nodes_mapBy (h : MapsAbove mapping o rank r steps) (hcost : steps < cost) :
    (nodes : List Node) → (∀ x ∈ nodesElements nodes, rank x.elementType < r) →
    ∀ node ∈ nodes, node.MapsBy mapping o (nodesDepth nodes * cost)
  | [], _ => fun _ h => by cases h
  | node :: rest, hall => by
    rw [nodesElements, List.forall_mem_append] at hall
    refine List.forall_mem_cons.2 ⟨?_, fun other hother => ?_⟩
    · exact (node.mapsBy h hcost hall.1).mono (Nat.mul_le_mul_right _ (le_max_left _ _))
    · exact (nodes_mapBy h hcost rest hall.2 other hother).mono
        (Nat.mul_le_mul_right _ (le_max_right _ _))

theorem attributes_mapBy (h : MapsAbove mapping o rank r steps) (hcost : steps < cost) :
    (attrs : List (String × Attribute)) →
    (∀ x ∈ attributesElements attrs, rank x.elementType < r) →
    ∀ entry ∈ attrs, entry.2.MapsBy mapping o (attributesDepth attrs * cost)
  | [], _ => fun _ h => by cases h
  | (name, value) :: rest, hall => by
    rw [attributesElements, List.forall_mem_append] at hall
    refine List.forall_mem_cons.2 ⟨?_, fun other hother => ?_⟩
    · exact (value.mapsBy h hcost hall.1).mono (Nat.mul_le_mul_right _ (le_max_left _ _))
    · exact (attributes_mapBy h hcost rest hall.2 other hother).mono
        (Nat.mul_le_mul_right _ (le_max_right _ _))

theorem Attribute.mapsBy (h : MapsAbove mapping o rank r steps) (hcost : steps < cost) :
    (value : Attribute) → (∀ x ∈ value.elements, rank x.elementType < r) →
    value.MapsBy mapping o (value.depth * cost)
  | .element content, hall =>
    ((content.mapsBy h hcost hall).map Attribute.element fun _ => rfl).down
      (mul_lt_succ_mul hcost _)
  | .constant _, _ => .leaf (fun _ => rfl) rfl hcost
  | .dynamic _, _ => .leaf (fun _ => rfl) rfl hcost
  | .raw _, _ => .leaf (fun _ => rfl) rfl hcost
  | .imported _, _ => .leaf (fun _ => rfl) rfl hcost
  | .expr _, _ => .leaf (fun _ => rfl) rfl hcost
  | .object _, _ => .leaf (fun _ => rfl) rfl hcost

end

mutual

/-- A template with elements of small ranks puts the children at its mark deeper by a multiple of
its depth. -/
theorem Node.fill_mapsBy (h : MapsAbove mapping o rank r steps) (hcost : steps < cost)
    {depth : ℕ} : (node : Node) → (∀ x ∈ node.elements, rank x.elementType < r) →
    (own : List Node) → (∀ x ∈ own, x.MapsBy mapping o depth) →
    (∀ x ∈ (node.fill own).1, x.MapsBy mapping o (depth + node.depth * cost)) ∧
      ∀ x ∈ (node.fill own).2, x.MapsBy mapping o depth
  | .element content, hall, own, hown => by
    obtain ⟨hfilled, hleft⟩ := content.fill_mapsBy h hcost hall own hown
    refine ⟨List.forall_mem_singleton.2 ?_, hleft⟩
    exact (hfilled.map Node.element fun _ => rfl).down
      (Nat.add_lt_add_left (mul_lt_succ_mul hcost _) depth)
  | .dynamic reference, hall, own, hown => by
    rw [Node.fill]
    split
    · exact ⟨fun x hx => (hown x hx).mono (Nat.le_add_right _ _), fun _ hx => by cases hx⟩
    · exact (Node.mapsBy h hcost (.dynamic reference) hall).kept hown
  | .slot content, hall, _, hown =>
    (Node.mapsBy h hcost (.slot content) hall).kept hown
  | .conditional content, hall, _, hown =>
    (Node.mapsBy h hcost (.conditional content) hall).kept hown
  | .repetition content, hall, _, hown =>
    (Node.mapsBy h hcost (.repetition content) hall).kept hown
  | .constant value, hall, _, hown =>
    (Node.mapsBy h hcost (.constant value) hall).kept hown
  | .raw text, hall, _, hown =>
    (Node.mapsBy h hcost (.raw text) hall).kept hown
  | .inject text, hall, _, hown =>
    (Node.mapsBy h hcost (.inject text) hall).kept hown
  | .expr text, hall, _, hown =>
    (Node.mapsBy h hcost (.expr text) hall).kept hown

theorem Element.fill_mapsBy (h : MapsAbove mapping o rank r steps) (hcost : steps < cost)
    {depth : ℕ} : (e : Element) → (∀ x ∈ e.elements, rank x.elementType < r) → (own : List Node) →
    (∀ x ∈ own, x.MapsBy mapping o depth) →
    (e.fill own).1.MapsBy mapping o (depth + e.depth * cost) ∧
      ∀ x ∈ (e.fill own).2, x.MapsBy mapping o depth
  | ⟨_, _, _, _, _, attrs, _, _, _, _, children, _⟩, hall, own, hown => by
    rw [Element.elements, List.forall_mem_cons, List.forall_mem_append] at hall
    obtain ⟨hfilled, hleft⟩ := nodes_fill_mapBy h hcost children hall.2.2 own hown
    rw [Element.fill]
    dsimp only
    refine ⟨(h _ ?_ (depth + max (attributesDepth attrs) (nodesDepth children) * cost)
      (fun entry hentry => ?_) fun node hnode => ?_).mono ?_, hleft⟩
    · exact hall.1
    · refine (attributes_mapBy h hcost attrs hall.2.1 entry hentry).mono ?_
      exact (Nat.mul_le_mul_right _ (le_max_left _ _)).trans (Nat.le_add_left _ _)
    · refine (hfilled node hnode).mono (Nat.add_le_add_left ?_ depth)
      exact Nat.mul_le_mul_right _ (le_max_right _ _)
    · rw [Element.depth, Nat.add_one_mul]
      omega

theorem nodes_fill_mapBy (h : MapsAbove mapping o rank r steps) (hcost : steps < cost)
    {depth : ℕ} : (nodes : List Node) → (∀ x ∈ nodesElements nodes, rank x.elementType < r) →
    (own : List Node) → (∀ x ∈ own, x.MapsBy mapping o depth) →
    (∀ x ∈ (nodesFill nodes own).1, x.MapsBy mapping o (depth + nodesDepth nodes * cost)) ∧
      ∀ x ∈ (nodesFill nodes own).2, x.MapsBy mapping o depth
  | [], _, _, hown => ⟨fun _ hx => (by cases hx), hown⟩
  | node :: rest, hall, own, hown => by
    rw [nodesElements, List.forall_mem_append] at hall
    obtain ⟨hfilled, hleft⟩ := node.fill_mapsBy h hcost hall.1 own hown
    obtain ⟨hothers, hleft⟩ := nodes_fill_mapBy h hcost rest hall.2 _ hleft
    refine ⟨List.forall_mem_append.2 ⟨fun x hx => ?_, fun x hx => ?_⟩, hleft⟩
    · refine (hfilled x hx).mono (Nat.add_le_add_left ?_ depth)
      exact Nat.mul_le_mul_right _ (le_max_left _ _)
    · refine (hothers x hx).mono (Nat.add_le_add_left ?_ depth)
      exact Nat.mul_le_mul_right _ (le_max_right _ _)

end

/-- Placing the address of an asset takes no depth. -/
theorem Attribute.MapsBy.place {value : Attribute} {depth : ℕ} (h : value.MapsBy mapping o depth)
    (assets : Assets) : (value.place assets).MapsBy mapping o depth := by
  rcases value with (_ | _ | path) | _ | _ | _ | _ | _ | _
  case constant.text =>
    obtain ⟨_, _, hrun, -⟩ := h
    refine (MapsWithin.flat rfl 0).down (Nat.pos_of_ne_zero fun hzero => ?_)
    exact absurd (hrun 0 hzero.le) (by nofun)
  all_goals exact h

end Ranked

/-! ## Ranks -/

/-- A type leads to the types that its entry has in it. -/
def Mapping.Leads (mapping : Mapping) (t u : String) : Prop :=
  ∃ m, Dict.get? mapping.elements t = some m ∧ ∃ e ∈ m.elements, e.elementType = u

/-- What an entry brings is of types that its type leads to. -/
theorem Mapping.leads_of_brought {mapping : Mapping} {e x : Element} (h : x ∈ mapping.brought e) :
    mapping.Leads e.elementType x.elementType := by
  rw [brought] at h
  split at h
  · rename_i m hm
    rcases List.mem_append.1 h with hx | hx
    · exact ⟨m, hm, x, List.mem_append_left _ hx, rfl⟩
    · have htype := List.mem_map_of_mem (f := (·.elementType)) hx
      rw [nodes_framing_types] at htype
      obtain ⟨y, hy, hsame⟩ := List.mem_map.1 htype
      exact ⟨m, hm, y, List.mem_append_right _ hy, hsame⟩
  · cases h

/-- No type leads back to itself. -/
def Mapping.Acyclic (mapping : Mapping) : Prop :=
  ∀ t, ¬ Relation.TransGen mapping.Leads t t

/-- The depth of the deepest entry. -/
def Mapping.deepest (mapping : Mapping) : ℕ :=
  mapping.elements.foldl (fun d entry => max d entry.2.depth) 0

section Ranks

variable {mapping : Mapping} {o : Options} {rank : String → ℕ} {r steps cost : ℕ}

theorem le_foldl_max {α : Type} (f : α → ℕ) {l : List α} {a : α} (h : a ∈ l) (init : ℕ) :
    f a ≤ l.foldl (fun d x => max d (f x)) init := by
  have hinit : ∀ (l : List α) (init : ℕ), init ≤ l.foldl (fun d x => max d (f x)) init := by
    intro l
    induction l with
    | nil => exact fun _ => le_rfl
    | cons x rest ih => exact fun init => (le_max_left init (f x)).trans (ih _)
  obtain ⟨before, after, rfl⟩ := List.append_of_mem h
  rw [List.foldl_append, List.foldl_cons]
  exact (le_max_right _ _).trans (hinit after _)

theorem Mapping.depth_le_deepest {t : String} {m : ElementMapping}
    (h : Dict.get? mapping.elements t = some m) : m.depth ≤ mapping.deepest :=
  le_foldl_max (fun entry : String × ElementMapping => entry.2.depth) (Dict.mem_of_get? h) 0

/-- Mappings without circles give ranks to types. -/
theorem Mapping.exists_rank (h : mapping.Acyclic) : ∃ rank : String → ℕ,
    (∀ t u, mapping.Leads t u → rank u < rank t) ∧ ∀ t, rank t ≤ mapping.elements.length := by
  classical
  -- the rank of a type is the number of entries that it leads to
  let ahead (t : String) : Finset String :=
    (Dict.keys mapping.elements).toFinset.filter (Relation.ReflTransGen mapping.Leads t)
  refine ⟨fun t => (ahead t).card, fun t u hlead => Finset.card_lt_card ?_, fun t => ?_⟩
  · have hkey : t ∈ Dict.keys mapping.elements := by
      obtain ⟨m, hm, -⟩ := hlead
      exact Dict.mem_keys_of_get? hm
    have hself : t ∈ ahead t := Finset.mem_filter.2 ⟨List.mem_toFinset.2 hkey, .refl⟩
    refine (Finset.ssubset_iff_of_subset fun k hk => ?_).2 ⟨t, hself, fun hback => ?_⟩
    · obtain ⟨hk, hreach⟩ := Finset.mem_filter.1 hk
      exact Finset.mem_filter.2 ⟨hk, .head hlead hreach⟩
    · exact h t (.head' hlead (Finset.mem_filter.1 hback).2)
  · calc (ahead t).card ≤ (Dict.keys mapping.elements).toFinset.card := Finset.card_filter_le _ _
      _ ≤ (Dict.keys mapping.elements).length := List.toFinset_card_le _
      _ = mapping.elements.length := List.length_map _

/-- What the entry for a type has in it is of smaller ranks. -/
theorem Mapping.rank_lt (hrank : ∀ t u, mapping.Leads t u → rank u < rank t) {t : String}
    {m : ElementMapping} (hm : Dict.get? mapping.elements t = some m) (ht : rank t < r + 1) :
    (∀ x ∈ attributesElements m.attrs, rank x.elementType < r) ∧
      ∀ x ∈ nodesElements (m.children.getD []), rank x.elementType < r := by
  refine List.forall_mem_append.1 fun x hx => ?_
  exact (hrank _ _ ⟨m, hm, x, hx, rfl⟩).trans_le (Nat.le_of_lt_succ ht)

section Entry

variable {e : Element} {depth : ℕ}

theorem applyMapping_attrs_mapBy (hrank : ∀ t u, mapping.Leads t u → rank u < rank t)
    (h : MapsAbove mapping o rank r steps) (hcost : steps < cost) (he : rank e.elementType < r + 1)
    (hattrs : ∀ entry ∈ e.attrs, entry.2.MapsBy mapping o depth) :
    ∀ entry ∈ (e.applyMapping mapping o).attrs,
      entry.2.MapsBy mapping o (depth + mapping.deepest * cost) := by
  replace hattrs : ∀ entry ∈ e.attrs, entry.2.MapsBy mapping o (depth + mapping.deepest * cost) :=
    fun entry hentry => (hattrs entry hentry).mono (Nat.le_add_right _ _)
  rw [e.applyMapping_attrs, Element.takenAttrs]
  refine forall_modify (P := (Attribute.MapsBy mapping o · _)) o.assets _
    (fun value hvalue => hvalue.place o.assets)
    (forall_renameEntries (P := (Attribute.MapsBy mapping o · _)) ?_)
  split
  · rename_i m hm
    have hbrought := (mapping.rank_lt hrank hm he).1
    have hdepth : attributesDepth m.attrs ≤ mapping.deepest :=
      (le_max_left _ _).trans (mapping.depth_le_deepest hm)
    refine forall_foldl_takeOver (P := (Attribute.MapsBy mapping o · _)) hattrs
      fun entry hentry => (attributes_mapBy h hcost m.attrs hbrought entry hentry).mono ?_
    exact (Nat.mul_le_mul_right _ hdepth).trans (Nat.le_add_left _ _)
  · exact hattrs

theorem applyMapping_children_mapBy (hrank : ∀ t u, mapping.Leads t u → rank u < rank t)
    (h : MapsAbove mapping o rank r steps) (hcost : steps < cost) (he : rank e.elementType < r + 1)
    (hchildren : ∀ node ∈ e.children, node.MapsBy mapping o depth) :
    ∀ node ∈ (e.applyMapping mapping o).children,
      node.MapsBy mapping o (depth + mapping.deepest * cost) := by
  rw [e.applyMapping_children]
  split
  · rename_i template htemplate
    obtain ⟨m, hm, htemplate⟩ := Option.bind_eq_some_iff.1 htemplate
    have hbrought := (mapping.rank_lt hrank hm he).2
    rw [htemplate, Option.getD_some] at hbrought
    have hdepth : nodesDepth template ≤ mapping.deepest := by
      refine le_trans ?_ (mapping.depth_le_deepest hm)
      rw [ElementMapping.depth, htemplate]
      exact le_max_right _ _
    intro node hnode
    refine ((nodes_fill_mapBy h hcost template hbrought _ hchildren).1 node hnode).mono ?_
    exact Nat.add_le_add_left (Nat.mul_le_mul_right _ hdepth) depth
  · exact fun node hnode => (hchildren node hnode).mono (Nat.le_add_right _ _)

end Entry

/-- Elements of the next rank end a number of steps above what hangs below them as well. -/
theorem MapsAbove.succ (hrank : ∀ t u, mapping.Leads t u → rank u < rank t)
    (h : MapsAbove mapping o rank r steps) (hcost : steps < cost) :
    MapsAbove mapping o rank (r + 1) (mapping.deepest * cost + 1) := by
  intro e he depth hattrs hchildren
  rw [← add_assoc]
  exact Element.mapsBy_of_below (applyMapping_attrs_mapBy hrank h hcost he hattrs)
    (applyMapping_children_mapBy hrank h hcost he hchildren)

/-- Elements of each rank end a number of steps above what hangs below them. -/
theorem exists_mapsAbove (hrank : ∀ t u, mapping.Leads t u → rank u < rank t) (r : ℕ) :
    ∃ steps < (mapping.deepest + 2) ^ r, MapsAbove mapping o rank r steps := by
  induction r with
  | zero => exact ⟨0, Nat.one_pos, fun e he => absurd he (Nat.not_lt_zero _)⟩
  | succ r ih =>
    obtain ⟨steps, hsteps, h⟩ := ih
    refine ⟨_, ?_, h.succ hrank hsteps⟩
    rw [pow_succ, mul_comm _ (mapping.deepest + 2), add_mul]
    omega

/-- **Applying a mapping without circles ends** within the depth that is given for it. -/
theorem Node.exists_applyMapping (h : mapping.Acyclic) (o : Options) (node : Node) :
    ∃ node' visited, node.applyMapping mapping o = .ok node' ∧
      MappedOnce mapping o visited node.elements node'.elements := by
  obtain ⟨rank, hrank, hbound⟩ := mapping.exists_rank h
  obtain ⟨steps, hsteps, habove⟩ := exists_mapsAbove (o := o) hrank (mapping.elements.length + 1)
  obtain ⟨node', visited, hrun, honce⟩ :=
    node.mapsBy habove hsteps fun x _ => Nat.lt_succ_of_le (hbound x.elementType)
  exact ⟨node', visited, hrun _ (Nat.mul_le_mul_right _ (Nat.le_succ _)), honce⟩

end Ranks

/-! ## Components -/

section Components

variable {mapping : Mapping} {o : Options} {f : Node → Except Diagnostic Node}

/-- The elements of the defaults of props. -/
def defaultElements (props : Dict PropDefinition) : List Element :=
  (defaultNodes props).flatMap Node.elements

theorem defaultElements_cons (entry : String × PropDefinition) (rest : Dict PropDefinition) :
    defaultElements (entry :: rest) = defaultElements [entry] ++ defaultElements rest := by
  rw [defaultElements, ← List.singleton_append, defaultNodes, List.filterMap_append,
    List.flatMap_append]
  rfl

theorem PropDefinition.exists_updateM (name : String) (d : PropDefinition)
    (hf : ∀ node, ∃ node' visited, f node = .ok node' ∧
      MappedOnce mapping o visited node.elements node'.elements) :
    ∃ d' visited, d.updateM f = .ok d' ∧
      MappedOnce mapping o visited (defaultElements [(name, d)])
        (defaultElements [(name, d')]) := by
  obtain ⟨kind, _ | node | value, isRequired⟩ := d
  · exact ⟨_, [], rfl, .nil⟩
  · obtain ⟨node', visited, hnode, honce⟩ := hf node
    refine ⟨⟨kind, some (.node node'), isRequired⟩, visited, ?_, ?_⟩
    · rw [updateM]
      dsimp only
      rw [hnode]
      rfl
    · change MappedOnce mapping o visited (node.elements ++ []) (node'.elements ++ [])
      rwa [List.append_nil, List.append_nil]
  · exact ⟨_, [], rfl, .nil⟩

theorem exists_mapM_defaults (props : Dict PropDefinition)
    (hf : ∀ node, ∃ node' visited, f node = .ok node' ∧
      MappedOnce mapping o visited node.elements node'.elements) :
    ∃ props' visited,
      props.mapM (fun entry => do return (entry.1, ← entry.2.updateM f)) = .ok props' ∧
      MappedOnce mapping o visited (defaultElements props) (defaultElements props') := by
  induction props with
  | nil => exact ⟨[], [], rfl, .nil⟩
  | cons entry rest ih =>
    obtain ⟨name, d⟩ := entry
    obtain ⟨d', visited, hd, honce⟩ := d.exists_updateM name hf
    obtain ⟨rest', visited', hrest, honces⟩ := ih
    refine ⟨(name, d') :: rest', visited ++ visited', ?_, ?_⟩
    · rw [List.mapM_cons, hrest]
      dsimp only
      rw [hd]
      rfl
    · rw [defaultElements_cons, defaultElements_cons (name, d')]
      exact honce.append honces

end Components

/-- **A mapping without circles can be applied to every component.** Each element that the walk
comes to is mapped once, and shows so in the result; no element of the component comes twice. -/
theorem Component.applyMapping_once {mapping : Mapping} (h : mapping.Acyclic) (c : Component)
    (o : Options) : ∃ c' visited, c.applyMapping mapping o = .ok c' ∧
      MappedOnce mapping o visited c.elements c'.elements := by
  obtain ⟨node', visited, hnode, honce⟩ := Node.exists_applyMapping h o c.node
  obtain ⟨props', visited', hprops, honces⟩ :=
    exists_mapM_defaults c.props (Node.exists_applyMapping h o)
  refine ⟨{ c with node := node', props := props' }, visited ++ visited', ?_, honce.append honces⟩
  rw [applyMapping, updateTreesM, hnode]
  change (do
    let props ← c.props.mapM fun entry => do
      return (entry.1, ← entry.2.updateM (Node.applyMapping mapping o))
    return { c with node := node', props } : Except Diagnostic Component) = _
  rw [hprops]
  rfl

/-- Types with ranks have no circles. -/
theorem Mapping.acyclic_of_rank {mapping : Mapping} (rank : String → ℕ)
    (h : ∀ entry ∈ mapping.elements, ∀ e ∈ entry.2.elements, rank e.elementType < rank entry.1) :
    mapping.Acyclic := by
  have hleads : ∀ t u, mapping.Leads t u → rank u < rank t := by
    rintro t u ⟨m, hm, e, he, rfl⟩
    exact h _ (Dict.mem_of_get? hm) e he
  intro t ht
  have hlt : ∀ u, Relation.TransGen mapping.Leads t u → rank u < rank t := fun u hu => by
    induction hu with
    | single hlead => exact hleads _ _ hlead
    | tail _ hlead ih => exact (hleads _ _ hlead).trans ih
  exact lt_irrefl _ (hlt t ht)

/-- A target where cards have a frame with an icon, and another icon by default. -/
def cardNames : Mapping where
  elements := [
    ("card", { elementType := "article"
               attrs := [("badge", .element { elementType := "icon" })]
               children := some [.element
                { elementType := "frame", children := [.dynamic ⟨.children, "", none⟩] }] }),
    ("frame", { elementType := "section"
                children := some [.element { elementType := "icon" },
                  .dynamic ⟨.children, "", none⟩] }),
    ("icon", { elementType := "span" })]

/-- A card in a card. -/
def cardPage : Component := .ofNode "Cards" (.element
  { elementType := "card", children := [.element { elementType := "card" },
    .element { elementType := "image", attrs := [("icon", .element { elementType := "icon" })] }] })

/-- Frames and icons are put into both cards, and mapped there; the image and its icon go into the
outer frame. -/
theorem cardPage_mapped : cardNames.Acyclic ∧
    (∃ c' visited, cardPage.applyMapping cardNames {} = .ok c' ∧
      MappedOnce cardNames {} visited cardPage.elements c'.elements) ∧
    (cardPage.applyMapping cardNames {}).toOption.map (·.elements.map (·.elementType)) =
      some ["article", "span", "section", "span", "article", "span", "section", "span", "image",
        "span"] := by
  have hacyclic : cardNames.Acyclic := Mapping.acyclic_of_rank
    (fun t => if t = "card" then 2 else if t = "frame" then 1 else 0) (by decide +kernel)
  exact ⟨hacyclic, Component.applyMapping_once hacyclic cardPage {}, by decide +kernel⟩

end PageCompiler
