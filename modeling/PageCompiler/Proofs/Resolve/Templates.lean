import Mathlib
import PageCompiler.Mapping.Apply

/-!
# Children in a template

The children of a mapped element go where the first mark of its template stands. Where that is, and
what happens to the rest of the template, is told along a walk through it: the walk goes into the
elements among the nodes of a list, passes the nodes that are not elements, and does not look into
attributes, slots, conditionals or repetitions.

* `Passage`, `nodesPassages`: the walk through a list of nodes, from which the list can be read off
  again (`rebuild_nodesPassages`).
* `Places`: children are put at the first mark of a walk, and the marks behind it vanish.
* `insertChildren_passages`: what becomes of a template.
-/

namespace PageCompiler

/-! ## Walks through nodes -/

/-- A step of a walk through a list of nodes. -/
inductive Passage where
  /-- Into an element, which is told without its children. -/
  | enter (shell : Element)
  /-- Out of the element that was entered last. -/
  | leave
  /-- Past a node that is not an element. -/
  | node (content : Node)

/-- Whether the children of a mapped element can go here. -/
def Passage.isMark : Passage → Bool
  | .node (.dynamic reference) => reference.scope = .children
  | _ => false

mutual

/-- The walk through a node. -/
def Node.passages : Node → List Passage
  | .element content => content.passages
  | .constant value => [.node (.constant value)]
  | .dynamic reference => [.node (.dynamic reference)]
  | .raw text => [.node (.raw text)]
  | .inject text => [.node (.inject text)]
  | .slot content => [.node (.slot content)]
  | .conditional content => [.node (.conditional content)]
  | .repetition content => [.node (.repetition content)]
  | .expr text => [.node (.expr text)]

/-- The walk through an element. -/
def Element.passages : Element → List Passage
  | ⟨key, elementType, name, semanticType, dependency, attrs, events, style, referencedStyles,
      abilities, children, selfClosing⟩ =>
    .enter ⟨key, elementType, name, semanticType, dependency, attrs, events, style,
      referencedStyles, abilities, [], selfClosing⟩ :: (nodesPassages children ++ [.leave])

/-- The walk through a list of nodes. -/
def nodesPassages : List Node → List Passage
  | [] => []
  | node :: rest => node.passages ++ nodesPassages rest

end

theorem nodesPassages_append (nodes others : List Node) :
    nodesPassages (nodes ++ others) = nodesPassages nodes ++ nodesPassages others := by
  induction nodes with
  | nil => rfl
  | cons node rest ih => rw [List.cons_append, nodesPassages, ih, nodesPassages, List.append_assoc]

theorem nodesPassages_singleton (node : Node) : nodesPassages [node] = node.passages := by
  rw [nodesPassages, nodesPassages, List.append_nil]

/-- Take a step of a walk back: `here` are the nodes behind it in its list, `around` the nodes
behind the elements that the walk is in, innermost first. -/
def Passage.back : Passage → List Node × List (List Node) → List Node × List (List Node)
  | .leave, (here, around) => ([], here :: around)
  | .node content, (here, around) => (content :: here, around)
  | .enter shell, (here, around) =>
    (.element { shell with children := here } :: around.headD [], around.tail)

/-- The nodes that a walk goes through. -/
def rebuild (walk : List Passage) : List Node := (walk.foldr Passage.back ([], [])).1

mutual

theorem Node.back_passages : (node : Node) → (here : List Node) → (around : List (List Node)) →
    node.passages.foldr Passage.back (here, around) = (node :: here, around)
  | .element content, here, around => content.back_passages here around
  | .constant _, _, _ => rfl
  | .dynamic _, _, _ => rfl
  | .raw _, _, _ => rfl
  | .inject _, _, _ => rfl
  | .slot _, _, _ => rfl
  | .conditional _, _, _ => rfl
  | .repetition _, _, _ => rfl
  | .expr _, _, _ => rfl

theorem Element.back_passages : (e : Element) → (here : List Node) →
    (around : List (List Node)) →
    e.passages.foldr Passage.back (here, around) = (.element e :: here, around)
  | ⟨_, _, _, _, _, _, _, _, _, _, children, _⟩, here, around => by
    rw [Element.passages, List.foldr_cons, List.foldr_append, List.foldr_cons, List.foldr_nil,
      Passage.back, back_nodesPassages children, List.append_nil]
    rfl

theorem back_nodesPassages : (nodes : List Node) → (here : List Node) →
    (around : List (List Node)) →
    (nodesPassages nodes).foldr Passage.back (here, around) = (nodes ++ here, around)
  | [], _, _ => rfl
  | node :: rest, here, around => by
    rw [nodesPassages, List.foldr_append, back_nodesPassages rest, node.back_passages,
      List.cons_append]

end

/-- **A walk tells its nodes.** -/
theorem rebuild_nodesPassages (nodes : List Node) : rebuild (nodesPassages nodes) = nodes := by
  rw [rebuild, back_nodesPassages, List.append_nil]

theorem nodesPassages_injective : Function.Injective nodesPassages :=
  Function.LeftInverse.injective rebuild_nodesPassages

/-! ## Placing children -/

/-- A walk past no mark. -/
def Unmarked (walk : List Passage) : Prop := ∀ p ∈ walk, p.isMark = false

/-- A walk without its marks. -/
def unmark (walk : List Passage) : List Passage := walk.filter (! ·.isMark)

theorem unmark_of_unmarked {walk : List Passage} (h : Unmarked walk) : unmark walk = walk :=
  List.filter_eq_self.2 fun p hp => by rw [h p hp, Bool.not_false]

/-- Children are placed along a walk: what the walk becomes, and the children that are left. -/
inductive Places (own : List Node) : List Passage → List Passage → List Node → Prop
  /-- A walk without a mark stays as it is. -/
  | nowhere {walk : List Passage} (unmarked : Unmarked walk) : Places own walk walk own
  /-- The first mark makes way for the children, the others vanish. -/
  | first {before : List Passage} {mark : Passage} (after : List Passage)
      (unmarked : Unmarked before) (marked : mark.isMark = true) :
      Places own (before ++ mark :: after) (before ++ nodesPassages own ++ unmark after) []

section Places

variable {own left left' : List Node} {walk walk' placed placed' : List Passage}

/-- Without children to place, all marks vanish. -/
theorem Places.eq_unmark (h : Places [] walk placed left) : placed = unmark walk ∧ left = [] := by
  cases h with
  | nowhere unmarked => exact ⟨(unmark_of_unmarked unmarked).symm, rfl⟩
  | @first before mark after unmarked marked =>
    have hmark : unmark (mark :: after) = unmark after :=
      List.filter_cons_of_neg (by rw [marked]; decide)
    refine ⟨?_, rfl⟩
    calc before ++ nodesPassages [] ++ unmark after
        = unmark before ++ unmark (mark :: after) := by
          rw [nodesPassages, List.append_nil, unmark_of_unmarked unmarked, hmark]
      _ = unmark (before ++ mark :: after) := by rw [unmark, unmark, unmark, List.filter_append]

theorem Places.append (h : Places own walk placed left) (h' : Places left walk' placed' left') :
    Places own (walk ++ walk') (placed ++ placed') left' := by
  cases h with
  | nowhere unmarked =>
    cases h' with
    | nowhere unmarked' => exact .nowhere (List.forall_mem_append.2 ⟨unmarked, unmarked'⟩)
    | first after unmarked' marked =>
      have hfirst : Places own _ _ [] := .first after
        (List.forall_mem_append.2 ⟨unmarked, unmarked'⟩) marked
      simpa only [List.append_assoc] using hfirst
  | first after unmarked marked =>
    -- nothing is left for the second walk, which only loses its marks
    obtain ⟨rfl, rfl⟩ := h'.eq_unmark
    have hfirst : Places own _ _ [] := .first (after ++ walk') unmarked marked
    simpa only [unmark, List.filter_append, List.append_assoc, List.cons_append] using hfirst

/-- What a walk passes before and behind a place for children stays there. -/
theorem Places.within {p q : Passage} (h : Places own walk placed left) (hp : p.isMark = false)
    (hq : q.isMark = false) : Places own (p :: (walk ++ [q])) (p :: (placed ++ [q])) left :=
  (Places.nowhere (List.forall_mem_singleton.2 hp)).append
    (h.append (.nowhere (List.forall_mem_singleton.2 hq)))

end Places

mutual

theorem Node.fill_places : (node : Node) → (own : List Node) →
    Places own node.passages (nodesPassages (node.fill own).1) (node.fill own).2
  | .element content, own => by
    rw [Node.fill, nodesPassages_singleton]
    exact content.fill_places own
  | .dynamic reference, own => by
    rw [Node.fill]
    split
    · rename_i hmark
      have hfirst : Places own ([] ++ [.node (.dynamic reference)]) _ [] :=
        .first [] (fun _ h => by cases h) (decide_eq_true hmark)
      rwa [List.nil_append, List.nil_append, unmark, List.filter_nil, List.append_nil] at hfirst
    · rename_i hmark
      exact .nowhere (List.forall_mem_singleton.2 (decide_eq_false hmark))
  | .constant _, _ => .nowhere (List.forall_mem_singleton.2 rfl)
  | .raw _, _ => .nowhere (List.forall_mem_singleton.2 rfl)
  | .inject _, _ => .nowhere (List.forall_mem_singleton.2 rfl)
  | .slot _, _ => .nowhere (List.forall_mem_singleton.2 rfl)
  | .conditional _, _ => .nowhere (List.forall_mem_singleton.2 rfl)
  | .repetition _, _ => .nowhere (List.forall_mem_singleton.2 rfl)
  | .expr _, _ => .nowhere (List.forall_mem_singleton.2 rfl)

theorem Element.fill_places : (e : Element) → (own : List Node) →
    Places own e.passages (e.fill own).1.passages (e.fill own).2
  | ⟨_, _, _, _, _, _, _, _, _, _, children, _⟩, own => by
    rw [Element.fill, Element.passages, Element.passages]
    exact (nodesFill_places children own).within rfl rfl

theorem nodesFill_places : (nodes : List Node) → (own : List Node) →
    Places own (nodesPassages nodes) (nodesPassages (nodesFill nodes own).1) (nodesFill nodes own).2
  | [], _ => .nowhere fun _ h => by cases h
  | node :: rest, own => by
    rw [nodesFill, nodesPassages, nodesPassages_append]
    exact (node.fill_places own).append (nodesFill_places rest _)

end

/-- **Children in a template.** The children of a mapped element stand where the first mark of the
template stood, all of them, once and in their order; the other marks are gone, and everything else
is in its place. A template without a mark is all there is. -/
theorem insertChildren_passages (template own : List Node) :
    (∃ before mark after, nodesPassages template = before ++ mark :: after ∧
      Unmarked before ∧ mark.isMark = true ∧
      ∀ nodes, nodes = insertChildren template own ↔
        nodesPassages nodes = before ++ nodesPassages own ++ unmark after) ∨
    (Unmarked (nodesPassages template) ∧ insertChildren template own = template) := by
  have hplaces := nodesFill_places template own
  change Places own _ (nodesPassages (insertChildren template own)) _ at hplaces
  generalize hwalk : nodesPassages template = walk at hplaces
  generalize hplaced : nodesPassages (insertChildren template own) = placed at hplaces
  generalize (nodesFill template own).2 = left at hplaces
  cases hplaces with
  | nowhere unmarked =>
    exact .inr ⟨unmarked, nodesPassages_injective (hplaced.trans hwalk.symm)⟩
  | @first before mark after unmarked marked =>
    refine .inl ⟨before, mark, after, rfl, unmarked, marked, fun nodes => ?_⟩
    rw [← hplaced, nodesPassages_injective.eq_iff]

example (a b : Node) :
    insertChildren [.element { elementType := "header", children := [.raw "—",
        .dynamic { scope := .children, id := "" }] }, .dynamic { scope := .children, id := "" }]
      [a, b] = [.element { elementType := "header", children := [.raw "—", a, b] }] := rfl

end PageCompiler
