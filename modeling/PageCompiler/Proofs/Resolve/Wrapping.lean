import PageCompiler.Proofs.Document.Depth
import PageCompiler.Proofs.Resolve.Passes

/-!
# Putting links around elements

A walk that comes to an element with a link puts another element around it and goes on into that
one, so it comes to the first element again, now without its link. What becomes of a tree is told by
what the walk comes to.

* `Element.wrapLink`: what the walk does where it comes to an element. `Node.comesTo_wrapLinks` says
  that the walk ends, and that it takes a tree to `Node.wrapLinks` of it.
* `Visit`, `Node.visits`: what the walk comes to, in its order.
* `WrappedOnce`: each element that is reached shows in the new tree, and an element around it if it
  has a link.
* `Node.unwrap`: a tree without the elements that were put around others.
* `linkStep_exact`: all this about the trees of components, and that it is done only once.
-/

namespace PageCompiler

/-! ## One element -/

/-- An element without its link. -/
def Element.clearLink (e : Element) : Element :=
  if e.Unlinked then e else { e with abilities := none }

/-- The element that a walk puts around one with a link, before it goes on. -/
def LinkAbility.leading (o : Options) (key : String) : LinkAbility → Element
  | .url address newTab => linkElement key <|
    (if newTab then [("rel", .text "noreferrer"), ("target", .text "_blank")] else [])
      ++ [("url", address)]
  | other => other.wrapper o key

/-- What a walk does where it comes to an element. -/
def Element.wrapLink (o : Options) (e : Element) : Element :=
  match e.link? with
  | some link => { link.leading o e.key with children := [.element e.clearLink] }
  | none => e

/-- An element once the links below it are carried out, and its own is gone. -/
def Element.carried (o : Options) (e : Element) : Element :=
  { e.clearLink with
    attrs := attributesWrapLinks o e.attrs, children := nodesWrapLinks o e.children }

/-- The elements that the address of a link holds. -/
def LinkAbility.addressElements : LinkAbility → List Element
  | .url address _ => address.elements
  | _ => []

/-- The elements that the address of an element's link holds. -/
def Element.addressElements (e : Element) : List Element :=
  match e.link? with
  | some link => link.addressElements
  | none => []

section Element

variable (o : Options)

theorem LinkAbility.wrapper_eq (link : LinkAbility) (key : String) : link.wrapper o key =
    { link.leading o key with attrs := attributesWrapLinks o (link.leading o key).attrs } := by
  cases link with
  | url url newTab => cases newTab <;> rfl
  | _ => rfl

theorem LinkAbility.elementType_wrapper (link : LinkAbility) (key : String) :
    (link.wrapper o key).elementType = "link" ∨ (link.wrapper o key).elementType = "navlink" := by
  cases link with
  | route _ => exact .inr rfl
  | _ => exact .inl rfl

/-- An element with a link is put into another one. -/
theorem Element.wrapLinks_of_link {e : Element} {link : LinkAbility} (h : e.link? = some link) :
    e.wrapLinks o = { link.wrapper o e.key with children := [.element (e.carried o)] } := by
  obtain ⟨key, elementType, name, semanticType, dependency, attrs, events, style, referencedStyles,
    _ | ⟨_ | link⟩, children, selfClosing⟩ := e
  · cases h
  · cases h
  · cases h
    rw [Element.wrapLinks]
    rfl

end Element

/-! ## The walk -/

section Walk

variable (o : Options)

mutual

theorem Node.comesTo_wrapLinks : (node : Node) →
    ComesTo (fun fuel => node.transform (Element.wrapLink o) fuel) (node.wrapLinks o)
  | .slot content => .down (content.comesTo_wrapLinks.map _)
  | .element content => .down (content.comesTo_wrapLinks.map _)
  | .conditional content => .down (content.comesTo_wrapLinks.map _)
  | .repetition content => .down (content.comesTo_wrapLinks.map _)
  | .constant _ => .down .ok
  | .dynamic _ => .down .ok
  | .raw _ => .down .ok
  | .inject _ => .down .ok
  | .expr _ => .down .ok

theorem Slot.comesTo_wrapLinks : (slot : Slot) →
    ComesTo (fun fuel => slot.transform (Element.wrapLink o) fuel) (slot.wrapLinks o)
  | ⟨_, none⟩ => .down .ok
  | ⟨_, some node⟩ => .down (node.comesTo_wrapLinks.map _)

theorem Conditional.comesTo_wrapLinks : (q : Conditional) →
    ComesTo (fun fuel => q.transform (Element.wrapLink o) fuel) (q.wrapLinks o)
  | ⟨node, _, _, _⟩ => .down (node.comesTo_wrapLinks.map _)

theorem Repetition.comesTo_wrapLinks : (r : Repetition) →
    ComesTo (fun fuel => r.transform (Element.wrapLink o) fuel) (r.wrapLinks o)
  | ⟨node, _, _⟩ => .down (node.comesTo_wrapLinks.map _)

theorem Element.comesTo_wrapLinks : (e : Element) →
    ComesTo (fun fuel => e.transform (Element.wrapLink o) fuel) (e.wrapLinks o)
  | ⟨_, _, _, _, _, attrs, _, _, _, none, children, _⟩ =>
    .element (attributes_comesTo_wrapLinks attrs) (nodes_comesTo_wrapLinks children)
  | ⟨_, _, _, _, _, attrs, _, _, _, some ⟨none⟩, children, _⟩ =>
    .element (attributes_comesTo_wrapLinks attrs) (nodes_comesTo_wrapLinks children)
  | ⟨key, elementType, name, semanticType, dependency, attrs, events, style, referencedStyles,
      some ⟨some link⟩, children, selfClosing⟩ => by
    -- the walk comes to the element again, as the only child of the one around it
    have hinner := ComesTo.element (f := Element.wrapLink o) (e := ⟨key, elementType, name,
      semanticType, dependency, attrs, events, style, referencedStyles, none, children,
      selfClosing⟩) (attributes_comesTo_wrapLinks attrs) (nodes_comesTo_wrapLinks children)
    have hchild : ComesTo (fun fuel => Node.transform (Element.wrapLink o) fuel
        (.element ⟨key, elementType, name, semanticType, dependency, attrs, events, style,
          referencedStyles, none, children, selfClosing⟩))
        (.element ⟨key, elementType, name, semanticType, dependency, attributesWrapLinks o attrs,
          events, style, referencedStyles, none, nodesWrapLinks o children, selfClosing⟩) :=
      .down (hinner.map _)
    rw [Element.wrapLinks, LinkAbility.wrapper_eq]
    exact .element (link.comesTo_wrapLinks key) (hchild.nodes_cons .ok)

theorem LinkAbility.comesTo_wrapLinks : (link : LinkAbility) → (key : String) →
    ComesTo (fun fuel => (link.leading o key).attrs.mapM fun entry => do
      return (entry.1, ← entry.2.transform (Element.wrapLink o) fuel))
      (attributesWrapLinks o (link.leading o key).attrs)
  | .url address false, _ => .attributes_cons address.comesTo_wrapLinks .ok
  | .url address true, _ => .attributes_cons (.down .ok) <| .attributes_cons (.down .ok) <|
    .attributes_cons address.comesTo_wrapLinks .ok
  | .anchor _, _ => .attributes_cons (.down .ok) .ok
  | .route _, _ => .attributes_cons (.down .ok) .ok
  | .mail _ _ _, _ => .attributes_cons (.down .ok) .ok
  | .phone _, _ => .attributes_cons (.down .ok) .ok

theorem nodes_comesTo_wrapLinks : (nodes : List Node) →
    ComesTo (fun fuel => nodes.mapM (Node.transform (Element.wrapLink o) fuel))
      (nodesWrapLinks o nodes)
  | [] => .ok
  | node :: rest => node.comesTo_wrapLinks.nodes_cons (nodes_comesTo_wrapLinks rest)

theorem attributes_comesTo_wrapLinks : (attrs : List (String × Attribute)) →
    ComesTo (fun fuel => attrs.mapM fun entry => do
      return (entry.1, ← entry.2.transform (Element.wrapLink o) fuel)) (attributesWrapLinks o attrs)
  | [] => .ok
  | (_, value) :: rest =>
    .attributes_cons value.comesTo_wrapLinks (attributes_comesTo_wrapLinks rest)

theorem Attribute.comesTo_wrapLinks : (value : Attribute) →
    ComesTo (fun fuel => value.transform (Element.wrapLink o) fuel) (value.wrapLinks o)
  | .element content => .down (content.comesTo_wrapLinks.map _)
  | .constant _ => .down .ok
  | .dynamic _ => .down .ok
  | .raw _ => .down .ok
  | .imported _ => .down .ok
  | .expr _ => .down .ok
  | .object _ => .down .ok

end

end Walk

/-! ## What the walk comes to -/

/-- What the walk comes to in the tree that it changes. -/
inductive Visit where
  /-- The element that was put around one with a link. -/
  | around (e : Element)
  /-- An element of the tree itself. -/
  | itself (e : Element)

namespace Visit

/-- Whether the walk comes to an element that was put in. -/
def isAround : Visit → Bool
  | around _ => true
  | itself _ => false

/-- The element that another one was put around. -/
def wrapped? : Visit → Option Element
  | around e => some e
  | itself _ => none

/-- The element of the tree that the walk comes to. -/
def itself? : Visit → Option Element
  | around _ => none
  | itself e => some e

/-- What stands in the new tree where the walk came to something. -/
def Shows (o : Options) : Visit → Element → Prop
  | around e, x => ∃ link, e.link? = some link ∧
    (x.elementType = "link" ∨ x.elementType = "navlink") ∧
    x = { link.wrapper o e.key with children := [.element (e.carried o)] }
  | itself e, x => x = e.carried o

end Visit

/-- The elements that the walk comes to. -/
def reachedIn (visits : List Visit) : Multiset Element := visits.filterMap Visit.itself?

/-- The elements that the walk puts another one around. -/
def wrappedIn (visits : List Visit) : Multiset Element := visits.filterMap Visit.wrapped?

mutual

/-- What the walk comes to in a tree, in its order. -/
def Node.visits : Node → List Visit
  | .slot content => content.visits
  | .element content => content.visits
  | .conditional content => content.visits
  | .repetition content => content.visits
  | _ => []

/-- What the walk comes to in the fallback of a slot. -/
def Slot.visits : Slot → List Visit
  | ⟨_, none⟩ => []
  | ⟨_, some node⟩ => node.visits

/-- What the walk comes to in the body of a conditional. -/
def Conditional.visits : Conditional → List Visit
  | ⟨node, _, _, _⟩ => node.visits

/-- What the walk comes to in the body of a repetition. -/
def Repetition.visits : Repetition → List Visit
  | ⟨node, _, _⟩ => node.visits

/-- What the walk comes to in an element: first, if it has a link, the element around it and the
address of the link. -/
def Element.visits : Element → List Visit
  | ⟨key, elementType, name, semanticType, dependency, attrs, events, style, referencedStyles,
      none, children, selfClosing⟩ =>
    .itself ⟨key, elementType, name, semanticType, dependency, attrs, events, style,
      referencedStyles, none, children, selfClosing⟩ :: (attributesVisits attrs ++
        nodesVisits children)
  | ⟨key, elementType, name, semanticType, dependency, attrs, events, style, referencedStyles,
      some ⟨none⟩, children, selfClosing⟩ =>
    .itself ⟨key, elementType, name, semanticType, dependency, attrs, events, style,
      referencedStyles, some ⟨none⟩, children, selfClosing⟩ :: (attributesVisits attrs ++
        nodesVisits children)
  | ⟨key, elementType, name, semanticType, dependency, attrs, events, style, referencedStyles,
      some ⟨some link⟩, children, selfClosing⟩ =>
    .around ⟨key, elementType, name, semanticType, dependency, attrs, events, style,
      referencedStyles, some ⟨some link⟩, children, selfClosing⟩ :: (link.visits ++
      .itself ⟨key, elementType, name, semanticType, dependency, attrs, events, style,
        referencedStyles, some ⟨some link⟩, children, selfClosing⟩ :: (attributesVisits attrs ++
          nodesVisits children))

/-- What the walk comes to in the address of a link. -/
def LinkAbility.visits : LinkAbility → List Visit
  | .url address _ => address.visits
  | _ => []

/-- What the walk comes to in a list of nodes. -/
def nodesVisits : List Node → List Visit
  | [] => []
  | node :: rest => node.visits ++ nodesVisits rest

/-- What the walk comes to in a list of attributes. -/
def attributesVisits : List (String × Attribute) → List Visit
  | [] => []
  | (_, value) :: rest => value.visits ++ attributesVisits rest

/-- What the walk comes to in an attribute. -/
def Attribute.visits : Attribute → List Visit
  | .element content => content.visits
  | _ => []

end

/-- The walk comes to the elements that are authored and to those in the addresses of the links of
the elements it comes to. Each shows in the new tree, and another one around it if it has a link. -/
structure WrappedOnce (o : Options) (visits : List Visit) (authored after : List Element) :
    Prop where
  shows : List.Forall₂ (Visit.Shows o) visits after
  once : wrappedIn visits = (reachedIn visits).filter (·.link?.isSome)
  reached : reachedIn visits = (authored : Multiset Element) +
    (reachedIn visits).bind fun e => (e.addressElements : Multiset Element)

section WrappedOnce

variable (o : Options)

theorem reachedIn_append (visits others : List Visit) :
    reachedIn (visits ++ others) = reachedIn visits + reachedIn others := by
  rw [reachedIn, List.filterMap_append, ← Multiset.coe_add]
  rfl

theorem wrappedIn_append (visits others : List Visit) :
    wrappedIn (visits ++ others) = wrappedIn visits + wrappedIn others := by
  rw [wrappedIn, List.filterMap_append, ← Multiset.coe_add]
  rfl

@[simp] theorem reachedIn_itself (e : Element) (visits : List Visit) :
    reachedIn (.itself e :: visits) = e ::ₘ reachedIn visits := rfl

@[simp] theorem reachedIn_around (e : Element) (visits : List Visit) :
    reachedIn (.around e :: visits) = reachedIn visits := rfl

@[simp] theorem wrappedIn_itself (e : Element) (visits : List Visit) :
    wrappedIn (.itself e :: visits) = wrappedIn visits := rfl

@[simp] theorem wrappedIn_around (e : Element) (visits : List Visit) :
    wrappedIn (.around e :: visits) = e ::ₘ wrappedIn visits := rfl

theorem WrappedOnce.nil : WrappedOnce o [] [] [] := ⟨.nil, rfl, rfl⟩

variable {o} {visits visits' : List Visit} {authored authored' after after' : List Element}

theorem WrappedOnce.append (h : WrappedOnce o visits authored after)
    (h' : WrappedOnce o visits' authored' after') :
    WrappedOnce o (visits ++ visits') (authored ++ authored') (after ++ after') where
  shows := List.rel_append h.shows h'.shows
  once := by rw [wrappedIn_append, reachedIn_append, Multiset.filter_add, h.once, h'.once]
  reached := by
    rw [reachedIn_append, Multiset.add_bind, ← Multiset.coe_add, add_add_add_comm, ← h.reached,
      ← h'.reached]

/-- An element without a link shows by itself. -/
theorem WrappedOnce.itself {e : Element} (h : e.Unlinked)
    (below : WrappedOnce o visits authored after) :
    WrappedOnce o (.itself e :: visits) (e :: authored) (e.carried o :: after) where
  shows := .cons rfl below.shows
  once := by
    have hnone : ¬ e.link?.isSome := by rw [h, Option.isSome_none, Bool.not_eq_true]
    have hfilter : (e ::ₘ reachedIn visits).filter (·.link?.isSome) =
        (reachedIn visits).filter (·.link?.isSome) := Multiset.filter_cons_of_neg _ hnone
    rw [wrappedIn_itself, reachedIn_itself, hfilter, below.once]
  reached := by
    rw [reachedIn_itself, Multiset.cons_bind, Element.addressElements, h, Multiset.coe_nil,
      zero_add, ← Multiset.cons_coe, Multiset.cons_add, ← below.reached]

/-- An element with a link shows inside another one, behind the address of its link. -/
theorem WrappedOnce.around {e : Element} {link : LinkAbility} (h : e.link? = some link)
    (address : WrappedOnce o visits' link.addressElements authored')
    (below : WrappedOnce o visits authored after) :
    WrappedOnce o (.around e :: (visits' ++ .itself e :: visits)) (e :: authored)
      ({ link.wrapper o e.key with children := [.element (e.carried o)] } ::
        (authored' ++ e.carried o :: after)) where
  shows := .cons ⟨link, h, link.elementType_wrapper o e.key, rfl⟩
    (List.rel_append address.shows (.cons rfl below.shows))
  once := by
    have hsome : e.link?.isSome := by rw [h, Option.isSome_some]
    have hfilter : (e ::ₘ reachedIn visits).filter (·.link?.isSome) =
        e ::ₘ (reachedIn visits).filter (·.link?.isSome) := Multiset.filter_cons_of_pos _ hsome
    rw [wrappedIn_around, reachedIn_around, wrappedIn_append, reachedIn_append, wrappedIn_itself,
      reachedIn_itself, Multiset.filter_add, hfilter, address.once, below.once, Multiset.add_cons]
  reached := by
    have haddress : e.addressElements = link.addressElements := by rw [Element.addressElements, h]
    rw [reachedIn_around, reachedIn_append, reachedIn_itself, Multiset.add_bind, Multiset.cons_bind,
      haddress, ← Multiset.cons_coe, ← Multiset.singleton_add, ← Multiset.singleton_add e authored]
    calc reachedIn visits' + ({e} + reachedIn visits)
        = ((link.addressElements : Multiset Element) + (reachedIn visits').bind fun e =>
            (e.addressElements : Multiset Element)) +
          ({e} + ((authored : Multiset Element) + (reachedIn visits).bind fun e =>
            (e.addressElements : Multiset Element))) := by rw [← address.reached, ← below.reached]
      _ = _ := by abel

variable (o)

mutual

theorem Node.wrapLinks_once : (node : Node) →
    WrappedOnce o node.visits node.elements (node.wrapLinks o).elements
  | .slot content => content.wrapLinks_once
  | .element content => content.wrapLinks_once
  | .conditional content => content.wrapLinks_once
  | .repetition content => content.wrapLinks_once
  | .constant _ => .nil o
  | .dynamic _ => .nil o
  | .raw _ => .nil o
  | .inject _ => .nil o
  | .expr _ => .nil o

theorem Slot.wrapLinks_once : (slot : Slot) →
    WrappedOnce o slot.visits slot.elements (slot.wrapLinks o).elements
  | ⟨_, none⟩ => .nil o
  | ⟨_, some node⟩ => node.wrapLinks_once

theorem Conditional.wrapLinks_once : (q : Conditional) →
    WrappedOnce o q.visits q.elements (q.wrapLinks o).elements
  | ⟨node, _, _, _⟩ => node.wrapLinks_once

theorem Repetition.wrapLinks_once : (r : Repetition) →
    WrappedOnce o r.visits r.elements (r.wrapLinks o).elements
  | ⟨node, _, _⟩ => node.wrapLinks_once

theorem Element.wrapLinks_once : (e : Element) →
    WrappedOnce o e.visits e.elements (e.wrapLinks o).elements
  | ⟨_, _, _, _, _, attrs, _, _, _, none, children, _⟩ =>
    .itself rfl ((attributes_wrapLinks_once attrs).append (nodes_wrapLinks_once children))
  | ⟨_, _, _, _, _, attrs, _, _, _, some ⟨none⟩, children, _⟩ =>
    .itself rfl ((attributes_wrapLinks_once attrs).append (nodes_wrapLinks_once children))
  | ⟨key, elementType, name, semanticType, dependency, attrs, events, style, referencedStyles,
      some ⟨some link⟩, children, selfClosing⟩ => by
    have honce := WrappedOnce.around (e := ⟨key, elementType, name, semanticType, dependency,
      attrs, events, style, referencedStyles, some ⟨some link⟩, children, selfClosing⟩) rfl
      (link.wrapLinks_once key)
      ((attributes_wrapLinks_once attrs).append (nodes_wrapLinks_once children))
    rw [Element.wrapLinks_of_link o rfl]
    change WrappedOnce o _ _ (_ :: (_ ++ ((Node.element _).elements ++ [])))
    rw [List.append_nil]
    exact honce

theorem LinkAbility.wrapLinks_once : (link : LinkAbility) → (key : String) →
    WrappedOnce o link.visits link.addressElements (attributesElements (link.wrapper o key).attrs)
  | .url address newTab, key => by
    have hattrs : attributesElements ((LinkAbility.url address newTab).wrapper o key).attrs =
        (address.wrapLinks o).elements := by
      cases newTab <;> exact List.append_nil _
    rw [hattrs]
    exact address.wrapLinks_once
  | .anchor _, _ => .nil o
  | .route _, _ => .nil o
  | .mail _ _ _, _ => .nil o
  | .phone _, _ => .nil o

theorem nodes_wrapLinks_once : (nodes : List Node) →
    WrappedOnce o (nodesVisits nodes) (nodesElements nodes) (nodesElements (nodesWrapLinks o nodes))
  | [] => .nil o
  | node :: rest => node.wrapLinks_once.append (nodes_wrapLinks_once rest)

theorem attributes_wrapLinks_once : (attrs : List (String × Attribute)) →
    WrappedOnce o (attributesVisits attrs) (attributesElements attrs)
      (attributesElements (attributesWrapLinks o attrs))
  | [] => .nil o
  | (_, value) :: rest => value.wrapLinks_once.append (attributes_wrapLinks_once rest)

theorem Attribute.wrapLinks_once : (value : Attribute) →
    WrappedOnce o value.visits value.elements (value.wrapLinks o).elements
  | .element content => content.wrapLinks_once
  | .constant _ => .nil o
  | .dynamic _ => .nil o
  | .raw _ => .nil o
  | .imported _ => .nil o
  | .expr _ => .nil o
  | .object _ => .nil o

end

end WrappedOnce

/-! ## Taking elements out again -/

/-- The only child of an element, if that is an element. -/
def Element.onlyChild? (e : Element) : Option Element :=
  match e.children with
  | [.element child] => some child
  | _ => none

mutual

/-- Replace the marked elements of a tree by their only children. The marks are read off one after
the other, for one element after the other; what is left of them is answered, too. -/
def Node.unwrap : Node → List Bool → Node × List Bool
  | .slot content, marks =>
    let (content, marks) := content.unwrap marks
    (.slot content, marks)
  | .element content, marks =>
    let (content, marks) := content.unwrap marks
    (.element content, marks)
  | .conditional content, marks =>
    let (content, marks) := content.unwrap marks
    (.conditional content, marks)
  | .repetition content, marks =>
    let (content, marks) := content.unwrap marks
    (.repetition content, marks)
  | .constant value, marks => (.constant value, marks)
  | .dynamic reference, marks => (.dynamic reference, marks)
  | .raw text, marks => (.raw text, marks)
  | .inject text, marks => (.inject text, marks)
  | .expr text, marks => (.expr text, marks)

/-- Replace the marked elements in the fallback of a slot. -/
def Slot.unwrap : Slot → List Bool → Slot × List Bool
  | ⟨name, none⟩, marks => (⟨name, none⟩, marks)
  | ⟨name, some node⟩, marks =>
    let (node, marks) := node.unwrap marks
    (⟨name, some node⟩, marks)

/-- Replace the marked elements in the body of a conditional. -/
def Conditional.unwrap : Conditional → List Bool → Conditional × List Bool
  | ⟨node, reference, value, condition⟩, marks =>
    let (node, marks) := node.unwrap marks
    (⟨node, reference, value, condition⟩, marks)

/-- Replace the marked elements in the body of a repetition. -/
def Repetition.unwrap : Repetition → List Bool → Repetition × List Bool
  | ⟨node, source, names⟩, marks =>
    let (node, marks) := node.unwrap marks
    (⟨node, source, names⟩, marks)

/-- Replace the marked elements below an element, and the element if it is marked. -/
def Element.unwrap : Element → List Bool → Element × List Bool
  | ⟨key, elementType, name, semanticType, dependency, attrs, events, style, referencedStyles,
      abilities, children, selfClosing⟩, marks =>
    let (attrs, rest) := attributesUnwrap attrs marks.tail
    let (children, rest) := nodesUnwrap children rest
    let e : Element := ⟨key, elementType, name, semanticType, dependency, attrs, events, style,
      referencedStyles, abilities, children, selfClosing⟩
    (if marks.headD false then e.onlyChild?.getD e else e, rest)

/-- Replace the marked elements in a list of nodes. -/
def nodesUnwrap : List Node → List Bool → List Node × List Bool
  | [], marks => ([], marks)
  | node :: rest, marks =>
    let (node, marks) := node.unwrap marks
    let (rest, marks) := nodesUnwrap rest marks
    (node :: rest, marks)

/-- Replace the marked elements in a list of attributes. -/
def attributesUnwrap : List (String × Attribute) → List Bool →
    List (String × Attribute) × List Bool
  | [], marks => ([], marks)
  | (name, value) :: rest, marks =>
    let (value, marks) := value.unwrap marks
    let (rest, marks) := attributesUnwrap rest marks
    ((name, value) :: rest, marks)

/-- Replace the marked elements in an attribute. -/
def Attribute.unwrap : Attribute → List Bool → Attribute × List Bool
  | .element content, marks =>
    let (content, marks) := content.unwrap marks
    (.element content, marks)
  | .constant value, marks => (.constant value, marks)
  | .dynamic reference, marks => (.dynamic reference, marks)
  | .raw text, marks => (.raw text, marks)
  | .imported id, marks => (.imported id, marks)
  | .expr text, marks => (.expr text, marks)
  | .object value, marks => (.object value, marks)

end

/-- A visitor that takes the links of elements away. -/
def clearing : Visitor Id := .ofElement fun e => pure e.clearLink

/-- Which elements of the new tree were put in. -/
def marks (visits : List Visit) : List Bool := visits.map Visit.isAround

section Unwrap

variable (o : Options)

theorem marks_cons_append (visit : Visit) (visits : List Visit) (rest : List Bool) :
    marks (visit :: visits) ++ rest = visit.isAround :: (marks visits ++ rest) := rfl

theorem marks_append (visits others : List Visit) (rest : List Bool) :
    marks (visits ++ others) ++ rest = marks visits ++ (marks others ++ rest) := by
  rw [marks, List.map_append, List.append_assoc]
  rfl

theorem Element.unwrap_of_not_marked {e : Element} {attrs : Attributes} {children : List Node}
    {below between rest : List Bool} (hattrs : attributesUnwrap e.attrs below = (attrs, between))
    (hchildren : nodesUnwrap e.children between = (children, rest)) :
    e.unwrap (false :: below) = ({ e with attrs, children }, rest) := by
  cases e
  rw [Element.unwrap, List.tail_cons, hattrs]
  dsimp only
  rw [hchildren]
  rfl

theorem Element.unwrap_of_marked {e child child' : Element} {below between rest : List Bool}
    (hattrs : (attributesUnwrap e.attrs below).2 = between)
    (hchild : child.unwrap between = (child', rest)) :
    { e with children := [.element child] }.unwrap (true :: below) = (child', rest) := by
  rw [Element.unwrap, List.tail_cons]
  dsimp only
  rw [hattrs, nodesUnwrap, Node.unwrap, hchild]
  rfl

mutual

theorem Node.unwrap_wrapLinks : (node : Node) → (rest : List Bool) →
    (node.wrapLinks o).unwrap (marks node.visits ++ rest) = (Id.run (node.updateM clearing), rest)
  | .slot content, rest => by
    rw [Node.wrapLinks, Node.unwrap, Node.visits, content.unwrap_wrapLinks]
    rfl
  | .element content, rest => by
    rw [Node.wrapLinks, Node.unwrap, Node.visits, content.unwrap_wrapLinks]
    rfl
  | .conditional content, rest => by
    rw [Node.wrapLinks, Node.unwrap, Node.visits, content.unwrap_wrapLinks]
    rfl
  | .repetition content, rest => by
    rw [Node.wrapLinks, Node.unwrap, Node.visits, content.unwrap_wrapLinks]
    rfl
  | .constant _, _ => rfl
  | .dynamic _, _ => rfl
  | .raw _, _ => rfl
  | .inject _, _ => rfl
  | .expr _, _ => rfl

theorem Slot.unwrap_wrapLinks : (slot : Slot) → (rest : List Bool) →
    (slot.wrapLinks o).unwrap (marks slot.visits ++ rest) = (Id.run (slot.updateM clearing), rest)
  | ⟨_, none⟩, _ => rfl
  | ⟨_, some node⟩, rest => by
    rw [Slot.wrapLinks, Slot.unwrap, Slot.visits, node.unwrap_wrapLinks]
    rfl

theorem Conditional.unwrap_wrapLinks : (q : Conditional) → (rest : List Bool) →
    (q.wrapLinks o).unwrap (marks q.visits ++ rest) = (Id.run (q.updateM clearing), rest)
  | ⟨node, _, _, _⟩, rest => by
    rw [Conditional.wrapLinks, Conditional.unwrap, Conditional.visits, node.unwrap_wrapLinks]
    rfl

theorem Repetition.unwrap_wrapLinks : (r : Repetition) → (rest : List Bool) →
    (r.wrapLinks o).unwrap (marks r.visits ++ rest) = (Id.run (r.updateM clearing), rest)
  | ⟨node, _, _⟩, rest => by
    rw [Repetition.wrapLinks, Repetition.unwrap, Repetition.visits, node.unwrap_wrapLinks]
    rfl

theorem Element.unwrap_wrapLinks : (e : Element) → (rest : List Bool) →
    (e.wrapLinks o).unwrap (marks e.visits ++ rest) = (Id.run (e.updateM clearing), rest)
  | ⟨_, _, _, _, _, attrs, _, _, _, none, children, _⟩, rest => by
    rw [Element.visits, marks_cons_append, marks_append]
    exact Element.unwrap_of_not_marked (attributes_unwrap_wrapLinks attrs _)
      (nodes_unwrap_wrapLinks children _)
  | ⟨_, _, _, _, _, attrs, _, _, _, some ⟨none⟩, children, _⟩, rest => by
    rw [Element.visits, marks_cons_append, marks_append]
    exact Element.unwrap_of_not_marked (attributes_unwrap_wrapLinks attrs _)
      (nodes_unwrap_wrapLinks children _)
  | ⟨key, elementType, name, semanticType, dependency, attrs, events, style, referencedStyles,
      some ⟨some link⟩, children, selfClosing⟩, rest => by
    rw [Element.wrapLinks_of_link o rfl, Element.visits, marks_cons_append, marks_append,
      marks_cons_append, marks_append]
    exact Element.unwrap_of_marked (link.unwrap_wrapper key _) <|
      Element.unwrap_of_not_marked (attributes_unwrap_wrapLinks attrs _)
        (nodes_unwrap_wrapLinks children _)

theorem LinkAbility.unwrap_wrapper : (link : LinkAbility) → (key : String) → (rest : List Bool) →
    (attributesUnwrap (link.wrapper o key).attrs (marks link.visits ++ rest)).2 = rest
  | .url address newTab, key, rest => by
    have hleft (given : List Bool) :
        (attributesUnwrap ((LinkAbility.url address newTab).wrapper o key).attrs given).2 =
          ((address.wrapLinks o).unwrap given).2 := by
      cases newTab <;> rfl
    rw [hleft, LinkAbility.visits, address.unwrap_wrapLinks]
  | .anchor _, _, _ => rfl
  | .route _, _, _ => rfl
  | .mail _ _ _, _, _ => rfl
  | .phone _, _, _ => rfl

theorem nodes_unwrap_wrapLinks : (nodes : List Node) → (rest : List Bool) →
    nodesUnwrap (nodesWrapLinks o nodes) (marks (nodesVisits nodes) ++ rest) =
      (Id.run (nodesUpdateM clearing nodes), rest)
  | [], _ => rfl
  | node :: others, rest => by
    rw [nodesWrapLinks, nodesUnwrap, nodesVisits, marks_append, node.unwrap_wrapLinks]
    dsimp only
    rw [nodes_unwrap_wrapLinks others]
    rfl

theorem attributes_unwrap_wrapLinks : (attrs : List (String × Attribute)) → (rest : List Bool) →
    attributesUnwrap (attributesWrapLinks o attrs) (marks (attributesVisits attrs) ++ rest) =
      (Id.run (attributesUpdateM clearing attrs), rest)
  | [], _ => rfl
  | (_, value) :: others, rest => by
    rw [attributesWrapLinks, attributesUnwrap, attributesVisits, marks_append,
      value.unwrap_wrapLinks]
    dsimp only
    rw [attributes_unwrap_wrapLinks others]
    rfl

theorem Attribute.unwrap_wrapLinks : (value : Attribute) → (rest : List Bool) →
    (value.wrapLinks o).unwrap (marks value.visits ++ rest) =
      (Id.run (value.updateM clearing), rest)
  | .element content, rest => by
    rw [Attribute.wrapLinks, Attribute.unwrap, Attribute.visits, content.unwrap_wrapLinks]
    rfl
  | .constant _, _ => rfl
  | .dynamic _, _ => rfl
  | .raw _, _ => rfl
  | .imported _, _ => rfl
  | .expr _, _ => rfl
  | .object _, _ => rfl

end

end Unwrap

example : marks (Element.visits
    { elementType := "image"
      abilities := some ⟨some (.url (.element
        { elementType := "text", abilities := some ⟨some (.anchor "top")⟩ }) false)⟩ }) =
    [true, true, false, false] := rfl

/-! ## Components -/

/-- **Elements are put around those with links.** The walk through the tree of a component ends.
Every element it comes to, also in the address of a link, shows in the new tree, inside exactly one
new element if it has a link; nothing else is new. Without the new elements the tree is the old one
but for the links, and there is nothing left to do for another walk, whatever the options. -/
theorem linkStep_exact (c : Component) (o : Options) :
    ∃ node, linkStep c o = .ok { c with node } ∧
      c.node.Becomes (Element.wrapLink o) node ∧
      WrappedOnce o c.node.visits c.node.elements node.elements ∧
      node.unwrap (marks c.node.visits) = (c.node.mapElements Element.clearLink, []) ∧
      ∀ more : List Options, more.foldlM linkStep { c with node } = .ok { c with node } := by
  refine ⟨c.node.wrapLinks o, rfl, ?_, c.node.wrapLinks_once o, ?_, fun more => ?_⟩
  · obtain ⟨enough, h⟩ := c.node.comesTo_wrapLinks o
    exact ⟨enough, h enough le_rfl⟩
  · have hunwrap := c.node.unwrap_wrapLinks o []
    rwa [List.append_nil] at hunwrap
  · induction more with
    | nil => rfl
    | cons o' rest ih =>
      have hsteady : (c.node.wrapLinks o).wrapLinks o' = c.node.wrapLinks o :=
        Node.wrapLinks_eq o' _ (c.node.unlinked_wrapLinks o)
      rw [List.foldlM_cons, linkStep, Component.wrapLinks, hsteady]
      exact ih

end PageCompiler
