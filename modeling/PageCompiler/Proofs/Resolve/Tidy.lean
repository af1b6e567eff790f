import PageCompiler.Mapping.Targets
import PageCompiler.Proofs.Document.Tidy
import PageCompiler.Proofs.Document.Walk
import PageCompiler.Proofs.Resolve.Passes
import PageCompiler.Resolve.Component

/-!
# Resolving keeps documents tidy

Every step of a resolution makes a tidy component of a tidy one. The walks do so as far as the
changes of their elements do (`Node.transform_tidy`, `Node.updateM_tidy`); what a change adds is in
order already (`Element.applyMapping_tidy`) or is put in order (`parseFragment_tidy`).

* `Mapping.Tidy`: what a mapping puts into a tree is tidy; so it is of a mapping that was read, of
  the built-in ones and of mappings that were merged.
* `Component.resolveWith_tidy`: the steps in a row.
-/

namespace PageCompiler

/-! ## Tables -/

namespace Dict.Tidy

variable {α β : Type} {P : α → Prop} {Q : β → Prop} {d : Dict α}

theorem mapValues {f : α → β} (h : Dict.Tidy P d) (hf : ∀ x, P x → Q (f x)) :
    Dict.Tidy Q (Dict.mapValues f d) :=
  ⟨h.1.of_keys (Dict.keys_mapValues f d),
    List.forall_mem_map.2 fun entry hentry => hf entry.2 (h.2 entry hentry)⟩

theorem ofList {entries : List (String × α)} (h : ∀ entry ∈ entries, P entry.2) :
    Dict.Tidy P (Dict.ofList entries) :=
  ⟨Dict.sorted_ofList entries, fun entry hentry => h entry (Dict.mem_ofList hentry)⟩

theorem insert (h : Dict.Tidy P d) {key : String} {value : α} (hvalue : P value) :
    Dict.Tidy P (Dict.insert d key value) :=
  ⟨h.1.insert key value, forall_insert h.2 hvalue⟩

theorem erase (h : Dict.Tidy P d) (key : String) : Dict.Tidy P (Dict.erase d key) :=
  ⟨h.1.filter _, forall_erase h.2⟩

theorem insertNew (h : Dict.Tidy P d) (key : String) {value : α} (hvalue : P value) :
    Dict.Tidy P (Dict.insertNew d key value) := by
  rw [Dict.insertNew]
  split
  · exact h
  · exact h.insert hvalue

theorem modify (h : Dict.Tidy P d) (key : String) {f : α → α} (hf : ∀ x, P x → P (f x)) :
    Dict.Tidy P (Dict.modify d key f) := by
  have hkeys : Dict.keys (Dict.modify d key f) = Dict.keys d := by
    rw [Dict.keys, Dict.modify, List.map_map]
    refine List.map_congr_left fun entry _ => ?_
    rw [Function.comp_apply]
    split <;> rfl
  refine ⟨h.1.of_keys hkeys, List.forall_mem_map.2 fun entry hentry => ?_⟩
  split
  · exact hf entry.2 (h.2 entry hentry)
  · exact h.2 entry hentry

/-- Changes of a table, one after the other. -/
theorem foldl {γ : Type} {change : Dict α → γ → Dict α} {l : List γ} (h : Dict.Tidy P d)
    (hchange : ∀ x ∈ l, ∀ d, Dict.Tidy P d → Dict.Tidy P (change d x)) :
    Dict.Tidy P (l.foldl change d) := by
  induction l generalizing d with
  | nil => exact h
  | cons x rest ih =>
    rw [List.forall_mem_cons] at hchange
    exact ih (hchange.1 d h) hchange.2

theorem renameEntries (h : Dict.Tidy P d) (names : Dict String) :
    Dict.Tidy P (renameEntries d names) := by
  refine h.foldl fun name _ d hd => ?_
  rw [renameEntry]
  split
  · rename_i value hvalue
    exact (hd.erase _).insert (hd.2 _ (Dict.mem_of_get? hvalue))
  · exact hd

end Dict.Tidy

/-! ## Results of a computation -/

section Returns

variable {m : Type → Type} [Monad m] [LawfulMonad m] {α β : Type} {P : α → Prop} {Q : β → Prop}

theorem Returns.mono {P' : α → Prop} {x : m α} (h : Returns P x) (hP : ∀ a, P a → P' a) :
    Returns P' x := by
  rw [← bind_pure x]
  exact h.bind fun a ha => .pure (hP a ha)

theorem Returns.of_error {d : Diagnostic} : Returns P (.error d : Except Diagnostic α) :=
  ⟨.error d, rfl⟩

theorem Returns.except {x : Except Diagnostic α} {a : α} (h : Returns P x) (hx : x = .ok a) :
    P a := by
  obtain ⟨y, rfl⟩ := h
  cases y with
  | error d => cases hx
  | ok y =>
    cases hx
    exact y.2

theorem Returns.of_except {x : Except Diagnostic α} (h : ∀ a, x = .ok a → P a) : Returns P x := by
  cases x with
  | error d => exact .of_error
  | ok a => exact .pure (h a rfl)

theorem Returns.mapM {g : α → m β} {l : List α} (h : ∀ a ∈ l, Returns Q (g a)) :
    Returns (fun results => ∀ b ∈ results, Q b) (l.mapM g) := by
  induction l with
  | nil => exact .pure (List.forall_mem_nil _)
  | cons a rest ih =>
    rw [List.forall_mem_cons] at h
    rw [List.mapM_cons]
    exact h.1.bind fun b hb => (ih h.2).bind fun bs hbs => .pure (List.forall_mem_cons.2 ⟨hb, hbs⟩)

/-- What is computed of the entries of a table, under the same keys. -/
theorem Returns.table {g : α → m β} {d : Dict α} (h : Dict.Tidy P d)
    (hg : ∀ a, P a → Returns Q (g a)) :
    Returns (Dict.Tidy Q) (d.mapM fun entry => do return (entry.1, ← g entry.2)) := by
  have hentries : ∀ d : Dict α, (∀ entry ∈ d, P entry.2) → Returns
      (fun d' : Dict β => Dict.keys d' = Dict.keys d ∧ ∀ entry ∈ d', Q entry.2)
      (d.mapM fun entry => do return (entry.1, ← g entry.2)) := by
    intro d hd
    induction d with
    | nil => exact .pure ⟨rfl, List.forall_mem_nil _⟩
    | cons entry rest ih =>
      rw [List.forall_mem_cons] at hd
      rw [List.mapM_cons]
      refine Returns.bind (P := fun entry' => entry'.1 = entry.1 ∧ Q entry'.2)
        ((hg _ hd.1).bind fun b hb => .pure ⟨rfl, hb⟩) fun entry' hentry' => ?_
      refine (ih hd.2).bind fun rest' hrest' => .pure ⟨?_, ?_⟩
      · exact congrArg₂ List.cons hentry'.1 hrest'.1
      · exact List.forall_mem_cons.2 ⟨hentry'.2, hrest'.2⟩
  exact (hentries d h.2).mono fun d' hd' => ⟨h.1.of_keys hd'.1, hd'.2⟩

end Returns

/-! ## Walks -/

section Walks

theorem Element.Tidy.attrs_tidy {e : Element} (h : e.Tidy) : Dict.Tidy Attribute.Tidy e.attrs :=
  have ⟨htables, hattrs, _⟩ := Element.tidy_iff.1 h
  ⟨htables.attrs, hattrs⟩

theorem Element.Tidy.children_tidy {e : Element} (h : e.Tidy) : ∀ node ∈ e.children, node.Tidy :=
  (Element.tidy_iff.1 h).2.2.2

/-- Other tidy parts below a tidy element. -/
theorem Element.Tidy.withParts {e : Element} (h : e.Tidy) {attrs : Attributes}
    {children : List Node} (hattrs : Dict.Tidy Attribute.Tidy attrs)
    (hchildren : ∀ node ∈ children, node.Tidy) : Element.Tidy { e with attrs, children } := by
  obtain ⟨htables, -, habilities, -⟩ := Element.tidy_iff.1 h
  exact Element.tidy_iff.2 ⟨{ htables with attrs := hattrs.1 }, hattrs.2, habilities, hchildren⟩

variable {f : Element → Element}

mutual

/-- A walk that changes elements before it enters them keeps a tree tidy when its change does so. -/
theorem Node.transform_tidy (hf : ∀ e : Element, e.Tidy → (f e).Tidy) : (fuel : ℕ) →
    (node : Node) → node.Tidy → Returns Node.Tidy (node.transform f fuel)
  | 0, _, _ => .of_error
  | fuel + 1, .slot content, h => (content.transform_tidy hf fuel h).bind fun _ h => .pure h
  | fuel + 1, .element content, h => (content.transform_tidy hf fuel h).bind fun _ h => .pure h
  | fuel + 1, .conditional content, h => (content.transform_tidy hf fuel h).bind fun _ h => .pure h
  | fuel + 1, .repetition content, h => (content.transform_tidy hf fuel h).bind fun _ h => .pure h
  | _ + 1, .constant _, _ => .pure trivial
  | _ + 1, .dynamic _, _ => .pure trivial
  | _ + 1, .raw _, _ => .pure trivial
  | _ + 1, .inject _, _ => .pure trivial
  | _ + 1, .expr _, _ => .pure trivial

theorem Slot.transform_tidy (hf : ∀ e : Element, e.Tidy → (f e).Tidy) : (fuel : ℕ) →
    (slot : Slot) → slot.Tidy → Returns Slot.Tidy (slot.transform f fuel)
  | 0, _, _ => .of_error
  | _ + 1, ⟨_, none⟩, _ => .pure trivial
  | fuel + 1, ⟨_, some node⟩, h => (node.transform_tidy hf fuel h).bind fun _ h => .pure h

theorem Conditional.transform_tidy (hf : ∀ e : Element, e.Tidy → (f e).Tidy) : (fuel : ℕ) →
    (q : Conditional) → q.Tidy → Returns Conditional.Tidy (q.transform f fuel)
  | 0, _, _ => .of_error
  | fuel + 1, ⟨node, _, _, _⟩, h => (node.transform_tidy hf fuel h.1).bind fun _ hnode =>
    .pure ⟨hnode, h.2⟩

theorem Repetition.transform_tidy (hf : ∀ e : Element, e.Tidy → (f e).Tidy) : (fuel : ℕ) →
    (r : Repetition) → r.Tidy → Returns Repetition.Tidy (r.transform f fuel)
  | 0, _, _ => .of_error
  | fuel + 1, ⟨node, _, _⟩, h => (node.transform_tidy hf fuel h.1).bind fun _ hnode =>
    .pure ⟨hnode, h.2⟩

theorem Element.transform_tidy (hf : ∀ e : Element, e.Tidy → (f e).Tidy) : (fuel : ℕ) →
    (e : Element) → e.Tidy → Returns Element.Tidy (e.transform f fuel)
  | 0, _, _ => .of_error
  | fuel + 1, e, h => by
    have he := hf e h
    refine (Returns.table he.attrs_tidy (Attribute.transform_tidy hf fuel)).bind fun attrs hattrs =>
      (Returns.mapM fun node hnode => ?_).bind fun children hchildren =>
        .pure (he.withParts hattrs hchildren)
    exact node.transform_tidy hf fuel (he.children_tidy node hnode)

theorem Attribute.transform_tidy (hf : ∀ e : Element, e.Tidy → (f e).Tidy) : (fuel : ℕ) →
    (value : Attribute) → value.Tidy → Returns Attribute.Tidy (value.transform f fuel)
  | 0, _, _ => .of_error
  | fuel + 1, .element content, h => (content.transform_tidy hf fuel h).bind fun _ h => .pure h
  | _ + 1, .constant _, _ => .pure trivial
  | _ + 1, .dynamic _, _ => .pure trivial
  | _ + 1, .raw _, _ => .pure trivial
  | _ + 1, .imported _, _ => .pure trivial
  | _ + 1, .expr _, _ => .pure trivial
  | _ + 1, .object _, h => .pure h

end

variable {m : Type → Type} [Monad m] {v : Visitor m}

/-- A visitor makes tidy elements of tidy ones. -/
def Visitor.KeepsTidy (v : Visitor m) : Prop :=
  ∀ e : Element, e.Tidy → Returns Element.Tidy (v.element e)

variable [LawfulMonad m]

mutual

/-- A walk keeps a tree tidy when its visitor does so. -/
theorem Node.updateM_tidy (hv : v.KeepsTidy) : (node : Node) → node.Tidy →
    Returns Node.Tidy (node.updateM v)
  | .slot content, h => (content.updateM_tidy hv h).bind fun _ h => .pure h
  | .element content, h => (content.updateM_tidy hv h).bind fun _ h => .pure h
  | .conditional content, h => (content.updateM_tidy hv h).bind fun _ h => .pure h
  | .repetition content, h => (content.updateM_tidy hv h).bind fun _ h => .pure h
  | .constant _, _ => .pure trivial
  | .dynamic _, _ => .pure trivial
  | .raw _, _ => .pure trivial
  | .inject _, _ => .pure trivial
  | .expr _, _ => .pure trivial

theorem Slot.updateM_tidy (hv : v.KeepsTidy) : (slot : Slot) → slot.Tidy →
    Returns Slot.Tidy (slot.updateM v)
  | ⟨_, none⟩, _ => .pure trivial
  | ⟨_, some node⟩, h => (node.updateM_tidy hv h).bind fun _ h => .pure h

theorem Conditional.updateM_tidy (hv : v.KeepsTidy) : (q : Conditional) → q.Tidy →
    Returns Conditional.Tidy (q.updateM v)
  | ⟨node, _, _, _⟩, h => (node.updateM_tidy hv h.1).bind fun _ hnode => .pure ⟨hnode, h.2⟩

theorem Repetition.updateM_tidy (hv : v.KeepsTidy) : (r : Repetition) → r.Tidy →
    Returns Repetition.Tidy (r.updateM v)
  | ⟨node, _, _⟩, h => (Returns.any _).bind fun _ _ =>
    (node.updateM_tidy hv h.1).bind fun _ hnode => .pure ⟨hnode, h.2⟩

theorem Element.updateM_tidy (hv : v.KeepsTidy) : (e : Element) → e.Tidy →
    Returns Element.Tidy (e.updateM v)
  | ⟨key, elementType, name, semanticType, dependency, attrs, events, style, referencedStyles,
      abilities, children, selfClosing⟩, h => by
    refine (hv _ h).bind fun e he => (attributesUpdateM_tidy hv attrs h.2.1).bind
      fun attrs' hattrs => (nodesUpdateM_tidy hv children h.2.2.2).bind fun children' hchildren =>
        .pure (he.withParts ⟨h.1.attrs.of_keys hattrs.1, ?_⟩ (nodesTidy_iff.1 hchildren))
    exact attributesTidy_iff.1 hattrs.2

theorem nodesUpdateM_tidy (hv : v.KeepsTidy) : (nodes : List Node) → nodesTidy nodes →
    Returns nodesTidy (nodesUpdateM v nodes)
  | [], _ => .pure trivial
  | node :: rest, h => (node.updateM_tidy hv h.1).bind fun _ hnode =>
    (nodesUpdateM_tidy hv rest h.2).bind fun _ hrest => .pure ⟨hnode, hrest⟩

theorem attributesUpdateM_tidy (hv : v.KeepsTidy) : (attrs : List (String × Attribute)) →
    attributesTidy attrs → Returns
      (fun attrs' : Attributes => Dict.keys attrs' = Dict.keys attrs ∧ attributesTidy attrs')
      (attributesUpdateM v attrs)
  | [], _ => .pure ⟨rfl, trivial⟩
  | (name, value) :: rest, h => (value.updateM_tidy hv h.1).bind fun _ hvalue =>
    (attributesUpdateM_tidy hv rest h.2).bind fun _ hrest =>
      .pure ⟨congrArg (name :: ·) hrest.1, hvalue, hrest.2⟩

theorem Attribute.updateM_tidy (hv : v.KeepsTidy) : (value : Attribute) → value.Tidy →
    Returns Attribute.Tidy (value.updateM v)
  | .element content, h => (content.updateM_tidy hv h).bind fun _ h => .pure h
  | .constant _, _ => .pure trivial
  | .dynamic _, _ => .pure trivial
  | .raw _, _ => .pure trivial
  | .imported _, _ => .pure trivial
  | .expr _, _ => .pure trivial
  | .object _, h => .pure h

end

end Walks

/-! ## Links -/

/-- An element without styles, events and abilities. -/
theorem Element.tidy_of_parts {e : Element} (hevents : e.events = []) (hstyle : e.style = [])
    (hreferenced : e.referencedStyles = []) (habilities : e.abilities = none)
    (hattrs : Dict.Tidy Attribute.Tidy e.attrs) (hchildren : ∀ node ∈ e.children, node.Tidy) :
    e.Tidy := by
  refine Element.tidy_iff.2 ⟨⟨hattrs.1, ?_, ?_, ?_⟩, hattrs.2, ?_, hchildren⟩
  · rw [hevents]
    exact ⟨.nil, List.forall_mem_nil _⟩
  · rw [hstyle]
    exact .nil
  · rw [hreferenced]
    exact ⟨.nil, List.forall_mem_nil _⟩
  · rw [habilities]
    trivial

theorem tidy_linkElement (key : String) {attrs : Attributes}
    (h : Dict.Tidy Attribute.Tidy attrs) : (linkElement key attrs).Tidy :=
  Element.tidy_of_parts rfl rfl rfl rfl h (List.forall_mem_nil _)

theorem Dict.tidy_singleton {α : Type} {P : α → Prop} (key : String) {value : α} (h : P value) :
    Dict.Tidy P [(key, value)] :=
  ⟨List.pairwise_singleton _ _, List.forall_mem_singleton.2 h⟩

section Links

variable (o : Options)

mutual

/-- An element that is put around another one is tidy. -/
theorem Node.wrapLinks_tidy : (node : Node) → node.Tidy → (node.wrapLinks o).Tidy
  | .slot content, h => content.wrapLinks_tidy h
  | .element content, h => content.wrapLinks_tidy h
  | .conditional content, h => content.wrapLinks_tidy h
  | .repetition content, h => content.wrapLinks_tidy h
  | .constant _, _ => trivial
  | .dynamic _, _ => trivial
  | .raw _, _ => trivial
  | .inject _, _ => trivial
  | .expr _, _ => trivial

theorem Slot.wrapLinks_tidy : (slot : Slot) → slot.Tidy → (slot.wrapLinks o).Tidy
  | ⟨_, none⟩, _ => trivial
  | ⟨_, some node⟩, h => node.wrapLinks_tidy h

theorem Conditional.wrapLinks_tidy : (q : Conditional) → q.Tidy → (q.wrapLinks o).Tidy
  | ⟨node, _, _, _⟩, h => ⟨node.wrapLinks_tidy h.1, h.2⟩

theorem Repetition.wrapLinks_tidy : (r : Repetition) → r.Tidy → (r.wrapLinks o).Tidy
  | ⟨node, _, _⟩, h => ⟨node.wrapLinks_tidy h.1, h.2⟩

theorem Element.wrapLinks_tidy : (e : Element) → e.Tidy → (e.wrapLinks o).Tidy
  | ⟨key, elementType, name, semanticType, dependency, attrs, events, style, referencedStyles,
      none, children, selfClosing⟩, ⟨htables, hattrs, _, hchildren⟩ => by
    obtain ⟨hkeys, hattrs⟩ := attributesWrapLinks_tidy attrs hattrs
    exact ⟨{ htables with attrs := htables.attrs.of_keys hkeys }, hattrs, trivial,
      nodesWrapLinks_tidy children hchildren⟩
  | ⟨key, elementType, name, semanticType, dependency, attrs, events, style, referencedStyles,
      some ⟨none⟩, children, selfClosing⟩, ⟨htables, hattrs, _, hchildren⟩ => by
    obtain ⟨hkeys, hattrs⟩ := attributesWrapLinks_tidy attrs hattrs
    exact ⟨{ htables with attrs := htables.attrs.of_keys hkeys }, hattrs, trivial,
      nodesWrapLinks_tidy children hchildren⟩
  | ⟨key, elementType, name, semanticType, dependency, attrs, events, style, referencedStyles,
      some ⟨some link⟩, children, selfClosing⟩, ⟨htables, hattrs, hlink, hchildren⟩ => by
    obtain ⟨hkeys, hattrs⟩ := attributesWrapLinks_tidy attrs hattrs
    have hwrapper := link.wrapper_tidy key hlink
    refine hwrapper.withParts hwrapper.attrs_tidy (List.forall_mem_singleton.2 ?_)
    exact ⟨{ htables with attrs := htables.attrs.of_keys hkeys }, hattrs, trivial,
      nodesWrapLinks_tidy children hchildren⟩

theorem LinkAbility.wrapper_tidy : (link : LinkAbility) → (key : String) → link.Tidy →
    (link.wrapper o key).Tidy
  | .url address newTab, key, h => by
    have haddress := address.wrapLinks_tidy h
    refine tidy_linkElement key ?_
    cases newTab with
    | false => exact Dict.tidy_singleton "url" haddress
    | true =>
      have hsorted : ["rel", "target", "url"].Pairwise (· < ·) := by decide
      exact ⟨Dict.sorted_iff.2 hsorted, List.forall_mem_cons.2 ⟨trivial,
        List.forall_mem_cons.2 ⟨trivial, List.forall_mem_singleton.2 haddress⟩⟩⟩
  | .anchor _, key, _ => tidy_linkElement key (Dict.tidy_singleton _ trivial)
  | .route _, _, _ =>
    Element.tidy_of_parts rfl rfl rfl rfl (Dict.tidy_singleton _ trivial) (List.forall_mem_nil _)
  | .mail _ _ _, key, _ => tidy_linkElement key (Dict.tidy_singleton _ trivial)
  | .phone _, key, _ => tidy_linkElement key (Dict.tidy_singleton _ trivial)

theorem nodesWrapLinks_tidy : (nodes : List Node) → nodesTidy nodes →
    nodesTidy (nodesWrapLinks o nodes)
  | [], _ => trivial
  | node :: rest, h => ⟨node.wrapLinks_tidy h.1, nodesWrapLinks_tidy rest h.2⟩

theorem attributesWrapLinks_tidy : (attrs : List (String × Attribute)) → attributesTidy attrs →
    Dict.keys (attributesWrapLinks o attrs) = Dict.keys attrs ∧
      attributesTidy (attributesWrapLinks o attrs)
  | [], _ => ⟨rfl, trivial⟩
  | (name, value) :: rest, h =>
    have ⟨hkeys, hrest⟩ := attributesWrapLinks_tidy rest h.2
    ⟨congrArg (name :: ·) hkeys, value.wrapLinks_tidy h.1, hrest⟩

theorem Attribute.wrapLinks_tidy : (value : Attribute) → value.Tidy → (value.wrapLinks o).Tidy
  | .element content, h => content.wrapLinks_tidy h
  | .constant _, _ => trivial
  | .dynamic _, _ => trivial
  | .raw _, _ => trivial
  | .imported _, _ => trivial
  | .expr _, _ => trivial
  | .object _, h => h

end

end Links

/-! ## Embedded markup -/

mutual

theorem Html.Dom.toNode_tidy : (piece : Html.Dom) → ∀ node ∈ piece.toNode?, node.Tidy
  | .text s => by
    intro node hnode
    rw [Html.Dom.toNode?] at hnode
    split at hnode
    · cases hnode
    · cases hnode
      trivial
  | .comment => fun _ h => by cases h
  | .element name attrs children => by
    intro node hnode
    cases hnode
    refine Element.tidy_of_parts rfl rfl rfl rfl (.ofList ?_) ?_
    · exact List.forall_mem_map.2 fun _ _ => trivial
    · dsimp only
      split
      · exact List.forall_mem_singleton.2 trivial
      · exact domNodes_tidy children

theorem domNodes_tidy : (pieces : List Html.Dom) → ∀ node ∈ domNodes pieces, node.Tidy
  | [] => fun _ h => by cases h
  | piece :: rest => List.forall_mem_append.2
    ⟨fun node hnode => piece.toNode_tidy node (Option.mem_toList.1 hnode), domNodes_tidy rest⟩

end

mutual

theorem Html.Dom.contents_tidy : (piece : Html.Dom) → ∀ node ∈ piece.contents, node.Tidy
  | .element name attrs children => by
    rw [Html.Dom.contents]
    split
    · exact domContents_tidy children
    · exact fun node hnode => Html.Dom.toNode_tidy _ node (Option.mem_toList.1 hnode)
  | .text s => fun node hnode => Html.Dom.toNode_tidy _ node (Option.mem_toList.1 hnode)
  | .comment => fun _ h => by cases h

theorem domContents_tidy : (pieces : List Html.Dom) → ∀ node ∈ domContents pieces, node.Tidy
  | [] => fun _ h => by cases h
  | piece :: rest => List.forall_mem_append.2 ⟨piece.contents_tidy, domContents_tidy rest⟩

end

/-- The nodes of a text of markup are tidy. -/
theorem parseFragment_tidy (html : String) : ∀ node ∈ parseFragment html, node.Tidy :=
  domContents_tidy _

theorem Element.embed_tidy {e : Element} (h : e.Tidy) : e.embed.Tidy := by
  rw [embed]
  split
  · exact h.withParts (h.attrs_tidy.erase "html") (parseFragment_tidy _)
  · exact h

/-! ## Mappings -/

/-- What an entry of a mapping puts into an element is tidy. -/
structure ElementMapping.Tidy (m : ElementMapping) : Prop where
  attrs : ∀ entry ∈ m.attrs, entry.2.Tidy
  events : ∀ entry ∈ m.events, ∀ handler ∈ entry.2, handler.Tidy
  children : ∀ template ∈ m.children, ∀ node ∈ template, node.Tidy

/-- What a mapping puts into a tree is tidy. -/
def Mapping.Tidy (mapping : Mapping) : Prop := ∀ entry ∈ mapping.elements, entry.2.Tidy

theorem Mapping.Tidy.merge {base later : Mapping} (hbase : base.Tidy) (hlater : later.Tidy) :
    (base.merge later).Tidy :=
  fun entry hentry => (Dict.mem_merge hentry).elim (hbase entry) (hlater entry)

theorem Options.effectiveMapping_tidy {o : Options} {base : Mapping} (hbase : base.Tidy)
    (hown : ∀ own ∈ o.mapping, own.Tidy) : (o.effectiveMapping base).Tidy := by
  rw [effectiveMapping]
  split
  · exact hbase.merge (hown _ ‹_›)
  · exact hbase

open Json in
/-- A mapping that was read is tidy. -/
theorem Mapping.tidy_of_read {j : Json} {mapping : Mapping} (hj : j.NoRepeats)
    (h : Mapping.ofJson? j = some mapping) : mapping.Tidy := by
  have hvalue : Gives Attribute.ofJson? Attribute.Tidy :=
    fun j => (treeGives (j.depth + 1)).value false j
  have hnode : Gives Node.ofJson? Node.Tidy := fun j => (treeGives (j.depth + 1)).node false j
  have helement : Gives ElementMapping.ofJson? ElementMapping.Tidy := by
    intro j x hj h
    obtain ⟨m, hm, h⟩ := Option.bind_eq_some_iff.1 h
    have hparts := parts_of_record? hj hm
    obtain ⟨elementType, -, h⟩ := Option.bind_eq_some_iff.1 h
    obtain ⟨semanticType, -, h⟩ := Option.bind_eq_some_iff.1 h
    obtain ⟨dependency, -, h⟩ := Option.bind_eq_some_iff.1 h
    obtain ⟨attrs, hattrs, h⟩ := Option.bind_eq_some_iff.1 h
    obtain ⟨events, hevents, h⟩ := Option.bind_eq_some_iff.1 h
    obtain ⟨children, hchildren, h⟩ := Option.bind_eq_some_iff.1 h
    obtain ⟨selfClosing, -, h⟩ := Option.bind_eq_some_iff.1 h
    cases h
    exact {
      attrs := (hvalue.table.defaulted hparts ⟨.nil, List.forall_mem_nil _⟩ hattrs).2
      events := (EventHandler.gives.items.table.defaulted hparts
        ⟨.nil, List.forall_mem_nil _⟩ hevents).2
      children := hnode.items.optional hparts hchildren }
  obtain ⟨m, hm, h⟩ := Option.bind_eq_some_iff.1 h
  obtain ⟨elements, helements, h⟩ := Option.bind_eq_some_iff.1 h
  obtain ⟨events, -, h⟩ := Option.bind_eq_some_iff.1 h
  obtain ⟨attributes, -, h⟩ := Option.bind_eq_some_iff.1 h
  obtain ⟨classNames, -, h⟩ := Option.bind_eq_some_iff.1 h
  obtain ⟨propNames, -, h⟩ := Option.bind_eq_some_iff.1 h
  cases h
  exact (helement.table.defaulted (parts_of_record? hj hm) ⟨.nil, List.forall_mem_nil _⟩
    helements).2

section Targets

theorem ElementMapping.tidy_renamed (elementType : String) :
    (ElementMapping.renamed elementType).Tidy :=
  ⟨List.forall_mem_nil _, List.forall_mem_nil _, nofun⟩

theorem ElementMapping.Tidy.withAttribute {m : ElementMapping} (h : m.Tidy)
    (name source : String) : (m.withAttribute name source).Tidy :=
  { h with attrs := forall_insert h.attrs trivial }

theorem ElementMapping.Tidy.closed {m : ElementMapping} (h : m.Tidy) : m.closed.Tidy :=
  { h with }

/-- The built-in mappings put references into elements only. -/
theorem Mapping.tidy_markupElements {link : ElementMapping} (h : link.Tidy) :
    ∀ entry ∈ markupElements link, entry.2.Tidy := by
  intro entry hentry
  replace hentry := Dict.mem_ofList hentry
  have hrenamed := ElementMapping.tidy_renamed
  revert entry
  simp [hrenamed, h, (hrenamed _).withAttribute, ((hrenamed _).withAttribute _ _).closed,
    (hrenamed _).closed]

theorem Mapping.tidy_routeLink (elementType target : String) :
    (routeLink elementType target).Tidy :=
  (ElementMapping.tidy_renamed elementType).withAttribute target "transitionTo"

theorem Mapping.tidy_html : Mapping.html.Tidy := tidy_markupElements (tidy_routeLink "a" "href")

theorem Mapping.tidy_react : Mapping.react.Tidy := tidy_markupElements (tidy_routeLink "a" "href")

theorem Mapping.tidy_vue : Mapping.vue.Tidy :=
  tidy_markupElements (tidy_routeLink "router-link" "to")

end Targets

/-! ### Applying -/

section Filling

mutual

/-- A tidy template around tidy children is tidy. -/
theorem Node.fill_tidy : (node : Node) → {own : List Node} → node.Tidy →
    (∀ x ∈ own, x.Tidy) → (∀ x ∈ (node.fill own).1, x.Tidy) ∧ ∀ x ∈ (node.fill own).2, x.Tidy
  | .element content, own, h, hown => by
    obtain ⟨hfilled, hleft⟩ := content.fill_tidy h hown
    rw [Node.fill]
    exact ⟨List.forall_mem_singleton.2 hfilled, hleft⟩
  | .dynamic reference, own, _, hown => by
    rw [Node.fill]
    split
    · exact ⟨hown, List.forall_mem_nil _⟩
    · exact ⟨List.forall_mem_singleton.2 trivial, hown⟩
  | .slot content, own, h, hown => by
    rw [Node.fill]
    exact ⟨List.forall_mem_singleton.2 h, hown⟩
  | .conditional content, own, h, hown => by
    rw [Node.fill]
    exact ⟨List.forall_mem_singleton.2 h, hown⟩
  | .repetition content, own, h, hown => by
    rw [Node.fill]
    exact ⟨List.forall_mem_singleton.2 h, hown⟩
  | .constant _, own, _, hown => ⟨List.forall_mem_singleton.2 trivial, hown⟩
  | .raw _, own, _, hown => ⟨List.forall_mem_singleton.2 trivial, hown⟩
  | .inject _, own, _, hown => ⟨List.forall_mem_singleton.2 trivial, hown⟩
  | .expr _, own, _, hown => ⟨List.forall_mem_singleton.2 trivial, hown⟩

theorem Element.fill_tidy : (e : Element) → {own : List Node} → e.Tidy →
    (∀ x ∈ own, x.Tidy) → (e.fill own).1.Tidy ∧ ∀ x ∈ (e.fill own).2, x.Tidy
  | ⟨_, _, _, _, _, _, _, _, _, _, children, _⟩, own, ⟨htables, hattrs, habilities, h⟩, hown => by
    obtain ⟨hfilled, hleft⟩ := nodesFill_tidy children h hown
    rw [Element.fill]
    exact ⟨⟨{ htables with }, hattrs, habilities, nodesTidy_iff.2 hfilled⟩, hleft⟩

theorem nodesFill_tidy : (nodes : List Node) → {own : List Node} → nodesTidy nodes →
    (∀ x ∈ own, x.Tidy) →
    (∀ x ∈ (nodesFill nodes own).1, x.Tidy) ∧ ∀ x ∈ (nodesFill nodes own).2, x.Tidy
  | [], _, _, hown => ⟨List.forall_mem_nil _, hown⟩
  | node :: rest, own, h, hown => by
    obtain ⟨hfilled, hleft⟩ := node.fill_tidy h.1 hown
    obtain ⟨hothers, hleft⟩ := nodesFill_tidy rest h.2 hleft
    exact ⟨List.forall_mem_append.2 ⟨hfilled, hothers⟩, hleft⟩

end

end Filling

theorem Dict.Tidy.takeOver {own : Attributes} (h : Dict.Tidy Attribute.Tidy own)
    {entry : String × Attribute} (hentry : entry.2.Tidy) :
    Dict.Tidy Attribute.Tidy (takeOver own entry) := by
  have hlacking := h.insertNew entry.1 hentry
  rw [PageCompiler.takeOver]
  split
  · split
    · split
      · rename_i value hvalue
        exact (h.erase _).insert (h.2 _ (Dict.mem_of_get? hvalue))
      · exact h
    · exact hlacking
  · exact hlacking

theorem Attribute.Tidy.place {value : Attribute} (h : value.Tidy) (assets : Assets) :
    (value.place assets).Tidy := by
  unfold Attribute.place
  split
  · trivial
  · exact h

theorem ElementMapping.apply_tidy {m : ElementMapping} (hm : m.Tidy) {e : Element} (h : e.Tidy) :
    (m.apply e).Tidy := by
  obtain ⟨htables, hattrs, habilities, hchildren⟩ := Element.tidy_iff.1 h
  have hattrs' : Dict.Tidy Attribute.Tidy (m.attrs.foldl takeOver e.attrs) :=
    h.attrs_tidy.foldl fun entry hentry own hown => hown.takeOver (hm.attrs entry hentry)
  refine Element.tidy_iff.2 ⟨{ htables with attrs := hattrs'.1, events := ?_ }, hattrs'.2,
    habilities, ?_⟩
  · exact htables.events.foldl fun entry hentry events hevents =>
      hevents.insertNew entry.1 (hm.events entry hentry)
  · dsimp only [apply]
    split
    · rename_i template htemplate
      exact (nodesFill_tidy template (nodesTidy_iff.2 (hm.children template htemplate))
        hchildren).1
    · exact hchildren

/-- **A tidy mapping keeps elements tidy.** -/
theorem Element.applyMapping_tidy {mapping : Mapping} (hmapping : mapping.Tidy) (o : Options)
    {e : Element} (h : e.Tidy) : (e.applyMapping mapping o).Tidy := by
  have hfinish : ∀ e : Element, e.Tidy → Element.Tidy { e with
      attrs := assetAttributes.foldl (fun attrs name => Dict.modify attrs name (·.place o.assets))
        (renameEntries e.attrs mapping.attributes)
      events := renameEntries e.events mapping.events
      dependency := e.dependency.map (·.locate o.localPrefix e) } := by
    intro e h
    obtain ⟨htables, -, habilities, hchildren⟩ := Element.tidy_iff.1 h
    have hattrs := (h.attrs_tidy.renameEntries mapping.attributes).foldl (l := assetAttributes)
      fun name _ attrs hattrs => hattrs.modify name fun value hvalue => hvalue.place o.assets
    exact Element.tidy_iff.2 ⟨{ htables with
      attrs := hattrs.1
      events := htables.events.renameEntries mapping.events }, hattrs.2, habilities, hchildren⟩
  have hnamed : Element.Tidy { e with name := some (e.name.getD e.elementType) } := by
    obtain ⟨htables, hattrs, habilities, hchildren⟩ := Element.tidy_iff.1 h
    exact Element.tidy_iff.2 ⟨{ htables with }, hattrs, habilities, hchildren⟩
  rw [applyMapping]
  dsimp only
  split
  · rename_i m hm
    exact hfinish _ (ElementMapping.apply_tidy (hmapping _ (Dict.mem_of_get? hm)) hnamed)
  · exact hfinish _ hnamed

/-! ## Styles -/

theorem StyleMap.sorted_place {styles : StyleMap} (h : Dict.Sorted styles) (assets : Assets) :
    Dict.Sorted (styles.place assets) :=
  h.of_keys (Dict.keys_mapValues _ styles)

theorem StyleSetCondition.Tidy.place {condition : StyleSetCondition} (h : condition.Tidy)
    (assets : Assets) : (condition.place assets).Tidy := by
  cases condition <;> exact StyleMap.sorted_place h assets

theorem StyleSet.Tidy.resolve {s : StyleSet} (h : s.Tidy) (assets : Assets) :
    (s.resolve assets).Tidy := by
  refine ⟨StyleMap.sorted_place h.1 assets, List.forall_mem_map.2 fun condition hcondition => ?_⟩
  have hmem : condition ∈ s.conditions := by
    rcases List.mem_append.1 hcondition with hmem | hmem
    · exact List.mem_of_mem_filter hmem
    · exact List.mem_of_mem_filter (List.mem_mergeSort.1 hmem)
  exact (h.2 condition hmem).place assets

theorem Element.Tidy.resolveStyles {e : Element} (h : e.Tidy) (assets : Assets) :
    (e.resolveStyles assets).Tidy := by
  obtain ⟨htables, hattrs, habilities, hchildren⟩ := Element.tidy_iff.1 h
  refine Element.tidy_iff.2 ⟨{ htables with
    style := StyleMap.sorted_place htables.style assets
    referencedStyles := htables.referencedStyles.mapValues fun s hs => ?_ },
    hattrs, habilities, hchildren⟩
  rw [ReferencedStyle.resolve]
  split
  · rename_i conditions styles hcontent
    rw [hcontent] at hs
    exact StyleMap.sorted_place hs assets
  · exact hs

/-! ## Components -/

/-- An address that is placed stays a plain default. -/
theorem Default.Tidy.place {x : Default} (h : x.Tidy) (assets : Assets) :
    (x.place assets).Tidy := by
  unfold Default.place
  split
  · exact ⟨⟨⟨trivial, rfl⟩, rfl⟩, nofun, rfl⟩
  · exact h

theorem MetaValue.Tidy.resolve {value : MetaValue} (h : value.Tidy) (assets : Assets)
    (c : Component) : Returns MetaValue.Tidy (value.resolve assets c) := by
  unfold MetaValue.resolve
  split
  · exact .pure trivial
  · exact .pure trivial
  · split
    · exact .pure trivial
    · exact .of_error
  · exact .pure h

/-- A step for the abilities of elements makes tidy components of tidy ones. -/
def AbilityStep.KeepsTidy (step : AbilityStep) : Prop :=
  ∀ c o c', c.Tidy → step c o = .ok c' → c'.Tidy

namespace Component

variable {c : Component}

/-- A change of the trees of a component keeps it tidy when it keeps trees tidy. -/
theorem updateTreesM_tidy {m : Type → Type} [Monad m] [LawfulMonad m] {f : Node → m Node}
    (hf : ∀ node : Node, node.Tidy → Returns Node.Tidy (f node)) (h : c.Tidy) :
    Returns Component.Tidy (c.updateTreesM f) := by
  have hdefault : ∀ d : PropDefinition, (∀ x ∈ d.default, x.Tidy) →
      Returns (fun d : PropDefinition => ∀ x ∈ d.default, x.Tidy) (d.updateM f) := by
    intro d hd
    unfold PropDefinition.updateM
    split
    · rename_i node hnode
      refine (hf node (hd _ hnode)).bind fun node' hnode' => .pure ?_
      rintro _ ⟨⟩
      exact hnode'
    · exact .pure hd
  exact (hf c.node h.node).bind fun node hnode => (Returns.table h.props hdefault).bind
    fun props hprops => .pure { h with node := hnode, props := hprops }

theorem linkStep_keepsTidy : AbilityStep.KeepsTidy linkStep := by
  intro c o c' h hstep
  cases hstep
  exact { h with node := c.node.wrapLinks_tidy o h.node }

theorem carryOut_tidy {steps : List AbilityStep}
    (hsteps : ∀ step ∈ steps, AbilityStep.KeepsTidy step) (o : Options) (h : c.Tidy) :
    Returns Component.Tidy (c.carryOut steps o) := by
  rw [carryOut]
  induction steps generalizing c with
  | nil => exact .pure h
  | cons step rest ih =>
    rw [List.forall_mem_cons] at hsteps
    rw [List.foldlM_cons]
    exact (Returns.of_except fun c' hc' => hsteps.1 c o c' h hc').bind fun c' hc' =>
      ih hsteps.2 hc'

theorem placeDefaults_tidy (h : c.Tidy) (assets : Assets) : (c.placeDefaults assets).Tidy := by
  have hplace : ∀ default : Option Default, (∀ x ∈ default, x.Tidy) →
      ∀ x ∈ default.map (·.place assets), x.Tidy := by
    intro default hdefault x hx
    obtain ⟨y, hy, rfl⟩ := Option.map_eq_some_iff.1 hx
    exact (hdefault y hy).place assets
  rw [placeDefaults]
  refine { h with props := ?_, states := ?_ }
  · dsimp only
    exact h.props.mapValues fun d hd => hplace d.default hd
  · dsimp only
    exact h.states.mapValues fun d hd => hplace d.default hd

theorem resolveStyles_tidy (h : c.Tidy) (assets : Assets) : (c.resolveStyles assets).Tidy := by
  have hv : Visitor.KeepsTidy (m := Id)
      (.ofElement fun e => pure (e.resolveStyles assets)) :=
    fun e he => Returns.of_id (he.resolveStyles assets)
  exact { h with node := (c.node.updateM_tidy hv h.node).id }

theorem assignKeys_tidy (h : c.Tidy) (l : KeyLedger) : (c.assignKeys l).1.Tidy := by
  have hv : Visitor.KeepsTidy (.ofElement claimKey) := by
    intro e he
    refine (Returns.any _).bind fun key _ => .pure ?_
    obtain ⟨htables, hattrs, habilities, hchildren⟩ := Element.tidy_iff.1 he
    exact Element.tidy_iff.2 ⟨{ htables with }, hattrs, habilities, hchildren⟩
  exact (updateTreesM_tidy (fun node => node.updateM_tidy hv) h).state _

theorem nameDataSources_tidy (h : c.Tidy) : Returns Component.Tidy c.nameDataSources := by
  rw [nameDataSources]
  split
  · exact .of_error
  · have hv : Visitor.KeepsTidy (.ofNames nameSource) := fun e he => .pure he
    exact .pure ((updateTreesM_tidy (fun node => node.updateM_tidy hv) h).state _)

theorem resolveHead_tidy (h : c.Tidy) (assets : Assets) :
    Returns Component.Tidy (c.resolveHead assets) := by
  rw [resolveHead]
  split
  · rename_i head hhead
    have htags : Returns (fun tags => ∀ tag ∈ tags, Dict.Tidy MetaValue.Tidy tag)
        (head.metaTags.mapM fun tag => tag.mapM fun entry =>
          (do return (entry.1, ← entry.2.resolve assets c) : Except Diagnostic _)) :=
      .mapM fun tag htag => .table (h.head head hhead tag htag) fun value hvalue =>
        hvalue.resolve assets c
    have hhead : Returns (fun head : HeadContent =>
        ∀ tag ∈ head.metaTags, Dict.Tidy MetaValue.Tidy tag) (head.resolve assets c) :=
      htags.bind fun tags htags => .pure htags
    refine hhead.bind fun head' hhead' => .pure { h with head := ?_ }
    rintro _ ⟨⟩
    exact hhead'
  · exact .pure h

/-- **Resolving keeps components tidy.** -/
theorem resolveWith_tidy {steps : List AbilityStep} {base : Mapping} {o : Options}
    {resolved : Component} (hsteps : ∀ step ∈ steps, AbilityStep.KeepsTidy step)
    (hmapping : (o.effectiveMapping base).Tidy) (h : c.Tidy)
    (hresolve : c.resolveWith steps base o = .ok resolved) : resolved.Tidy := by
  have hnamed : ((c.resolveStyleSets o.assets).nameOutput).Tidy :=
    { h with styleSets := h.styleSets.mapValues fun s hs => hs.resolve o.assets }
  refine Returns.except (x := c.resolveWith steps base o) ?_ hresolve
  refine (Returns.any _).bind fun _ _ => ?_
  refine (carryOut_tidy hsteps o (placeDefaults_tidy hnamed o.assets)).bind fun c hc => ?_
  have hembed : ∀ c : Component, c.Tidy → Returns Component.Tidy c.embed := fun c hc =>
    (c.node.transform_tidy (fun e => Element.embed_tidy) _ hc.node).bind fun node hnode =>
      .pure { hc with node := hnode }
  refine (hembed _ (resolveStyles_tidy hc o.assets)).bind fun c hc => ?_
  refine (updateTreesM_tidy (fun node => node.transform_tidy
    (fun e => Element.applyMapping_tidy hmapping o) _) hc).bind fun c hc => ?_
  exact (nameDataSources_tidy (assignKeys_tidy hc {})).bind fun c hc =>
    resolveHead_tidy hc o.assets

end Component

end PageCompiler
