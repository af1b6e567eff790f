import PageCompiler.Document.Reader
import PageCompiler.Proofs.Document.Steady
import PageCompiler.Proofs.Outcome

/-!
# Tidy documents

A document that was read is tidy: its tables are in order, the plain values in it are canonical,
no parameter of an event handler is called as its kind is, and no plain default reads as a node.

* `Json.Stored`: a value as it is kept in a document.
* `Node.Tidy`, `Component.Tidy`: tidy trees and components.
* `treeGives`, `Component.tidy_of_read`: what is read is tidy.
-/

namespace PageCompiler

open Json

/-! ## Parts that are not nested -/

/-- A value as it is kept in a document. -/
structure Json.Stored (j : Json) : Prop where
  plain : j.Plain
  canonical_eq : j.canonical = j

theorem Json.stored_canonical {j : Json} (h : j.readable) : j.canonical.Stored :=
  ⟨plain_canonical h, canonical_canonical j⟩

theorem Json.Stored.value?_eq {j : Json} (h : j.Stored) : j.value? = some j := by
  rw [value?, if_pos h.plain.readable, h.canonical_eq]

/-- The parameters of an event handler are in order, and none is called as the kind is. -/
def EventHandler.Tidy (h : EventHandler) : Prop :=
  Dict.Sorted h.params ∧ ∀ p ∈ h.params, p.1 ≠ "type" ∧ p.2.Stored

/-- A table is in order, and so is all that is filed in it. -/
def Dict.Tidy {α : Type} (P : α → Prop) (d : Dict α) : Prop :=
  Dict.Sorted d ∧ ∀ entry ∈ d, P entry.2

/-- The styles of a style source are in order. -/
def StyleSource.Tidy : StyleSource → Prop
  | .inlined _ styles => Dict.Sorted styles
  | _ => True

/-- The styles of a condition are in order. -/
def StyleSetCondition.Tidy : StyleSetCondition → Prop
  | .elementState _ content => Dict.Sorted content
  | .screenSize _ content => Dict.Sorted content

/-- The styles of a style set are in order. -/
def StyleSet.Tidy (s : StyleSet) : Prop :=
  Dict.Sorted s.content ∧ ∀ condition ∈ s.conditions, condition.Tidy

/-! ## Trees -/

/-- The tables of an element are in order, whatever its attributes are. -/
structure Element.TidyTables (e : Element) : Prop where
  attrs : Dict.Sorted e.attrs
  events : Dict.Tidy (fun handlers => ∀ h ∈ handlers, EventHandler.Tidy h) e.events
  style : Dict.Sorted e.style
  referencedStyles : Dict.Tidy (fun s : ReferencedStyle => s.content.Tidy) e.referencedStyles

mutual

/-- The tables in a tree are in order. -/
def Node.Tidy : Node → Prop
  | .slot content => content.Tidy
  | .element content => content.Tidy
  | .conditional content => content.Tidy
  | .repetition content => content.Tidy
  | _ => True

/-- The tables in the fallback of a slot are in order. -/
def Slot.Tidy : Slot → Prop
  | ⟨_, none⟩ => True
  | ⟨_, some node⟩ => node.Tidy

/-- The tables in a conditional are in order. -/
def Conditional.Tidy : Conditional → Prop
  | ⟨node, reference, _, _⟩ => node.Tidy ∧ reference.Tidy

/-- The tables in a repetition are in order. -/
def Repetition.Tidy : Repetition → Prop
  | ⟨node, source, _⟩ => node.Tidy ∧ source.Tidy

/-- The tables of an element and below it are in order. -/
def Element.Tidy : Element → Prop
  | ⟨key, elementType, name, semanticType, dependency, attrs, events, style, referencedStyles,
      abilities, children, selfClosing⟩ =>
    Element.TidyTables ⟨key, elementType, name, semanticType, dependency, attrs, events, style,
      referencedStyles, abilities, children, selfClosing⟩ ∧
      attributesTidy attrs ∧ abilitiesTidy abilities ∧ nodesTidy children

/-- The tables in some nodes are in order. -/
def nodesTidy : List Node → Prop
  | [] => True
  | node :: rest => node.Tidy ∧ nodesTidy rest

/-- The tables in some attributes are in order. -/
def attributesTidy : List (String × Attribute) → Prop
  | [] => True
  | (_, value) :: rest => value.Tidy ∧ attributesTidy rest

/-- The tables in an attribute are in order. -/
def Attribute.Tidy : Attribute → Prop
  | .element content => content.Tidy
  | .object value => value.Stored
  | _ => True

/-- The tables in the abilities of an element are in order. -/
def abilitiesTidy : Option Abilities → Prop
  | none => True
  | some abilities => abilities.Tidy

/-- The tables in abilities are in order. -/
def Abilities.Tidy : Abilities → Prop
  | ⟨none⟩ => True
  | ⟨some link⟩ => link.Tidy

/-- The tables in the address of a link are in order. -/
def LinkAbility.Tidy : LinkAbility → Prop
  | .url url _ => url.Tidy
  | _ => True

end

theorem nodesTidy_iff {nodes : List Node} : nodesTidy nodes ↔ ∀ node ∈ nodes, node.Tidy := by
  induction nodes with
  | nil => simp [nodesTidy]
  | cons node rest ih => rw [nodesTidy, List.forall_mem_cons, ih]

theorem attributesTidy_iff {attrs : List (String × Attribute)} :
    attributesTidy attrs ↔ ∀ entry ∈ attrs, entry.2.Tidy := by
  induction attrs with
  | nil => simp [attributesTidy]
  | cons entry rest ih => rw [attributesTidy, List.forall_mem_cons, ih]

theorem Element.tidy_iff {e : Element} :
    e.Tidy ↔ e.TidyTables ∧ (∀ entry ∈ e.attrs, entry.2.Tidy) ∧ abilitiesTidy e.abilities ∧
      ∀ node ∈ e.children, node.Tidy := by
  rw [← attributesTidy_iff, ← nodesTidy_iff]
  cases e
  rfl

/-! ## Components -/

/-- A default is tidy: a plain one is not `null`, and does not read as a node. -/
def Default.Tidy : Default → Prop
  | .node content => content.Tidy
  | .value content =>
    content.Stored ∧ content ≠ .null ∧ readNode true (content.depth + 1) content = none

/-- The tables in the value of a meta tag are in order. -/
def MetaValue.Tidy : MetaValue → Prop
  | .text _ => True
  | .attribute value => value.Tidy

/-- A component is tidy: its tables are in order, and so is what they hold. -/
structure Component.Tidy (c : Component) : Prop where
  node : c.node.Tidy
  props : Dict.Tidy (fun d : PropDefinition => ∀ x ∈ d.default, x.Tidy) c.props
  states : Dict.Tidy (fun d : StateDefinition => ∀ x ∈ d.default, x.Tidy) c.states
  styleSets : Dict.Tidy StyleSet.Tidy c.styleSets
  imports : Dict.Sorted c.imports
  head : ∀ head ∈ c.head, ∀ tag ∈ head.metaTags, Dict.Tidy MetaValue.Tidy tag

/-! ## Reading -/

section Reading

variable {α : Type} {read : Json → Option α} {P : α → Prop} {m : List (String × Json)}

/-- What a reader gives of a value without repetitions has a property. -/
def Gives (read : Json → Option α) (P : α → Prop) : Prop :=
  ∀ j x, j.NoRepeats → read j = some x → P x

/-- The members of a record that was read from a value without repetitions. -/
def Parts (m : List (String × Json)) : Prop :=
  ∀ name value, m.lookup name = some value → value.NoRepeats

/-- A record has the values of the members of an object, or the items of an array. -/
theorem mem_of_record? {names : List String} {j : Json} (h : record? names j = some m)
    {name : String} {value : Json} (hvalue : m.lookup name = some value) :
    (∃ members, j = .object members ∧ (name, value) ∈ members) ∨
      ∃ items, j = .array items ∧ value ∈ items := by
  cases j with
  | object members =>
    dsimp only [record?] at h
    split at h
    · cases h
      exact .inl ⟨members, rfl, List.mem_of_mem_filter (Dict.mem_of_get? hvalue)⟩
    · cases h
  | array items =>
    dsimp only [record?] at h
    split at h
    · cases h
      exact .inr ⟨items, rfl, (List.of_mem_zip (Dict.mem_of_get? hvalue)).2⟩
    · cases h
  | _ => cases h

theorem parts_of_record? {names : List String} {j : Json} (hj : j.NoRepeats)
    (h : record? names j = some m) : Parts m := by
  intro name value hvalue
  obtain ⟨members, rfl, hmem⟩ | ⟨items, rfl, hmem⟩ := mem_of_record? h hvalue
  · exact (noRepeats_object.1 hj).2 _ hmem
  · exact noRepeats_array.1 hj _ hmem

theorem Gives.required (hread : Gives read P) (hm : Parts m) {name : String} {x : α}
    (h : required m name read = some x) : P x := by
  obtain ⟨value, hvalue, h⟩ := Option.bind_eq_some_iff.1 h
  exact hread value x (hm name value hvalue) h

theorem Gives.defaulted (hread : Gives read P) (hm : Parts m) {name : String} {default x : α}
    (hdefault : P default) (h : defaulted m name default read = some x) : P x := by
  rw [Json.defaulted] at h
  split at h
  · cases h
    exact hdefault
  · rename_i value hvalue
    exact hread value x (hm name value hvalue) h

/-- An optional part is not read from `null`. -/
theorem optional_gives (hread : ∀ j x, j ≠ .null → j.NoRepeats → read j = some x → P x)
    (hm : Parts m) {name : String} {x : Option α} (h : optional m name read = some x) :
    ∀ y ∈ x, P y := by
  rw [Json.optional] at h
  split at h
  · cases h
    rintro y ⟨⟩
  · cases h
    rintro y ⟨⟩
  · rename_i value hnull hvalue
    obtain ⟨y, hy, rfl⟩ := Option.map_eq_some_iff.1 h
    rintro z ⟨⟩
    exact hread value y hnull (hm name value hvalue) hy

theorem Gives.optional (hread : Gives read P) (hm : Parts m) {name : String} {x : Option α}
    (h : optional m name read = some x) : ∀ y ∈ x, P y :=
  optional_gives (fun j x _ => hread j x) hm h

theorem Gives.items (hread : Gives read P) : Gives (items? read) fun l => ∀ x ∈ l, P x := by
  intro j l hj h
  cases j with
  | array items =>
    have hforall := forall₂_of_mapM_option (h : items.mapM read = some l)
    intro x hx
    obtain ⟨item, hitem, hx⟩ := exists_of_forall₂_right hforall hx
    exact hread item x (noRepeats_array.1 hj item hitem) hx
  | _ => cases h

/-- The entries of a table are read from the members of an object. -/
theorem exists_member_of_table {members : List (String × Json)} {d : Dict α}
    (h : table? read (.object members) = some d) :
    Dict.Sorted d ∧ ∀ entry ∈ d, ∃ m ∈ members, m.1 = entry.1 ∧ read m.2 = some entry.2 := by
  rw [table?_object] at h
  obtain ⟨entries, hentries, rfl⟩ := Option.map_eq_some_iff.1 h
  refine ⟨Dict.sorted_ofList entries, fun entry hentry => ?_⟩
  obtain ⟨m, hm, hentry⟩ := exists_of_forall₂_right (forall₂_of_mapM_option hentries)
    (Dict.mem_ofList hentry)
  exact ⟨m, hm, readMember_eq_some.1 hentry⟩

theorem Gives.table (hread : Gives read P) : Gives (table? read) (Dict.Tidy P) := by
  intro j d hj h
  cases j with
  | object members =>
    obtain ⟨hsorted, hentries⟩ := exists_member_of_table h
    refine ⟨hsorted, fun entry hentry => ?_⟩
    obtain ⟨m, hm, -, hvalue⟩ := hentries entry hentry
    exact hread m.2 _ ((noRepeats_object.1 hj).2 m hm) hvalue
  | _ => cases h

theorem Gives.any (read : Json → Option α) : Gives read fun _ => True := fun _ _ _ _ => trivial

/-- A part that is read and put into something else. -/
theorem Gives.wrap {β : Type} {Q : β → Prop} (hread : Gives read P) {content : Json}
    (hcontent : content.NoRepeats) {f : α → β} {x : β} (h : (read content).map f = some x)
    (hf : ∀ a, P a → Q (f a)) : Q x := by
  obtain ⟨a, ha, rfl⟩ := Option.map_eq_some_iff.1 h
  exact hf a (hread content a hcontent ha)

theorem noRepeats_of_variant? {names : List String} {aside aside' : Bool} {j content : Json}
    {kind : String} (hj : j.NoRepeats)
    (h : variant? names aside j = some (kind, content, aside')) : content.NoRepeats := by
  unfold variant? at h
  split at h
  · rename_i members
    have hmembers := (noRepeats_object.1 hj).2
    dsimp only at h
    split at h
    · rename_i hparts
      obtain ⟨_, -, h⟩ := Option.bind_eq_some_iff.1 h
      cases h
      exact hmembers _ (List.mem_of_mem_filter (hparts ▸ List.mem_cons_of_mem _ List.mem_cons_self))
    · rename_i hparts
      split at h
      · obtain ⟨_, -, h⟩ := Option.bind_eq_some_iff.1 h
        cases h
        exact hmembers _ (List.mem_of_mem_filter (hparts ▸ List.mem_cons_self))
      · cases h
    · cases h
  · obtain ⟨_, -, h⟩ := Option.bind_eq_some_iff.1 h
    cases h
    exact noRepeats_array.1 hj _ (List.mem_cons_of_mem _ List.mem_cons_self)
  · cases h

theorem noRepeats_of_tagged? {tag : String} {names : List String} {aside : Bool} {j rest : Json}
    {kind : String} (hj : j.NoRepeats) (h : tagged? tag names aside j = some (kind, rest)) :
    rest.NoRepeats := by
  unfold tagged? at h
  split at h
  · obtain ⟨hkeys, hmembers⟩ := noRepeats_object.1 hj
    dsimp only at h
    split at h
    · split at h
      · obtain ⟨_, -, h⟩ := Option.bind_eq_some_iff.1 h
        cases h
        exact noRepeats_object.2 ⟨(List.filter_sublist.map _).nodup hkeys,
          fun m hm => hmembers m (List.mem_of_mem_filter hm)⟩
      · cases h
    · cases h
  · split at h
    · obtain ⟨_, -, h⟩ := Option.bind_eq_some_iff.1 h
      cases h
      exact noRepeats_array.2 fun item hitem =>
        noRepeats_array.1 hj item (List.mem_cons_of_mem _ hitem)
    · cases h
  · cases h

end Reading

/-! ### Parts that are not nested -/

theorem value?_gives : Gives value? Json.Stored := by
  intro j x _ h
  rw [value?] at h
  split at h
  · cases h
    exact stored_canonical ‹_›
  · cases h

theorem EventHandler.gives : Gives EventHandler.ofJson? EventHandler.Tidy := by
  intro j x hj h
  cases j with
  | object members =>
    obtain ⟨-, hmembers⟩ := noRepeats_object.1 hj
    rw [ofJson?] at h
    dsimp only at h
    split at h
    · obtain ⟨kind, -, h⟩ := Option.bind_eq_some_iff.1 h
      obtain ⟨params, hread, h⟩ := Option.bind_eq_some_iff.1 h
      cases h
      obtain ⟨hsorted, hentries⟩ := exists_member_of_table hread
      refine ⟨hsorted, fun p hp => ?_⟩
      obtain ⟨m, hm, hname, hvalue⟩ := hentries p hp
      refine ⟨?_, value?_gives m.2 p.2 (hmembers m (List.mem_of_mem_filter hm)) hvalue⟩
      rw [← hname]
      exact of_decide_eq_true (List.mem_filter.1 hm).2
    · cases h
  | _ => cases h

theorem StyleMap.gives (aside : Bool) : Gives (StyleMap.ofJson? aside) Dict.Sorted :=
  fun _ _ hj h => ((Gives.any _).table _ _ hj h).1

theorem StyleSource.gives (aside : Bool) : Gives (StyleSource.ofJson? aside) StyleSource.Tidy := by
  intro j x hj h
  obtain ⟨⟨kind, rest⟩, htag, h⟩ := Option.bind_eq_some_iff.1 h
  have hrest := noRepeats_of_tagged? hj htag
  dsimp only at h
  split at h
  · obtain ⟨m, hm, h⟩ := Option.bind_eq_some_iff.1 h
    obtain ⟨conditions, -, h⟩ := Option.bind_eq_some_iff.1 h
    obtain ⟨styles, hstyles, h⟩ := Option.bind_eq_some_iff.1 h
    cases h
    exact (StyleMap.gives true).defaulted (parts_of_record? hrest hm) .nil hstyles
  · obtain ⟨m, -, h⟩ := Option.bind_eq_some_iff.1 h
    obtain ⟨id, -, h⟩ := Option.bind_eq_some_iff.1 h
    cases h
    split <;> trivial

theorem ReferencedStyle.gives (aside : Bool) :
    Gives (ReferencedStyle.ofJson? aside) fun s => s.content.Tidy := by
  intro j x hj h
  obtain ⟨m, hm, h⟩ := Option.bind_eq_some_iff.1 h
  have hparts := parts_of_record? hj hm
  obtain ⟨id, -, h⟩ := Option.bind_eq_some_iff.1 h
  obtain ⟨content, hcontent, h⟩ := Option.bind_eq_some_iff.1 h
  cases h
  exact (StyleSource.gives aside).required hparts hcontent

theorem StyleSetCondition.gives : Gives StyleSetCondition.ofJson? StyleSetCondition.Tidy := by
  intro j x hj h
  obtain ⟨⟨kind, rest⟩, htag, h⟩ := Option.bind_eq_some_iff.1 h
  obtain ⟨m, hm, h⟩ := Option.bind_eq_some_iff.1 h
  have hparts := parts_of_record? (noRepeats_of_tagged? hj htag) hm
  split at h <;>
  · obtain ⟨_, -, h⟩ := Option.bind_eq_some_iff.1 h
    obtain ⟨content, hcontent, h⟩ := Option.bind_eq_some_iff.1 h
    cases h
    exact (StyleMap.gives true).defaulted hparts .nil hcontent

theorem StyleSet.gives : Gives StyleSet.ofJson? StyleSet.Tidy := by
  intro j x hj h
  obtain ⟨m, hm, h⟩ := Option.bind_eq_some_iff.1 h
  have hparts := parts_of_record? hj hm
  obtain ⟨id, -, h⟩ := Option.bind_eq_some_iff.1 h
  obtain ⟨name, -, h⟩ := Option.bind_eq_some_iff.1 h
  obtain ⟨kind, -, h⟩ := Option.bind_eq_some_iff.1 h
  obtain ⟨content, hcontent, h⟩ := Option.bind_eq_some_iff.1 h
  obtain ⟨conditions, hconditions, h⟩ := Option.bind_eq_some_iff.1 h
  cases h
  exact ⟨(StyleMap.gives false).defaulted hparts .nil hcontent,
    StyleSetCondition.gives.items.defaulted hparts (List.forall_mem_nil _) hconditions⟩

/-! ### Trees -/

/-- What the readers of the tree give, down to a depth, is tidy. -/
structure TreeGives (fuel : ℕ) : Prop where
  node : ∀ aside, Gives (readNode aside fuel) Node.Tidy
  slot : ∀ aside, Gives (readSlot aside fuel) Slot.Tidy
  conditional : ∀ aside, Gives (readConditional aside fuel) Conditional.Tidy
  repetition : ∀ aside, Gives (readRepetition aside fuel) Repetition.Tidy
  element : ∀ aside, Gives (readElement aside fuel) Element.Tidy
  value : ∀ aside, Gives (readAttribute aside fuel) Attribute.Tidy
  abilities : ∀ aside, Gives (readAbilities aside fuel) Abilities.Tidy
  link : ∀ aside, Gives (readLink aside fuel) LinkAbility.Tidy

section Tree

variable {fuel : ℕ}

theorem TreeGives.readNode (ih : TreeGives fuel) (aside : Bool) :
    Gives (readNode aside (fuel + 1)) Node.Tidy := by
  intro j x hj h
  obtain ⟨⟨kind, content, aside'⟩, hvariant, h⟩ := Option.bind_eq_some_iff.1 h
  have hcontent := noRepeats_of_variant? hj hvariant
  dsimp only at h
  split at h
  · exact (Gives.any _).wrap hcontent h fun _ _ => trivial
  split at h
  · exact (Gives.any _).wrap hcontent h fun _ _ => trivial
  split at h
  · exact (Gives.any _).wrap hcontent h fun _ _ => trivial
  split at h
  · exact (Gives.any _).wrap hcontent h fun _ _ => trivial
  split at h
  · exact (ih.slot aside').wrap hcontent h fun _ htidy => htidy
  split at h
  · exact (ih.element aside').wrap hcontent h fun _ htidy => htidy
  split at h
  · exact (ih.conditional aside').wrap hcontent h fun _ htidy => htidy
  split at h
  · exact (ih.repetition aside').wrap hcontent h fun _ htidy => htidy
  · exact (Gives.any _).wrap hcontent h fun _ _ => trivial

theorem TreeGives.readSlot (ih : TreeGives fuel) (aside : Bool) :
    Gives (readSlot aside (fuel + 1)) Slot.Tidy := by
  intro j x hj h
  obtain ⟨m, hm, h⟩ := Option.bind_eq_some_iff.1 h
  obtain ⟨name, -, h⟩ := Option.bind_eq_some_iff.1 h
  obtain ⟨fallback, hfallback, h⟩ := Option.bind_eq_some_iff.1 h
  cases h
  have htidy := (ih.node aside).optional (parts_of_record? hj hm) hfallback
  cases fallback with
  | none => trivial
  | some node => exact htidy node rfl

theorem TreeGives.readElement (ih : TreeGives fuel) (aside : Bool) :
    Gives (readElement aside (fuel + 1)) Element.Tidy := by
  intro j x hj h
  obtain ⟨m, hm, h⟩ := Option.bind_eq_some_iff.1 h
  have hparts := parts_of_record? hj hm
  obtain ⟨key, -, h⟩ := Option.bind_eq_some_iff.1 h
  obtain ⟨elementType, -, h⟩ := Option.bind_eq_some_iff.1 h
  obtain ⟨name, -, h⟩ := Option.bind_eq_some_iff.1 h
  obtain ⟨semanticType, -, h⟩ := Option.bind_eq_some_iff.1 h
  obtain ⟨dependency, -, h⟩ := Option.bind_eq_some_iff.1 h
  obtain ⟨attrs, hattrs, h⟩ := Option.bind_eq_some_iff.1 h
  obtain ⟨events, hevents, h⟩ := Option.bind_eq_some_iff.1 h
  obtain ⟨style, hstyle, h⟩ := Option.bind_eq_some_iff.1 h
  obtain ⟨referencedStyles, hreferenced, h⟩ := Option.bind_eq_some_iff.1 h
  obtain ⟨abilities, habilities, h⟩ := Option.bind_eq_some_iff.1 h
  obtain ⟨children, hchildren, h⟩ := Option.bind_eq_some_iff.1 h
  obtain ⟨selfClosing, -, h⟩ := Option.bind_eq_some_iff.1 h
  cases h
  have hattrs := (ih.value aside).table.defaulted hparts ⟨.nil, List.forall_mem_nil _⟩ hattrs
  have habilities := (ih.abilities aside).optional hparts habilities
  refine Element.tidy_iff.2 ⟨⟨hattrs.1, ?_, ?_, ?_⟩, hattrs.2, ?_, ?_⟩
  · exact EventHandler.gives.items.table.defaulted hparts ⟨.nil, List.forall_mem_nil _⟩ hevents
  · exact (StyleMap.gives aside).defaulted hparts .nil hstyle
  · exact (ReferencedStyle.gives aside).table.defaulted hparts ⟨.nil, List.forall_mem_nil _⟩
      hreferenced
  · cases abilities with
    | none => trivial
    | some abilities => exact habilities abilities rfl
  · exact (ih.node aside).items.defaulted hparts (List.forall_mem_nil _) hchildren

theorem TreeGives.readConditional (ih : TreeGives fuel) (aside : Bool) :
    Gives (readConditional aside (fuel + 1)) Conditional.Tidy := by
  intro j x hj h
  obtain ⟨m, hm, h⟩ := Option.bind_eq_some_iff.1 h
  have hparts := parts_of_record? hj hm
  obtain ⟨node, hnode, h⟩ := Option.bind_eq_some_iff.1 h
  obtain ⟨reference, hreference, h⟩ := Option.bind_eq_some_iff.1 h
  obtain ⟨value, -, h⟩ := Option.bind_eq_some_iff.1 h
  obtain ⟨condition, -, h⟩ := Option.bind_eq_some_iff.1 h
  cases h
  exact ⟨(ih.node aside).required hparts hnode, (ih.node aside).required hparts hreference⟩

theorem TreeGives.readRepetition (ih : TreeGives fuel) (aside : Bool) :
    Gives (readRepetition aside (fuel + 1)) Repetition.Tidy := by
  intro j x hj h
  obtain ⟨m, hm, h⟩ := Option.bind_eq_some_iff.1 h
  have hparts := parts_of_record? hj hm
  obtain ⟨node, hnode, h⟩ := Option.bind_eq_some_iff.1 h
  obtain ⟨source, hsource, h⟩ := Option.bind_eq_some_iff.1 h
  obtain ⟨names, -, h⟩ := Option.bind_eq_some_iff.1 h
  cases h
  exact ⟨(ih.node aside).required hparts hnode, (ih.value aside).required hparts hsource⟩

theorem TreeGives.readAttribute (ih : TreeGives fuel) (aside : Bool) :
    Gives (readAttribute aside (fuel + 1)) Attribute.Tidy := by
  intro j x hj h
  obtain ⟨⟨kind, content, aside'⟩, hvariant, h⟩ := Option.bind_eq_some_iff.1 h
  have hcontent := noRepeats_of_variant? hj hvariant
  dsimp only at h
  split at h
  · exact (Gives.any _).wrap hcontent h fun _ _ => trivial
  split at h
  · exact (Gives.any _).wrap hcontent h fun _ _ => trivial
  split at h
  · exact (Gives.any _).wrap hcontent h fun _ _ => trivial
  split at h
  · exact (ih.element aside').wrap hcontent h fun _ htidy => htidy
  split at h
  · obtain ⟨m, -, h⟩ := Option.bind_eq_some_iff.1 h
    obtain ⟨id, -, h⟩ := Option.bind_eq_some_iff.1 h
    cases h
    trivial
  split at h
  · exact (Gives.any _).wrap hcontent h fun _ _ => trivial
  · exact value?_gives.wrap hcontent h fun _ hstored => hstored

theorem TreeGives.readAbilities (ih : TreeGives fuel) (aside : Bool) :
    Gives (readAbilities aside (fuel + 1)) Abilities.Tidy := by
  intro j x hj h
  obtain ⟨m, hm, h⟩ := Option.bind_eq_some_iff.1 h
  obtain ⟨link, hlink, h⟩ := Option.bind_eq_some_iff.1 h
  cases h
  have htidy := (ih.link aside).optional (parts_of_record? hj hm) hlink
  cases link with
  | none => trivial
  | some link => exact htidy link rfl

theorem TreeGives.readLink (ih : TreeGives fuel) (aside : Bool) :
    Gives (readLink aside (fuel + 1)) LinkAbility.Tidy := by
  intro j x hj h
  obtain ⟨⟨kind, content, aside'⟩, hvariant, h⟩ := Option.bind_eq_some_iff.1 h
  have hcontent := noRepeats_of_variant? hj hvariant
  dsimp only at h
  split at h
  · obtain ⟨m, hm, h⟩ := Option.bind_eq_some_iff.1 h
    obtain ⟨url, hurl, h⟩ := Option.bind_eq_some_iff.1 h
    obtain ⟨newTab, -, h⟩ := Option.bind_eq_some_iff.1 h
    cases h
    exact (ih.value aside').required (parts_of_record? hcontent hm) hurl
  -- The other links hold texts only.
  split at h
  · obtain ⟨m, -, h⟩ := Option.bind_eq_some_iff.1 h
    obtain ⟨id, -, h⟩ := Option.bind_eq_some_iff.1 h
    cases h
    trivial
  split at h
  · obtain ⟨m, -, h⟩ := Option.bind_eq_some_iff.1 h
    obtain ⟨name, -, h⟩ := Option.bind_eq_some_iff.1 h
    cases h
    trivial
  split at h
  · obtain ⟨m, -, h⟩ := Option.bind_eq_some_iff.1 h
    obtain ⟨address, -, h⟩ := Option.bind_eq_some_iff.1 h
    obtain ⟨subject, -, h⟩ := Option.bind_eq_some_iff.1 h
    obtain ⟨body, -, h⟩ := Option.bind_eq_some_iff.1 h
    cases h
    trivial
  · obtain ⟨m, -, h⟩ := Option.bind_eq_some_iff.1 h
    obtain ⟨digits, -, h⟩ := Option.bind_eq_some_iff.1 h
    cases h
    trivial

end Tree

theorem treeGives : (fuel : ℕ) → TreeGives fuel
  | 0 => by constructor <;> exact fun _ _ _ _ h => by cases h
  | fuel + 1 =>
    have ih := treeGives fuel
    ⟨ih.readNode, ih.readSlot, ih.readConditional, ih.readRepetition, ih.readElement,
      ih.readAttribute, ih.readAbilities, ih.readLink⟩

/-! ### Components -/

/-- A canonical form is `null` only if the value is. -/
theorem Json.canonical_ne_null {j : Json} (h : j ≠ .null) : j.canonical ≠ .null := by
  cases j <;> first | exact absurd rfl h | exact nofun

theorem Default.gives {j : Json} {x : Default} (hnull : j ≠ .null) (hj : j.NoRepeats)
    (h : Default.ofJson? j = some x) : x.Tidy := by
  rw [ofJson?] at h
  split at h
  · rename_i hreadable
    split at h
    · rename_i content hcontent
      cases h
      exact (treeGives _).node true j content hj hcontent
    · rename_i hnone
      cases h
      refine ⟨stored_canonical hreadable, canonical_ne_null hnull, ?_⟩
      rw [depth_canonical hj, (treeSteady _).node j ⟨hj, hreadable⟩, hnone]
  · cases h

theorem PropDefinition.gives :
    Gives PropDefinition.ofJson? fun d => ∀ x ∈ d.default, x.Tidy := by
  intro j x hj h
  obtain ⟨m, hm, h⟩ := Option.bind_eq_some_iff.1 h
  obtain ⟨kind, -, h⟩ := Option.bind_eq_some_iff.1 h
  obtain ⟨default, hdefault, h⟩ := Option.bind_eq_some_iff.1 h
  obtain ⟨isRequired, -, h⟩ := Option.bind_eq_some_iff.1 h
  cases h
  exact optional_gives (fun _ _ => Default.gives) (parts_of_record? hj hm) hdefault

theorem StateDefinition.gives :
    Gives StateDefinition.ofJson? fun d => ∀ x ∈ d.default, x.Tidy := by
  intro j x hj h
  obtain ⟨m, hm, h⟩ := Option.bind_eq_some_iff.1 h
  obtain ⟨kind, -, h⟩ := Option.bind_eq_some_iff.1 h
  obtain ⟨default, hdefault, h⟩ := Option.bind_eq_some_iff.1 h
  cases h
  exact optional_gives (fun _ _ => Default.gives) (parts_of_record? hj hm) hdefault

theorem MetaValue.gives : Gives MetaValue.ofJson? MetaValue.Tidy := by
  intro j x hj h
  unfold ofJson? at h
  split at h
  · cases h
    trivial
  · split at h
    · exact ((treeGives _).value true).wrap hj h fun _ htidy => htidy
    · cases h

theorem HeadContent.gives :
    Gives HeadContent.ofJson? fun h => ∀ tag ∈ h.metaTags, Dict.Tidy MetaValue.Tidy tag := by
  intro j x hj h
  obtain ⟨m, hm, h⟩ := Option.bind_eq_some_iff.1 h
  obtain ⟨title, -, h⟩ := Option.bind_eq_some_iff.1 h
  obtain ⟨metaTags, htags, h⟩ := Option.bind_eq_some_iff.1 h
  obtain ⟨assets, -, h⟩ := Option.bind_eq_some_iff.1 h
  cases h
  exact MetaValue.gives.table.items.defaulted (parts_of_record? hj hm) (List.forall_mem_nil _) htags

/-- The other name of the root node does not change what the members are. -/
theorem parts_of_renameRoot {names : List String} {j : Json} {m : List (String × Json)}
    (hj : j.NoRepeats) (h : record? names (renameRoot j) = some m) : Parts m := by
  intro name value hvalue
  obtain ⟨members', hmembers', hmem⟩ | ⟨items, hitems, hmem⟩ := mem_of_record? h hvalue
  · cases j with
    | object members =>
      cases hmembers'
      obtain ⟨m, hm, hsame⟩ := List.mem_map.1 hmem
      have hvalues := (noRepeats_object.1 hj).2 m hm
      split at hsame <;>
      · cases hsame
        exact hvalues
    | _ => cases hmembers'
  · cases j with
    | array items' =>
      cases hitems
      exact noRepeats_array.1 hj _ hmem
    | _ => cases hitems

/-- **What is read is tidy.** -/
theorem Component.tidy_of_read {j : Json} {c : Component} (hj : j.NoRepeats)
    (h : Component.ofJson? j = some c) : c.Tidy := by
  obtain ⟨m, hm, h⟩ := Option.bind_eq_some_iff.1 h
  have hparts := parts_of_renameRoot hj hm
  obtain ⟨name, -, h⟩ := Option.bind_eq_some_iff.1 h
  obtain ⟨node, hnode, h⟩ := Option.bind_eq_some_iff.1 h
  obtain ⟨props, hprops, h⟩ := Option.bind_eq_some_iff.1 h
  obtain ⟨states, hstates, h⟩ := Option.bind_eq_some_iff.1 h
  obtain ⟨styleSets, hsets, h⟩ := Option.bind_eq_some_iff.1 h
  obtain ⟨imports, himports, h⟩ := Option.bind_eq_some_iff.1 h
  obtain ⟨head, hhead, h⟩ := Option.bind_eq_some_iff.1 h
  obtain ⟨output, -, h⟩ := Option.bind_eq_some_iff.1 h
  cases h
  have hempty : ∀ {α : Type} {P : α → Prop}, Dict.Tidy P [] := ⟨.nil, List.forall_mem_nil _⟩
  have hread : Gives Node.ofJson? Node.Tidy := fun j x => (treeGives (j.depth + 1)).node false j x
  exact {
    node := hread.required hparts hnode
    props := PropDefinition.gives.table.defaulted hparts hempty hprops
    states := StateDefinition.gives.table.defaulted hparts hempty hstates
    styleSets := StyleSet.gives.table.defaulted hparts hempty hsets
    imports := ((Gives.any _).table.defaulted hparts hempty himports).1
    head := HeadContent.gives.optional hparts hhead }

end PageCompiler
