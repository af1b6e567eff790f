import PageCompiler.Document.Reader
import PageCompiler.Proofs.Json.Steady

/-!
# Documents do not depend on the order of members

The readers of documents are steady, once a value was set aside: they read its canonical form as
they read the value itself. So a value that reads as no node has no canonical form that does
(`readNode_steady`), and a plain default stays one when it is written and read again.
-/

namespace PageCompiler

open Json

/-! ## References, dependencies and styles -/

theorem Literal.ofJson?_steady : Steady Literal.ofJson? := by
  intro j _
  cases j <;> rfl

theorem texts?_steady : Steady texts? := items?_steady asString?_steady

theorem Scope.ofJson?_steady : Steady Scope.ofJson? := by
  intro j h
  rw [ofJson?, word?_steady _ j h, ofJson?]

theorem Reference.ofJson?_steady : Steady Reference.ofJson? := by
  intro j h
  refine record?_steady h fun m m' hm => ?_
  simp only [hm.required Scope.ofJson?_steady, hm.required asString?_steady,
    hm.optional texts?_steady]

theorem Origin.ofJson?_steady : Steady Origin.ofJson? := by
  intro j h
  rw [ofJson?, word?_steady _ j h, ofJson?]

theorem ImportDetails.ofJson?_steady : Steady ImportDetails.ofJson? := by
  intro j h
  refine record?_steady h fun m m' hm => ?_
  simp only [hm.defaulted asBool?_steady, hm.optional asString?_steady]

theorem Dependency.ofJson?_steady : Steady Dependency.ofJson? := by
  intro j h
  refine record?_steady h fun m m' hm => ?_
  simp only [hm.required Origin.ofJson?_steady, hm.defaulted asString?_steady,
    hm.optional asString?_steady, hm.optional ImportDetails.ofJson?_steady]

theorem StyleValue.ofJson?_steady : Steady (StyleValue.ofJson? true) := by
  intro j h
  refine variant?_steady h fun kind content hcontent => ?_
  simp only [Literal.ofJson?_steady content hcontent, Reference.ofJson?_steady content hcontent]

theorem StyleMap.ofJson?_steady : Steady (StyleMap.ofJson? true) :=
  table?_steady StyleValue.ofJson?_steady

theorem maxWidth?_steady : Steady maxWidth? := by
  intro j h
  refine record?_steady h fun m m' hm => ?_
  exact hm.required asReal?_steady _

theorem StyleCondition.ofJson?_steady : Steady (StyleCondition.ofJson? true) := by
  intro j h
  refine tagged?_steady h fun kind rest hrest => ?_
  dsimp only
  split
  · refine record?_steady hrest fun m m' hm => ?_
    simp only [hm.required asString?_steady]
  · refine record?_steady hrest fun m m' hm => ?_
    simp only [hm.required maxWidth?_steady]

theorem StyleSource.ofJson?_steady : Steady (StyleSource.ofJson? true) := by
  intro j h
  refine tagged?_steady h fun kind rest hrest => ?_
  dsimp only
  split
  · refine record?_steady hrest fun m m' hm => ?_
    simp only [hm.defaulted (items?_steady StyleCondition.ofJson?_steady),
      hm.defaulted StyleMap.ofJson?_steady]
  · refine record?_steady hrest fun m m' hm => ?_
    simp only [hm.required asString?_steady]

theorem ReferencedStyle.ofJson?_steady : Steady (ReferencedStyle.ofJson? true) := by
  intro j h
  refine record?_steady h fun m m' hm => ?_
  simp only [hm.required asString?_steady, hm.required StyleSource.ofJson?_steady]

/-! ## Nodes -/

theorem EventHandler.ofJson?_steady : Steady EventHandler.ofJson? := by
  intro j h
  cases j with
  | object members =>
    obtain ⟨hkeys, hmembers⟩ := plain_object.1 h
    obtain ⟨members', hcanonical, hsorted, hperm⟩ := exists_canonical_object hkeys
    have hparams : Plain (.object (members.filter (·.1 ≠ "type"))) :=
      plain_object.2 ⟨(List.filter_sublist.map _).nodup hkeys,
        fun m hm => hmembers m (List.mem_of_mem_filter hm)⟩
    have hkind : ∀ kind : Json, kind.canonical.asString? = kind.asString? := by
      intro kind
      cases kind <;> rfl
    rw [hcanonical, ofJson?, ofJson?]
    dsimp only
    rw [filter_name_eq hkeys, filter_name_eq hsorted.nodup_keys,
      Dict.get?_perm hperm hsorted.nodup_keys, Dict.get?_mapValues]
    cases Dict.get? members "type" with
    | none => rfl
    | some kind =>
      dsimp only [Option.map_some, Option.toList_some]
      rw [canonical_filter hkeys hsorted hperm (· ≠ "type"), table?_steady value?_steady _ hparams,
        hkind]
  | array items => rw [canonical_array]; rfl
  | _ => rfl

theorem Condition.ofJson?_steady : Steady Condition.ofJson? := by
  intro j h
  refine record?_steady h fun m m' hm => ?_
  simp only [hm.required asString?_steady, hm.optional Literal.ofJson?_steady]

theorem ConditionGroup.ofJson?_steady : Steady ConditionGroup.ofJson? := by
  intro j h
  refine record?_steady h fun m m' hm => ?_
  simp only [hm.defaulted (items?_steady Condition.ofJson?_steady), hm.optional asString?_steady]

theorem RepetitionNames.ofJson?_steady : Steady RepetitionNames.ofJson? := by
  intro j h
  refine record?_steady h fun m m' hm => ?_
  simp only [hm.optional asString?_steady, hm.defaulted asBool?_steady]

/-- The readers of the tree down to a depth are steady. -/
structure TreeSteady (fuel : ℕ) : Prop where
  node : Steady (readNode true fuel)
  slot : Steady (readSlot true fuel)
  conditional : Steady (readConditional true fuel)
  repetition : Steady (readRepetition true fuel)
  element : Steady (readElement true fuel)
  value : Steady (readAttribute true fuel)
  abilities : Steady (readAbilities true fuel)
  link : Steady (readLink true fuel)

section Tree

variable {fuel : ℕ}

theorem TreeSteady.readNode (ih : TreeSteady fuel) : Steady (readNode true (fuel + 1)) := by
  intro j h
  refine variant?_steady h fun kind content hcontent => ?_
  simp only [Literal.ofJson?_steady content hcontent, Reference.ofJson?_steady content hcontent,
    asString?_steady content hcontent, ih.slot content hcontent, ih.element content hcontent,
    ih.conditional content hcontent, ih.repetition content hcontent]

theorem TreeSteady.readSlot (ih : TreeSteady fuel) : Steady (readSlot true (fuel + 1)) := by
  intro j h
  refine record?_steady h fun m m' hm => ?_
  simp only [hm.optional asString?_steady, hm.optional ih.node]

theorem TreeSteady.readConditional (ih : TreeSteady fuel) :
    Steady (readConditional true (fuel + 1)) := by
  intro j h
  refine record?_steady h fun m m' hm => ?_
  simp only [hm.required ih.node, hm.optional Literal.ofJson?_steady,
    hm.optional ConditionGroup.ofJson?_steady]

theorem TreeSteady.readRepetition (ih : TreeSteady fuel) :
    Steady (readRepetition true (fuel + 1)) := by
  intro j h
  refine record?_steady h fun m m' hm => ?_
  simp only [hm.required ih.node, hm.required ih.value,
    hm.defaulted RepetitionNames.ofJson?_steady]

theorem TreeSteady.readElement (ih : TreeSteady fuel) : Steady (readElement true (fuel + 1)) := by
  intro j h
  refine record?_steady h fun m m' hm => ?_
  simp only [hm.required asString?_steady, hm.defaulted asString?_steady,
    hm.optional asString?_steady, hm.optional Dependency.ofJson?_steady,
    hm.defaulted (table?_steady ih.value),
    hm.defaulted (table?_steady (items?_steady EventHandler.ofJson?_steady)),
    hm.defaulted StyleMap.ofJson?_steady,
    hm.defaulted (table?_steady ReferencedStyle.ofJson?_steady), hm.optional ih.abilities,
    hm.defaulted (items?_steady ih.node), hm.defaulted asBool?_steady]

/-- A record with one text. -/
theorem record?_text_steady {α : Type} (name : String) (f : String → α) :
    Steady (fun j => do some (f (← required (← record? [name] j) name asString?))) := by
  intro j h
  refine record?_steady h fun m m' hm => ?_
  simp only [hm.required asString?_steady]

theorem TreeSteady.readAttribute (ih : TreeSteady fuel) :
    Steady (readAttribute true (fuel + 1)) := by
  intro j h
  refine variant?_steady h fun kind content hcontent => ?_
  have himported := record?_text_steady "id" Attribute.imported content hcontent
  simp only [Literal.ofJson?_steady content hcontent, Reference.ofJson?_steady content hcontent,
    asString?_steady content hcontent, ih.element content hcontent,
    value?_steady content hcontent, himported]

theorem TreeSteady.readAbilities (ih : TreeSteady fuel) :
    Steady (readAbilities true (fuel + 1)) := by
  intro j h
  refine record?_steady h fun m m' hm => ?_
  simp only [hm.optional ih.link]

theorem TreeSteady.readLink (ih : TreeSteady fuel) : Steady (readLink true (fuel + 1)) := by
  intro j h
  refine variant?_steady h fun kind content hcontent => ?_
  dsimp only
  split
  · refine record?_steady hcontent fun m m' hm => ?_
    simp only [hm.required ih.value, hm.defaulted asBool?_steady]
  split
  · exact record?_text_steady "section" LinkAbility.anchor content hcontent
  split
  · exact record?_text_steady "routeName" LinkAbility.route content hcontent
  split
  · refine record?_steady hcontent fun m m' hm => ?_
    simp only [hm.required asString?_steady, hm.optional asString?_steady]
  · exact record?_text_steady "phone" LinkAbility.phone content hcontent

end Tree

/-- **Trees do not depend on the order of members**, once they were set aside. -/
theorem treeSteady : (fuel : ℕ) → TreeSteady fuel
  | 0 => by constructor <;> exact fun _ _ => rfl
  | fuel + 1 =>
    have ih := treeSteady fuel
    ⟨ih.readNode, ih.readSlot, ih.readConditional, ih.readRepetition, ih.readElement,
      ih.readAttribute, ih.readAbilities, ih.readLink⟩

/-! ## Components -/

/-- A style value has no parts for which it matters whether it was set aside. -/
theorem StyleValue.ofJson?_aside : StyleValue.ofJson? false = StyleValue.ofJson? true := by
  funext j
  exact variant?_aside _ (fun kind content =>
    if kind = "static" then (Literal.ofJson? content).map StyleValue.constant
    else (Reference.ofJson? content).map StyleValue.dynamic) j

theorem StyleSetCondition.ofJson?_steady : Steady StyleSetCondition.ofJson? := by
  have hstate : Steady (fun j => do required (← record? ["state"] j) "state" asString?) := by
    intro j h
    exact record?_steady h fun m m' hm => hm.required asString?_steady _
  intro j h
  refine tagged?_steady h fun kind rest hrest => record?_steady hrest fun m m' hm => ?_
  simp only [hm.required hstate, hm.required maxWidth?_steady,
    hm.defaulted StyleMap.ofJson?_steady]

theorem StyleSet.ofJson?_steady : Steady StyleSet.ofJson? := by
  have hcontent : Steady (StyleMap.ofJson? false) := by
    have hsame : StyleMap.ofJson? false = StyleMap.ofJson? true := by
      funext j
      rw [StyleMap.ofJson?, StyleMap.ofJson?, StyleValue.ofJson?_aside]
    rw [hsame]
    exact StyleMap.ofJson?_steady
  intro j h
  refine record?_steady h fun m m' hm => ?_
  simp only [hm.required asString?_steady, hm.defaulted asString?_steady, hm.defaulted hcontent,
    hm.defaulted (items?_steady StyleSetCondition.ofJson?_steady)]

/-- **A plain default stays one**: a value reads as a node exactly if its canonical form does. -/
theorem Default.ofJson?_steady : Steady Default.ofJson? := by
  intro j h
  rw [ofJson?, ofJson?, if_pos h.readable, if_pos (plain_canonical h.readable).readable,
    depth_canonical h.noRepeats, (treeSteady _).node j h, canonical_canonical]

theorem PropDefinition.ofJson?_steady : Steady PropDefinition.ofJson? := by
  intro j h
  refine record?_steady h fun m m' hm => ?_
  simp only [hm.required asString?_steady, hm.optional Default.ofJson?_steady,
    hm.defaulted asBool?_steady]

theorem StateDefinition.ofJson?_steady : Steady StateDefinition.ofJson? := by
  intro j h
  refine record?_steady h fun m m' hm => ?_
  simp only [hm.required asString?_steady, hm.optional Default.ofJson?_steady]

theorem MetaValue.ofJson?_steady : Steady MetaValue.ofJson? := by
  intro j h
  have hreadable := (plain_canonical h.readable).readable
  have hattribute : (if j.canonical.readable then
        (readAttribute true (j.canonical.depth + 1) j.canonical).map MetaValue.attribute else none)
      = if j.readable then (readAttribute true (j.depth + 1) j).map MetaValue.attribute
        else none := by
    rw [if_pos h.readable, if_pos hreadable, depth_canonical h.noRepeats,
      (treeSteady _).value j h]
  cases j <;> first | rfl | exact hattribute

theorem HeadAsset.ofJson?_steady : Steady HeadAsset.ofJson? := by
  intro j h
  refine record?_steady h fun m m' hm => ?_
  simp only [hm.required asString?_steady]

theorem HeadContent.ofJson?_steady : Steady HeadContent.ofJson? := by
  intro j h
  refine record?_steady h fun m m' hm => ?_
  simp only [hm.optional asString?_steady,
    hm.defaulted (items?_steady (table?_steady MetaValue.ofJson?_steady)),
    hm.defaulted (items?_steady HeadAsset.ofJson?_steady)]

theorem OutputNames.ofJson?_steady : Steady OutputNames.ofJson? := by
  intro j h
  refine record?_steady h fun m m' hm => ?_
  simp only [hm.optional asString?_steady, hm.defaulted texts?_steady]

end PageCompiler
