import PageCompiler.Proofs.Page.StyleStage
import PageCompiler.Proofs.Resolve.Styles

/-!
# The order of a style sheet

What a component describes as styles, rule by rule (`Component.described`), and where the rules
stand in its sheet (`Stylesheet.Lists`): first the rules for all screens, in the order of the
document, and then the blocks for screens up to a width, from wide to narrow, each with its rules
in the order of the document. Rules without declarations are left out, and no other ones are.

* `Component.rules_eq`: the rules of a component are the described ones that declare something.
* `Grouped.addToBlock`: adding a rule to its block keeps the blocks grouped by width.
* `Stylesheet.lists_ofRules`: what stands where in a sheet.
* `stylesheetStage_lists`: the chunk that the style stage adds.
-/

namespace PageCompiler

/-! ## What a component describes -/

/-- The rule that a conditional style describes: for the states of an element, on screens up to the
first of the widths. A style without conditions belongs to the base rule of the element. -/
def ReferencedStyle.described? (selector : String) (s : ReferencedStyle) : Option ScopedRule :=
  match s.content with
  | .inlined (first :: rest) styles =>
    some ⟨(first :: rest).findSome? StyleCondition.width?,
      ⟨statesSelector selector (first :: rest), styles.declarations⟩⟩
  | _ => none

/-- The rules that an element describes: its base rule, then its conditional styles. -/
def Element.described (e : Element) : List ScopedRule :=
  ⟨none, e.baseRule⟩ :: (Dict.values e.referencedStyles).filterMap (·.described? ("." ++ e.key))

/-- The rule that a condition of a style set describes. -/
def StyleSetCondition.described (selector : String) : StyleSetCondition → ScopedRule
  | .elementState state content => ⟨none, ⟨selector ++ ":" ++ state, content.declarations⟩⟩
  | .screenSize maxWidth content => ⟨some maxWidth, ⟨selector, content.declarations⟩⟩

/-- The rules that a style set describes. -/
def StyleSet.described (s : StyleSet) : List ScopedRule :=
  ⟨none, ⟨"." ++ s.cssClass, s.content.declarations⟩⟩
    :: s.conditions.map (·.described ("." ++ s.cssClass))

/-- The rules that a component describes, in the order of the document: the elements of its tree,
those of the element defaults in the order of the props, and the style sets in the order of their
keys. -/
def Component.described (c : Component) : List ScopedRule :=
  c.node.elements.flatMap Element.described
    ++ ((defaultNodes c.props).flatMap Node.elements).flatMap Element.described
    ++ (Dict.values c.styleSets).flatMap StyleSet.described

/-- A rule declares something. -/
def ScopedRule.Declares (r : ScopedRule) : Bool := !r.rule.declarations.isEmpty

theorem ReferencedStyle.variant?_eq (selector : String) (s : ReferencedStyle) :
    s.variant? selector = (s.described? selector).filter ScopedRule.Declares := by
  rw [variant?, described?]
  rcases s.content with ⟨_ | ⟨first, rest⟩, styles⟩ | id | id
  case inlined.cons =>
    dsimp only
    rw [Option.filter_some, ScopedRule.Declares]
    split <;> simp_all
  all_goals rfl

/-- A rule that is listed unless it declares nothing. -/
theorem filter_declares_singleton (width : Option Binary64) (r : Rule) :
    [ScopedRule.mk width r].filter ScopedRule.Declares
      = if r.declarations.isEmpty then [] else [⟨width, r⟩] := by
  rw [List.filter_singleton, ScopedRule.Declares]
  cases r.declarations.isEmpty <;> rfl

theorem Element.rules_eq (e : Element) : e.rules = e.described.filter ScopedRule.Declares := by
  have hvariants : (Dict.values e.referencedStyles).filterMap (·.variant? ("." ++ e.key))
      = ((Dict.values e.referencedStyles).filterMap (·.described? ("." ++ e.key))).filter
        ScopedRule.Declares := by
    rw [List.filter_filterMap]
    exact List.filterMap_congr fun s _ => s.variant?_eq _
  rw [described, ← List.singleton_append, List.filter_append, filter_declares_singleton,
    ← hvariants]
  rfl

theorem ruleFor_eq (width : Option Binary64) (selector : String) (styles : StyleMap) :
    ruleFor width selector styles
      = [ScopedRule.mk width ⟨selector, styles.declarations⟩].filter ScopedRule.Declares := by
  rw [filter_declares_singleton, ruleFor]

theorem StyleSetCondition.rules_eq (selector : String) (condition : StyleSetCondition) :
    condition.rules selector = [condition.described selector].filter ScopedRule.Declares := by
  cases condition with
  | elementState state content => exact ruleFor_eq _ _ _
  | screenSize maxWidth content => exact ruleFor_eq _ _ _

theorem StyleSet.rules_eq (s : StyleSet) : s.rules = s.described.filter ScopedRule.Declares := by
  have hconditions : s.conditions.flatMap (·.rules ("." ++ s.cssClass))
      = (s.conditions.map (·.described ("." ++ s.cssClass))).filter ScopedRule.Declares := by
    induction s.conditions with
    | nil => rfl
    | cons condition rest ih =>
      rw [List.flatMap_cons, List.map_cons, ih, condition.rules_eq, ← List.filter_append,
        List.singleton_append]
  rw [described, ← List.singleton_append, List.filter_append, ← hconditions, ← ruleFor_eq]
  rfl

/-- The rules of a component are the described ones that declare something. -/
theorem Component.rules_eq (c : Component) :
    c.rules = c.described.filter ScopedRule.Declares := by
  rw [rules, elements, trees, described, List.filter_append, List.filter_append,
    List.filter_flatMap, List.filter_flatMap, List.filter_flatMap, List.flatMap_cons,
    List.flatMap_append, funext Element.rules_eq, funext StyleSet.rules_eq]

/-! ## Blocks by width -/

/-- A rule is for screens up to a width. -/
def ScopedRule.IsFor (width : Binary64) (r : ScopedRule) : Bool := r.width.any width.eqv

/-- The widths of some blocks, as values. -/
def widths (blocks : List MediaBlock) : List Int := blocks.map (·.width.units)

/-- Blocks of rules that are grouped by width: no two blocks have the same one, every block has
the rules of its width in their order, there is a block for a width exactly if there is a rule for
it, and no rule got lost or doubled. -/
structure Grouped (blocks : List MediaBlock) (rules : List ScopedRule) : Prop where
  apart : (widths blocks).Nodup
  own : ∀ b ∈ blocks, b.rules = (rules.filter (·.IsFor b.width)).map (·.rule)
  inhabited : ∀ b ∈ blocks, ∃ r ∈ rules, r.width = some b.width
  placed : ∀ r ∈ rules, ∀ w ∈ r.width, w.units ∈ widths blocks
  once : (blocks.flatMap (·.rules)).Perm ((rules.filter (·.width.isSome)).map (·.rule))

theorem Binary64.eqv_iff {x y : Binary64} : x.eqv y = true ↔ x.units = y.units := beq_iff_eq

section Adding

variable {width : Binary64} {rule : Rule} {blocks : List MediaBlock}

/-- A rule gets into the block of its width, or into a new one at the end. -/
theorem addToBlock_cases (width : Binary64) (rule : Rule) (blocks : List MediaBlock) :
    (∃ before b after, blocks = before ++ b :: after ∧ b.width.units = width.units ∧
      addToBlock width rule blocks
        = before ++ { b with rules := b.rules ++ [rule] } :: after) ∨
    ((∀ b ∈ blocks, b.width.units ≠ width.units) ∧
      addToBlock width rule blocks = blocks ++ [⟨width, [rule]⟩]) := by
  induction blocks with
  | nil => exact .inr ⟨nofun, rfl⟩
  | cons b rest ih =>
    rw [addToBlock]
    split
    · rename_i heqv
      exact .inl ⟨[], b, rest, rfl, Binary64.eqv_iff.1 heqv, rfl⟩
    · rename_i hne
      obtain ⟨before, b', after, hrest, hunits, hadd⟩ | ⟨hnone, hadd⟩ := ih
      · exact .inl ⟨b :: before, b', after, by rw [hrest]; rfl, hunits, by rw [hadd]; rfl⟩
      · refine .inr ⟨List.forall_mem_cons.2 ⟨fun h => hne (Binary64.eqv_iff.2 h), hnone⟩, ?_⟩
        rw [hadd]
        rfl

/-- The rules for a width, with one more rule at the end. -/
theorem filter_isFor_append (rules : List ScopedRule) (rule : Rule) (w width : Binary64) :
    ((rules ++ [ScopedRule.mk (some width) rule]).filter (·.IsFor w)).map (·.rule)
      = (rules.filter (·.IsFor w)).map (·.rule)
        ++ if w.units = width.units then [rule] else [] := by
  rw [List.filter_append, List.map_append, List.filter_singleton]
  congr 1
  by_cases h : w.units = width.units
  · rw [if_pos h, ScopedRule.IsFor, Option.any_some, Binary64.eqv_iff.2 h]
    rfl
  · have hne : w.eqv width = false := Bool.eq_false_iff.2 (mt Binary64.eqv_iff.1 h)
    rw [if_neg h, ScopedRule.IsFor, Option.any_some, hne]
    rfl

theorem filter_width_append (rules : List ScopedRule) (rule : Rule) (width : Binary64) :
    ((rules ++ [ScopedRule.mk (some width) rule]).filter (·.width.isSome)).map (·.rule)
      = (rules.filter (·.width.isSome)).map (·.rule) ++ [rule] := by
  rw [List.filter_append, List.map_append]
  rfl

namespace Grouped

variable {rules : List ScopedRule}

/-- There is no rule for a width that no block has. -/
theorem filter_isFor_eq_nil (h : Grouped blocks rules)
    (hnone : ∀ b ∈ blocks, b.width.units ≠ width.units) : rules.filter (·.IsFor width) = [] := by
  rw [List.filter_eq_nil_iff]
  intro r hr hfor
  obtain ⟨w, hw, heqv⟩ := (Option.any_eq_true _ _).1 hfor
  obtain ⟨b, hb, hunits⟩ := List.mem_map.1 (h.placed r hr w hw)
  exact hnone b hb (hunits.trans (Binary64.eqv_iff.1 heqv).symm)

theorem placed_append (h : Grouped blocks rules) {units : List Int}
    (hold : widths blocks ⊆ units) (hnew : width.units ∈ units) :
    ∀ r ∈ rules ++ [ScopedRule.mk (some width) rule], ∀ w ∈ r.width, w.units ∈ units := by
  intro r hr w hw
  rcases List.mem_append.1 hr with hr | hr
  · exact hold (h.placed r hr w hw)
  · rw [List.mem_singleton.1 hr] at hw
    rwa [← Option.some.inj hw]

theorem inhabited_append (h : Grouped blocks rules) {b : MediaBlock} (hb : b ∈ blocks)
    (r : ScopedRule) : ∃ r' ∈ rules ++ [r], r'.width = some b.width := by
  obtain ⟨r', hr', hwidth⟩ := h.inhabited b hb
  exact ⟨r', List.mem_append_left _ hr', hwidth⟩

/-- A rule that gets into the block of its width keeps the blocks grouped. -/
theorem intoBlock {before after : List MediaBlock} {b : MediaBlock}
    (h : Grouped (before ++ b :: after) rules) (hunits : b.width.units = width.units)
    (rule : Rule) :
    Grouped (before ++ { b with rules := b.rules ++ [rule] } :: after)
      (rules ++ [⟨some width, rule⟩]) := by
  have hwidths : widths (before ++ { b with rules := b.rules ++ [rule] } :: after)
      = widths (before ++ b :: after) := by
    simp [widths]
  have hothers : ∀ b' ∈ before ++ after, b'.width.units ≠ width.units := by
    have hapart := h.apart
    rw [widths, List.map_append, List.map_cons, List.nodup_middle, ← List.map_append] at hapart
    intro b' hb' heq
    refine (List.nodup_cons.1 hapart).1 ?_
    rw [hunits, ← heq]
    exact List.mem_map_of_mem hb'
  refine ⟨hwidths ▸ h.apart, ?_, ?_, ?_, ?_⟩
  · intro b' hb'
    rw [filter_isFor_append]
    rcases List.mem_cons.1 (List.perm_middle.mem_iff.1 hb') with rfl | hb'
    · rw [if_pos hunits, ← h.own b (List.mem_append_right _ List.mem_cons_self)]
    · rw [if_neg (hothers b' hb'), List.append_nil]
      exact h.own b' (List.perm_middle.mem_iff.2 (List.mem_cons_of_mem _ hb'))
  · intro b' hb'
    rcases List.mem_cons.1 (List.perm_middle.mem_iff.1 hb') with rfl | hb'
    · exact h.inhabited_append (List.mem_append_right before List.mem_cons_self) _
    · exact h.inhabited_append (List.perm_middle.mem_iff.2 (List.mem_cons_of_mem b hb')) _
  · rw [hwidths]
    refine h.placed_append (List.Subset.refl _) ?_
    rw [← hunits]
    exact List.mem_map_of_mem (List.mem_append_right _ List.mem_cons_self)
  · rw [filter_width_append]
    refine .trans ?_ (h.once.append_right _)
    simp only [List.flatMap_append, List.flatMap_cons, List.append_assoc]
    exact (List.perm_append_comm.append_left _).append_left _

/-- A rule that gets a block of its own keeps the blocks grouped. -/
theorem newBlock (h : Grouped blocks rules)
    (hnone : ∀ b ∈ blocks, b.width.units ≠ width.units) (rule : Rule) :
    Grouped (blocks ++ [⟨width, [rule]⟩]) (rules ++ [⟨some width, rule⟩]) := by
  refine ⟨?_, ?_, ?_, ?_, ?_⟩
  · rw [widths, List.map_append]
    refine h.apart.append (List.nodup_singleton _) (List.disjoint_singleton.2 ?_)
    intro hmem
    obtain ⟨b, hb, hunits⟩ := List.mem_map.1 hmem
    exact hnone b hb hunits
  · intro b hb
    rw [filter_isFor_append]
    rcases List.mem_append.1 hb with hb | hb
    · rw [if_neg (hnone b hb), List.append_nil, h.own b hb]
    · rw [List.mem_singleton.1 hb, if_pos rfl, h.filter_isFor_eq_nil hnone]
      rfl
  · intro b hb
    rcases List.mem_append.1 hb with hb | hb
    · exact h.inhabited_append hb _
    · rw [List.mem_singleton.1 hb]
      exact ⟨_, List.mem_append_right _ List.mem_cons_self, rfl⟩
  · refine h.placed_append ?_ ?_
    · rw [widths, widths, List.map_append]
      exact List.subset_append_left _ _
    · exact List.mem_map_of_mem (List.mem_append_right _ List.mem_cons_self)
  · rw [filter_width_append, List.flatMap_append]
    exact h.once.append_right _

/-- Adding a rule to its block keeps the blocks grouped. -/
theorem addToBlock (h : Grouped blocks rules) (width : Binary64) (rule : Rule) :
    Grouped (addToBlock width rule blocks) (rules ++ [⟨some width, rule⟩]) := by
  obtain ⟨before, b, after, rfl, hunits, hadd⟩ | ⟨hnone, hadd⟩ :=
    addToBlock_cases width rule blocks
  · rw [hadd]
    exact h.intoBlock hunits rule
  · rw [hadd]
    exact h.newBlock hnone rule

/-- A rule for all screens does not belong to a block. -/
theorem skip (h : Grouped blocks rules) {r : ScopedRule} (hr : r.width = none) :
    Grouped blocks (rules ++ [r]) := by
  refine ⟨h.apart, ?_, fun b hb => h.inhabited_append hb r, ?_, ?_⟩
  · intro b hb
    rw [h.own b hb, List.filter_append, List.map_append, List.filter_singleton, ScopedRule.IsFor,
      hr]
    exact (List.append_nil _).symm
  · intro r' hr' w hw
    rcases List.mem_append.1 hr' with hr' | hr'
    · exact h.placed r' hr' w hw
    · rw [List.mem_singleton.1 hr', hr] at hw
      cases hw
  · rw [List.filter_append, List.map_append, List.filter_singleton, hr]
    exact h.once.trans (.of_eq (List.append_nil _).symm)

end Grouped

end Adding

/-- Group rules by width: the step of `Stylesheet.ofRules`. -/
def addRule (blocks : List MediaBlock) (r : ScopedRule) : List MediaBlock :=
  match r.width with
  | some width => addToBlock width r.rule blocks
  | none => blocks

/-- Rules are grouped one after the other. -/
theorem grouped_foldl (rules : List ScopedRule) : Grouped (rules.foldl addRule []) rules := by
  induction rules using List.reverseRecOn with
  | nil => exact ⟨List.nodup_nil, nofun, nofun, nofun, .nil⟩
  | append_singleton rules r ih =>
    rw [List.foldl_append, List.foldl_cons, List.foldl_nil, addRule]
    obtain ⟨width, rule⟩ := r
    cases width with
    | none => exact ih.skip rfl
    | some width => exact ih.addToBlock width rule

/-! ## The sheet -/

/-- Where the rules stand in a sheet: the ones for all screens in their order, then blocks for
screens up to a width. The blocks get strictly narrower, each has the rules of its width in their
order, there is a block for a width exactly if there is a rule for it, and all rules stand in the
sheet once. -/
structure Stylesheet.Lists (s : Stylesheet) (rules : List ScopedRule) : Prop where
  first : s.rules = (rules.filter (·.width.isNone)).map (·.rule)
  narrower : s.blocks.Pairwise fun b b' => b'.width.lt b.width
  own : ∀ b ∈ s.blocks, b.rules = (rules.filter (·.IsFor b.width)).map (·.rule)
  inhabited : ∀ b ∈ s.blocks, ∃ r ∈ rules, r.width = some b.width
  placed : ∀ r ∈ rules, ∀ w ∈ r.width, ∃ b ∈ s.blocks, b.width.eqv w
  once : (s.rules ++ s.blocks.flatMap (·.rules)).Perm (rules.map (·.rule))

/-- From wide to narrow: blocks of different widths in the order of a sheet get strictly narrower.
-/
theorem narrower_mergeSort {blocks : List MediaBlock} (h : (widths blocks).Nodup) :
    (blocks.mergeSort (atLeastAsWide fun b => some b.width)).Pairwise
      fun b b' => b'.width.lt b.width := by
  have hcompare : atLeastAsWide (fun b : MediaBlock => some b.width)
      = isAsWide fun b => some b.width :=
    funext fun _ => funext fun _ => atLeastAsWide_eq rfl rfl
  have hsorted : (blocks.mergeSort (atLeastAsWide fun b => some b.width)).Pairwise
      fun b b' => b'.width.units ≤ b.width.units := by
    rw [hcompare]
    refine (List.pairwise_mergeSort (fun _ _ _ => isAsWide_trans) isAsWide_total blocks).imp ?_
    exact fun h => of_decide_eq_true h
  have hapart : (blocks.mergeSort (atLeastAsWide fun b => some b.width)).Pairwise
      fun b b' => b.width.units ≠ b'.width.units := by
    have hperm := (List.mergeSort_perm blocks (atLeastAsWide fun b => some b.width)).map
      fun b => b.width.units
    exact List.pairwise_map.1 (hperm.nodup_iff.2 h)
  refine (hsorted.and hapart).imp fun {b b'} hboth => ?_
  rw [Binary64.lt, decide_eq_true_eq]
  omega

/-- **What stands where in a sheet.** -/
theorem Stylesheet.lists_ofRules (rules : List ScopedRule) : (ofRules rules).Lists rules := by
  have hgrouped := grouped_foldl rules
  have hperm := List.mergeSort_perm (rules.foldl addRule []) (atLeastAsWide fun b => some b.width)
  have hfirst : (ofRules rules).rules = (rules.filter (·.width.isNone)).map (·.rule) := by
    rw [ofRules, ← List.filterMap_eq_map, List.filterMap_filter]
    rfl
  refine ⟨hfirst, narrower_mergeSort hgrouped.apart, ?_, ?_, ?_, ?_⟩
  · intro b hb
    exact hgrouped.own b (hperm.mem_iff.1 hb)
  · intro b hb
    exact hgrouped.inhabited b (hperm.mem_iff.1 hb)
  · intro r hr w hw
    obtain ⟨b, hb, hunits⟩ := List.mem_map.1 (hgrouped.placed r hr w hw)
    exact ⟨b, hperm.mem_iff.2 hb, Binary64.eqv_iff.2 hunits⟩
  · have hblocks := (hperm.flatMap_right (·.rules)).trans hgrouped.once
    have hsplit := (List.filter_append_perm (·.width.isNone) rules).map (·.rule)
    simp only [Option.not_isNone, List.map_append] at hsplit
    rw [hfirst]
    exact (hblocks.append_left _).trans hsplit

/-! ## The chunk -/

theorem MediaBlock.print_ne_empty (b : MediaBlock) : b.print ≠ "" := by
  intro hempty
  have hend := (String.append_eq_empty_iff.1 hempty).2
  revert hend
  decide

/-- Texts with something in them are joined to a text with something in it. -/
theorem intercalate_eq_empty_iff (sep : String) {l : List String} (h : ∀ s ∈ l, s ≠ "") :
    sep.intercalate l = "" ↔ l = [] := by
  constructor
  · intro hempty
    rw [List.eq_nil_iff_forall_not_mem]
    intro s hs
    have hinfix := infix_intercalate sep hs
    rw [hempty, String.toList_empty, List.infix_nil] at hinfix
    exact h s hs (String.toList_eq_nil_iff.1 hinfix)
  · rintro rfl
    rfl

theorem Stylesheet.print_eq_empty_iff (s : Stylesheet) :
    s.print = "" ↔ s.rules = [] ∧ s.blocks = [] := by
  rw [print, intercalate_eq_empty_iff, List.append_eq_nil_iff, List.map_eq_nil_iff,
    List.map_eq_nil_iff]
  intro t ht
  rcases List.mem_append.1 ht with ht | ht
  · obtain ⟨r, -, rfl⟩ := List.mem_map.1 ht
    exact mt String.toList_eq_nil_iff.2 (r.print_ne_empty "")
  · obtain ⟨b, -, rfl⟩ := List.mem_map.1 ht
    exact b.print_ne_empty

/-- A sheet that lists nothing is empty, and no other one is. -/
theorem Stylesheet.Lists.print_eq_empty_iff {s : Stylesheet} {rules : List ScopedRule}
    (h : s.Lists rules) : s.print = "" ↔ rules = [] := by
  rw [Stylesheet.print_eq_empty_iff]
  constructor
  · rintro ⟨hrules, hblocks⟩
    have honce := h.once
    rw [hrules, hblocks] at honce
    exact List.map_eq_nil_iff.1 (List.nil_perm.1 honce)
  · rintro rfl
    refine ⟨h.first, List.eq_nil_iff_forall_not_mem.2 fun b hb => ?_⟩
    obtain ⟨r, hr, -⟩ := h.inhabited b hb
    cases hr

/-- **The style stage lists what a component describes.** It adds no chunk exactly if nothing is
declared, and else one with the text of a sheet: the rules for all screens and then the blocks for
screens up to a width, which list every described rule that declares something, in the order of the
document. -/
theorem stylesheetStage_lists {template : String} (chunkName : Option String) {c : Compilation}
    {chunk : Chunk} (h : c.findChunk template .markup = some chunk) :
    ∃ sheet : Stylesheet, sheet.Lists (c.component.described.filter ScopedRule.Declares) ∧
      ((stylesheetStage template chunkName).run c).1 = .ok () ∧
      ((stylesheetStage template chunkName).run c).2.context.chunks = c.context.chunks ++
        if ∀ r ∈ c.component.described, r.rule.declarations = [] then []
        else [{
          name := chunkName.getD c.component.name
          kind := .text
          fileType := cssFile
          content := .text ("\n".intercalate
            (sheet.rules.map (Rule.print "") ++ sheet.blocks.map MediaBlock.print)) }] := by
  have hlists : c.component.stylesheet.Lists
      (c.component.described.filter ScopedRule.Declares) := by
    rw [Component.stylesheet, ← c.component.rules_eq]
    exact Stylesheet.lists_ofRules _
  refine ⟨_, hlists, ?_, ?_⟩
  · rw [stylesheetStage_run chunkName h]
  · have hempty : c.component.stylesheet.print.isEmpty ↔
        ∀ r ∈ c.component.described, r.rule.declarations = [] := by
      rw [String.isEmpty_iff, hlists.print_eq_empty_iff, List.filter_eq_nil_iff]
      simp [ScopedRule.Declares]
    rw [stylesheetStage_run chunkName h, Component.sheets]
    simp only [hempty]
    rfl

/-- A width in whole pixels. -/
def pixels (n : Nat) : Binary64 := Binary64.ofInt n

/-- A declaration of a color. -/
def colored (value : String) : StyleMap := [("color", .constant (.text value))]

/-- A menu with styles of its own, for narrow screens and for a state, and an item in it that has
styles for screens that are less narrow. -/
def menu : Component where
  name := "Menu"
  node := .element {
    key := "menu"
    elementType := "div"
    style := colored "black"
    referencedStyles := [
      ("narrow", ⟨"narrow", .inlined [.screenSize (pixels 479)] (colored "gray")⟩),
      ("over", ⟨"over", .inlined [.elementState "hover"] (colored "red")⟩)]
    children := [.element {
      key := "item"
      elementType := "span"
      referencedStyles := [
        ("narrow", ⟨"narrow", .inlined [.screenSize (pixels 479)] (colored "silver")⟩),
        ("plain", ⟨"plain", .inlined [] (colored "blue")⟩),
        ("wide", ⟨"wide", .inlined [.screenSize (pixels 991)] (colored "navy")⟩)] }] }

/-- The menu with its markup. -/
def menuCompilation : Compilation where
  component := menu
  options := {}
  context := {
    chunks := [⟨templateChunkName, .markup, htmlFile, .markup (.comment "menu"), [], none⟩] }

/-- The sheet of the menu. -/
theorem menu_lists :
    ∃ sheet : Stylesheet, sheet.Lists (menu.described.filter ScopedRule.Declares) ∧
      ((stylesheetStage templateChunkName none).run menuCompilation).1 = .ok () ∧
      ((stylesheetStage templateChunkName none).run menuCompilation).2.context.chunks
        = menuCompilation.context.chunks ++
          if ∀ r ∈ menu.described, r.rule.declarations = [] then []
          else [{
            name := "Menu"
            kind := .text
            fileType := cssFile
            content := .text ("\n".intercalate
              (sheet.rules.map (Rule.print "") ++ sheet.blocks.map MediaBlock.print)) }] :=
  stylesheetStage_lists (c := menuCompilation) none rfl

end PageCompiler
