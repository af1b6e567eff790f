import PageCompiler.Proofs.Markup.Comments
import PageCompiler.Proofs.Page.Acyclic
import PageCompiler.Proofs.Page.Sight

/-!
# Comments of a page

Two comments on a page are always the same: they stand for conditionals that are not shown and for
expressions. All others have an identifier in them, as it was written in the document: the name of a
reference that has nothing to show, or the title of an instance. An identifier with the end of a
comment in it ends its comment.

* `Writes`: the calls that write a comment with an identifier.
* `Acts.notes`, `generate_notes`, `Leads.hasComment`: the comments of a run are those that its calls
  write.
* `Writes.isRemark_iff`, `Writes.endsEarly`: a comment ends early because of its identifier.
* `generateNode_comments`: which comments end where they were closed.
-/

namespace PageCompiler

/-! ## Comments with an identifier -/

/-- The comments that stand for what a page cannot have. -/
def placeholders : List String := [conditionalPlaceholder, expressionPlaceholder]

/-- The title in the comment of an instance. -/
def Element.title (e : Element) : String := (e.semanticType.or e.name).getD ""

/-- A call writes a comment with an identifier in it. -/
inductive Writes (env : Environment) : Call → String → String → Prop
  /-- There are no texts of locales. -/
  | locale {fuel : Nat} {at' : Surroundings} {r : Reference} {c : Context}
      (scope : r.scope = .locale) :
      Writes env ⟨fuel + 1, at', .reference r, c⟩ r.id ("Content for locale " ++ r.id)
  /-- There is no element to be shown. -/
  | slot {fuel : Nat} {at' : Surroundings} {r : Reference} {v : ReferredValue} {c : Context}
      (value : at'.definitions.value r = .ok v) (kind : v.kind = "element")
      (empty : ∀ node, v.default ≠ some (.node node)) :
      Writes env ⟨fuel + 1, at', .reference r, c⟩ r.id ("Content for slot " ++ r.id)
  /-- The comment of an instance that is expanded. -/
  | marker {fuel : Nat} {at' : Surroundings} {e e' : Element} {id : Nat} {c c' : Context}
      (isInstance : e.isInstance = true)
      (run : generateElement env fuel at' e c = ((e', .ok id), c')) :
      Writes env ⟨fuel, at', .element e, c⟩ e.title (e.title ++ " component")

/-- What a call and all calls that it leads to write is of a kind. -/
def Call.WritesOnly (env : Environment) (P : String → Prop) (call : Call) : Prop :=
  ∀ inner, Leads env call inner → ∀ id s, Writes env inner id s → P s

/-! ## Pieces -/

/-- The pieces that nodes and references come to: a comment among them is a placeholder. -/
structure Placeholding (env : Environment) (fuel : Nat) : Prop where
  node : ∀ at' node c s, (generateNode env fuel at' node c).1.2 = .ok (.comment s) →
    s ∈ placeholders
  reference : ∀ at' r c s, (generateReference env fuel at' r c).1 = .ok (.comment s) →
    s ∈ placeholders

theorem generateReference_placeholding {env : Environment} {fuel : Nat}
    (ih : Placeholding env fuel) (at' : Surroundings) (r : Reference) (c : Context) (s : String)
    (h : (generateReference env (fuel + 1) at' r c).1 = .ok (.comment s)) : s ∈ placeholders := by
  rw [generateReference_succ] at h
  split at h
  · cases h
  rcases hvalue : at'.definitions.value r with d | v
  · rw [hvalue] at h
    cases h
  rw [hvalue] at h
  dsimp only at h
  unfold generateValue at h
  split at h
  · cases h
  split at h
  · rcases hdefault : v.default with _ | node | value
    · rw [hdefault] at h
      cases h
    · rw [hdefault] at h
      dsimp only at h
      rw [bind_run, get_run] at h
      dsimp only at h
      rcases hregistered : node.registered? c with _ | id
      · rw [hregistered] at h
        exact ih.node at' node c s h
      · rw [hregistered] at h
        cases h
    · rw [hdefault] at h
      cases h
  · cases h

theorem generate_placeholding (env : Environment) (fuel : Nat) : Placeholding env fuel := by
  induction fuel with
  | zero =>
    refine ⟨fun at' node c s h => ?_, fun at' r c s h => ?_⟩
    · rw [generateNode] at h
      cases h
    · rw [generateReference] at h
      cases h
  | succ fuel ih =>
    refine ⟨fun at' node c s h => ?_, generateReference_placeholding ih⟩
    cases node with
    | element e =>
      rw [generateNode_element] at h
      obtain ⟨id, -, heq⟩ := exists_of_map_eq_ok h
      cases heq
    | dynamic r =>
      rw [generateNode_dynamic] at h
      exact ih.reference at' r c s h
    | conditional q =>
      rw [generateNode_conditional] at h
      split at h
      · exact ih.node at' q.node c s h
      · cases h
        exact List.mem_cons_self
    | expr _ =>
      rw [generateNode] at h
      cases h
      exact List.mem_cons_of_mem _ List.mem_cons_self
    | slot _ | constant _ | raw _ | inject _ | repetition _ =>
      rw [generateNode] at h
      cases h

theorem generateEach_placeholders {generate : Node → StateM Context (Generated Node Piece)}
    (h : ∀ node c s, (generate node c).1.2 = .ok (.comment s) → s ∈ placeholders)
    {nodes : List Node} {c : Context} {pieces : List Piece}
    (hrun : (generateEach generate nodes c).1.2 = .ok pieces) {s : String}
    (hs : .comment s ∈ pieces) : s ∈ placeholders := by
  induction nodes generalizing c pieces with
  | nil =>
    cases hrun
    cases hs
  | cons node rest ih =>
    have hnode := h node c
    rw [generateEach_cons] at hrun
    rcases hfirst : generate node c with ⟨⟨node', d | piece⟩, c'⟩
    · rw [hfirst] at hrun
      cases hrun
    · rw [hfirst] at hrun hnode
      obtain ⟨others, hothers, rfl⟩ := exists_of_map_eq_ok hrun
      rcases List.mem_cons.1 hs with rfl | hs
      · exact hnode s rfl
      · exact ih hothers hs

/-! ## Where comments come from -/

section Steps

variable {env : Environment} {P : String → Prop}

theorem registerElement_canvas (key : String) (e : Element) (id : Nat) (hierarchy : List String)
    (c : Context) : (registerElement key e id hierarchy c).2.canvas = c.canvas := by
  rcases registerElement_run key e id hierarchy c with ⟨-, hrun⟩ | ⟨-, d, -, hrun⟩ <;> rw [hrun]

theorem Context.noteDependency_canvas (c : Context) (e : Element) :
    (c.noteDependency e).canvas = c.canvas := by
  unfold Context.noteDependency
  split <;> rfl

theorem Canvas.Notes.addClasses (c : Canvas) (additions : List (Nat × String)) :
    Notes P c (c.addClasses additions) := by
  induction additions generalizing c with
  | nil => exact .refl c
  | cons addition rest ih => exact (addClass c addition.1 addition.2).trans (ih _)

theorem spanWith_notes {piece : Piece} (h : ∀ s, piece = .comment s → P s) (c : Context) :
    c.canvas.Notes P (spanWith piece c).2.canvas :=
  .create _ fun s hs => h s (List.mem_singleton.1 hs).symm

theorem finishTag_notes (at' : Surroundings) (e : Element) {pieces : List Piece}
    (h : ∀ s, .comment s ∈ pieces → P s) (c : Context) :
    c.canvas.Notes P (finishTag env at' e pieces c).2.canvas := by
  rw [finishTag_run]
  rcases e.settleStyles at'.definitions with ⟨styled, d | _⟩
  · exact .refl _
  dsimp only
  rcases pageAttributes env.options env.folder at'.definitions styled.elementType styled.attrs with
    ⟨attrs, d | _⟩
  · exact .refl _
  dsimp only
  rw [registerElement_canvas]
  exact .create _ h

/-- The stages of an instance only give classes. -/
theorem runInstanceStages_notes (hplain : env.Plain) (component : Component) (id : Nat)
    (c : Context) : c.canvas.Notes P (runInstanceStages env component id c).2.canvas := by
  obtain ⟨-, -, hcanvas⟩ := runInstanceStages_plain hplain component id c
  obtain ⟨additions, hadditions⟩ := exists_addStyleClasses component.styleSets c.lookup
    component.elements (c.forInstance id)
  rw [hcanvas, hadditions]
  exact .addClasses _ _

theorem finishInstance_notes (hplain : env.Plain) (e : Element) (entry : Entry)
    (r : Generated Element Nat × Context) :
    r.2.canvas.Notes P (finishInstance env e entry r).2.canvas := by
  rcases r with ⟨⟨wrapper, d | id⟩, c⟩
  · exact .refl _
  have hstages := runInstanceStages_notes (P := P) hplain (entry.styled wrapper) id c
  unfold finishInstance
  dsimp only
  rcases hrun : runInstanceStages env (entry.styled wrapper) id c with ⟨d | _, c'⟩
  · rw [hrun] at hstages
    exact hstages
  · rw [hrun] at hstages
    dsimp only
    rw [registerElement_canvas]
    exact hstages

/-- The element that an instance comes to has its title. -/
theorem title_of_expandInstance {fuel : Nat} {at' : Surroundings} {e e' : Element} {id : Nat}
    {c c' : Context} (h : expandInstance env (fuel + 1) at' e c = ((e', .ok id), c')) :
    e'.title = e.title := by
  obtain ⟨entry, -, -, -, -, -, -, -, rfl⟩ := exists_of_expandInstance h
  rfl

/-- **The comments that a step adds** are placeholders, or its call writes them. -/
theorem Acts.notes (hplain : env.Plain) (hP : ∀ s ∈ placeholders, P s) {call : Call} {c c' : Context}
    (hwrites : ∀ id s, Writes env call id s → P s) (h : Acts env call c c') :
    c.canvas.Notes P c'.canvas := by
  cases h with
  | slot => exact .create _ nofun
  | locale scope =>
    refine spanWith_notes (fun s hs => ?_) c
    cases hs
    exact hwrites _ _ (.locale scope)
  | empty value kind empty =>
    refine spanWith_notes (fun s hs => ?_) c
    cases hs
    exact hwrites _ _ (.slot value kind empty)
  | text _ => exact spanWith_notes nofun c
  | @note fuel at' e c _ =>
    rw [c.noteDependency_canvas e]
    exact .refl _
  | finish _ generated =>
    refine finishTag_notes _ _ (fun s hs => hP s ?_) c
    exact generateEach_placeholders ((generate_placeholding env _).node _)
      (congrArg (·.1.2) generated) hs
  | reserve _ _ => exact .refl _
  | settle _ _ _ => exact finishInstance_notes hplain _ _ _
  | @title fuel at' e e' id context c isInstance expanded =>
    have hrun := generateElement_instance env (fuel + 1) at' context isInstance
    rw [expanded] at hrun
    have hmarker := hwrites _ _ (.marker isInstance hrun)
    rw [← title_of_expandInstance expanded] at hmarker
    exact .prepend_comment _ id hmarker

theorem Call.notes (hplain : env.Plain) (hP : ∀ s ∈ placeholders, P s) {call : Call}
    (h : call.WritesOnly env P) : call.context.canvas.Notes P (call.run env).2.canvas :=
  (call.steps env).related (R := fun c c' => c.canvas.Notes P c'.canvas) (fun _ => .refl _) .trans
    fun inner hleads _ _ hacts => hacts.notes hplain hP (h inner hleads)

end Steps

/-- The comments that the generation to some depth adds are written by the calls of it. -/
structure Noting (env : Environment) (P : String → Prop) (fuel : Nat) : Prop where
  node : ∀ at' node c, Call.WritesOnly env P ⟨fuel, at', .node node, c⟩ →
    c.canvas.Notes P (generateNode env fuel at' node c).2.canvas
  reference : ∀ at' r c, Call.WritesOnly env P ⟨fuel, at', .reference r, c⟩ →
    c.canvas.Notes P (generateReference env fuel at' r c).2.canvas
  element : ∀ at' e c, Call.WritesOnly env P ⟨fuel, at', .element e, c⟩ →
    c.canvas.Notes P (generateElement env fuel at' e c).2.canvas

/-- **Every comment** that a run adds is a placeholder, or a call that it leads to writes it. -/
theorem generate_notes {env : Environment} {P : String → Prop} (hplain : env.Plain)
    (hP : ∀ s ∈ placeholders, P s) (fuel : Nat) : Noting env P fuel where
  node _ _ _ h := Call.notes hplain hP h
  reference _ _ _ h := Call.notes hplain hP h
  element _ _ _ h := Call.notes hplain hP h

/-! ## The comments of a run that succeeds -/

section Ends

variable {env : Environment} {call inner : Call} {c' : Context} {id s : String}

theorem hasComment_spanWith (s : String) (c : Context) :
    (spanWith (.comment s) c).2.canvas.HasComment s :=
  (Canvas.hasComment_create _ _).2 (Or.inr List.mem_cons_self)

/-- A reference to an element that is not there shows a comment. -/
theorem generateReference_of_empty {at' : Surroundings} {r : Reference} {v : ReferredValue}
    (h : at'.definitions.value r = .ok v) (hkind : v.kind = "element")
    (hempty : ∀ node, v.default ≠ some (.node node)) (fuel : Nat) (c : Context) :
    generateReference env (fuel + 1) at' r c
      = spanWith (.comment ("Content for slot " ++ r.id)) c := by
  have hcompound : ¬ (v.kind = "object" || v.kind = "array") = true := by simp [hkind]
  rw [generateReference_of_value h, generateValue, if_neg hcompound, if_pos hkind]
  rcases hdefault : v.default with _ | node | value
  · rfl
  · exact absurd hdefault (hempty node)
  · rfl

/-- The element that an instance comes to is on the canvas before it gets its comment. -/
theorem lt_of_expandInstance (hplain : env.Plain) {fuel : Nat} {at' : Surroundings}
    {e e' : Element} (he : e.isInstance = true) {id : Nat} {c c' : Context}
    (h : expandInstance env (fuel + 1) at' e c = ((e', .ok id), c')) :
    id < c'.canvas.tags.size := by
  obtain ⟨entry, wrapper, there, styled, hentry, hwrapper, hstages, hquiet, -⟩ :=
    exists_of_expandInstance h
  obtain ⟨fuel, rfl⟩ := generateElement_ok hwrapper
  obtain ⟨pieces, before, attrs, -, hcreate⟩ := (TagRun.of_run rfl hwrapper).children
  obtain ⟨hid, hcanvas⟩ := Prod.mk.inj hcreate
  have hgrows := (Closes.stages he hentry hwrapper hstages hquiet).grows hplain
  obtain ⟨t', ht', -⟩ := hgrows.canvas id ⟨_, attrs, pieces⟩ (by
    rw [← hcanvas, ← hid]
    exact Array.getElem?_push_size)
  exact (Array.getElem?_eq_some_iff.1 ht').1

/-- What a call that succeeds writes is on the canvas. -/
theorem Writes.hasComment (hplain : env.Plain) (h : Writes env call id s)
    (hends : call.Ends env c') : c'.canvas.HasComment s := by
  cases h with
  | @locale fuel at' r c scope =>
    obtain ⟨piece, hrun⟩ := Call.ends_reference.1 hends
    rw [generateReference_succ, if_pos scope] at hrun
    have hspan := hasComment_spanWith ("Content for locale " ++ r.id) c
    rwa [hrun] at hspan
  | @slot fuel at' r v c value kind empty =>
    obtain ⟨piece, hrun⟩ := Call.ends_reference.1 hends
    rw [generateReference_of_empty value kind empty] at hrun
    have hspan := hasComment_spanWith ("Content for slot " ++ r.id) c
    rwa [hrun] at hspan
  | @marker fuel at' e e' id' c c'' isInstance run =>
    obtain ⟨x, id, hrun⟩ := Call.ends_element.1 hends
    obtain ⟨fuel, there, rfl, hexpanded, rfl⟩ := generateElement_ok_instance isInstance hrun
    obtain ⟨entry, -, -, -, -, -, -, -, rfl⟩ := exists_of_expandInstance hexpanded
    exact Canvas.hasComment_prepend (lt_of_expandInstance hplain isInstance hexpanded)

/-- **What the calls of a run write** is on the canvas, if the run succeeds. -/
theorem Leads.hasComment (hplain : env.Plain) (h : Leads env call inner) (hends : call.Ends env c')
    (hwrites : Writes env inner id s) : c'.canvas.HasComment s := by
  induction h using Relation.ReflTransGen.head_induction_on generalizing c' with
  | refl => exact hwrites.hasComment hplain hends
  | head hmakes _ ih =>
    obtain ⟨before, there, hinner, hgrows, hcloses⟩ := hmakes.ends hplain hends
    exact (ih hinner).mono (hgrows.canvas.trans (hcloses.grows hplain).canvas)

end Ends

/-! ## Identifiers -/

section Identifiers

open Markup Html.Scanner

variable {env : Environment} {call inner : Call} {id s : String}

theorem Writes.names {A : Use → Prop} (h : Writes env call id s) (hcall : call.Sees A) :
    ∃ u, A u ∧ u.Names id := by
  cases h with
  | locale _ | slot _ _ _ => exact ⟨_, hcall.task _ List.mem_cons_self, rfl⟩
  | @marker fuel at' e e' n c c' isInstance run =>
    refine ⟨.inst e.componentName, hcall.task _ (Element.mem_uses.2 (Or.inl ?_)), ?_⟩
    · rw [Element.ownUses_instance isInstance]
      exact List.mem_cons_self
    · rw [Use.Names, Element.title, Element.componentName]
      cases e.semanticType.or e.name with
      | none => exact Or.inl rfl
      | some title => exact Or.inr rfl

theorem Writes.inSight (h : Writes env inner id s) (hleads : Leads env call inner) :
    call.InSight env id := by
  refine h.names (hleads.sees (fun entry hentry u hu => ?_) (call.sees_sight env))
  exact List.mem_append_right _ (List.mem_append_right _ (List.mem_flatMap.2 ⟨entry, hentry, hu⟩))

/-- A comment is an identifier with words in front of it, or with a word behind it. -/
theorem Writes.toList_eq (h : Writes env call id s) :
    (∃ words ∈ ["Content for locale", "Content for slot"],
      s.toList = words.toList ++ ' ' :: id.toList) ∨
    s.toList = id.toList ++ ' ' :: "component".toList := by
  have hfront {front words : String} (hblank : front.toList = words.toList ++ [' ']) (id : String) :
      (front ++ id).toList = words.toList ++ ' ' :: id.toList := by
    rw [String.toList_append, hblank, List.append_assoc, List.singleton_append]
  cases h with
  | locale _ => exact Or.inl ⟨_, List.mem_cons_self, hfront (by decide) _⟩
  | slot _ _ _ =>
    exact Or.inl ⟨_, List.mem_cons_of_mem _ List.mem_cons_self, hfront (by decide) _⟩
  | marker _ _ =>
    have hword : " component".toList = ' ' :: "component".toList := by decide
    exact Or.inr (by rw [String.toList_append, hword])

/-- **The end of a comment** stands in its text exactly if it stands in the identifier. -/
theorem Writes.isRemark_iff (h : Writes env call id s) : IsRemark s ↔ IsRemark id := by
  have hblank : ' ' ∉ ['-', '-', '>'] := by decide
  rw [IsRemark, IsRemark, not_iff_not]
  rcases h.toList_eq with ⟨words, hwords, heq⟩ | heq
  · have hnone : ∀ words ∈ ["Content for locale", "Content for slot"],
        ¬ ['-', '-', '>'] <:+: words.toList := by decide
    rw [heq, infix_append_cons_iff hblank, or_iff_right (hnone words hwords)]
  · have hnone : ¬ ['-', '-', '>'] <:+: "component".toList := by decide
    rw [heq, infix_append_cons_iff hblank, or_iff_left hnone]

/-- A comment that ends early has an identifier that ends it. -/
theorem Writes.endsEarly (h : Writes env call id s) (hs : EndsEarly s.toList) :
    EndsEarly id.toList := by
  rcases h.toList_eq with ⟨words, hwords, heq⟩ | heq
  · have hnone : ∀ words ∈ ["Content for locale", "Content for slot"],
        ¬ EndsEarly words.toList := by
      unfold EndsEarly HoldsEnd
      decide
    rw [heq, endsEarly_append_iff, or_iff_right (hnone words hwords)] at hs
    exact Or.inr (Or.inr hs)
  · have hnone : ¬ HoldsEnd "component".toList := by
      unfold HoldsEnd
      decide
    rw [heq, endsEarly_append_iff, or_iff_left hnone] at hs
    exact hs

theorem placeholders_whole : ∀ s ∈ placeholders, IsRemark s ∧ ¬ EndsEarly s.toList := by
  unfold IsRemark EndsEarly HoldsEnd
  decide

end Identifiers

section Comments

open Markup Html.Scanner

variable {env : Environment} {fuel : Nat} {at' : Surroundings} {node node' : Node} {piece : Piece}
  {c c' : Context}

/-- **The comments of a page.** Let a node be generated without a failure, on a canvas that has no
comments so far. Each comment that is put on the canvas is one of two fixed ones, or a call of the
generation writes it around an identifier in sight, as that stands in the document, and all that is
written is there. So the end of a comment stands in no comment exactly if it stands in no identifier
that is written. If it is in no identifier in sight, it is in no comment of the markup, and if no
identifier in sight ends a comment early, each comment is read as one that ends where it was closed,
whatever stands behind it. -/
theorem generateNode_comments (hplain : env.Plain)
    (hrun : generateNode env fuel at' node c = ((node', .ok piece), c'))
    (hempty : ∀ s, ¬ c.canvas.HasComment s) :
    let call : Call := ⟨fuel, at', .node node, c⟩
    (∀ s, c'.canvas.HasComment s → s ∈ placeholders ∨
      ∃ inner id, Leads env call inner ∧ Writes env inner id s ∧ call.InSight env id) ∧
    (∀ inner id s, Leads env call inner → Writes env inner id s → c'.canvas.HasComment s) ∧
    ((∀ s, c'.canvas.HasComment s → IsRemark s) ↔
      ∀ inner id s, Leads env call inner → Writes env inner id s → IsRemark id) ∧
    ∀ s ∈ (c'.canvas.markup piece).comments,
      ((∀ id, call.InSight env id → IsRemark id) → IsRemark s) ∧
      ((∀ id, call.InSight env id → ¬ EndsEarly id.toList) → ∀ foreign r,
        Html.Scanner.markup foreign ((Markup.comment s).print.toList ++ r) = ([.comment], r)) := by
  intro call
  have hends : call.Ends env c' := Call.ends_node.2 ⟨node', piece, hrun⟩
  have hwritten : ∀ s, c'.canvas.HasComment s → s ∈ placeholders ∨
      ∃ inner id, Leads env call inner ∧ Writes env inner id s := by
    have honly : call.WritesOnly env fun s => s ∈ placeholders ∨
        ∃ inner id, Leads env call inner ∧ Writes env inner id s :=
      fun inner hleads id s hwrites => Or.inr ⟨inner, id, hleads, hwrites⟩
    have hnotes := (generate_notes hplain (fun s hs => Or.inl hs) fuel).node at' node c honly
    rw [hrun] at hnotes
    exact fun s hs => (hnotes s hs).resolve_left (hempty s)
  have hthere : ∀ inner id s, Leads env call inner → Writes env inner id s →
      c'.canvas.HasComment s := fun inner id s hleads hwrites =>
    hleads.hasComment hplain hends hwrites
  have hmarkup : ∀ s ∈ (c'.canvas.markup piece).comments, s ∈ placeholders ∨
      ∃ inner id, Leads env call inner ∧ Writes env inner id s := fun s hs => by
    rcases Canvas.hasComment_of_markup hs with hcanvas | rfl
    · exact hwritten s hcanvas
    · exact Or.inl ((generate_placeholding env fuel).node at' node c s (by rw [hrun]))
  refine ⟨fun s hs => ?_, hthere, ⟨fun h inner id s hleads hwrites => ?_, fun h s hs => ?_⟩,
    fun s hs => ⟨fun h => ?_, fun h foreign r => ?_⟩⟩
  · exact (hwritten s hs).imp_right fun ⟨inner, id, hleads, hwrites⟩ =>
      ⟨inner, id, hleads, hwrites, hwrites.inSight hleads⟩
  · exact hwrites.isRemark_iff.1 (h s (hthere inner id s hleads hwrites))
  · rcases hwritten s hs with hfixed | ⟨inner, id, hleads, hwrites⟩
    · exact (placeholders_whole s hfixed).1
    · exact hwrites.isRemark_iff.2 (h inner id s hleads hwrites)
  · rcases hmarkup s hs with hfixed | ⟨inner, id, hleads, hwrites⟩
    · exact (placeholders_whole s hfixed).1
    · exact hwrites.isRemark_iff.2 (h id (hwrites.inSight hleads))
  · refine (markup_comment_iff foreign s r).2 fun hearly => ?_
    rcases hmarkup s hs with hfixed | ⟨inner, id, hleads, hwrites⟩
    · exact (placeholders_whole s hfixed).2 hearly
    · exact h id (hwrites.inSight hleads) (hwrites.endsEarly hearly)

end Comments

/-! ## Names that end a comment -/

/-- A text of a locale, an element that is not given and an instance, all of one name. -/
def namedNode (name : String) : Node := .element {
  elementType := "div", key := "page"
  children := [.dynamic { scope := .locale, id := name }, .dynamic (.toProp name),
    .element (.ofComponent name "badge")] }

/-- The call for a page with these. -/
def namedCall (name : String) : Call where
  fuel := 10
  place := { definitions := { props := [(name, { kind := "element" })] }, hierarchy := ["Page"] }
  task := .node (namedNode name)
  context := {}

/-- The components that the page can have instances of. -/
def namedEnvironment (name : String) : Environment := pageEnvironment [(name, emptyComponent name)]

/-- The generation of the page. -/
def namedRun (name : String) : Generated Node Piece × Context :=
  generateNode (namedEnvironment name) 10 (namedCall name).place (namedNode name) {}

/-- The comments in the markup of the page. -/
def namedComments (name : String) : Option (List String) :=
  (namedRun name).1.2.toOption.map fun piece => ((namedRun name).2.canvas.markup piece).comments

theorem namedRun_eq {name : String} {piece : Piece} (h : (namedRun name).1.2 = .ok piece) :
    generateNode (namedEnvironment name) 10 (namedCall name).place (namedNode name) {}
      = (((namedRun name).1.1, .ok piece), (namedRun name).2) :=
  Prod.ext (Prod.ext rfl h) rfl

theorem namedComments_eq {name : String} {piece : Piece} (h : (namedRun name).1.2 = .ok piece) :
    namedComments name = some ((namedRun name).2.canvas.markup piece).comments := by
  rw [namedComments, h]
  rfl

/-- All that is in sight there has the name. -/
theorem namedCall_inSight {id : String}
    (h : (namedCall "note").InSight (namedEnvironment "note") id) : id = "note" ∨ id = "" := by
  obtain ⟨u, hu, hnames⟩ := h
  have hsight : (namedCall "note").sight (namedEnvironment "note")
      = [.shown { scope := .locale, id := "note" }, .shown (.toProp "note"), .inst "note"] := rfl
  rw [hsight] at hu
  simp only [List.mem_cons, List.not_mem_nil, or_false] at hu
  rcases hu with rfl | rfl | rfl
  · exact Or.inl hnames
  · exact Or.inl hnames
  · refine hnames.symm.imp_left fun hname => ?_
    rw [registryName] at hname
    split at hname
    · simp at hname
    · exact hname

theorem namedNode_comments : (namedEnvironment "note").Plain ∧
    namedComments "note"
      = some ["Content for locale note", "Content for slot note", "note component"] ∧
    ∀ s ∈ (namedComments "note").getD [], Markup.IsRemark s ∧ ∀ foreign r,
      Html.Scanner.markup foreign ((Markup.comment s).print.toList ++ r) = ([.comment], r) := by
  have hplain : (namedEnvironment "note").Plain := ⟨rfl, rfl⟩
  have hcomments : namedComments "note"
      = some ["Content for locale note", "Content for slot note", "note component"] := by
    decide +kernel
  obtain ⟨piece, hpiece⟩ := exists_of_isOk (by decide +kernel : (namedRun "note").1.2.isOk = true)
  have hempty : ∀ s, ¬ ({} : Context).canvas.HasComment s := by
    rintro s ⟨id, t, ht, -⟩
    simp at ht
  obtain ⟨-, -, -, hmarkup⟩ := generateNode_comments hplain (namedRun_eq hpiece) hempty
  have hclosed : ∀ id, (namedCall "note").InSight (namedEnvironment "note") id →
      Markup.IsRemark id ∧ ¬ Html.Scanner.EndsEarly id.toList := fun id hid => by
    rcases namedCall_inSight hid with rfl | rfl <;>
      · unfold Markup.IsRemark Html.Scanner.EndsEarly Html.Scanner.HoldsEnd
        decide
  refine ⟨hplain, hcomments, fun s hs => ?_⟩
  rw [namedComments_eq hpiece, Option.getD_some] at hs
  obtain ⟨hremark, hread⟩ := hmarkup s hs
  exact ⟨hremark fun id hid => (hclosed id hid).1, hread fun id hid => (hclosed id hid).2⟩

/-- A name can end the comments that it stands in, and go on as markup. -/
theorem namedNode_breaksOut :
    (¬ ∀ name, ∀ s ∈ (namedComments name).getD [], Markup.IsRemark s) ∧
    printed ((namedRun "--><b>x</b>").1.2, (namedRun "--><b>x</b>").2) = some
      ("<div><span><!--Content for locale --><b>x</b>--></span>" ++
        "<span><!--Content for slot --><b>x</b>--></span>" ++
        "<b-x-b-wrapper class=\"b-x-b-wrapper\"><!----><b>x</b> component--><span></span>" ++
        "</b-x-b-wrapper></div>") := by
  have hcomments : namedComments "--><b>x</b>" = some ["Content for locale --><b>x</b>",
      "Content for slot --><b>x</b>", "--><b>x</b> component"] := by decide +kernel
  refine ⟨fun h => ?_, by decide +kernel⟩
  have hremark := h "--><b>x</b>" "--><b>x</b> component" (by rw [hcomments]; decide)
  exact hremark ⟨[], "<b>x</b> component".toList, rfl⟩

end PageCompiler
