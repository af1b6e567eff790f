import PageCompiler.Proofs.Markup.Printing
import PageCompiler.Proofs.Page.Acyclic

/-!
# Elements that a page has

An element of a tree is on the page when it hangs in the open (`Hangs`): when nothing is above it but
tags that print what is inside them and conditionals that are shown. The generation comes to it, and
its printed form stands in that of the whole.

* `exists_reaches_of_mem`: the generation of a list that succeeds comes to each part.
* `Hangs.reached`: an element that hangs in the open is generated and printed.
-/

namespace PageCompiler

/-! ## Printed parts -/

theorem Markup.infix_printAll {m : Markup} {pieces : List Markup} (h : m ∈ pieces) :
    m.print.toList <:+: (Markup.printAll pieces).toList := by
  induction pieces with
  | nil => cases h
  | cons piece rest ih =>
    rw [printAll, String.toList_append]
    rcases List.mem_cons.1 h with rfl | h
    · exact List.infix_append_left ..
    · exact (ih h).trans (List.infix_append_right ..)

/-- What is inside an element is printed, unless the element has no end tag. -/
theorem Markup.infix_print {m : Markup} {tag : String} {attrs : Dict String} {inner : List Markup}
    (h : m ∈ inner) (htag : isVoid tag = false) :
    m.print.toList <:+: (Markup.element tag attrs inner).print.toList := by
  have hvoid : ¬ isVoid tag = true := by simp [htag]
  rw [toList_print_element, if_neg hvoid]
  exact ((infix_printAll h).trans (List.infix_append_left ..)).trans (List.infix_append_right ..)

/-! ## Canvases -/

theorem Canvas.Grows.retains {c c' : Canvas} (h : c.Grows c') : c.Retains c' := fun id t ht => by
  obtain ⟨t', ht', hdecorated⟩ := h id t ht
  obtain ⟨comments, hchildren⟩ := hdecorated.children
  refine ⟨t', ht', ?_⟩
  rw [Tag.handles, hchildren, List.filterMap_append, List.filterMap_map]
  have hnone : comments.filterMap (Piece.handle? ∘ .comment) = [] :=
    List.filterMap_eq_nil_iff.2 fun _ _ => rfl
  rw [hnone]
  rfl

/-- The markup of a complete element on a later canvas. -/
theorem Canvas.Grows.exists_markup {c c' : Canvas} {id : Nat} {t : Tag} (h : c.Grows c')
    (hid : c.Finite id) (ht : c.tags[id]? = some t) : ∃ t', t.Decorated t' ∧
      c'.markup (.element id) = .element t.name t'.attrs (t'.children.map c'.markup) := by
  obtain ⟨t', ht', hdecorated⟩ := h id t ht
  exact ⟨t', hdecorated, hdecorated.name ▸ (hid.retained h.retains).markup_eq ht'⟩

/-- A complete element is printed as something. -/
theorem Canvas.Finite.print_ne_empty {c : Canvas} {id : Nat} (h : c.Finite id) :
    c.print (.element id) ≠ "" := by
  obtain ⟨t, ht⟩ : ∃ t, c.tags[id]? = some t := by
    cases h with
    | intro found _ => exact ⟨_, found⟩
  intro hempty
  have hlist := congrArg String.toList hempty
  rw [print, h.markup_eq ht, Markup.toList_print_element, Markup.toList_startTag] at hlist
  simp at hlist

/-! ## Elements that are reached -/

/-- An element hangs below a node in the open: above it are only tags that print what is inside them,
and conditionals that are shown. -/
inductive Hangs (ds : Definitions) (e : Element) : Node → Prop
  | here : Hangs ds e (.element e)
  | child {whole : Element} {child : Node} (tag : whole.isInstance = false)
      (printed : Markup.isVoid whole.elementType = false) (mem : child ∈ whole.children)
      (hangs : Hangs ds e child) : Hangs ds e (.element whole)
  | body {q : Conditional} (shown : q.isShown ds = true) (hangs : Hangs ds e q.node) :
      Hangs ds e (.conditional q)

section Reached

variable {env : Environment} {fuel : Nat} {at' : Surroundings} {c c' : Context}

/-- **The generation of a list that succeeds** comes to each part, and has its piece. -/
theorem exists_reaches_of_mem (hplain : env.Plain) {nodes nodes' : List Node} {out : List Piece}
    (h : generateEach (generateNode env fuel at') nodes c = ((nodes', .ok out), c')) {child : Node}
    (hchild : child ∈ nodes) : ∃ there child' piece after,
      EachReaches (generateNode env fuel at') child there nodes c ∧
      generateNode env fuel at' child there = ((child', .ok piece), after) ∧ piece ∈ out ∧
      after.Grows c' := by
  induction nodes generalizing c nodes' out with
  | nil => cases hchild
  | cons node rest ih =>
    obtain ⟨node', piece, there, rest', out', hnode, -, rfl, hrest⟩ := generateEach_ok_cons h
    rcases List.mem_cons.1 hchild with rfl | hchild
    · have hgrows := (generateEach_threads hrest).grows fun _ _ _ hends => hends.grows hplain
      exact ⟨c, node', piece, there, .here, hnode, List.mem_cons_self, hgrows⟩
    · obtain ⟨before, child', piece', after, hreaches, hrun, hmem, hgrows⟩ := ih hrest hchild
      exact ⟨before, child', piece', after, .later hnode hreaches, hrun, List.mem_cons_of_mem _ hmem,
        hgrows⟩

/-- **An element that hangs in the open** is generated, and its printed form stands in that of the
whole. -/
theorem Hangs.reached (hplain : env.Plain) {e : Element} {node node' : Node} {piece : Piece}
    {done : Canvas} (h : Hangs at'.definitions e node)
    (hrun : generateNode env fuel at' node c = ((node', .ok piece), c')) (hsound : c.Sound)
    (hgrows : c'.canvas.Grows done) : ∃ below there id,
      Leads env ⟨fuel, at', .node node, c⟩ ⟨below, at', .element e, there⟩ ∧
      (generateElement env below at' e there).1.2 = .ok id ∧ done.Finite id ∧
      (done.print (.element id)).toList <:+: (done.print piece).toList := by
  induction h generalizing fuel c node' piece c' with
  | here =>
    obtain ⟨fuel, e', id, rfl, helement, -, rfl⟩ := generateNode_ok_element hrun
    have hbuilds := (generate_builds hplain.decorates fuel).element at' e c
    rw [helement] at hbuilds
    have hfinite := hbuilds.result hsound id rfl id List.mem_cons_self
    exact ⟨fuel, c, id, .single .content, by rw [helement], hfinite.retained hgrows.retains,
      List.infix_rfl⟩
  | @child whole child tag printed mem _ ih =>
    obtain ⟨above, e', id, rfl, helement, -, rfl⟩ := generateNode_ok_element hrun
    obtain ⟨fuel, rfl⟩ := generateElement_ok helement
    have hbuilds := (generate_builds hplain.decorates (fuel + 1)).element at' whole c
    rw [helement] at hbuilds
    have hfinite := hbuilds.result hsound id rfl id List.mem_cons_self
    obtain ⟨pieces, there, attrs, hchildren, hcreate⟩ := (TagRun.of_run tag helement).children
    obtain ⟨rfl, hcanvas⟩ := Prod.mk.inj hcreate
    obtain ⟨before, child', inner, after, hreaches, hchild, hmem, hafter⟩ :=
      exists_reaches_of_mem hplain hchildren mem
    have hmakes : Makes env ⟨fuel + 1, at', .element whole, c⟩ ⟨fuel, at', .node child, before⟩ :=
      .child tag hreaches
    have hcreated : there.canvas.Grows c'.canvas := by
      rw [← hcanvas]
      exact .create there.canvas _
    have hmade : c'.canvas.tags[(there.canvas.create ⟨whole.elementType, attrs, pieces⟩).1]?
        = some ⟨whole.elementType, attrs, pieces⟩ := by
      rw [← hcanvas]
      exact Array.getElem?_push_size
    have hlater : after.canvas.Grows done := hafter.canvas.trans (hcreated.trans hgrows)
    obtain ⟨below, there', id, hleads, hid, hcomplete, hinfix⟩ :=
      ih hchild ((hmakes.builds hplain.decorates).sound hsound) hlater
    obtain ⟨t', hdecorated, hmarkup⟩ := hgrows.exists_markup hfinite hmade
    refine ⟨below, there', id, (Relation.ReflTransGen.single .content).trans
      ((Relation.ReflTransGen.single hmakes).trans hleads), hid, hcomplete, hinfix.trans ?_⟩
    obtain ⟨comments, hpieces⟩ := hdecorated.children
    rw [Canvas.print, Canvas.print, hmarkup]
    refine Markup.infix_print (List.mem_map_of_mem ?_) printed
    rw [hpieces]
    exact List.mem_append_right _ hmem
  | @body q shown _ ih =>
    rcases fuel with _ | fuel
    · rw [generateNode] at hrun
      cases hrun
    rw [generateNode_conditional, if_pos shown] at hrun
    rcases hbody : generateNode env fuel at' q.node c with ⟨⟨inner, d | piece'⟩, c''⟩
    · rw [hbody] at hrun
      cases hrun
    rw [hbody] at hrun
    cases hrun
    obtain ⟨below, there, id, hleads, hid, hcomplete, hinfix⟩ := ih hbody hsound hgrows
    exact ⟨below, there, id, (Relation.ReflTransGen.single (.body shown)).trans hleads, hid,
      hcomplete, hinfix⟩

end Reached

end PageCompiler
