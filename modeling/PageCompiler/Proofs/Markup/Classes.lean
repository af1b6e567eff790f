import PageCompiler.Markup.Canvas
import PageCompiler.Proofs.Dict
import PageCompiler.Proofs.Text.Parts

/-!
# Classes on a canvas

The elements of a page get classes and comments after they were made. An element keeps what it has,
its classes among that (`Canvas.Grows`), and it has the class that it was given last
(`Tag.hasClass_addClass`).
-/

namespace PageCompiler

/-- A word stands in the attribute with the classes of an element. -/
def Tag.HasClass (t : Tag) (word : String) : Prop :=
  word ≠ "" ∧ StandsIn word ((Dict.get? t.attrs "class").getD "")

theorem Tag.class_addClass (t : Tag) (name : String) :
    Dict.get? (t.addClass name).attrs "class" =
      let present := (Dict.get? t.attrs "class").getD ""
      some (if (blankWords present).contains name then present
        else if present.isEmpty then name else present ++ " " ++ name) :=
  Dict.get?_insert_self _ _ _

theorem Tag.hasClass_addClass (t : Tag) {name : String} (h : name ≠ "") :
    (t.addClass name).HasClass name := by
  refine ⟨h, ?_⟩
  rw [class_addClass, Option.getD_some]
  split
  · rename_i hcontains
    exact .of_mem_blankWords (by simpa using hcontains)
  · split
    · exact .self name
    · exact .last _ _

theorem Tag.HasClass.addClass {t : Tag} {word : String} (h : t.HasClass word) (name : String) :
    (t.addClass name).HasClass word := by
  refine ⟨h.1, ?_⟩
  rw [class_addClass, Option.getD_some]
  split
  · exact h.2
  · split
    · rename_i hempty
      exact absurd (String.isEmpty_iff.1 hempty ▸ h.2).eq_empty h.1
    · exact h.2.append name

/-- An element is another one with more classes, and with comments in front of what is inside. -/
structure Tag.Decorated (t t' : Tag) : Prop where
  name : t'.name = t.name
  attrs : Dict.erase t'.attrs "class" = Dict.erase t.attrs "class"
  classes : ∀ word, t.HasClass word → t'.HasClass word
  children : ∃ comments : List String, t'.children = comments.map .comment ++ t.children

namespace Tag.Decorated

theorem refl (t : Tag) : t.Decorated t := ⟨rfl, rfl, fun _ h => h, [], rfl⟩

theorem trans {t t' t'' : Tag} (h : t.Decorated t') (h' : t'.Decorated t'') : t.Decorated t'' where
  name := h'.name.trans h.name
  attrs := h'.attrs.trans h.attrs
  classes word hword := h'.classes word (h.classes word hword)
  children := by
    obtain ⟨comments, hchildren⟩ := h.children
    obtain ⟨more, hmore⟩ := h'.children
    exact ⟨more ++ comments, by rw [hmore, hchildren, List.map_append, List.append_assoc]⟩

theorem addClass (t : Tag) (name : String) : t.Decorated (t.addClass name) :=
  ⟨rfl, Dict.erase_insert_self _ _ _, fun _ h => h.addClass name, [], rfl⟩

theorem prepend_comment (t : Tag) (s : String) :
    t.Decorated { t with children := .comment s :: t.children } :=
  ⟨rfl, rfl, fun _ h => h, [s], rfl⟩

end Tag.Decorated

/-- A canvas has the elements of another one, decorated at most. -/
def Canvas.Grows (c c' : Canvas) : Prop :=
  ∀ (id : Nat) (t : Tag), c.tags[id]? = some t →
    ∃ t' : Tag, c'.tags[id]? = some t' ∧ t.Decorated t'

namespace Canvas.Grows

variable {c c' c'' : Canvas}

theorem refl (c : Canvas) : c.Grows c := fun _ t h => ⟨t, h, .refl t⟩

theorem trans (h : c.Grows c') (h' : c'.Grows c'') : c.Grows c'' := fun id t ht => by
  obtain ⟨t', ht', hdecorated⟩ := h id t ht
  obtain ⟨t'', ht'', hdecorated'⟩ := h' id t' ht'
  exact ⟨t'', ht'', hdecorated.trans hdecorated'⟩

theorem create (c : Canvas) (t : Tag) : c.Grows (c.create t).2 := fun id t' h => by
  refine ⟨t', ?_, .refl t'⟩
  obtain ⟨hid, -⟩ := Array.getElem?_eq_some_iff.1 h
  rw [Canvas.create, Array.getElem?_push_lt hid, ← h, Array.getElem?_eq_getElem hid]

theorem modify (c : Canvas) (id : Nat) {f : Tag → Tag} (hf : ∀ t : Tag, t.Decorated (f t)) :
    c.Grows (c.modify id f) := fun id' t h => by
  rw [Canvas.modify, Array.getElem?_modify, h]
  split
  · exact ⟨f t, rfl, hf t⟩
  · exact ⟨t, rfl, .refl t⟩

theorem prepend_comment (c : Canvas) (id : Nat) (s : String) :
    c.Grows (c.prepend id (.comment s)) :=
  modify c id fun t => .prepend_comment t s

theorem addClass (c : Canvas) (id : Nat) (name : String) : c.Grows (c.addClass id name) :=
  modify c id fun t => .addClass t name

end Canvas.Grows

/-- An element that is given a class has it. -/
theorem Canvas.hasClass_addClass {c : Canvas} {id : Nat} {t : Tag} (h : c.tags[id]? = some t)
    {name : String} (hname : name ≠ "") :
    ∃ t', (c.addClass id name).tags[id]? = some t' ∧ t'.name = t.name ∧ t'.HasClass name := by
  refine ⟨t.addClass name, ?_, rfl, t.hasClass_addClass hname⟩
  rw [Canvas.addClass, Canvas.modify, Array.getElem?_modify, if_pos rfl, h]
  rfl

end PageCompiler
