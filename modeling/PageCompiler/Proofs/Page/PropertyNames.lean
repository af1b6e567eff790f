import PageCompiler.Proofs.Page.StyleStage
import PageCompiler.Proofs.Text.Dashed

/-!
# Names of style properties

The names of properties go through `dashCase` on their way to a sheet, so that `backgroundColor` can
be written for `background-color`. A name that is a dashed text already is declared as it is. The
dashes in front of a name are no part of a dashed text: the one dash of a vendor, or the two dashes
of a property of one's own, are lost, and such a property is taken for the one without them.

* `dashCase_undashed`: dashes in front of a text make no difference.
* `dashCase_eq_self_iff`: the texts that are their own dashed form.
* `stylesheetStage_declares`: what the rule for an element declares.
* `gapBox_renamed`: properties that are declared under other names.
-/

namespace PageCompiler

/-! ## Dashes in front -/

/-- A text without the dashes in front of it. -/
def undashed (s : String) : String := trimStart (· = '-') s

theorem breakHumps_dash (rest : List Char) : breakHumps ('-' :: rest) = '-' :: breakHumps rest := by
  cases rest with
  | nil => rfl
  | cons d rest =>
    rw [breakHumps]
    exact if_neg (by simp)

/-- **Dashes in front of a text make no difference to its dashed form.** -/
theorem dashCase_undashed (s : String) : dashCase (undashed s) = dashCase s := by
  have hwords : ∀ cs : List Char,
      words (breakHumps (cs.dropWhile (· = '-'))) = words (breakHumps cs) := by
    intro cs
    induction cs with
    | nil => rfl
    | cons c rest ih =>
      by_cases hc : c = '-'
      · subst hc
        rw [List.dropWhile_cons_of_pos (by simp), ih, breakHumps_dash, words, words,
          piecesBy_of_pos (by decide)]
      · rw [List.dropWhile_cons_of_neg (by simpa using hc)]
  rw [dashCase, dashCase, undashed, trimStart, String.toList_ofList, hwords]

/-- **A text is its own dashed form exactly if it is a dashed one**, or empty. -/
theorem dashCase_eq_self_iff {s : String} : dashCase s = s ↔ IsDashed s ∨ s = "" := by
  constructor
  · intro hself
    by_cases hword : HasWord s
    · exact Or.inl (hself ▸ isDashed_dashCase hword)
    · exact Or.inr (hself.symm.trans (dashCase_eq_empty_iff.2 hword))
  · rintro (hdashed | rfl)
    · exact hdashed.dashCase_eq
    · rfl

theorem isDashed_of_dashCase_eq {s : String} (h : dashCase s = s) (hne : s ≠ "") : IsDashed s :=
  (dashCase_eq_self_iff.1 h).resolve_right hne

/-! ## Names of properties -/

/-- The name of a style property: a dashed text, with no dash in front, with the one of a vendor, or
with the two of a property of one's own. -/
def IsPropertyName (name : String) : Prop :=
  ∃ dashes ∈ ["", "-", "--"], ∃ body, IsDashed body ∧ name = dashes ++ body

namespace IsPropertyName

variable {name : String}

theorem undashed_isDashed (h : IsPropertyName name) : IsDashed (undashed name) := by
  obtain ⟨dashes, hdashes, body, hbody, rfl⟩ := h
  obtain ⟨c, rest, hcons, hc⟩ := hbody.exists_head
  have hne : c ≠ '-' := by
    rintro rfl
    exact absurd hc (by decide)
  have hdrop : undashed (dashes ++ body) = body := by
    rw [undashed, trimStart, String.toList_append, ← String.toList_inj, String.toList_ofList, hcons]
    simp only [List.mem_cons, List.not_mem_nil, or_false] at hdashes
    rcases hdashes with rfl | rfl | rfl <;> simp [hne]
  rwa [hdrop]

/-- A property is declared under its name without the dashes in front. -/
theorem dashCase_eq (h : IsPropertyName name) : dashCase name = undashed name := by
  rw [← dashCase_undashed, h.undashed_isDashed.dashCase_eq]

/-- A property keeps its name exactly if there is no dash in front. -/
theorem undashed_eq_iff (h : IsPropertyName name) :
    undashed name = name ↔ name.toList.head? ≠ some '-' := by
  constructor
  · intro hsame hhead
    obtain ⟨c, rest, hcons, hc⟩ := h.undashed_isDashed.exists_head
    rw [hsame] at hcons
    rw [hcons, List.head?_cons, Option.some_inj] at hhead
    exact absurd (hhead ▸ hc) (by decide)
  · intro hhead
    rw [undashed, trimStart, ← String.toList_inj, String.toList_ofList]
    cases hcs : name.toList with
    | nil => rfl
    | cons c rest =>
      rw [hcs] at hhead
      exact List.dropWhile_cons_of_neg (by simpa using hhead)

/-- Two properties that are declared under one name, without dashes in front of theirs, are one. -/
theorem eq_of_undashed_eq {name' : String} (h : IsPropertyName name) (h' : IsPropertyName name')
    (hhead : name.toList.head? ≠ some '-') (hhead' : name'.toList.head? ≠ some '-')
    (heq : undashed name = undashed name') : name = name' := by
  rwa [h.undashed_eq_iff.2 hhead, h'.undashed_eq_iff.2 hhead'] at heq

end IsPropertyName

/-! ## The rule of an element -/

/-- The styles that have a text in a sheet, with these texts: those with a constant value, and those
with a token of the project. -/
def StyleMap.settled (styles : StyleMap) : List (String × String) :=
  styles.filterMap fun entry => entry.2.cssText?.map (entry.1, ·)

theorem StyleMap.declarations_eq {styles : StyleMap}
    (h : ∀ name ∈ Dict.keys styles, IsPropertyName name) :
    styles.declarations = styles.settled.map fun d => (undashed d.1, d.2) := by
  rw [declarations, settled, List.map_filterMap]
  refine List.filterMap_congr fun entry hentry => ?_
  rw [(h entry.1 (List.mem_map_of_mem hentry)).dashCase_eq, Option.map_map]
  rfl

/-- **What the rule for an element declares.** Where the styles of an element are filed under names
of properties, the rule for it in the sheet of its component declares first those styles, in their
order and with their values, and then the referenced ones. The name that is declared is that of the
property without the dashes in front, so it is the very name exactly if there are none, and two
properties without dashes in front are declared under two names. -/
theorem stylesheetStage_declares {template : String} (chunkName : Option String) {c : Compilation}
    {chunk : Chunk} (h : c.findChunk template .markup = some chunk) {e : Element}
    (he : e ∈ c.component.elements) (hstyles : e.style.settled ≠ [])
    (hnames : ∀ name ∈ Dict.keys e.style, IsPropertyName name) :
    ∃ done css rule, (stylesheetStage template chunkName).run c = (.ok (), done) ∧
      { name := chunkName.getD c.component.name, kind := .text, fileType := cssFile,
        content := .text css : Chunk } ∈ done.context.chunks ∧
      (Rule.print "" rule).toList <:+: css.toList ∧
      rule.selector = "." ++ e.key ∧
      rule.declarations = (e.style.settled.map fun d => (undashed d.1, d.2))
        ++ (Dict.values e.referencedStyles).flatMap (·.baseDeclarations) ∧
      (∀ name ∈ Dict.keys e.style, undashed name = name ↔ name.toList.head? ≠ some '-') ∧
      ∀ name ∈ Dict.keys e.style, ∀ name' ∈ Dict.keys e.style, name.toList.head? ≠ some '-' →
        name'.toList.head? ≠ some '-' → undashed name = undashed name' → name = name' := by
  have hdeclarations := StyleMap.declarations_eq hnames
  have hbase : e.baseDeclarations ≠ [] := by
    rw [Element.baseDeclarations, hdeclarations]
    simp [hstyles]
  have hsheet : c.component.sheet (chunkName.getD c.component.name)
      ∈ c.component.sheets (chunkName.getD c.component.name) := by
    rw [Component.sheets, if_neg (by simp [Component.print_stylesheet_ne_empty he hbase])]
    exact List.mem_cons_self
  refine ⟨_, _, e.baseRule, stylesheetStage_run chunkName h, List.mem_append_right _ hsheet,
    Component.rule_infix he (e.baseRule_mem hbase), rfl, ?_, fun name hname =>
    (hnames name hname).undashed_eq_iff, fun name hname name' hname' => ?_⟩
  · rw [Element.baseRule, Element.baseDeclarations, hdeclarations]
  · exact (hnames name hname).eq_of_undashed_eq (hnames name' hname')

/-! ## A box with a gap of its own -/

/-- Styles under a name of one's own, under that of a vendor, and under a plain one. -/
def gapStyles : StyleMap := [
  ("--gap", .constant (.text "4px")),
  ("-webkit-line-clamp", .constant (.text "2")),
  ("gap", .constant (.text "8px"))]

/-- An element with these styles. -/
def gapElement : Element := { key := "box", elementType := "div", style := gapStyles }

/-- A box with these styles. -/
def gapBox : Component := { name := "Box", node := .element gapElement }

/-- The box with its markup. -/
def gapCompilation : Compilation where
  component := gapBox
  options := {}
  context := {
    chunks := [⟨templateChunkName, .markup, htmlFile, .markup (.comment "box"), [], none⟩] }

theorem isPropertyName_gapStyles : ∀ name ∈ Dict.keys gapStyles, IsPropertyName name := by
  have hgap : IsDashed "gap" := isDashed_of_dashCase_eq (by decide +kernel) (by decide)
  have hclamp : IsDashed "webkit-line-clamp" :=
    isDashed_of_dashCase_eq (by decide +kernel) (by decide)
  intro name hname
  change name ∈ ["--gap", "-webkit-line-clamp", "gap"] at hname
  simp only [List.mem_cons, List.not_mem_nil, or_false] at hname
  rcases hname with rfl | rfl | rfl
  · exact ⟨"--", by simp, "gap", hgap, by decide⟩
  · exact ⟨"-", by simp, "webkit-line-clamp", hclamp, by decide⟩
  · exact ⟨"", by simp, "gap", hgap, by decide⟩

/-- The rule for the box. -/
theorem gapBox_declares : ∃ done css rule,
    (stylesheetStage templateChunkName none).run gapCompilation = (.ok (), done) ∧
      { name := "Box", kind := .text, fileType := cssFile, content := .text css : Chunk }
        ∈ done.context.chunks ∧
      (Rule.print "" rule).toList <:+: css.toList ∧
      rule.selector = ".box" ∧
      rule.declarations = [("gap", "4px"), ("webkit-line-clamp", "2"), ("gap", "8px")] := by
  have hfind : gapCompilation.findChunk templateChunkName .markup
      = some ⟨templateChunkName, .markup, htmlFile, .markup (.comment "box"), [], none⟩ := rfl
  have hmem : gapElement ∈ gapBox.elements := List.mem_cons_self
  obtain ⟨done, css, rule, hrun, hchunk, hrule, hselector, hdeclarations, -⟩ :=
    stylesheetStage_declares none hfind hmem (by decide) isPropertyName_gapStyles
  refine ⟨done, css, rule, hrun, hchunk, hrule, hselector, hdeclarations.trans ?_⟩
  decide +kernel

/-- **Properties do not keep the dashes in front of their names.** The gap of the box itself and its
gap of another meaning are declared under one name. -/
theorem gapBox_renamed :
    (¬ ∀ styles : StyleMap, (∀ name ∈ Dict.keys styles, IsPropertyName name) →
      styles.declarations = styles.settled) ∧
    (¬ ∀ name name' : String, IsPropertyName name → IsPropertyName name' →
      dashCase name = dashCase name' → name = name') ∧
    gapStyles.settled = [("--gap", "4px"), ("-webkit-line-clamp", "2"), ("gap", "8px")] ∧
    gapStyles.declarations = [("gap", "4px"), ("webkit-line-clamp", "2"), ("gap", "8px")] ∧
    gapBox.stylesheet.print
      = ".box \x7b\n  gap: 4px;\n  webkit-line-clamp: 2;\n  gap: 8px;\n\x7d" := by
  have hnames := isPropertyName_gapStyles
  have hsettled : gapStyles.settled
      = [("--gap", "4px"), ("-webkit-line-clamp", "2"), ("gap", "8px")] := by decide
  have hdeclared : gapStyles.declarations
      = [("gap", "4px"), ("webkit-line-clamp", "2"), ("gap", "8px")] := by decide +kernel
  refine ⟨fun hall => ?_, fun hall => ?_, hsettled, hdeclared, by decide +kernel⟩
  · have hsame := hall gapStyles hnames
    rw [hsettled, hdeclared] at hsame
    exact absurd hsame (by decide)
  · exact absurd (hall "--gap" "gap" (hnames _ (by decide)) (hnames _ (by decide))
      (by decide +kernel)) (by decide)

end PageCompiler
