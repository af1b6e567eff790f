import PageCompiler.Proofs.Document.Naming
import PageCompiler.Proofs.Search
import PageCompiler.Resolve.Repetitions

/-!
# Distinct data sources

Two walks name the data sources of a component. The first one collects the identifiers that there
are, and naming fails if it meets one twice. So when the second one looks for free names, it knows
all identifiers, those further on in the document too.

* `Component.collectSources`: what the first walk finds.
* `Component.nameDataSources_distinct`: when naming fails, and what it does otherwise.
-/

namespace PageCompiler

/-! ## The first repetition -/

theorem firstRepeated_eq_none_iff {seen l : List String} :
    firstRepeated seen l = none ↔ l.Nodup ∧ ∀ s ∈ l, s ∉ seen := by
  induction l generalizing seen with
  | nil => simp [firstRepeated]
  | cons s rest ih =>
    rw [firstRepeated, List.nodup_cons, List.forall_mem_cons]
    split
    · rename_i hseen
      have hseen : s ∈ seen := by simpa using hseen
      simp [hseen]
    · rename_i hseen
      have hseen : s ∉ seen := by simpa using hseen
      rw [ih]
      simp only [List.mem_cons, not_or]
      constructor
      · rintro ⟨hnodup, hrest⟩
        exact ⟨⟨fun hmem => (hrest s hmem).1 rfl, hnodup⟩, hseen, fun x hx => (hrest x hx).2⟩
      · rintro ⟨⟨hnotMem, hnodup⟩, -, hrest⟩
        exact ⟨hnodup, fun x hx => ⟨fun h => hnotMem (h ▸ hx), hrest x hx⟩⟩

/-- The first repeated text stands behind distinct ones that it is among. -/
theorem firstRepeated_eq_some_iff {seen l : List String} {s : String} :
    firstRepeated seen l = some s ↔ ∃ before after, l = before ++ s :: after ∧
      (s ∈ seen ∨ s ∈ before) ∧ before.Nodup ∧ ∀ x ∈ before, x ∉ seen := by
  induction l generalizing seen with
  | nil => simp [firstRepeated]
  | cons first rest ih =>
    rw [firstRepeated]
    split
    · rename_i hseen
      have hseen : first ∈ seen := by simpa using hseen
      constructor
      · rintro ⟨⟩
        exact ⟨[], rest, rfl, Or.inl hseen, List.nodup_nil, nofun⟩
      · rintro ⟨_ | ⟨x, before⟩, after, hl, -, -, hnew⟩
        · obtain ⟨rfl, -⟩ := List.cons_eq_cons.1 hl
          rfl
        · obtain ⟨rfl, -⟩ := List.cons_eq_cons.1 hl
          exact absurd hseen (hnew _ List.mem_cons_self)
    · rename_i hseen
      have hseen : first ∉ seen := by simpa using hseen
      rw [ih]
      constructor
      · rintro ⟨before, after, rfl, hs, hnodup, hnew⟩
        simp only [List.mem_cons, not_or] at hs hnew
        refine ⟨first :: before, after, rfl, ?_, ?_, ?_⟩
        · rw [List.mem_cons]
          tauto
        · exact List.nodup_cons.2 ⟨fun hmem => (hnew first hmem).1 rfl, hnodup⟩
        · exact List.forall_mem_cons.2 ⟨hseen, fun x hx => (hnew x hx).2⟩
      · rintro ⟨_ | ⟨x, before⟩, after, hl, hs, hnodup, hnew⟩
        · obtain ⟨rfl, -⟩ := List.cons_eq_cons.1 hl
          exact absurd (hs.resolve_right List.not_mem_nil) hseen
        · obtain ⟨rfl, rfl⟩ := List.cons_eq_cons.1 hl
          rw [List.nodup_cons] at hnodup
          rw [List.forall_mem_cons] at hnew
          refine ⟨before, after, rfl, ?_, hnodup.2, fun y hy => ?_⟩
          · rw [List.mem_cons] at hs ⊢
            tauto
          · rw [List.mem_cons, not_or]
            exact ⟨fun h => hnodup.1 (h ▸ hy), hnew.2 y hy⟩

/-! ## Collecting identifiers -/

/-- The identifiers that repetitions have. -/
def sourcesOf (rs : List Repetition) : List String := rs.filterMap (·.names.source)

theorem sourcesOf_cons_none {r : Repetition} (h : r.names.source = none) (rs : List Repetition) :
    sourcesOf (r :: rs) = sourcesOf rs := List.filterMap_cons_none h

theorem sourcesOf_cons_some {r : Repetition} {s : String} (h : r.names.source = some s)
    (rs : List Repetition) : sourcesOf (r :: rs) = s :: sourcesOf rs := List.filterMap_cons_some h

/-- The identifiers that a walk has met, and the first one that it met again. -/
structure SourceCollector where
  used : List String := []
  repeated : Option String := none

/-- Collect the identifier of a repetition, and leave its names. -/
def collectSource (r : Repetition) : StateM SourceCollector RepetitionNames := do
  if let some s := r.names.source then
    modify fun k => {
      used := s :: k.used
      repeated := k.repeated.or (if k.used.contains s then some s else none) }
  return r.names

theorem collected_of_named {k k' : SourceCollector} {rs rs' : List Repetition}
    (h : Named collectSource k rs rs' k') : k' =
      ⟨(sourcesOf rs).reverse ++ k.used,
        k.repeated.or (firstRepeated k.used (sourcesOf rs))⟩ := by
  induction h with
  | nil k => simp [sourcesOf, firstRepeated]
  | @cons k _ r _ rs _ _ _ _ ih =>
    rw [ih]
    cases hsource : r.names.source with
    | none =>
      have hleft : collectSource r k = (r.names, k) := by
        rw [collectSource, hsource]
        rfl
      rw [hleft, sourcesOf_cons_none hsource]
    | some s =>
      have hmet : (collectSource r k).2 = ⟨s :: k.used,
          k.repeated.or (if k.used.contains s then some s else none)⟩ := by
        rw [collectSource, hsource]
        rfl
      rw [hmet, sourcesOf_cons_some hsource, firstRepeated, List.reverse_cons,
        List.append_assoc, List.singleton_append]
      dsimp only
      split
      · simp
      · simp

/-- **What the first walk finds:** all identifiers, and the first that is repeated. It leaves the
component as it is. -/
theorem Component.collectSources (c : Component) :
    (c.updateM (.ofNames collectSource)).run {} =
      (c, ⟨c.dataSources.reverse, firstRepeated [] c.dataSources⟩) := by
  have hkeeps : ∀ r k, (collectSource r k).1 = r.names := by
    intro r k
    unfold collectSource
    cases r.names.source <;> rfl
  have hleft : (c.updateM (.ofNames collectSource) {}).1 = c := c.updateM_ofNames_eq hkeeps {}
  have hfound := collected_of_named (c.named collectSource {})
  rw [List.append_nil, Option.none_or] at hfound
  exact Prod.ext hleft hfound

/-! ## Naming -/

theorem dataSourceName_injective : Function.Injective dataSourceName := by
  have hne : ∀ n, dataSourceName (n + 1) ≠ "items" := by
    intro n h
    have hempty : "items" ++ toString (n + 1) = "items" ++ "" := h.trans String.append_empty.symm
    exact toString_ne_empty (n + 1) ((String.append_right_inj "items").1 hempty)
  rintro (_ | m) (_ | n) h
  · rfl
  · exact absurd h.symm (hne n)
  · exact absurd h (hne m)
  · exact Nat.repr_injective ((String.append_right_inj _).1 h)

theorem firstFreeSource_eq (used : List String) (fuel n : ℕ) :
    firstFreeSource used fuel n = searchFree dataSourceName used fuel n := by
  induction fuel generalizing n with
  | zero => rfl
  | succ fuel ih => rw [firstFreeSource, searchFree, ih]

/-- Whether a repetition gets an identifier: it has none, and does not run over a reference. -/
def Repetition.Unnamed (r : Repetition) : Prop := r.names.source = none ∧ ¬ r.isOverReference

/-- A visit names a repetition that needs a name with a free one, and leaves every other. -/
theorem nameSource_cases (r : Repetition) (s : SourceNamer) :
    (¬ r.Unnamed ∧ nameSource r s = (r.names, s)) ∨
    (r.Unnamed ∧ ∃ n, dataSourceName n ∉ s.used ∧
      nameSource r s = ({ r.names with source := some (dataSourceName n) },
        ⟨dataSourceName n :: s.used, n + 1⟩)) := by
  by_cases hr : r.Unnamed
  · refine Or.inr ⟨hr, firstFreeSource s.used s.used.length s.next, ?_, ?_⟩
    · rw [firstFreeSource_eq]
      exact name_searchFree_notMem dataSourceName_injective _ _
    · rw [nameSource, hr.1, if_neg (by simpa using hr.2)]
      rfl
  · refine Or.inl ⟨hr, ?_⟩
    have hsettled : r.names.source.isSome || r.isOverReference := by
      rw [Repetition.Unnamed, not_and_or, not_not] at hr
      exact Bool.or_eq_true_iff.2 (hr.imp_left Option.isSome_iff_ne_none.2)
    rw [nameSource, if_pos hsettled]
    rfl

/-- What becomes of a repetition when data sources are named. -/
structure SourceNamed (r r' : Repetition) : Prop where
  source : r'.source = r.source
  named : r.Unnamed → ∃ n, r'.names = { r.names with source := some (dataSourceName n) }
  kept : ¬ r.Unnamed → r'.names = r.names

theorem hides_nameSource : Hides (fun r => { r.names with source := none }) nameSource := by
  intro r s node
  rcases nameSource_cases r s with ⟨-, hkept⟩ | ⟨-, n, -, hnamed⟩
  · rw [hkept]
  · rw [hnamed]

theorem sourceNamed_of_named {s s' : SourceNamer} {rs rs' : List Repetition}
    (h : Named nameSource s rs rs' s') : List.Forall₂ SourceNamed rs rs' := by
  induction h with
  | nil => exact .nil
  | @cons s _ r _ _ _ names source _ ih =>
    refine .cons ?_ ih
    rcases nameSource_cases r s with ⟨hr, hkept⟩ | ⟨hr, n, -, hnamed⟩
    · exact ⟨source, fun h => absurd h hr, fun _ => by rw [names, hkept]⟩
    · exact ⟨source, fun _ => ⟨n, by rw [names, hnamed]⟩, fun h => absurd hr h⟩

/-- The identifiers are distinct afterwards: each was there before or is new. -/
theorem nodup_of_named {s s' : SourceNamer} {rs rs' : List Repetition}
    (h : Named nameSource s rs rs' s') (hused : sourcesOf rs ⊆ s.used)
    (hnodup : (sourcesOf rs).Nodup) :
    (sourcesOf rs').Nodup ∧ ∀ id ∈ sourcesOf rs',
      id ∈ sourcesOf rs ∨ id ∉ s.used := by
  induction h with
  | nil => exact ⟨hnodup, fun _ => Or.inl⟩
  | @cons s _ r r' rs rs' names _ _ ih =>
    rcases nameSource_cases r s with ⟨-, hkept⟩ | ⟨hr, n, hn, hnamed⟩
    · rw [hkept] at names ih
      cases hsource : r.names.source with
      | none =>
        rw [sourcesOf_cons_none hsource] at hused hnodup ⊢
        rw [sourcesOf_cons_none (by rw [names, hsource])]
        exact ih hused hnodup
      | some id =>
        rw [sourcesOf_cons_some hsource] at hused hnodup ⊢
        rw [sourcesOf_cons_some (by rw [names, hsource])]
        rw [List.cons_subset] at hused
        rw [List.nodup_cons] at hnodup
        obtain ⟨hrest, hfrom⟩ := ih hused.2 hnodup.2
        refine ⟨List.nodup_cons.2 ⟨fun hmem => ?_, hrest⟩, List.forall_mem_cons.2
          ⟨Or.inl List.mem_cons_self, fun x hx => (hfrom x hx).imp_left (List.mem_cons_of_mem _)⟩⟩
        exact (hfrom id hmem).elim hnodup.1 fun hnew => hnew hused.1
    · rw [hnamed] at names ih
      have hsource' : r'.names.source = some (dataSourceName n) := by rw [names]
      rw [sourcesOf_cons_none hr.1] at hused hnodup ⊢
      rw [sourcesOf_cons_some hsource']
      obtain ⟨hrest, hfrom⟩ := ih (List.subset_cons_of_subset _ hused) hnodup
      refine ⟨List.nodup_cons.2 ⟨fun hmem => ?_, hrest⟩, List.forall_mem_cons.2
        ⟨Or.inr hn, fun x hx => (hfrom x hx).imp_right fun hnew hmem => hnew ?_⟩⟩
      · exact (hfrom _ hmem).elim (fun hold => hn (hused hold)) fun hnew => hnew List.mem_cons_self
      · exact List.mem_cons_of_mem _ hmem

/-- **Data sources are distinct, or naming fails.** Naming fails exactly when two repetitions of the
component share an identifier, and reports the first one that is met for the second time; the walk
that looks for it leaves the component as it is. Otherwise there is a result, which differs from the
component in nothing but identifiers: those that were there and repetitions over a reference stay as
they are, every other repetition gets an identifier of the series, and all of them are distinct. -/
theorem Component.nameDataSources_distinct (c : Component) :
    (∀ d, c.nameDataSources = .error d ↔ ∃ before identifier after,
      c.dataSources = before ++ identifier :: after ∧ identifier ∈ before ∧ before.Nodup ∧
        d = .duplicateDataSource c.name identifier) ∧
    (c.updateM (.ofNames collectSource)).run {} =
      (c, ⟨c.dataSources.reverse, firstRepeated [] c.dataSources⟩) ∧
    (c.dataSources.Nodup → ∃ named, c.nameDataSources = .ok named ∧
      named.mapNames (fun r => { r.names with source := none }) =
        c.mapNames (fun r => { r.names with source := none }) ∧
      List.Forall₂ SourceNamed c.repetitions named.repetitions ∧ named.dataSources.Nodup) := by
  refine ⟨fun d => ?_, c.collectSources, fun hnodup => ?_⟩
  · have hrepeated := fun s => @firstRepeated_eq_some_iff [] c.dataSources s
    rw [nameDataSources]
    split
    · rename_i identifier hfirst
      obtain ⟨before, after, hsources, hmem, hnodup, -⟩ := (hrepeated identifier).1 hfirst
      constructor
      · rintro ⟨⟩
        exact ⟨before, identifier, after, hsources, hmem.resolve_left List.not_mem_nil, hnodup, rfl⟩
      · rintro ⟨before', identifier', after', hsources', hmem', hnodup', rfl⟩
        have hfirst' := (hrepeated identifier').2
          ⟨before', after', hsources', Or.inr hmem', hnodup', fun _ _ => List.not_mem_nil⟩
        obtain rfl := Option.some.inj (hfirst.symm.trans hfirst')
        rfl
    · rename_i hfirst
      refine ⟨nofun, ?_⟩
      rintro ⟨before, identifier, after, hsources, hmem, hnodup, -⟩
      have hfirst' := (hrepeated identifier).2
        ⟨before, after, hsources, Or.inr hmem, hnodup, fun _ _ => List.not_mem_nil⟩
      cases hfirst.symm.trans hfirst'
  · have hfirst : firstRepeated [] c.dataSources = none :=
      firstRepeated_eq_none_iff.2 ⟨hnodup, fun _ _ => List.not_mem_nil⟩
    have hnamed := c.named nameSource { used := c.dataSources }
    have hok : c.nameDataSources =
        .ok (c.updateM (.ofNames nameSource) { used := c.dataSources }).1 := by
      rw [nameDataSources, hfirst]
      rfl
    exact ⟨_, hok, c.mapNames_updateM hides_nameSource _, sourceNamed_of_named hnamed,
      (nodup_of_named hnamed (List.Subset.refl _) hnodup).1⟩

/-- A repetition in another one, both without an identifier, one over a prop, and one whose
identifier is of the series. -/
def listBox : Component where
  name := "List"
  node := .element {
    elementType := "box"
    children := [
      .repetition {
        node := .repetition { node := .constant (.text "a"), source := .object (.array []) }
        source := .object (.array []) },
      .repetition { node := .constant (.text "b"), source := .dynamic ⟨.prop, "rows", none⟩ },
      .repetition {
        node := .constant (.text "c")
        source := .object (.array [])
        names := { source := some "items1" } }] }

theorem listBox_distinct : ∃ named, listBox.nameDataSources = .ok named ∧
    named.dataSources = ["items", "items2", "items1"] ∧ named.dataSources.Nodup := by
  have hnodup : listBox.dataSources.Nodup := by decide +kernel
  obtain ⟨named, hnamed, -, -, hdistinct⟩ := listBox.nameDataSources_distinct.2.2 hnodup
  have hsources : listBox.nameDataSources.toOption.map (·.dataSources)
      = some ["items", "items2", "items1"] := by decide +kernel
  rw [hnamed] at hsources
  exact ⟨named, hnamed, Option.some.inj hsources, hdistinct⟩

end PageCompiler
