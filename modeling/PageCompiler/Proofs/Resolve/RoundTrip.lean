import PageCompiler.Proofs.Document.RoundTrip
import PageCompiler.Proofs.Resolve.Tidy

/-!
# Documents survive being written

A component that was read is tidy, and resolving keeps it tidy, so both are read again from what is
written of them (`Component.roundTrip`).
-/

namespace PageCompiler

open Json

/-- A component is read from what is written of it, whether the members are in the order of the
declaration, as in a text, or in canonical order, as in a plain value. -/
def Component.RoundTrips (c : Component) : Prop :=
  ofJson? c.toJson = some c ∧ ofJson? c.toJson.canonical = some c

/-- **What was read can be written and read again**, and so can what it is resolved to. The steps
for abilities and the mapping are those of the caller; the step for links and every mapping that
was read, built in or merged of such ones do what is asked of them (`linkStep_keepsTidy`,
`Mapping.tidy_of_read`, `Mapping.tidy_html`, `Mapping.Tidy.merge`). -/
theorem Component.roundTrip {j : Json} {c : Component} (hj : j.NoRepeats)
    (hread : ofJson? j = some c) :
    c.RoundTrips ∧ ∀ (steps : List AbilityStep) (base : Mapping) (o : Options)
      (resolved : Component), (∀ step ∈ steps, AbilityStep.KeepsTidy step) →
      (o.effectiveMapping base).Tidy → c.resolveWith steps base o = .ok resolved →
      resolved.RoundTrips := by
  have htidy := tidy_of_read hj hread
  refine ⟨ofJson?_written htidy, fun steps base o resolved hsteps hmapping hresolve => ?_⟩
  exact ofJson?_written (resolveWith_tidy hsteps hmapping htidy hresolve)

/-- A document in the forms that are not written: the root node under its other name and in an
array, contents before their names, and a plain default that only looks like a node. -/
def labelDocument : Json := .object [
  ("propDefinitions", .object [("label", .object [
    ("type", .string "string"), ("defaultValue", .array [.string "static", .null])])]),
  ("rootNode", .array [.string "element", .object [
    ("elementType", .string "container"),
    ("abilities", .object [("link", .object [
      ("content", .object [("section", .string "top")]), ("type", .string "section")])]),
    ("children", .array [.object [
      ("content", .object [("referenceType", .string "prop"), ("id", .string "label")]),
      ("type", .string "dynamic")]])]]),
  ("name", .string "Badge")]

/-- What the document stands for. -/
def labelBadge : Component where
  name := "Badge"
  node := .element {
    elementType := "container"
    abilities := some { link := some (.anchor "top") }
    children := [.dynamic { scope := .prop, id := "label" }] }
  props := [("label", {
    kind := "string", default := some (.value (.array [.string "static", .null])) })]

theorem labelBadge_roundTrips : ∃ resolved,
    labelBadge.resolveWith [linkStep] .html {} = .ok resolved ∧
      labelBadge.RoundTrips ∧ resolved.RoundTrips := by
  have hdocument : labelDocument.NoRepeats := by
    simp [labelDocument, NoRepeats, itemsNoRepeats, membersNoRepeats, Dict.keys]
  have hread : Component.ofJson? labelDocument = some labelBadge := by rfl
  obtain ⟨resolved, hresolved⟩ :=
    exists_of_isOk (x := labelBadge.resolveWith [linkStep] .html {}) (by decide +kernel)
  obtain ⟨hlabel, hresolve⟩ := Component.roundTrip hdocument hread
  exact ⟨resolved, hresolved, hlabel, hresolve [linkStep] .html {} resolved
    (List.forall_mem_singleton.2 Component.linkStep_keepsTidy) Mapping.tidy_html hresolved⟩

end PageCompiler
