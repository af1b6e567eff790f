import PageCompiler.Proofs.Document.InPlace
import PageCompiler.Proofs.Keys.Assignment
import PageCompiler.Proofs.Page.Context

/-!
# Keys collected from a tree

Keys are given by a walk that changes elements in place, and collected by one that only lists them.
Both meet the elements of a tree in document order, so the keys that are collected are the ones that
were claimed, in the order of the claims, and with them everything that the tree took is reserved.

* `Claimed.claims_eq`: the keys of a walk, claimed from a list of bases.
* `Claimed.isUsed_reserve`: what is used once the claimed keys are reserved.
* `Node.walks_agree`: the two walks over a tree, and the keys.
-/

namespace PageCompiler

/-- Claim a key for each base, one after the other. -/
def KeyLedger.claims (bases : List String) : StateM KeyLedger (List String) :=
  bases.mapM fun base => modifyGet fun l => l.claim base

theorem KeyLedger.claims_cons (base : String) (rest : List String) (l : KeyLedger) :
    (claims (base :: rest)).run l =
      (((l.claim base).1 :: ((claims rest).run (l.claim base).2).1),
        ((claims rest).run (l.claim base).2).2) := by
  rw [claims, List.mapM_cons]
  rfl

namespace Claimed

variable {l l' : KeyLedger} {es es' : List Element}

/-- **The keys of the elements are claimed from their bases, one after the other.** -/
theorem claims_eq (h : Claimed l es es' l') :
    (KeyLedger.claims (es.map Element.baseKey)).run l = (es'.map (·.key), l') := by
  induction h with
  | nil => rfl
  | cons hkey _ _ ih => rw [List.map_cons, KeyLedger.claims_cons, ih, List.map_cons, hkey]

/-- **Reserving the claimed keys reserves what was taken with them.** -/
theorem isUsed_reserve (h : Claimed l es es' l') (c : Context) (key : String) :
    (c.reserve (es'.map (·.key))).isUsed key ↔
      c.isUsed key ∨ key ∈ l'.taken ∧ key ∉ l.taken := by
  have hclaimed : key ∈ l'.taken ∧ key ∉ l.taken ↔ key ∈ es'.map (·.key) := by
    rw [h.mem_taken]
    refine ⟨fun ⟨htaken, hnot⟩ => htaken.resolve_right hnot, fun hmem => ?_⟩
    exact ⟨Or.inl hmem, h.notMem_taken hmem⟩
  rw [hclaimed, Context.isUsed_iff, Context.isUsed_iff, Context.Used, Context.Used,
    Context.registered_reserve, Context.reserved_reserve]
  tauto

end Claimed

/-- Claiming a key changes the key only. -/
theorem keepsShape_claimKey : KeepsShape claimKey :=
  fun e s => ⟨(s.claim e.baseKey).1, e.name, e.style, e.referencedStyles, rfl⟩

/-- **The walk that changes elements and the walk that lists them agree.** Where attributes are
tables, the list `elements` of a tree is its elements in document order. A walk in place, with
visits that change keys, names and styles only, hands over just these elements, each once and in
this order, and leaves what `updateM` leaves. So the keys that are collected after a tree was given
keys are the claimed ones in the order of the claims, and reserving them makes used what was taken
for the tree, and nothing else. -/
theorem Node.walks_agree (node : Node) :
    (InOrder node.elements → ∀ es : List Element,
      InDocumentOrder (fun place e => node.element? place = some e) es ↔ es = node.elements) ∧
    (∀ (σ : Type) (f : Element → StateM σ Element), KeepsShape f →
      ∀ (s s' : σ) (seen : List Element) (node' : Node), node.WalksTo f s seen node' s' ↔
        seen = node.elements ∧ node.updateM (.ofElement f) s = (node', s')) ∧
    ∀ l : KeyLedger, let keyed := node.claimKeys l
      (KeyLedger.claims (node.elements.map Element.baseKey)).run l = (keyed.1.keys, keyed.2) ∧
      ∀ (c : Context) (key : String), (c.reserve keyed.1.keys).isUsed key ↔
        c.isUsed key ∨ key ∈ keyed.2.taken ∧ key ∉ l.taken :=
  ⟨fun h _ => inDocumentOrder_iff h, fun _ _ hf _ _ _ _ => walksTo_iff hf,
    fun l => ⟨(node.claimed l).claims_eq, (node.claimed l).isUsed_reserve⟩⟩

/-- Elements of one name in all the places that a tree has for them. -/
def hintFrame : Node :=
  .element {
    elementType := "box"
    attrs := [
      ("icon", .element { elementType := "hint" }), ("label", .element { elementType := "hint" })]
    children := [
      .conditional { node := .element { elementType := "hint" }, reference := .raw "" },
      .slot { fallback := some (.element { elementType := "hint" }) },
      .repetition { node := .element { elementType := "hint" }, source := .raw "" }] }

theorem hintFrame_walks_agree :
    InDocumentOrder (fun place e => hintFrame.element? place = some e) hintFrame.elements ∧
    (∀ seen node' l', hintFrame.WalksTo claimKey {} seen node' l' ↔
      seen = hintFrame.elements ∧ hintFrame.claimKeys {} = (node', l')) ∧
    (hintFrame.claimKeys {}).1.keys = ["box", "hint", "hint-1", "hint-2", "hint-3", "hint-4"] ∧
    (({} : Context).reserve (hintFrame.claimKeys {}).1.keys).isUsed "hint-4" := by
  obtain ⟨hlist, hwalk, hkeys⟩ := hintFrame.walks_agree
  refine ⟨?_, ?_, by decide +kernel, ?_⟩
  · exact (hlist (by decide +kernel) _).2 rfl
  · exact fun seen node' l' => hwalk _ _ keepsShape_claimKey _ _ _ _
  · exact ((hkeys {}).2 {} "hint-4").2 (Or.inr ⟨by decide +kernel, by decide⟩)

end PageCompiler
