import PageCompiler.Proofs.Keys.Assignment
import PageCompiler.Proofs.Keys.FirstFree

/-!
# Bases that keep their name

Keys are given in the order of the walk, each the first of its base that is free. So the first
element with a base has the base as its key, unless an element before it got this text as its own
base with a number: then even a base that is used once gets a number.

* `Component.assignKeys_bases`: the key of each element, and which elements keep their base.
* `crowdedBox_loses`: a base that is used once and lost.
-/

namespace PageCompiler

/-- A base is one of those of the listed elements with a number behind it. -/
def IsNumberedBase (es : List Element) (base : String) : Prop :=
  ∃ x ∈ es, ∃ n, base = numbered x.baseKey (n + 1)

section Fresh

variable {es es' : List Element}

theorem mem_take_iff {α : Type} {l : List α} {i : ℕ} {x : α} :
    x ∈ l.take i ↔ ∃ j < i, l[j]? = some x := by
  rw [List.mem_iff_getElem?]
  refine exists_congr fun j => ?_
  rw [List.getElem?_take]
  split <;> simp_all

/-- Each element has the first key of its base that no element before it has. -/
def KeyedInTurn (es es' : List Element) : Prop :=
  es'.length = es.length ∧ ∀ i e e', es[i]? = some e → es'[i]? = some e' →
    ∃ n, IsFirstFree ((es'.take i).map (·.key)) e.baseKey n ∧ e'.key = offered e.baseKey n

theorem Component.keyedInTurn (c : Component) :
    KeyedInTurn c.elements (c.assignKeys {}).1.elements := by
  have h := c.assignKeys_claimed {}
  refine ⟨h.forall₂.length_eq.symm, fun i e e' he he' => ?_⟩
  obtain ⟨n, hn, hkey⟩ :=
    h.firstFree (KeyLedger.Reached.new.countElements c.elements).usedUp he he'
  rw [taken_countElements, List.append_nil] at hn
  exact ⟨n, hn, hkey⟩

namespace KeyedInTurn

/-- Both lists have elements at the same places. -/
theorem isSome_iff (h : KeyedInTurn es es') (j : ℕ) : es[j]?.isSome ↔ es'[j]?.isSome := by
  rw [isSome_getElem?, isSome_getElem?, h.1]

/-- The key of an element is its base or its base with a number. -/
theorem exists_of_mem_keys (h : KeyedInTurn es es') {i : ℕ} {key : String}
    (hkey : key ∈ (es'.take i).map (·.key)) :
    ∃ x ∈ es.take i, ∃ n, key = offered x.baseKey n := by
  obtain ⟨x', hx', rfl⟩ := List.mem_map.1 hkey
  obtain ⟨j, hj, hx'⟩ := mem_take_iff.1 hx'
  obtain ⟨x, hx⟩ := Option.isSome_iff_exists.1
    ((h.isSome_iff j).2 (Option.isSome_iff_exists.2 ⟨x', hx'⟩))
  obtain ⟨n, -, hkey⟩ := h.2 j x x' hx hx'
  exact ⟨x, mem_take_iff.2 ⟨j, hj, hx⟩, n, hkey⟩

/-- The base of an element is a key from there on, its own or that of an element before it. -/
theorem base_mem_keys (h : KeyedInTurn es es') {i : ℕ} {x : Element} (hx : x ∈ es.take i) :
    x.baseKey ∈ (es'.take i).map (·.key) := by
  obtain ⟨j, hj, hx⟩ := mem_take_iff.1 hx
  obtain ⟨x', hx'⟩ := Option.isSome_iff_exists.1
    ((h.isSome_iff j).1 (Option.isSome_iff_exists.2 ⟨x, hx⟩))
  obtain ⟨n, hn, hkey⟩ := h.2 j x x' hx hx'
  cases n with
  | zero => exact List.mem_map.2 ⟨x', mem_take_iff.2 ⟨j, hj, hx'⟩, hkey⟩
  | succ n =>
    have hfirst : offered x.baseKey 0 ∈ (es'.take j).map (·.key) := hn.mem_of_lt (Nat.succ_pos n)
    exact List.map_subset _ (List.take_subset_take_left es' hj.le) hfirst

theorem key_eq_base_iff (h : KeyedInTurn es es') {i : ℕ} {e e' : Element}
    (he : es[i]? = some e) (he' : es'[i]? = some e') :
    e'.key = e.baseKey ↔ e.baseKey ∉ (es'.take i).map (·.key) := by
  obtain ⟨n, hn, hkey⟩ := h.2 i e e' he he'
  rw [hkey]
  constructor
  · intro hbase
    obtain rfl : n = 0 := offered_injective e.baseKey hbase
    exact hn.1
  · intro hfree
    obtain rfl : n = 0 := Nat.le_zero.1 (hn.2 hfree)
    rfl

end KeyedInTurn

end Fresh

/-- **The first element with a base keeps it,** if the base is not that of an element before it with
a number. Each element of a component has the first key of its base that no element before it has.
So an element whose base is the numbered base of none before it has its base as its key exactly when
none before it shares the base: a base that is used once is kept, and only elements that share
theirs with one before them get a number. -/
theorem Component.assignKeys_bases (c : Component) :
    let keyed := (c.assignKeys {}).1.elements
    keyed.length = c.elements.length ∧
    ∀ i e e', c.elements[i]? = some e → keyed[i]? = some e' →
      (∃ n, IsLeast {k | offered e.baseKey k ∉ (keyed.take i).map (·.key)} n ∧
        e'.key = offered e.baseKey n) ∧
      (¬ IsNumberedBase (c.elements.take i) e.baseKey →
        (e'.key = e.baseKey ↔ ∀ x ∈ c.elements.take i, x.baseKey ≠ e.baseKey)) := by
  have h := c.keyedInTurn
  refine ⟨h.1, fun i e e' he he' => ⟨h.2 i e e' he he', fun hnumbered => ?_⟩⟩
  rw [h.key_eq_base_iff he he']
  constructor
  · rintro hfree x hx hbase
    exact hfree (hbase ▸ h.base_mem_keys hx)
  · intro hbases hkey
    obtain ⟨x, hx, n, hoffered⟩ := h.exists_of_mem_keys hkey
    cases n with
    | zero => exact hbases x hx hoffered.symm
    | succ n => exact hnumbered ⟨x, hx, n, hoffered⟩

/-- An authored key like that of a second hint is kept, as it comes before both hints. -/
theorem hintBox_keepsBase : ∃ e e', hintBox.elements[1]? = some e ∧
    (hintBox.assignKeys {}).1.elements[1]? = some e' ∧
    e.baseKey = "hint-1" ∧ e'.key = "hint-1" := by
  obtain ⟨e, he, hbase⟩ := Option.map_eq_some_iff.1
    (by decide +kernel : hintBox.elements[1]?.map (·.baseKey) = some "hint-1")
  have hbefore : ∀ x ∈ hintBox.elements.take 1, x.baseKey = "box" := by decide +kernel
  obtain ⟨hlength, hkeys⟩ := hintBox.assignKeys_bases
  obtain ⟨e', he'⟩ : ∃ e', (hintBox.assignKeys {}).1.elements[1]? = some e' := by
    refine ⟨_, List.getElem?_eq_getElem ?_⟩
    rw [hlength]
    exact (List.getElem?_eq_some_iff.1 he).1
  have hnumbered : ¬ IsNumberedBase (hintBox.elements.take 1) e.baseKey := by
    rintro ⟨x, hx, n, hn⟩
    rw [hbase, hbefore x hx, numbered] at hn
    have hhead := congrArg (fun s : String => s.toList.head?) hn
    simp at hhead
  have hnone : ∀ x ∈ hintBox.elements.take 1, x.baseKey ≠ e.baseKey := by
    intro x hx
    rw [hbefore x hx, hbase]
    decide
  have hkey : e'.key = e.baseKey := ((hkeys 1 e e' he he').2 hnumbered).2 hnone
  exact ⟨e, e', he, he', hbase, hkey.trans hbase⟩

/-- Two hints, and an element with a key like that of the second one. -/
def crowdedBox : Component where
  name := "Hint"
  node := .element {
    elementType := "box"
    children := [.element { elementType := "hint" }, .element { elementType := "hint" },
      .element { elementType := "text", key := "hint-1" }] }

/-- The base of the last element is used once, and it gets a number. -/
theorem crowdedBox_loses :
    crowdedBox.elements.map (·.baseKey) = ["box", "hint", "hint", "hint-1"] ∧
    (crowdedBox.assignKeys {}).1.elements.map (·.key) = ["box", "hint", "hint-1", "hint-1-1"] := by
  decide +kernel

end PageCompiler
