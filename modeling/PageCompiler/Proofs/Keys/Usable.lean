import PageCompiler.Proofs.Keys.Bases
import PageCompiler.Proofs.Text.Dashed

/-!
# Keys that can be used

The key of an element becomes a class of its tag and a selector of the style sheet. The base of a
key is the dashed form of a text: the authored key, else the name, else the type. If this text has a
letter or a digit, so that the base is a dashed text, the key is one too. If it has none, the base
is empty, and so is the first key that it offers, though the name or the type might have made a
base.

Keys that are dashed texts are their own bases, so nothing changes when keys are assigned again.

* `Component.resolve_keys_usable`: the keys of a resolved component.
* `starredBox_unusable`: a key that is empty, and another one when keys are assigned again.
-/

namespace PageCompiler

/-! ## Bases -/

/-- The text that the base of an element's key is made from. -/
def Element.keySource (e : Element) : String :=
  if e.key.isEmpty then
    match e.name with
    | some name => if name.isEmpty then e.elementType else name
    | none => e.elementType
  else e.key

theorem Element.baseKey_eq (e : Element) : e.baseKey = dashCase e.keySource := rfl

/-- A key that is a dashed text is its own base. -/
theorem Element.baseKey_of_dashed {e : Element} (h : IsDashed e.key) : e.baseKey = e.key := by
  obtain ⟨c, rest, hkey, -⟩ := h.exists_head
  have hne : e.key.isEmpty = false := by
    rw [String.isEmpty_eq_false_iff]
    rintro hempty
    rw [hempty] at hkey
    cases hkey
  rw [baseKey_eq, keySource, hne]
  exact h.dashCase_eq

theorem IsDashed.offered {base : String} (h : IsDashed base) (n : ℕ) :
    IsDashed (offered base n) := by
  cases n with
  | zero => exact h
  | succ n =>
    have hdigits : (toString (n + 1)).toList = Nat.toDigits 10 (n + 1) := Nat.toList_repr
    refine h.concat (toString_ne_empty _) fun c hc => ?_
    rw [hdigits] at hc
    rw [isSmall, Nat.isDigit_of_mem_toDigits (by decide) le_rfl hc, Bool.or_true]

/-- How the key of an element follows from the text for its base. -/
def KeyFollows (e : Element) (key : String) : Prop :=
  (HasWord e.keySource → IsDashed key) ∧ (¬ HasWord e.keySource → ∃ n, key = offered "" n)

theorem KeyFollows.of_offered (e : Element) (n : ℕ) : KeyFollows e (offered e.baseKey n) :=
  ⟨fun hword => (isDashed_dashCase hword).offered n, fun hword => ⟨n, by
    rw [e.baseKey_eq, dashCase_eq_empty_iff.2 hword]⟩⟩

theorem key_notMem_take {es : List Element} (hnodup : (es.map (·.key)).Nodup) {i : ℕ} {e : Element}
    (he : es[i]? = some e) : e.key ∉ (es.take i).map (·.key) := by
  intro hmem
  obtain ⟨x, hx, hkey⟩ := List.mem_map.1 hmem
  obtain ⟨j, hj, hx⟩ := mem_take_iff.1 hx
  have hi : i < (es.map (·.key)).length := by
    rw [List.length_map]
    exact (List.getElem?_eq_some_iff.1 he).1
  have heq : i = j := (List.getElem?_inj hi hnodup).1 (by
    rw [List.getElem?_map, List.getElem?_map, he, hx, Option.map_some, Option.map_some, hkey])
  exact absurd heq hj.ne'

namespace KeyedInTurn

variable {es es' : List Element}

theorem keyFollows (h : KeyedInTurn es es') : List.Forall₂ KeyFollows es (es'.map (·.key)) := by
  rw [List.forall₂_map_right_iff, List.forall₂_iff_get]
  refine ⟨h.1.symm, fun i hi hi' => ?_⟩
  obtain ⟨n, -, hkey⟩ := h.2 i _ _ (List.getElem?_eq_getElem hi) (List.getElem?_eq_getElem hi')
  rw [List.get_eq_getElem, List.get_eq_getElem, hkey]
  exact .of_offered _ n

/-- Keys that are their own bases stay as they are, up to each place of the walk. -/
theorem take_keys_eq (h : KeyedInTurn es es') (hbase : ∀ e ∈ es, e.baseKey = e.key)
    (hnodup : (es.map (·.key)).Nodup) (i : ℕ) :
    (es'.take i).map (·.key) = (es.take i).map (·.key) := by
  induction i with
  | zero => rfl
  | succ i ih =>
    rw [List.take_add_one, List.take_add_one, List.map_append, List.map_append, ih]
    congr 1
    cases he : es[i]? with
    | none =>
      have he' : es'[i]? = none := by
        rw [List.getElem?_eq_none_iff] at he ⊢
        rwa [h.1]
      rw [he']
    | some e =>
      obtain ⟨e', he'⟩ := Option.isSome_iff_exists.1
        ((h.isSome_iff i).1 (Option.isSome_iff_exists.2 ⟨e, he⟩))
      -- the keys before are those that were there, and the old keys are distinct
      have hown : e.baseKey = e.key := hbase e (List.mem_of_getElem? he)
      have hfree : e.baseKey ∉ (es'.take i).map (·.key) := by
        rw [ih, hown]
        exact key_notMem_take hnodup he
      have hkey : e'.key = e.key := ((h.key_eq_base_iff he he').2 hfree).trans hown
      rw [he', Option.toList_some, Option.toList_some, List.map_singleton, List.map_singleton,
        hkey]

/-- **Keys that are their own bases stay as they are.** -/
theorem keys_eq (h : KeyedInTurn es es') (hbase : ∀ e ∈ es, e.baseKey = e.key)
    (hnodup : (es.map (·.key)).Nodup) : es'.map (·.key) = es.map (·.key) := by
  have hall := h.take_keys_eq hbase hnodup es.length
  rwa [List.take_length, ← h.1, List.take_length] at hall

end KeyedInTurn

/-! ## Resolved components -/

/-- **Keys can be used, and they last.** In a resolved component the key of an element is a dashed
text, when the text that its base is made from has a letter or a digit; otherwise it is empty or a
number behind a dash. When all these texts have one, assigning keys once more, with a new ledger,
changes no key. -/
theorem Component.resolve_keys_usable {steps : List AbilityStep} {c resolved : Component}
    {base : Mapping} {o : Options} (h : c.resolveWith steps base o = .ok resolved) :
    ∃ mapped, c.mapWith steps base o = .ok mapped ∧
      List.Forall₂ (fun e key => (HasWord e.keySource → IsDashed key) ∧
        (¬ HasWord e.keySource → ∃ n, key = offered "" n))
        mapped.elements (resolved.elements.map (·.key)) ∧
      ((∀ e ∈ mapped.elements, HasWord e.keySource) →
        (resolved.assignKeys {}).1.elements.map (·.key) = resolved.elements.map (·.key)) := by
  obtain ⟨mapped, hmapped, hkeys⟩ := exists_of_resolveWith h
  have hfollows : List.Forall₂ KeyFollows mapped.elements (resolved.elements.map (·.key)) :=
    hkeys ▸ mapped.keyedInTurn.keyFollows
  refine ⟨mapped, hmapped, hfollows, fun hword => ?_⟩
  refine resolved.keyedInTurn.keys_eq (fun e he => ?_) (nodup_keys_resolveWith h)
  obtain ⟨x, hx, hfollow⟩ := exists_of_forall₂_right hfollows (List.mem_map_of_mem he)
  exact Element.baseKey_of_dashed (hfollow.1 (hword x hx))

theorem hintBox_keys_usable : ∃ resolved, hintBox.resolveWith [linkStep] {} {} = .ok resolved ∧
    (∀ key ∈ resolved.elements.map (·.key), IsDashed key) ∧
    (resolved.assignKeys {}).1.elements.map (·.key) = resolved.elements.map (·.key) := by
  obtain ⟨resolved, h⟩ := exists_of_isOk
    (by decide +kernel : (hintBox.resolveWith [linkStep] {} {}).isOk = true)
  have hsources : (hintBox.mapWith [linkStep] {} {}).toOption.map
      (fun mapped => mapped.elements.map (·.keySource))
      = some ["box", "hint-1", "hint", "hint"] := by decide +kernel
  have hwords : ∀ s ∈ ["box", "hint-1", "hint", "hint"], HasWord s := by decide +kernel
  obtain ⟨mapped, hmapped, hfollows, hlast⟩ := Component.resolve_keys_usable h
  rw [hmapped] at hsources
  have hword : ∀ e ∈ mapped.elements, HasWord e.keySource := fun e he =>
    hwords _ (Option.some.inj hsources ▸ List.mem_map_of_mem he)
  refine ⟨resolved, h, fun key hkey => ?_, hlast hword⟩
  obtain ⟨e, he, hfollow⟩ := exists_of_forall₂_right hfollows hkey
  exact hfollow.1 (hword e he)

/-- A box whose authored key has neither a letter nor a digit. -/
def starredBox : Component where
  name := "Box"
  node := .element { elementType := "box", key := "★" }

/-- The key of the box is empty, and assigning keys again gives it another one. -/
theorem starredBox_unusable : ∃ resolved, starredBox.resolve {} {} = .ok resolved ∧
    resolved.elements.map (·.key) = [""] ∧
    (resolved.assignKeys {}).1.elements.map (·.key) = ["box"] := by
  have hkeys : (starredBox.resolve {} {}).toOption.map (fun resolved =>
      (resolved.elements.map (·.key), (resolved.assignKeys {}).1.elements.map (·.key)))
      = some ([""], ["box"]) := by decide +kernel
  obtain ⟨resolved, h, heq⟩ := exists_of_toOption_map hkeys
  exact ⟨resolved, h, congrArg Prod.fst heq, congrArg Prod.snd heq⟩

end PageCompiler
