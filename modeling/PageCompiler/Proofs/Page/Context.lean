import PageCompiler.Page.Stylesheet
import PageCompiler.Proofs.Dict
import PageCompiler.Proofs.Outcome
import PageCompiler.Proofs.Keys.Assignment
import PageCompiler.Proofs.Page.Run

/-!
# Keys of a context

A key is used when an element is registered under it or when it is reserved. Only two steps of the
generation of a page change what is used: the registration of a generated element, and the
reservation of the keys that the copy of a component gets.

* `Context.instantiate_claimed`: the keys of a copy are distinct and were not used.
* `registerElement_run`: what a registration does.
-/

namespace PageCompiler

/-- The key that is doubled, of a diagnostic about a doubled key. -/
def Diagnostic.doubledKey? : Diagnostic → Option String
  | .duplicateKey key .. => some key
  | _ => none

/-- The failures of a computation are not about keys. -/
def KeyFree {α : Type} (x : Except Diagnostic α) : Prop := ∀ d, x = .error d → d.doubledKey? = none

theorem KeyFree.ok {α : Type} (a : α) : KeyFree (.ok a) := FailsWith.ok a

theorem KeyFree.map {α β : Type} {x : Except Diagnostic α} (hx : KeyFree x) (f : α → β) :
    KeyFree (x.map f) := FailsWith.map hx f

namespace Context

/-- An element is registered under a key. -/
def Registered (c : Context) (key : String) : Prop := Dict.contains c.lookup key

/-- A key is reserved. -/
def Reserved (c : Context) (key : String) : Prop := Dict.contains c.reserved key

/-- A key is registered or reserved. -/
def Used (c : Context) (key : String) : Prop := c.Registered key ∨ c.Reserved key

/-- Two contexts in which the same elements are registered and the same keys are reserved. -/
structure SameKeys (c c' : Context) : Prop where
  lookup : c'.lookup = c.lookup
  reserved : c'.reserved = c.reserved

variable {c c' c'' : Context} {key : String}

theorem isUsed_iff : c.isUsed key ↔ c.Used key := by
  simp [isUsed, Used, Registered, Reserved]

theorem SameKeys.refl (c : Context) : c.SameKeys c := ⟨rfl, rfl⟩

theorem SameKeys.trans (h : c.SameKeys c') (h' : c'.SameKeys c'') : c.SameKeys c'' :=
  ⟨h'.lookup.trans h.lookup, h'.reserved.trans h.reserved⟩

theorem SameKeys.registered (h : c.SameKeys c') : c'.Registered key ↔ c.Registered key := by
  rw [Registered, Registered, h.lookup]

theorem SameKeys.reserved_iff (h : c.SameKeys c') : c'.Reserved key ↔ c.Reserved key := by
  rw [Reserved, Reserved, h.reserved]

/-! ## Reserving and copying -/

theorem registered_reserve (keys : List String) :
    (c.reserve keys).Registered key ↔ c.Registered key := Iff.rfl

theorem reserved_reserve (keys : List String) :
    (c.reserve keys).Reserved key ↔ key ∈ keys ∨ c.Reserved key := by
  rw [Reserved, Reserved, reserve]
  dsimp only
  generalize c.reserved = reserved
  induction keys generalizing reserved with
  | nil => simp
  | cons k keys ih =>
    rw [List.foldl_cons, ih, Dict.contains_insert, List.mem_cons]
    tauto

/-- The used keys, which the copy of a component avoids. -/
theorem mem_usedKeys :
    key ∈ Dict.keys c.lookup ++ Dict.keys c.reserved ↔ c.Used key := by
  rw [List.mem_append, ← Dict.contains_iff_mem_keys, ← Dict.contains_iff_mem_keys]
  rfl

theorem instantiate_claimed (c : Context) (external : Component) :
    ∃ l l', Claimed l external.elements (c.instantiate external).elements l' ∧
      ∀ key, key ∈ l.taken ↔ c.Used key := by
  refine ⟨_, _, external.assignKeys_claimed _, fun key => ?_⟩
  rw [taken_countElements, KeyLedger.taken_seeded, mem_usedKeys]

end Context

/-! ## Registration -/

theorem createTag_sameKeys (t : Tag) (c : Context) : c.SameKeys (createTag t c).2 := ⟨rfl, rfl⟩

/-- **A registration** files the element under a key that is not registered yet, and complains
about one that is. -/
theorem registerElement_run (key : String) (e : Element) (id : Nat) (hierarchy : List String)
    (c : Context) :
    (¬ c.Registered key ∧ registerElement key e id hierarchy c
        = (.ok (), { c with lookup := Dict.insert c.lookup key id })) ∨
    (c.Registered key ∧ ∃ d, d.doubledKey? = some key ∧
      registerElement key e id hierarchy c = (.error d, c)) := by
  rw [registerElement, bind_run, get_run]
  dsimp only
  by_cases h : c.Registered key
  · have hnone : c.register? key id = none := if_pos h
    refine Or.inr ⟨h, ?_⟩
    rw [hnone]
    exact ⟨_, rfl, rfl⟩
  · have hsome : c.register? key id = some { c with lookup := Dict.insert c.lookup key id } :=
      if_neg h
    refine Or.inl ⟨h, ?_⟩
    rw [hsome]
    rfl

/-! ## Stages of an instance -/

theorem runInstanceStages_sameKeys (env : Environment) (component : Component) (id : Nat)
    (c : Context) : c.SameKeys (runInstanceStages env component id c).2 := by
  rw [runInstanceStages_run]
  rcases runStages (env.styleStage :: env.stages) _ with ⟨_ | _, done⟩
  · exact ⟨rfl, rfl⟩
  · exact ⟨rfl, rfl⟩

/-- What holds of the outcome of every stage, and of a success, holds of the outcome of their run. -/
theorem runStages_outcome {P : Except Diagnostic Unit → Prop} (hok : P (.ok ()))
    {stages : List Stage} (h : ∀ stage ∈ stages, ∀ c, P (stage.run c).1) (c : Compilation) :
    P (runStages stages c).1 := by
  induction stages generalizing c with
  | nil => exact hok
  | cons stage rest ih =>
    have hstage := h stage List.mem_cons_self c
    rw [runStages]
    rcases hrun : stage.run c with ⟨d | _, c'⟩
    · rw [hrun] at hstage
      exact hstage
    · exact ih (fun s hs => h s (List.mem_cons_of_mem _ hs)) c'

/-- A stage that does not complain about doubled keys. -/
def Stage.AcceptsKeys (stage : Stage) : Prop := ∀ c, KeyFree (stage.run c).1

theorem runInstanceStages_keyFree {env : Environment}
    (h : ∀ stage ∈ env.styleStage :: env.stages, stage.AcceptsKeys) (component : Component)
    (id : Nat) (c : Context) : KeyFree (runInstanceStages env component id c).1 := by
  have hstages := runStages_outcome (P := KeyFree) (.ok _) h
    { component, options := env.options, context := c.forInstance id }
  rw [runInstanceStages_run]
  rcases hrun : runStages (env.styleStage :: env.stages)
    { component, options := env.options, context := c.forInstance id } with ⟨d | _, done⟩
  · rw [hrun] at hstages
    exact hstages
  · exact .ok _

theorem stylesheetStage_acceptsKeys (template : String) (chunkName : Option String) :
    (stylesheetStage template chunkName).AcceptsKeys := by
  intro c
  rw [stylesheetStage]
  dsimp only
  split
  · exact fun d h => by cases h; rfl
  · exact .ok _

end PageCompiler
