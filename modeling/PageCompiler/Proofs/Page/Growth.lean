import PageCompiler.Proofs.Page.Context

/-!
# Growth of the used keys

How the generation of some elements changes what is used. Three sorts of keys play a part beside
the keys of the elements: the `loose` ones, about which nothing is said; the keys that `tree`s
bring along, which are reserved; and the `fresh` ones, which the generation may register if they
were not used before.

* `Grows`: what is used after a run, as far as it succeeds.
* `Ready`: the elements can be registered, one after the other.
* `Ready.after`: what is ready stays ready while other elements are generated.
-/

namespace PageCompiler

variable {loose tree fresh fresh' : String → Prop} {keys keys' : List String} {key : String}
  {c c' c'' : Context}

/-- The used keys after the generation of elements with the listed keys. -/
structure Grows (loose tree fresh : String → Prop) (keys : List String) (c c' : Context) :
    Prop where
  registered : ∀ {key}, c.Registered key → c'.Registered key
  reserved : ∀ {key}, c.Reserved key → c'.Reserved key
  of_registered : ∀ {key}, c'.Registered key →
    c.Registered key ∨ key ∈ keys ∨ loose key ∨ ¬ c.Used key ∧ fresh key
  of_reserved : ∀ {key}, c'.Reserved key → c.Reserved key ∨ tree key

/-- Elements with the listed keys can be generated: up to loose keys, the keys are distinct, none
of them is registered, and none can be registered by the way. -/
structure Ready (loose fresh : String → Prop) (keys : List String) (c : Context) : Prop where
  apart : keys.Pairwise fun a b => a = b → loose a
  free : ∀ key ∈ keys, loose key ∨ ¬ c.Registered key ∧ (c.Reserved key ∨ ¬ fresh key)

/-- A run from a context to another one, with an outcome: it grows the used keys, or it fails, and
complains about a doubled key only if the key is a loose one. -/
def Runs {β : Type} (loose tree fresh : String → Prop) (keys : List String) (c : Context)
    (outcome : Except Diagnostic β) (c' : Context) : Prop :=
  match outcome with
  | .ok _ => Grows loose tree fresh keys c c'
  | .error d => ∀ key, d.doubledKey? = some key → loose key

/-! ## Growth -/

namespace Grows

theorem of_sameKeys (h : c.SameKeys c') : Grows loose tree fresh keys c c' where
  registered := h.registered.2
  reserved := h.reserved_iff.2
  of_registered hkey := Or.inl (h.registered.1 hkey)
  of_reserved hkey := Or.inl (h.reserved_iff.1 hkey)

theorem used (h : Grows loose tree fresh keys c c') (hkey : c.Used key) : c'.Used key :=
  hkey.imp h.registered h.reserved

/-- Keys that are loose, or were not used and are fresh, need not be listed. -/
theorem mono (h : Grows loose tree fresh keys c c')
    (hkeys : ∀ key ∈ keys, key ∈ keys' ∨ loose key ∨ ¬ c.Used key ∧ fresh' key)
    (hfresh : ∀ key, fresh key → fresh' key ∨ loose key) :
    Grows loose tree fresh' keys' c c' where
  registered := h.registered
  reserved := h.reserved
  of_reserved := h.of_reserved
  of_registered hkey := by
    rcases h.of_registered hkey with hkey | hkey | hkey | ⟨hunused, hkey⟩
    · exact Or.inl hkey
    · exact Or.inr (hkeys _ hkey)
    · exact Or.inr (Or.inr (Or.inl hkey))
    · rcases hfresh _ hkey with hkey | hkey
      · exact Or.inr (Or.inr (Or.inr ⟨hunused, hkey⟩))
      · exact Or.inr (Or.inr (Or.inl hkey))

theorem reserve (h : ∀ key ∈ keys', tree key) :
    Grows loose tree fresh keys c (c.reserve keys') where
  registered hkey := hkey
  reserved hkey := (Context.reserved_reserve _).2 (Or.inr hkey)
  of_registered hkey := Or.inl hkey
  of_reserved hkey := by
    rcases (Context.reserved_reserve _).1 hkey with hkey | hkey
    · exact Or.inr (h _ hkey)
    · exact Or.inl hkey

theorem trans (h : Grows loose tree fresh keys c c') (h' : Grows loose tree fresh keys' c' c'') :
    Grows loose tree fresh (keys ++ keys') c c'' where
  registered hkey := h'.registered (h.registered hkey)
  reserved hkey := h'.reserved (h.reserved hkey)
  of_reserved hkey := by
    rcases h'.of_reserved hkey with hkey | hkey
    · exact h.of_reserved hkey
    · exact Or.inr hkey
  of_registered hkey := by
    rw [List.mem_append]
    rcases h'.of_registered hkey with hkey | hkey | hkey | ⟨hunused, hkey⟩
    · rcases h.of_registered hkey with hkey | hkey | hkey | hkey
      · exact Or.inl hkey
      · exact Or.inr (Or.inl (Or.inl hkey))
      · exact Or.inr (Or.inr (Or.inl hkey))
      · exact Or.inr (Or.inr (Or.inr hkey))
    · exact Or.inr (Or.inl (Or.inr hkey))
    · exact Or.inr (Or.inr (Or.inl hkey))
    · exact Or.inr (Or.inr (Or.inr ⟨fun hused => hunused (h.used hused), hkey⟩))

theorem trans_sameKeys (h : Grows loose tree fresh keys c c') (h' : c'.SameKeys c'') :
    Grows loose tree fresh keys c c'' := by
  simpa using h.trans (of_sameKeys h' : Grows loose tree fresh [] c' c'')

theorem sameKeys_trans (h : c.SameKeys c') (h' : Grows loose tree fresh keys c' c'') :
    Grows loose tree fresh keys c c'' :=
  (of_sameKeys h : Grows loose tree fresh [] c c').trans h'

theorem register (key : String) (id : Nat) :
    Grows loose tree fresh [key] c { c with lookup := Dict.insert c.lookup key id } where
  registered hkey := (Dict.contains_insert _ _ _ _).2 (Or.inr hkey)
  reserved hkey := hkey
  of_reserved hkey := Or.inl hkey
  of_registered hkey := by
    rcases (Dict.contains_insert _ _ _ _).1 hkey with rfl | hkey
    · exact Or.inr (Or.inl List.mem_cons_self)
    · exact Or.inl hkey

end Grows

/-! ## Readiness -/

namespace Ready

theorem of_loose (h : ∀ key ∈ keys, loose key) : Ready loose fresh keys c where
  apart := List.Pairwise.imp_of_mem (fun ha _ _ _ => h _ ha) (List.pairwise_of_forall fun _ _ => trivial)
  free key hkey := Or.inl (h key hkey)

theorem subperm (h : Ready loose fresh keys c) (hkeys : keys'.Subperm keys) :
    Ready loose fresh keys' c where
  apart := by
    obtain ⟨between, hperm, hsublist⟩ := hkeys
    exact hperm.pairwise (h.apart.sublist hsublist) fun hab heq => heq ▸ hab heq.symm
  free key hkey := h.free key (hkeys.subset hkey)

theorem mono (h : Ready loose fresh keys c) (hfresh : ∀ key, fresh' key → fresh key ∨ loose key) :
    Ready loose fresh' keys c where
  apart := h.apart
  free key hkey := by
    rcases h.free key hkey with hloose | ⟨hfree, hsafe⟩
    · exact Or.inl hloose
    · by_cases hkey : loose key
      · exact Or.inl hkey
      · refine Or.inr ⟨hfree, hsafe.imp_right fun hnot hnew => ?_⟩
        exact (hfresh key hnew).elim hnot hkey

/-- **What is ready stays ready** while other elements are generated. -/
theorem after (h : Ready loose fresh (keys ++ keys') c) (hgrows : Grows loose tree fresh keys c c') :
    Ready loose fresh keys' c' where
  apart := (List.pairwise_append.1 h.apart).2.1
  free key hkey := by
    rcases h.free key (List.mem_append_right _ hkey) with hloose | ⟨hfree, hsafe⟩
    · exact Or.inl hloose
    by_cases hregistered : c'.Registered key
    · left
      rcases hgrows.of_registered hregistered with hold | hkeys | hloose | ⟨hunused, hfresh⟩
      · exact absurd hold hfree
      · exact (List.pairwise_append.1 h.apart).2.2 key hkeys key hkey rfl
      · exact hloose
      · rcases hsafe with hreserved | hnot
        · exact absurd (Or.inr hreserved) hunused
        · exact absurd hfresh hnot
    · exact Or.inr ⟨hregistered, hsafe.imp_left hgrows.reserved⟩

theorem sameKeys (h : Ready loose fresh keys c) (hsame : c.SameKeys c') :
    Ready loose fresh keys c' where
  apart := h.apart
  free key hkey := by
    rw [hsame.registered, hsame.reserved_iff]
    exact h.free key hkey

theorem left (h : Ready loose fresh (keys ++ keys') c) : Ready loose fresh keys c :=
  h.subperm (List.sublist_append_left _ _).subperm

theorem right (h : Ready loose fresh (keys ++ keys') c) : Ready loose fresh keys' c :=
  h.subperm (List.sublist_append_right _ _).subperm

end Ready

/-! ## Runs -/

namespace Runs

variable {α β : Type} {outcome : Except Diagnostic α}

theorem map (h : Runs loose tree fresh keys c outcome c') (f : α → β) :
    Runs loose tree fresh keys c (outcome.map f) c' := by
  cases outcome <;> exact h

theorem after (h : Runs loose tree fresh keys' c' outcome c'')
    (hgrows : Grows loose tree fresh keys c c') :
    Runs loose tree fresh (keys ++ keys') c outcome c'' := by
  cases outcome with
  | error d => exact h
  | ok a => exact hgrows.trans h

theorem mono (h : Runs loose tree fresh keys c outcome c')
    (hkeys : ∀ key ∈ keys, key ∈ keys' ∨ loose key ∨ ¬ c.Used key ∧ fresh' key)
    (hfresh : ∀ key, fresh key → fresh' key ∨ loose key) :
    Runs loose tree fresh' keys' c outcome c' := by
  cases outcome with
  | error d => exact h
  | ok a => exact Grows.mono h hkeys hfresh

theorem of_keyFree {d : Diagnostic} (h : d.doubledKey? = none) :
    Runs (β := β) loose tree fresh keys c (.error d) c' := fun key hkey => by
  rw [h] at hkey
  cases hkey

theorem of_sameKeys (hsame : c.SameKeys c') (hfree : KeyFree outcome) :
    Runs loose tree fresh keys c outcome c' := by
  cases outcome with
  | error d => exact .of_keyFree (hfree d rfl)
  | ok a => exact Grows.of_sameKeys hsame

end Runs

/-- Registering an element whose key is ready succeeds, unless the key is a loose one. -/
theorem registerElement_runs (h : Ready loose fresh [key] c) (e : Element) (id : Nat)
    (hierarchy : List String) :
    let r := registerElement key e id hierarchy c
    Runs loose tree fresh [key] c r.1 r.2 ∧ (r.1.isOk → r.2.Registered key) := by
  rcases registerElement_run key e id hierarchy c with ⟨-, hrun⟩ | ⟨hold, d, hd, hrun⟩
  · rw [hrun]
    refine ⟨.register key id, fun _ => ?_⟩
    exact (Dict.contains_insert _ _ _ _).2 (Or.inl rfl)
  · rw [hrun]
    refine ⟨fun key' hkey' => ?_, fun hok => by cases hok⟩
    rw [hd] at hkey'
    cases hkey'
    rcases h.free key List.mem_cons_self with hloose | ⟨hfree, -⟩
    · exact hloose
    · exact absurd hold hfree

end PageCompiler
