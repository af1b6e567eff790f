import PageCompiler.Json.Basic
import PageCompiler.Proofs.Dict

/-!
# Canonical values

A value without repeated names is the same as its canonical form, but for the order of the members
of objects.

* `Dict.ofList_perm`: a table of entries with different keys has these entries.
* `Json.Plain`: no name is repeated in an object, and every piece denotes a value.
* `Json.canonical_canonical`, `Json.Plain.canonical`, `Json.depth_canonical`: canonical values are
  plain, are their own canonical form, and are as deep as what they come from.
-/

namespace PageCompiler

/-! ## Tables of listed entries -/

namespace Dict

variable {α β : Type}

theorem get?_eq_some_iff_of_nodup {d : Dict α} (h : (keys d).Nodup) {key : String} {value : α} :
    get? d key = some value ↔ (key, value) ∈ d := by
  refine ⟨mem_of_get?, fun hmem => ?_⟩
  induction d with
  | nil => cases hmem
  | cons entry rest ih =>
    obtain ⟨k, v⟩ := entry
    obtain ⟨hk, hrest⟩ := List.nodup_cons.1 h
    rw [get?_cons]
    rcases List.mem_cons.1 hmem with heq | hmem
    · cases heq
      rw [if_pos rfl]
    · have hne : key ≠ k := fun heq => hk (List.mem_map.2 ⟨_, hmem, heq⟩)
      rw [if_neg hne, ih hrest hmem]

/-- What is filed under a key does not depend on the order of the entries. -/
theorem get?_perm {d d' : Dict α} (h : d.Perm d') (hkeys : (keys d).Nodup) (key : String) :
    get? d key = get? d' key := by
  have hkeys' : (keys d').Nodup := (h.map _).nodup_iff.1 hkeys
  refine Option.ext fun value => ?_
  rw [get?_eq_some_iff_of_nodup hkeys, get?_eq_some_iff_of_nodup hkeys', h.mem_iff]

theorem insert_perm {d : Dict α} {key : String} (h : key ∉ keys d) (value : α) :
    (insert d key value).Perm ((key, value) :: d) := by
  induction d with
  | nil => exact .refl _
  | cons entry rest ih =>
    obtain ⟨k, v⟩ := entry
    obtain ⟨hne, hrest⟩ := not_or.1 (mt List.mem_cons.2 h)
    rw [insert]
    split
    · exact .refl _
    · exact ((ih hrest).cons _).trans (.swap _ _ _)

theorem merge_perm {base later : Dict α} (h : (keys base ++ keys later).Nodup) :
    (merge base later).Perm (base ++ later) := by
  induction later generalizing base with
  | nil => exact .of_eq (List.append_nil base).symm
  | cons entry rest ih =>
    have hkeys := List.nodup_middle.1 h
    have hinsert := insert_perm (fun hmem => (List.nodup_cons.1 hkeys).1
      (List.mem_append_left _ hmem)) entry.2
    have hrest : (keys (insert base entry.1 entry.2) ++ keys rest).Nodup :=
      ((hinsert.map Prod.fst).append_right _).nodup_iff.2 hkeys
    exact (ih hrest).trans ((hinsert.append_right rest).trans List.perm_middle.symm)

/-- A table of entries with different keys has these entries. -/
theorem ofList_perm {entries : List (String × α)} (h : (keys entries).Nodup) :
    (ofList entries).Perm entries :=
  @merge_perm α [] entries h

theorem sorted_ofList (entries : List (String × α)) : Sorted (ofList entries) :=
  Sorted.merge .nil entries

theorem mem_ofList {entries : List (String × α)} {entry : String × α}
    (h : entry ∈ ofList entries) : entry ∈ entries :=
  (mem_merge h).resolve_left List.not_mem_nil

theorem Sorted.eq_of_perm {d d' : Dict α} (h : Sorted d) (h' : Sorted d') (hperm : d.Perm d') :
    d = d' :=
  h.ext h' (get?_perm hperm h.nodup_keys)

/-- A sorted table is the table of its entries. -/
theorem Sorted.ofList_eq {d : Dict α} (h : Sorted d) : ofList d = d :=
  (sorted_ofList d).eq_of_perm h (ofList_perm h.nodup_keys)

/-- The table of some entries does not depend on their order. -/
theorem ofList_congr {entries entries' : List (String × α)} (h : entries.Perm entries')
    (hkeys : (keys entries).Nodup) : ofList entries = ofList entries' := by
  have hkeys' : (keys entries').Nodup := (h.map _).nodup_iff.1 hkeys
  exact (sorted_ofList _).eq_of_perm (sorted_ofList _)
    ((ofList_perm hkeys).trans (h.trans (ofList_perm hkeys').symm))

/-! ## Changed values -/

theorem mapValues_cons (f : α → β) (entry : String × α) (rest : Dict α) :
    mapValues f (entry :: rest) = (entry.1, f entry.2) :: mapValues f rest := rfl

theorem mem_mapValues (f : α → β) {d : Dict α} {entry : String × α} (h : entry ∈ d) :
    (entry.1, f entry.2) ∈ mapValues f d :=
  List.mem_map_of_mem (f := fun e => (e.1, f e.2)) h

theorem keys_mapValues (f : α → β) (d : Dict α) : keys (mapValues f d) = keys d := List.map_map

theorem nodup_keys_mapValues (f : α → β) {d : Dict α} (h : (keys d).Nodup) :
    (keys (mapValues f d)).Nodup := by
  rwa [keys_mapValues]

theorem mapValues_eq_self {f : α → α} {d : Dict α} (h : ∀ entry ∈ d, f entry.2 = entry.2) :
    mapValues f d = d := by
  conv_rhs => rw [← List.map_id d]
  exact List.map_congr_left fun entry hentry => Prod.ext rfl (h entry hentry)

theorem get?_mapValues (f : α → β) (d : Dict α) (key : String) :
    get? (mapValues f d) key = (get? d key).map f := by
  induction d with
  | nil => rfl
  | cons entry rest ih =>
    obtain ⟨k, v⟩ := entry
    rw [mapValues_cons, get?_cons, get?_cons, ih]
    split <;> rfl

end Dict

namespace Json

/-! ## Values without repetitions -/

/-- A property of all values, by way of the items of arrays and the members of objects. -/
theorem induction {P : Json → Prop} (null : P .null) (bool : ∀ b, P (.bool b))
    (number : ∀ n, P (.number n)) (string : ∀ s, P (.string s)) (unreadable : P .unreadable)
    (array : ∀ items : List Json, (∀ item ∈ items, P item) → P (.array items))
    (object : ∀ members : List (String × Json), (∀ m ∈ members, P m.2) → P (.object members)) :
    (j : Json) → P j
  | .null => null
  | .bool b => bool b
  | .number n => number n
  | .string s => string s
  | .unreadable => unreadable
  | .array items =>
    array items fun item _ => induction null bool number string unreadable array object item
  | .object members =>
    object members fun m _ => induction null bool number string unreadable array object m.2
termination_by j => sizeOf j
decreasing_by
  · have hlt := List.sizeOf_lt_of_mem ‹item ∈ items›
    rw [Json.array.sizeOf_spec]
    omega
  · have hlt := List.sizeOf_lt_of_mem ‹m ∈ members›
    obtain ⟨name, value⟩ := m
    rw [Prod.mk.sizeOf_spec] at hlt
    rw [Json.object.sizeOf_spec]
    change sizeOf value < _
    omega

mutual

/-- No name is repeated in an object. -/
def NoRepeats : Json → Prop
  | .array items => itemsNoRepeats items
  | .object members => (Dict.keys members).Nodup ∧ membersNoRepeats members
  | _ => True

/-- No name is repeated in an object among some items. -/
def itemsNoRepeats : List Json → Prop
  | [] => True
  | item :: rest => NoRepeats item ∧ itemsNoRepeats rest

/-- No name is repeated in an object below some members. -/
def membersNoRepeats : List (String × Json) → Prop
  | [] => True
  | (_, value) :: rest => NoRepeats value ∧ membersNoRepeats rest

end

theorem noRepeats_array {items : List Json} :
    NoRepeats (.array items) ↔ ∀ item ∈ items, NoRepeats item := by
  rw [NoRepeats]
  induction items with
  | nil => simp [itemsNoRepeats]
  | cons item rest ih => rw [itemsNoRepeats, List.forall_mem_cons, ih]

theorem noRepeats_object {members : List (String × Json)} :
    NoRepeats (.object members) ↔
      (Dict.keys members).Nodup ∧ ∀ m ∈ members, NoRepeats m.2 := by
  have hmembers : membersNoRepeats members ↔ ∀ m ∈ members, NoRepeats m.2 := by
    induction members with
    | nil => simp [membersNoRepeats]
    | cons m rest ih => rw [membersNoRepeats, List.forall_mem_cons, ih]
  rw [NoRepeats, hmembers]

theorem membersReadable_iff {members : List (String × Json)} :
    membersReadable members ↔ ∀ m ∈ members, readable m.2 := by
  induction members with
  | nil => simp [membersReadable]
  | cons m rest ih => rw [membersReadable, Bool.and_eq_true, List.forall_mem_cons, ih]

theorem itemsReadable_iff {items : List Json} :
    itemsReadable items ↔ ∀ item ∈ items, readable item := by
  induction items with
  | nil => simp [itemsReadable]
  | cons item rest ih => rw [itemsReadable, Bool.and_eq_true, List.forall_mem_cons, ih]

/-- No name is repeated in an object, and every piece denotes a value. -/
structure Plain (j : Json) : Prop where
  noRepeats : j.NoRepeats
  readable : j.readable

theorem plain_array {items : List Json} : Plain (.array items) ↔ ∀ item ∈ items, Plain item := by
  constructor
  · intro h item hitem
    have hreadable := h.readable
    rw [Json.readable, itemsReadable_iff] at hreadable
    exact ⟨noRepeats_array.1 h.noRepeats item hitem, hreadable item hitem⟩
  · intro h
    refine ⟨noRepeats_array.2 fun item hitem => (h item hitem).noRepeats, ?_⟩
    rw [Json.readable, itemsReadable_iff]
    exact fun item hitem => (h item hitem).readable

theorem plain_object {members : List (String × Json)} :
    Plain (.object members) ↔ (Dict.keys members).Nodup ∧ ∀ m ∈ members, Plain m.2 := by
  constructor
  · intro h
    have hreadable := h.readable
    obtain ⟨hkeys, hmembers⟩ := noRepeats_object.1 h.noRepeats
    rw [Json.readable, membersReadable_iff] at hreadable
    exact ⟨hkeys, fun m hm => ⟨hmembers m hm, hreadable m hm⟩⟩
  · rintro ⟨hkeys, h⟩
    refine ⟨noRepeats_object.2 ⟨hkeys, fun m hm => (h m hm).noRepeats⟩, ?_⟩
    rw [Json.readable, membersReadable_iff]
    exact fun m hm => (h m hm).readable

/-! ## Canonical forms -/

theorem canonical_array (items : List Json) :
    canonical (.array items) = .array (items.map canonical) := by
  rw [canonical]
  congr 1
  induction items with
  | nil => rfl
  | cons item rest ih => rw [itemsCanonical, List.map_cons, ih]

theorem canonical_object (members : List (String × Json)) :
    canonical (.object members) = .object (Dict.ofList (Dict.mapValues canonical members)) := by
  have hmembers : membersCanonical members = Dict.mapValues canonical members := by
    induction members with
    | nil => rfl
    | cons m rest ih => rw [membersCanonical, ih, Dict.mapValues_cons]
  rw [canonical, hmembers]

/-- A member of a canonical object. -/
theorem exists_of_mem_canonical {members : List (String × Json)} {m : String × Json}
    (h : m ∈ Dict.ofList (Dict.mapValues canonical members)) :
    ∃ m' ∈ members, (m'.1, m'.2.canonical) = m :=
  List.mem_map.1 (Dict.mem_ofList h)

/-- A canonical value is its own canonical form. -/
theorem canonical_canonical (j : Json) : j.canonical.canonical = j.canonical := by
  induction j using Json.induction with
  | array items ih =>
    rw [canonical_array, canonical_array, List.map_map]
    congr 1
    exact List.map_congr_left ih
  | object members ih =>
    have hfixed : Dict.mapValues canonical (Dict.ofList (Dict.mapValues canonical members))
        = Dict.ofList (Dict.mapValues canonical members) := by
      refine Dict.mapValues_eq_self fun m hm => ?_
      obtain ⟨m', hm', rfl⟩ := exists_of_mem_canonical hm
      exact ih m' hm'
    rw [canonical_object, canonical_object, hfixed, (Dict.sorted_ofList _).ofList_eq]
  | _ => rfl

/-- A canonical value is plain. -/
theorem plain_canonical {j : Json} (h : j.readable) : j.canonical.Plain := by
  induction j using Json.induction with
  | array items ih =>
    rw [readable, itemsReadable_iff] at h
    rw [canonical_array, plain_array, List.forall_mem_map]
    exact fun item hitem => ih item hitem (h item hitem)
  | object members ih =>
    rw [readable, membersReadable_iff] at h
    rw [canonical_object, plain_object]
    refine ⟨(Dict.sorted_ofList _).nodup_keys, fun m hm => ?_⟩
    obtain ⟨m', hm', rfl⟩ := exists_of_mem_canonical hm
    exact ih m' hm' (h m' hm')
  | unreadable => cases h
  | _ => exact ⟨trivial, rfl⟩

theorem depth_array (items : List Json) :
    depth (.array items) = (items.map depth).foldr max 0 + 1 := by
  rw [depth]
  congr 1
  induction items with
  | nil => rfl
  | cons item rest ih => rw [itemsDepth, ih, List.map_cons, List.foldr_cons]

theorem depth_object (members : List (String × Json)) :
    depth (.object members) = (members.map (·.2.depth)).foldr max 0 + 1 := by
  rw [depth]
  congr 1
  induction members with
  | nil => rfl
  | cons m rest ih => rw [membersDepth, ih, List.map_cons, List.foldr_cons]

/-- A canonical value is as deep as what it comes from. -/
theorem depth_canonical {j : Json} (h : j.NoRepeats) : j.canonical.depth = j.depth := by
  induction j using Json.induction with
  | array items ih =>
    rw [noRepeats_array] at h
    rw [canonical_array, depth_array, depth_array, List.map_map]
    congr 2
    exact List.map_congr_left fun item hitem => ih item hitem (h item hitem)
  | object members ih =>
    obtain ⟨hkeys, hmembers⟩ := noRepeats_object.1 h
    have hperm := Dict.ofList_perm (Dict.nodup_keys_mapValues canonical hkeys)
    have hdepths : (Dict.mapValues canonical members).map (·.2.depth)
        = members.map (·.2.depth) := by
      rw [Dict.mapValues, List.map_map]
      exact List.map_congr_left fun m hm => ih m hm (hmembers m hm)
    rw [canonical_object, depth_object, depth_object, (hperm.map (·.2.depth)).foldr_eq, hdepths]
  | _ => rfl

end Json

end PageCompiler
