import PageCompiler.Json.Record
import PageCompiler.Proofs.Json.Canonical

/-!
# Readers that do not look at the order of members

A reader is `Steady` when it reads a plain value and its canonical form as the same thing. The rules
by which records are taken out of values are steady, once a value was set aside: which members there
are does not depend on their order, nor does what they hold.

* `SameMembers`: the members of a record that was read from a value and from its canonical form.
* `record?_steady`, `variant?_steady`, `tagged?_steady`: what goes on with the parts of a value.
* `table?_steady`, `items?_steady`: tables and lists of steadily read parts.
-/

namespace PageCompiler

namespace Json

variable {α β : Type}

/-- A reader reads a plain value and its canonical form as the same thing. -/
def Steady (read : Json → Option α) : Prop := ∀ j : Json, j.Plain → read j.canonical = read j

/-! ## Scalars -/

theorem asString?_steady : Steady asString? := by
  intro j _
  cases j <;> rfl

theorem asBool?_steady : Steady asBool? := by
  intro j _
  cases j <;> rfl

theorem asReal?_steady : Steady asReal? := by
  intro j _
  cases j <;> rfl

theorem value?_steady : Steady value? := by
  intro j h
  rw [value?, value?, if_pos h.readable, if_pos (plain_canonical h.readable).readable,
    canonical_canonical]

/-! ## Lists and tables -/

theorem forall₂_of_mapM_option {f : α → Option β} {l : List α} {results : List β}
    (h : l.mapM f = some results) : List.Forall₂ (fun a b => f a = some b) l results := by
  induction l generalizing results with
  | nil =>
    cases h
    exact .nil
  | cons a rest ih =>
    rw [List.mapM_cons] at h
    obtain ⟨b, hb, h⟩ := Option.bind_eq_some_iff.1 h
    obtain ⟨others, hothers, h⟩ := Option.bind_eq_some_iff.1 h
    cases h
    exact .cons hb (ih hothers)

theorem mapM_option_of_forall₂ {f : α → Option β} {l : List α} {results : List β}
    (h : List.Forall₂ (fun a b => f a = some b) l results) : l.mapM f = some results := by
  induction h with
  | nil => rfl
  | cons hb _ ih =>
    rw [List.mapM_cons, hb, ih]
    rfl

/-- Reading parts in another order gives the same results in another order. -/
theorem exists_perm_of_mapM {f : α → Option β} {l l' : List α} (hperm : l.Perm l')
    {results : List β} (h : l.mapM f = some results) :
    ∃ results', l'.mapM f = some results' ∧ results.Perm results' := by
  obtain ⟨results', hresults', hperm'⟩ :=
    List.perm_comp_forall₂ hperm.symm (forall₂_of_mapM_option h)
  exact ⟨results', mapM_option_of_forall₂ hresults', hperm'.symm⟩

theorem mapM_map_congr {f : α → α} {g : α → Option β} {l : List α}
    (h : ∀ a ∈ l, g (f a) = g a) : (l.map f).mapM g = l.mapM g := by
  induction l with
  | nil => rfl
  | cons a rest ih =>
    rw [List.map_cons, List.mapM_cons, List.mapM_cons, h a List.mem_cons_self,
      ih fun b hb => h b (List.mem_cons_of_mem _ hb)]

theorem items?_steady {read : Json → Option α} (hread : Steady read) : Steady (items? read) := by
  intro j h
  cases j with
  | array items =>
    rw [canonical_array]
    exact mapM_map_congr fun item hitem => hread item (plain_array.1 h item hitem)
  | _ => rfl

/-- Read the value of a member. -/
def readMember (read : Json → Option α) (m : String × Json) : Option (String × α) := do
  some (m.1, ← read m.2)

theorem readMember_eq_some {read : Json → Option α} {m : String × Json} {entry : String × α} :
    readMember read m = some entry ↔ m.1 = entry.1 ∧ read m.2 = some entry.2 := by
  obtain ⟨name, value⟩ := m
  obtain ⟨key, x⟩ := entry
  rw [readMember, Option.bind_eq_bind, Option.bind_eq_some_iff]
  simp only [Option.some.injEq, Prod.mk.injEq]
  constructor
  · rintro ⟨_, hread, rfl, rfl⟩
    exact ⟨rfl, hread⟩
  · rintro ⟨rfl, hread⟩
    exact ⟨x, hread, rfl, rfl⟩

theorem table?_object {read : Json → Option α} (members : List (String × Json)) :
    table? read (.object members) = (members.mapM (readMember read)).map Dict.ofList := by
  rw [table?, Option.map_eq_bind]
  rfl

/-- The entries of a table have the names of the members. -/
theorem keys_of_mapM {read : Json → Option α} {members : List (String × Json)}
    {entries : List (String × α)} (h : members.mapM (readMember read) = some entries) :
    Dict.keys entries = Dict.keys members := by
  have hentries := forall₂_of_mapM_option h
  clear h
  induction hentries with
  | nil => rfl
  | cons hentry _ ih =>
    rw [Dict.keys, Dict.keys, List.map_cons, List.map_cons, (readMember_eq_some.1 hentry).1]
    exact congrArg _ ih

theorem table?_steady {read : Json → Option α} (hread : Steady read) : Steady (table? read) := by
  intro j h
  cases j with
  | object members =>
    obtain ⟨hkeys, hmembers⟩ := plain_object.1 h
    have hperm := Dict.ofList_perm (Dict.nodup_keys_mapValues canonical hkeys)
    have hsame : (Dict.mapValues canonical members).mapM (readMember read)
        = members.mapM (readMember read) :=
      mapM_map_congr fun m hm => by rw [readMember, hread m.2 (hmembers m hm), readMember]
    rw [canonical_object, table?_object, table?_object, ← hsame]
    cases hentries : (Dict.mapValues canonical members).mapM (readMember read) with
    | none =>
      cases hentries' : (Dict.ofList (Dict.mapValues canonical members)).mapM (readMember read) with
      | none => rfl
      | some entries' =>
        obtain ⟨entries, hsome, -⟩ := exists_perm_of_mapM hperm hentries'
        rw [hsome] at hentries
        cases hentries
    | some entries =>
      obtain ⟨entries', hsome, hsameEntries⟩ := exists_perm_of_mapM hperm.symm hentries
      have hkeys' : (Dict.keys entries).Nodup := by
        rw [keys_of_mapM hentries, Dict.keys_mapValues]
        exact hkeys
      rw [hsome, Option.map_some, Option.map_some, Dict.ofList_congr hsameEntries hkeys']
  | _ => rfl

/-! ## Records -/

/-- The members that are read from a canonical value are those that are read from the value. -/
structure SameMembers (m m' : List (String × Json)) : Prop where
  lookup : ∀ name, m'.lookup name = (m.lookup name).map canonical
  plain : ∀ {name value}, m.lookup name = some value → value.Plain

namespace SameMembers

variable {m m' : List (String × Json)} {read : Json → Option α}

theorem required (h : SameMembers m m') (hread : Steady read) (name : String) :
    required m' name read = Json.required m name read := by
  rw [Json.required, Json.required, h.lookup]
  cases hvalue : m.lookup name with
  | none => rfl
  | some value => exact hread value (h.plain hvalue)

theorem defaulted (h : SameMembers m m') (hread : Steady read) (name : String) (default : α) :
    defaulted m' name default read = Json.defaulted m name default read := by
  rw [Json.defaulted, Json.defaulted, h.lookup]
  cases hvalue : m.lookup name with
  | none => rfl
  | some value => exact hread value (h.plain hvalue)

theorem optional (h : SameMembers m m') (hread : Steady read) (name : String) :
    optional m' name read = Json.optional m name read := by
  rw [Json.optional, Json.optional, h.lookup]
  cases hvalue : m.lookup name with
  | none => rfl
  | some value =>
    have hsame := congrArg (Option.map some) (hread value (h.plain hvalue))
    cases value with
    | null => rfl
    | _ => exact hsame

end SameMembers

/-- The canonical form of an object has the canonical members, in another order. -/
theorem exists_canonical_object {members : List (String × Json)}
    (hkeys : (Dict.keys members).Nodup) :
    ∃ members', canonical (.object members) = .object members' ∧ Dict.Sorted members' ∧
      members'.Perm (Dict.mapValues canonical members) :=
  ⟨_, canonical_object members, Dict.sorted_ofList _,
    Dict.ofList_perm (Dict.nodup_keys_mapValues canonical hkeys)⟩

theorem filter_mapValues (members : List (String × Json)) (p : String → Bool) :
    (Dict.mapValues canonical members).filter (fun m => p m.1)
      = Dict.mapValues canonical (members.filter fun m => p m.1) := by
  rw [Dict.mapValues, List.filter_map]
  rfl

theorem countP_name_le_one {members : List (String × Json)} (hkeys : (Dict.keys members).Nodup)
    (name : String) : members.countP (·.1 = name) ≤ 1 := by
  have hcount := List.nodup_iff_count_le_one.1 hkeys name
  rw [Dict.keys, List.count, List.countP_map] at hcount
  refine le_of_eq_of_le (List.countP_congr fun m _ => ?_) hcount
  simp

/-- The known members of an object without repetitions. -/
theorem record?_object {members : List (String × Json)} (hkeys : (Dict.keys members).Nodup)
    (names : List String) :
    record? names (.object members) = some (members.filter fun m => names.contains m.1) := by
  rw [record?]
  refine if_pos (List.all_eq_true.2 fun name _ => decide_eq_true ?_)
  exact countP_name_le_one ((List.filter_sublist.map _).nodup hkeys) name

/-- What is read of a record and of its canonical form. -/
theorem record?_cases (names : List String) {j : Json} (h : j.Plain) :
    record? names j = none ∧ record? names j.canonical = none ∨
      ∃ m m', record? names j = some m ∧ record? names j.canonical = some m' ∧
        SameMembers m m' := by
  cases j with
  | object members =>
    obtain ⟨hkeys, hmembers⟩ := plain_object.1 h
    obtain ⟨members', hcanonical, hsorted, hperm⟩ := exists_canonical_object hkeys
    have hknown := hperm.filter fun m => names.contains m.1
    rw [filter_mapValues members (names.contains ·)] at hknown
    have hsortedKnown := hsorted.filter fun m => names.contains m.1
    rw [hcanonical, record?_object hkeys, record?_object hsorted.nodup_keys]
    refine .inr ⟨_, _, rfl, rfl, fun name => ?_, fun hvalue => ?_⟩
    · exact (Dict.get?_perm hknown hsortedKnown.nodup_keys name).trans (Dict.get?_mapValues _ _ _)
    · exact hmembers _ (List.mem_of_mem_filter (Dict.mem_of_get? hvalue))
  | array items =>
    rw [canonical_array, record?, record?, List.length_map]
    split
    · refine .inr ⟨_, _, rfl, rfl, fun name => ?_, fun hvalue => ?_⟩
      · rw [List.zip_map_right]
        exact Dict.get?_mapValues canonical (names.zip items) name
      · exact plain_array.1 h _ (List.of_mem_zip (Dict.mem_of_get? hvalue)).2
    · exact .inl ⟨rfl, rfl⟩
  | _ => exact .inl ⟨rfl, rfl⟩

/-- **Records do not depend on the order of members.** -/
theorem record?_steady {names : List String} {f : List (String × Json) → Option α} {j : Json}
    (h : j.Plain) (hf : ∀ m m', SameMembers m m' → f m' = f m) :
    (record? names j.canonical).bind f = (record? names j).bind f := by
  obtain ⟨hnone, hnone'⟩ | ⟨m, m', hm, hm', hsame⟩ := record?_cases names h
  · rw [hnone, hnone']
  · rw [hm, hm']
    exact hf m m' hsame

/-! ## Variants -/

/-- An object with several members is not a word. -/
theorem word?_of_several (names : List String) (first second : String × Json)
    (rest : List (String × Json)) : word? names (.object (first :: second :: rest)) = none := by
  obtain ⟨name, value⟩ := first
  cases value <;> rfl

theorem word?_steady (names : List String) : Steady (word? names) := by
  intro j h
  cases j with
  | object members =>
    obtain ⟨hkeys, -⟩ := plain_object.1 h
    match members with
    | [] => rfl
    | [(s, value)] =>
      have hsingle : canonical (.object [(s, value)]) = .object [(s, value.canonical)] :=
        canonical_object _
      rw [hsingle]
      cases value with
      | array items => rw [canonical_array]; rfl
      | object members => rw [canonical_object]; rfl
      | _ => rfl
    | first :: second :: rest =>
      obtain ⟨members', hcanonical, -, hperm⟩ := exists_canonical_object hkeys
      rw [hcanonical, word?_of_several]
      match members', hperm.length_eq with
      | first' :: second' :: rest', _ => exact word?_of_several _ _ _ _
  | _ => rfl

/-- What there can be of two members. -/
theorem pair_cases {a b : String} {parts : List (String × Json)}
    (hkeys : (Dict.keys parts).Nodup) (h : ∀ m ∈ parts, m.1 = a ∨ m.1 = b) :
    parts = [] ∨ (∃ v, parts = [(a, v)]) ∨ (∃ w, parts = [(b, w)]) ∨
      (∃ v w, parts = [(a, v), (b, w)]) ∨ ∃ v w, parts = [(b, w), (a, v)] := by
  match parts with
  | [] => exact .inl rfl
  | [(k, v)] =>
    rcases h _ List.mem_cons_self with rfl | rfl
    · exact .inr (.inl ⟨v, rfl⟩)
    · exact .inr (.inr (.inl ⟨v, rfl⟩))
  | [(k, v), (k', v')] =>
    have hne : k ≠ k' := fun heq => (List.nodup_cons.1 hkeys).1 (heq ▸ List.mem_cons_self)
    rcases h _ List.mem_cons_self with rfl | rfl <;>
      rcases h _ (List.mem_cons_of_mem _ List.mem_cons_self) with rfl | rfl
    · exact absurd rfl hne
    · exact .inr (.inr (.inr (.inl ⟨v, v', rfl⟩)))
    · exact .inr (.inr (.inr (.inr ⟨v', v, rfl⟩)))
    · exact absurd rfl hne
  | (k, v) :: (k', v') :: (k'', v'') :: rest =>
    have h₁ := h (k, v) (by simp)
    have h₂ := h (k', v') (by simp)
    have h₃ := h (k'', v'') (by simp)
    simp only [Dict.keys, List.map_cons, List.nodup_cons, List.mem_cons, not_or] at hkeys
    grind

/-- Members of other names do not matter. -/
theorem get?_filter {members : List (String × Json)} (hkeys : (Dict.keys members).Nodup)
    (p : String → Bool) {name : String} (hname : p name = true) :
    Dict.get? (members.filter fun m => p m.1) name = Dict.get? members name := by
  have hfilter : (Dict.keys (members.filter fun m => p m.1)).Nodup :=
    (List.filter_sublist.map _).nodup hkeys
  refine Option.ext fun value => ?_
  rw [Dict.get?_eq_some_iff_of_nodup hfilter, Dict.get?_eq_some_iff_of_nodup hkeys,
    List.mem_filter]
  exact and_iff_left hname

/-- The members of a variant that was set aside: it does not matter which of them comes first. -/
theorem variant?_object {members : List (String × Json)} (h : Plain (.object members))
    (names : List String) :
    variant? names true (.object members) =
      (Dict.get? members "type").bind fun name => (Dict.get? members "content").bind fun content =>
        (word? names name).map fun kind => (kind, content, true) := by
  obtain ⟨hkeys, hmembers⟩ := plain_object.1 h
  set parts := members.filter (fun m => m.1 = "type" || m.1 = "content") with hparts
  have hname : Dict.get? parts "type" = Dict.get? members "type" :=
    get?_filter hkeys (fun name => name = "type" || name = "content") rfl
  have hcontent : Dict.get? parts "content" = Dict.get? members "content" :=
    get?_filter hkeys (fun name => name = "type" || name = "content") rfl
  have hreadable : ∀ m ∈ parts, m.2.readable :=
    fun m hm => (hmembers m (List.mem_of_mem_filter hm)).readable
  have hkinds : ∀ m ∈ parts, m.1 = "type" ∨ m.1 = "content" := by simp [hparts]
  have hpartKeys : (Dict.keys parts).Nodup := (List.filter_sublist.map _).nodup hkeys
  rw [← hname, ← hcontent, variant?, ← hparts]
  rcases pair_cases hpartKeys hkinds with
    heq | ⟨v, heq⟩ | ⟨w, heq⟩ | ⟨v, w, heq⟩ | ⟨v, w, heq⟩
  · rw [heq]
    rfl
  · rw [heq]
    rfl
  · rw [heq]
    rfl
  · rw [heq]
    change (word? names v >>= fun kind => some (kind, w, true)) = (word? names v).map _
    cases word? names v <;> rfl
  · rw [heq] at hreadable ⊢
    change (if w.readable then word? names v >>= fun kind => some (kind, w, true) else none)
      = (word? names v).map _
    rw [if_pos (hreadable _ List.mem_cons_self)]
    cases word? names v <;> rfl

/-- **Variants do not depend on the order of members**, once they were set aside. -/
theorem variant?_steady {names : List String} {f : String × Json × Bool → Option α} {j : Json}
    (h : j.Plain)
    (hf : ∀ kind content, content.Plain →
      f (kind, content.canonical, true) = f (kind, content, true)) :
    (variant? names true j.canonical).bind f = (variant? names true j).bind f := by
  cases j with
  | object members =>
    obtain ⟨hkeys, hmembers⟩ := plain_object.1 h
    obtain ⟨members', hcanonical, hsorted, hperm⟩ := exists_canonical_object hkeys
    have hplain : Plain (.object members') := hcanonical ▸ plain_canonical h.readable
    rw [hcanonical, variant?_object h, variant?_object hplain,
      Dict.get?_perm hperm hsorted.nodup_keys, Dict.get?_perm hperm hsorted.nodup_keys,
      Dict.get?_mapValues, Dict.get?_mapValues]
    cases hname : Dict.get? members "type" with
    | none => rfl
    | some name =>
      cases hcontent : Dict.get? members "content" with
      | none => rfl
      | some content =>
        have hword := word?_steady names name (hmembers _ (Dict.mem_of_get? hname))
        simp only [Option.map_some, Option.bind_some, hword]
        cases word? names name with
        | none => rfl
        | some kind => exact hf kind content (hmembers _ (Dict.mem_of_get? hcontent))
  | array items =>
    rw [canonical_array]
    match items with
    | [name, content] =>
      have hitems := plain_array.1 h
      have hword := word?_steady names name (hitems name (by simp))
      change (word? names name.canonical >>= fun kind => some (kind, content.canonical, true)).bind f
        = (word? names name >>= fun kind => some (kind, content, true)).bind f
      rw [hword]
      cases word? names name with
      | none => rfl
      | some kind => exact hf kind content (hitems content (by simp))
    | [] | [_] | _ :: _ :: _ :: _ => rfl
  | _ => rfl

/-- What a variant holds does not depend on whether it was set aside. -/
theorem variant?_aside (names : List String) (f : String → Json → Option α) (j : Json) :
    (variant? names false j).bind (fun v => f v.1 v.2.1)
      = (variant? names true j).bind fun v => f v.1 v.2.1 := by
  unfold variant?
  split
  · dsimp only
    split
    · simp only [Option.bind_eq_bind, Option.bind_assoc, Option.bind_some]
    · rfl
    · rfl
  · simp only [Option.bind_eq_bind, Option.bind_assoc, Option.bind_some]
  · rfl

theorem kindName?_canonical (names : List String) (aside : Bool) (j : Json) :
    kindName? names aside j.canonical = kindName? names aside j := by
  cases j <;> rfl

/-- The members of a name: one or none. -/
theorem filter_name_eq {members : List (String × Json)} (hkeys : (Dict.keys members).Nodup)
    (name : String) :
    members.filter (·.1 = name) =
      ((Dict.get? members name).map fun value => (name, value)).toList := by
  induction members with
  | nil => rfl
  | cons m rest ih =>
    obtain ⟨k, v⟩ := m
    obtain ⟨hk, hrest⟩ := List.nodup_cons.1 hkeys
    rw [Dict.get?_cons]
    by_cases heq : k = name
    · subst heq
      have hnone : Dict.get? rest k = none := Dict.get?_eq_none_iff.2 hk
      rw [List.filter_cons, ih hrest, hnone, if_pos rfl, if_pos (decide_eq_true rfl)]
      rfl
    · rw [List.filter_cons_of_neg (by simpa using heq), ih hrest, if_neg (Ne.symm heq)]

/-- Leaving out members of some names commutes with taking the canonical form. -/
theorem canonical_filter {members members' : List (String × Json)}
    (hkeys : (Dict.keys members).Nodup) (hsorted : Dict.Sorted members')
    (hperm : members'.Perm (Dict.mapValues canonical members)) (p : String → Bool) :
    Json.object (members'.filter fun m => p m.1)
      = canonical (.object (members.filter fun m => p m.1)) := by
  have hrest : (Dict.keys (members.filter fun m => p m.1)).Nodup :=
    (List.filter_sublist.map _).nodup hkeys
  have hfilter := hperm.filter fun m => p m.1
  rw [filter_mapValues members p] at hfilter
  rw [canonical_object]
  congr 1
  exact (hsorted.filter _).eq_of_perm (Dict.sorted_ofList _)
    (hfilter.trans (Dict.ofList_perm (Dict.nodup_keys_mapValues canonical hrest)).symm)

/-- The kind of a tagged record and its other members. -/
theorem tagged?_object {members : List (String × Json)} (h : Plain (.object members))
    (tag : String) (names : List String) (aside : Bool) :
    tagged? tag names aside (.object members) =
      (Dict.get? members tag).bind fun name => (kindName? names aside name).map fun kind =>
        (kind, .object (members.filter (·.1 ≠ tag))) := by
  obtain ⟨hkeys, hmembers⟩ := plain_object.1 h
  have hreadable : membersReadable (members.filter (·.1 ≠ tag)) := by
    rw [membersReadable_iff]
    exact fun m hm => (hmembers m (List.mem_of_mem_filter hm)).readable
  rw [tagged?, filter_name_eq hkeys]
  cases Dict.get? members tag with
  | none => rfl
  | some name =>
    change (if membersReadable (members.filter (·.1 ≠ tag)) then
      kindName? names aside name >>= fun kind => some (kind, _) else none)
      = (kindName? names aside name).map _
    rw [if_pos hreadable]
    cases kindName? names aside name <;> rfl

/-- **Tagged records do not depend on the order of members.** -/
theorem tagged?_steady {tag : String} {names : List String} {aside : Bool}
    {f : String × Json → Option α} {j : Json} (h : j.Plain)
    (hf : ∀ kind rest, rest.Plain → f (kind, rest.canonical) = f (kind, rest)) :
    (tagged? tag names aside j.canonical).bind f = (tagged? tag names aside j).bind f := by
  cases j with
  | object members =>
    obtain ⟨hkeys, hmembers⟩ := plain_object.1 h
    obtain ⟨members', hcanonical, hsorted, hperm⟩ := exists_canonical_object hkeys
    have hplain : Plain (.object members') := hcanonical ▸ plain_canonical h.readable
    have hrest : Plain (.object (members.filter (·.1 ≠ tag))) :=
      plain_object.2 ⟨(List.filter_sublist.map _).nodup hkeys,
        fun m hm => hmembers m (List.mem_of_mem_filter hm)⟩
    rw [hcanonical, tagged?_object h, tagged?_object hplain,
      canonical_filter hkeys hsorted hperm (· ≠ tag), Dict.get?_perm hperm hsorted.nodup_keys,
      Dict.get?_mapValues]
    cases Dict.get? members tag with
    | none => rfl
    | some name =>
      simp only [Option.map_some, Option.bind_some, kindName?_canonical]
      cases kindName? names aside name with
      | none => rfl
      | some kind => exact hf kind _ hrest
  | array items =>
    rw [canonical_array]
    match items with
    | [] => rfl
    | name :: rest =>
      have hrest : Plain (.array rest) :=
        plain_array.2 fun item hitem => plain_array.1 h item (List.mem_cons_of_mem _ hitem)
      have hcanonical : itemsReadable (rest.map canonical) := by
        have hreadable := (plain_canonical hrest.readable).readable
        rwa [canonical_array] at hreadable
      have hreadable : itemsReadable rest := hrest.readable
      rw [List.map_cons, tagged?, tagged?, if_pos hcanonical, if_pos hreadable,
        kindName?_canonical, ← canonical_array]
      cases kindName? names aside name with
      | none => rfl
      | some kind => exact hf kind _ hrest
  | _ => rfl

end Json

end PageCompiler
