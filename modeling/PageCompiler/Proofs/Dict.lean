import Mathlib
import PageCompiler.Dict

/-!
# Facts about sorted tables

A table is `Sorted` when its keys strictly ascend. Filing, merging and filtering keep it so, and two
sorted tables with the same values under all keys are the same table.
-/

namespace PageCompiler

namespace Dict

variable {α β : Type}

/-- The keys of a table strictly ascend. -/
def Sorted (d : Dict α) : Prop := d.Pairwise fun a b => a.1 < b.1

instance (d : Dict α) : Decidable (Sorted d) :=
  inferInstanceAs (Decidable (d.Pairwise fun a b => a.1 < b.1))

/-! ## Entries -/

theorem mem_of_get? {d : Dict α} {key : String} {value : α} (h : get? d key = some value) :
    (key, value) ∈ d := by
  induction d with
  | nil => cases h
  | cons entry rest ih =>
    obtain ⟨k, v⟩ := entry
    rw [get?_cons] at h
    split at h
    · rename_i heq
      cases h
      exact heq ▸ List.mem_cons_self
    · exact List.mem_cons_of_mem _ (ih h)

theorem contains_iff_mem_keys {d : Dict α} {key : String} : contains d key ↔ key ∈ keys d := by
  induction d with
  | nil => simp [contains, keys]
  | cons entry rest ih =>
    obtain ⟨k, v⟩ := entry
    rw [contains, get?_cons]
    by_cases h : key = k
    · simp [h, keys]
    · simpa [h, keys, contains] using ih

theorem mem_keys_of_get? {d : Dict α} {key : String} {value : α} (h : get? d key = some value) :
    key ∈ keys d :=
  contains_iff_mem_keys.1 (Option.isSome_of_eq_some h)

theorem contains_insert (d : Dict α) (key : String) (value : α) (other : String) :
    contains (insert d key value) other ↔ other = key ∨ contains d other := by
  by_cases h : other = key
  · subst h
    simp [contains, get?_insert_self]
  · simp [contains, get?_insert_of_ne d value h, h]

theorem mem_insert {d : Dict α} {key : String} {value : α} {entry : String × α}
    (h : entry ∈ insert d key value) : entry = (key, value) ∨ entry ∈ d := by
  induction d with
  | nil => simpa [insert] using h
  | cons e rest ih =>
    obtain ⟨k, v⟩ := e
    rw [insert] at h
    split at h
    · simpa using h
    · split at h
      · rcases List.mem_cons.1 h with rfl | hrest
        · exact Or.inl rfl
        · exact Or.inr (List.mem_cons_of_mem _ hrest)
      · rcases List.mem_cons.1 h with rfl | hrest
        · exact Or.inr List.mem_cons_self
        · exact (ih hrest).imp_right (List.mem_cons_of_mem _)

theorem get?_erase (d : Dict α) (key other : String) :
    get? (erase d key) other = if other = key then none else get? d other := by
  induction d with
  | nil => simp [erase]
  | cons entry rest ih =>
    obtain ⟨k, v⟩ := entry
    rw [erase, List.filter_cons, ← erase]
    by_cases hk : k = key
    · subst hk
      rw [if_neg (by simp), ih, get?_cons]
      split <;> rfl
    · rw [if_pos (by simpa using hk), get?_cons, get?_cons, ih]
      by_cases hother : other = k
      · rw [if_pos hother, if_neg (hother ▸ hk), if_pos hother]
      · rw [if_neg hother, if_neg hother]

theorem erase_insert_self (d : Dict α) (key : String) (value : α) :
    erase (insert d key value) key = erase d key := by
  induction d with
  | nil => simp [erase, insert]
  | cons entry rest ih =>
    obtain ⟨k, v⟩ := entry
    rw [insert]
    split
    · simp [erase]
    · split
      · rename_i heq
        simp [erase, heq]
      · rw [erase, erase, List.filter_cons, List.filter_cons, ← erase, ← erase, ih]

/-- Changes of the values under different keys can be made at once. -/
theorem foldl_modify {names : List String} (hnames : names.Nodup) (f : α → α) (d : Dict α) :
    names.foldl (fun d name => modify d name f) d =
      d.map fun entry => if entry.1 ∈ names then (entry.1, f entry.2) else entry := by
  induction names generalizing d with
  | nil => simp
  | cons name rest ih =>
    obtain ⟨hname, hrest⟩ := List.nodup_cons.1 hnames
    rw [List.foldl_cons, ih hrest, modify, List.map_map]
    refine List.map_congr_left fun entry _ => ?_
    rw [Function.comp_apply]
    by_cases heq : entry.1 = name
    · have hnot : entry.1 ∉ rest := heq ▸ hname
      simp [heq, hname]
    · simp [heq]

theorem get?_foldl_modify {names : List String} (hnames : names.Nodup) (f : α → α) (d : Dict α)
    (key : String) : get? (names.foldl (fun d name => modify d name f) d) key =
      (get? d key).map fun v => if key ∈ names then f v else v := by
  rw [foldl_modify hnames]
  induction d with
  | nil => rfl
  | cons entry rest ih =>
    obtain ⟨k, v⟩ := entry
    have hentry : (if k ∈ names then (k, f v) else (k, v)) =
        (k, if k ∈ names then f v else v) := by
      split <;> rfl
    rw [List.map_cons, hentry, get?_cons, get?_cons, ih]
    by_cases hkey : key = k
    · rw [if_pos hkey, if_pos hkey, hkey, Option.map_some]
    · rw [if_neg hkey, if_neg hkey]

theorem mem_merge {base later : Dict α} {entry : String × α} (h : entry ∈ merge base later) :
    entry ∈ base ∨ entry ∈ later := by
  induction later generalizing base with
  | nil => exact Or.inl h
  | cons e rest ih =>
    rcases ih h with hbase | hrest
    · rcases mem_insert hbase with rfl | hbase
      · exact Or.inr List.mem_cons_self
      · exact Or.inl hbase
    · exact Or.inr (List.mem_cons_of_mem _ hrest)

/-! ## Order -/

theorem Sorted.insert {d : Dict α} (h : Sorted d) (key : String) (value : α) :
    Sorted (insert d key value) := by
  induction d with
  | nil => simp [Sorted, Dict.insert]
  | cons e rest ih =>
    obtain ⟨k, v⟩ := e
    obtain ⟨hk, hrest⟩ := List.pairwise_cons.1 h
    rw [Dict.insert]
    split
    · rename_i hlt
      refine List.pairwise_cons.2 ⟨fun entry hentry => ?_, h⟩
      rcases List.mem_cons.1 hentry with rfl | hentry
      · exact hlt
      · exact hlt.trans (hk entry hentry)
    · rename_i hnlt
      split
      · rename_i heq
        subst heq
        exact List.pairwise_cons.2 ⟨hk, hrest⟩
      · rename_i hne
        refine List.pairwise_cons.2 ⟨fun entry hentry => ?_, ih hrest⟩
        rcases mem_insert hentry with rfl | hentry
        · exact lt_of_le_of_ne (not_lt.1 hnlt) (Ne.symm hne)
        · exact hk entry hentry

theorem Sorted.merge {base : Dict α} (h : Sorted base) (later : Dict α) :
    Sorted (merge base later) := by
  induction later generalizing base with
  | nil => exact h
  | cons e rest ih => exact ih (h.insert e.1 e.2)

theorem Sorted.filter {d : Dict α} (h : Sorted d) (p : String × α → Bool) : Sorted (d.filter p) :=
  h.sublist List.filter_sublist

theorem sorted_iff {d : Dict α} : Sorted d ↔ (keys d).Pairwise (· < ·) := List.pairwise_map.symm

/-- Being sorted is a matter of the keys. -/
theorem Sorted.of_keys {d : Dict α} {d' : Dict β} (h : Sorted d) (hkeys : keys d' = keys d) :
    Sorted d' := by
  rw [sorted_iff, hkeys]
  exact sorted_iff.1 h

theorem Sorted.nodup_keys {d : Dict α} (h : Sorted d) : (keys d).Nodup :=
  (sorted_iff.1 h).imp fun hlt => hlt.ne

/-! ## Values under keys -/

theorem get?_eq_none_iff {d : Dict α} {key : String} : get? d key = none ↔ key ∉ keys d := by
  rw [← contains_iff_mem_keys, contains, Option.isSome_iff_ne_none, not_not]

theorem Sorted.get?_eq_some_iff {d : Dict α} (h : Sorted d) {key : String} {value : α} :
    get? d key = some value ↔ (key, value) ∈ d := by
  refine ⟨mem_of_get?, fun hmem => ?_⟩
  induction d with
  | nil => cases hmem
  | cons entry rest ih =>
    obtain ⟨k, v⟩ := entry
    obtain ⟨hk, hrest⟩ := List.pairwise_cons.1 h
    rw [get?_cons]
    rcases List.mem_cons.1 hmem with heq | hmem
    · cases heq
      rw [if_pos rfl]
    · rw [if_neg (hk _ hmem).ne', ih hrest hmem]

/-- A table has one entry of a key. -/
theorem Sorted.filter_key {d : Dict α} (h : Sorted d) {key : String} {value : α}
    (hentry : (key, value) ∈ d) : d.filter (·.1 = key) = [(key, value)] := by
  induction d with
  | nil => cases hentry
  | cons entry rest ih =>
    obtain ⟨hlt, hrest⟩ := List.pairwise_cons.1 h
    rcases List.mem_cons.1 hentry with rfl | hentry
    · have hothers : ∀ other ∈ rest, ¬ other.1 = key := fun other hother =>
        ne_of_gt (hlt other hother)
      rw [List.filter_cons_of_pos (by simp), List.filter_eq_nil_iff.2 (by simpa using hothers)]
    · have hne : entry.1 ≠ key := ne_of_lt (hlt _ hentry)
      rw [List.filter_cons_of_neg (by simpa using hne), ih hrest hentry]

theorem Sorted.eq_of_key {d : Dict α} (h : Sorted d) {entry other : String × α}
    (hentry : entry ∈ d) (hother : other ∈ d) (hkey : entry.1 = other.1) : entry = other := by
  refine Prod.ext hkey (Option.some.inj ?_)
  rw [← h.get?_eq_some_iff.2 hentry, ← h.get?_eq_some_iff.2 hother, hkey]

/-- The last entry has the greatest key. -/
theorem Sorted.getLast?_eq_some_iff {d : Dict α} (h : Sorted d) {entry : String × α} :
    d.getLast? = some entry ↔ entry ∈ d ∧ ∀ other ∈ d, ¬ entry.1 < other.1 := by
  cases d using List.reverseRecOn with
  | nil => exact iff_of_false nofun fun hmem => nomatch hmem.1
  | append_singleton front last =>
    have hlast : ∀ other ∈ front, other.1 < last.1 := fun other hother =>
      (List.pairwise_append.1 h).2.2 other hother last List.mem_cons_self
    rw [List.getLast?_concat, Option.some_inj]
    constructor
    · rintro rfl
      refine ⟨List.mem_append_right _ List.mem_cons_self, fun other hother => ?_⟩
      rcases List.mem_append.1 hother with hother | hother
      · exact (hlast other hother).not_gt
      · rw [List.mem_singleton.1 hother]
        exact lt_irrefl _
    · rintro ⟨hentry, hgreatest⟩
      rcases List.mem_append.1 hentry with hentry | hentry
      · exact absurd (hlast entry hentry) (hgreatest last (by simp))
      · exact (List.mem_singleton.1 hentry).symm

/-- **Sorted tables with the same values are the same.** -/
theorem Sorted.ext {d d' : Dict α} (h : Sorted d) (h' : Sorted d')
    (hget : ∀ key, get? d key = get? d' key) : d = d' := by
  have hmem : ∀ entry, entry ∈ d ↔ entry ∈ d' := fun (key, value) => by
    rw [← h.get?_eq_some_iff, ← h'.get?_eq_some_iff, hget]
  have hnodup : d.Nodup := h.imp fun hlt heq => hlt.ne (congrArg Prod.fst heq)
  have hnodup' : d'.Nodup := h'.imp fun hlt heq => hlt.ne (congrArg Prod.fst heq)
  refine ((List.perm_ext_iff_of_nodup hnodup hnodup').2 hmem).eq_of_pairwise ?_ h h'
  exact fun a b _ _ hab hba => absurd hab hba.not_gt

theorem Sorted.get?_filter {d : Dict α} (h : Sorted d) (p : String × α → Bool) (key : String) :
    get? (d.filter p) key = (get? d key).filter fun value => p (key, value) := by
  refine Option.ext fun value => ?_
  rw [(h.filter p).get?_eq_some_iff, List.mem_filter, ← h.get?_eq_some_iff,
    Option.filter_eq_some_iff]

theorem get?_merge (base : Dict α) {later : Dict α} (h : Sorted later) (key : String) :
    get? (merge base later) key = (get? later key).or (get? base key) := by
  induction later generalizing base with
  | nil => rfl
  | cons entry rest ih =>
    obtain ⟨k, v⟩ := entry
    obtain ⟨hk, hrest⟩ := List.pairwise_cons.1 h
    have hmerge : merge base ((k, v) :: rest) = merge (insert base k v) rest := rfl
    rw [hmerge, ih _ hrest, get?_cons]
    by_cases heq : key = k
    · subst heq
      have hnone : get? rest key = none := by
        rw [get?_eq_none_iff]
        rintro hmem
        obtain ⟨entry, hentry, hkey⟩ := List.mem_map.1 hmem
        exact (hk entry hentry).ne' hkey
      rw [hnone, get?_insert_self, if_pos rfl]
      rfl
    · rw [get?_insert_of_ne _ _ heq, if_neg heq]

/-- What is merged decides about its own keys; under the others the value is the one below. -/
theorem get?_merge_congr {base base' : Dict α} (later : Dict α) {key : String}
    (h : key ∈ keys later ∨ get? base key = get? base' key) :
    get? (merge base later) key = get? (merge base' later) key := by
  induction later generalizing base base' with
  | nil => exact h.resolve_left nofun
  | cons entry rest ih =>
    obtain ⟨k, v⟩ := entry
    refine ih ?_
    by_cases heq : key = k
    · subst heq
      exact Or.inr ((get?_insert_self _ _ _).trans (get?_insert_self _ _ _).symm)
    · refine h.imp (fun hmem => ?_) fun hget => ?_
      · exact (List.mem_cons.1 hmem).resolve_left heq
      · rwa [get?_insert_of_ne _ _ heq, get?_insert_of_ne _ _ heq]

/-- An entry of a merged table that comes from the lower one has a key of its own. -/
theorem Sorted.mem_merge {base : Dict α} (h : Sorted base) {later : Dict α} {entry : String × α}
    (hentry : entry ∈ Dict.merge base later) :
    entry ∈ later ∨ entry ∈ base ∧ entry.1 ∉ keys later := by
  induction later generalizing base with
  | nil => exact Or.inr ⟨hentry, List.not_mem_nil⟩
  | cons e rest ih =>
    obtain ⟨k, v⟩ := e
    have hinsert := h.insert k v
    rcases ih hinsert hentry with hrest | ⟨hbase, hnot⟩
    · exact Or.inl (List.mem_cons_of_mem _ hrest)
    · have hget := hinsert.get?_eq_some_iff.2 hbase
      by_cases heq : entry.1 = k
      · rw [heq, get?_insert_self] at hget
        exact Or.inl (List.mem_cons.2 (Or.inl (Prod.ext heq (Option.some.inj hget).symm)))
      · rw [get?_insert_of_ne _ _ heq] at hget
        exact Or.inr ⟨mem_of_get? hget, fun hmem => hnot ((List.mem_cons.1 hmem).resolve_left heq)⟩

/-! ## Parts of a table -/

/-- The entries of some keys. -/
def restrict (p : String → Bool) (d : Dict α) : Dict α := d.filter fun entry => p entry.1

theorem restrict_cons_pos {p : String → Bool} {entry : String × α} (h : p entry.1 = true)
    (rest : Dict α) : restrict p (entry :: rest) = entry :: restrict p rest :=
  List.filter_cons_of_pos h

theorem restrict_cons_neg {p : String → Bool} {entry : String × α} (h : ¬ p entry.1 = true)
    (rest : Dict α) : restrict p (entry :: rest) = restrict p rest :=
  List.filter_cons_of_neg h

theorem Sorted.get?_restrict {d : Dict α} (h : Sorted d) {p : String → Bool} {key : String}
    (hkey : p key = true) : get? (restrict p d) key = get? d key := by
  rw [restrict, h.get?_filter]
  cases get? d key with
  | none => rfl
  | some value => rw [Option.filter_some, if_pos hkey]

/-- Sorted tables with the same values under some keys have the same entries for them. -/
theorem Sorted.restrict_eq {d d' : Dict α} (h : Sorted d) (h' : Sorted d') {p : String → Bool}
    (hget : ∀ key, p key = true → get? d key = get? d' key) : restrict p d = restrict p d' := by
  refine (h.filter _).ext (h'.filter _) fun key => ?_
  by_cases hkey : p key = true
  · exact (h.get?_restrict hkey).trans ((hget key hkey).trans (h'.get?_restrict hkey).symm)
  · have hnone : ∀ {d : Dict α}, Sorted d → get? (restrict p d) key = none := by
      intro d hd
      rw [restrict, hd.get?_filter]
      simp [hkey]
    exact (hnone h).trans (hnone h').symm

/-! ## Groups -/

section Gather

variable {γ : Type} (key : γ → String) (add : β → γ → β) (init : β)

/-- File things one after the other, those of one key together. -/
def gather (things : List γ) : Dict β :=
  things.foldl (fun groups x =>
    insert groups (key x) (add ((get? groups (key x)).getD init) x)) []

theorem gather_concat (things : List γ) (x : γ) : gather key add init (things ++ [x]) =
    insert (gather key add init things) (key x)
      (add ((get? (gather key add init things) (key x)).getD init) x) := by
  rw [gather, List.foldl_append]
  rfl

theorem sorted_gather (things : List γ) : Sorted (gather key add init things) := by
  induction things using List.reverseRecOn with
  | nil => exact .nil
  | append_singleton things x ih =>
    rw [gather_concat]
    exact ih.insert _ _

/-- **A group** is made of the things of its key, in their order. -/
theorem get?_gather (things : List γ) (k : String) :
    get? (gather key add init things) k =
      if things.filter (key · = k) = [] then none
      else some ((things.filter (key · = k)).foldl add init) := by
  induction things using List.reverseRecOn with
  | nil => rfl
  | append_singleton things x ih =>
    rw [gather_concat, List.filter_append]
    by_cases hk : key x = k
    · subst hk
      rw [get?_insert_self, ih, List.filter_cons_of_pos (by simp), List.filter_nil]
      rcases things.filter (key · = key x) with _ | ⟨y, group⟩
      · rfl
      · simp
    · rw [get?_insert_of_ne _ _ (Ne.symm hk), ih, List.filter_cons_of_neg (by simpa using hk),
        List.filter_nil, List.append_nil]

end Gather

end Dict

end PageCompiler
