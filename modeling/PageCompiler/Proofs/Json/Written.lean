import PageCompiler.Json.Record
import PageCompiler.Proofs.Json.Steady

/-!
# Reading what was written

A value `Fits` what a reader makes of it: it is plain, and it reads as that thing. What is written
for a record fits when its members do.

* `Members`: the members that are written for the names of a record, each at most once.
* `fits_record`, `fits_variant`, `fits_tagged`: records and variants that were written.
* `fits_items`, `fits_table`: lists, and tables in order.
-/

namespace PageCompiler

namespace Json

variable {α : Type} {read : Json → Option α}

/-- A plain value reads as something. -/
structure Fits (read : Json → Option α) (j : Json) (x : α) : Prop where
  plain : j.Plain
  reads : read j = some x

theorem plain_string (s : String) : Plain (.string s) := ⟨trivial, rfl⟩

theorem plain_bool (b : Bool) : Plain (.bool b) := ⟨trivial, rfl⟩

theorem plain_number (n : Number) : Plain (.number n) := ⟨trivial, rfl⟩

theorem fits_string (s : String) : Fits asString? (.string s) s := ⟨plain_string s, rfl⟩

theorem fits_bool (b : Bool) : Fits asBool? (.bool b) b := ⟨plain_bool b, rfl⟩

/-! ## Depth -/

theorem depth_lt_of_mem {members : List (String × Json)} {m : String × Json} (h : m ∈ members) :
    m.2.depth < depth (.object members) := by
  rw [depth_object]
  have hle : ∀ l : List ℕ, ∀ n ∈ l, n ≤ l.foldr max 0 := by
    intro l n hn
    induction l with
    | nil => cases hn
    | cons k rest ih =>
      rw [List.foldr_cons]
      rcases List.mem_cons.1 hn with rfl | hn
      · exact le_max_left _ _
      · exact (ih hn).trans (le_max_right _ _)
  exact Nat.lt_succ_of_le (hle _ _ (List.mem_map_of_mem h))

theorem depth_lt_of_lookup {members : List (String × Json)} {name : String} {value : Json}
    (h : members.lookup name = some value) : value.depth < depth (.object members) :=
  depth_lt_of_mem (Dict.mem_of_get? h)

theorem depth_lt_of_mem_items {items : List Json} {item : Json} (h : item ∈ items) :
    item.depth < depth (.array items) := by
  have hobject := depth_lt_of_mem (m := ("", item))
    (List.mem_map_of_mem (f := fun item => ("", item)) h)
  rw [depth_object, List.map_map] at hobject
  rw [depth_array]
  exact hobject

/-! ## Lists and tables -/

theorem fits_items {write : α → Json} {l : List α} (h : ∀ x ∈ l, Fits read (write x) x) :
    Fits (items? read) (.array (l.map write)) l := by
  refine ⟨plain_array.2 (List.forall_mem_map.2 fun x hx => (h x hx).plain), ?_⟩
  refine mapM_option_of_forall₂ ?_
  rw [List.forall₂_map_left_iff]
  exact List.forall₂_same.2 fun x hx => (h x hx).reads

theorem fits_table {write : α → Json} {d : Dict α} (hsorted : Dict.Sorted d)
    (h : ∀ entry ∈ d, Fits read (write entry.2) entry.2) :
    Fits (table? read) (.object (Dict.mapValues write d)) d := by
  have hkeys : (Dict.keys (Dict.mapValues write d)).Nodup :=
    Dict.nodup_keys_mapValues write hsorted.nodup_keys
  have hplain : ∀ m ∈ Dict.mapValues write d, m.2.Plain :=
    List.forall_mem_map.2 fun entry hentry => (h entry hentry).plain
  refine ⟨plain_object.2 ⟨hkeys, hplain⟩, ?_⟩
  have hentries : (Dict.mapValues write d).mapM (readMember read) = some d := by
    refine mapM_option_of_forall₂ ?_
    rw [Dict.mapValues, List.forall₂_map_left_iff]
    exact List.forall₂_same.2 fun entry hentry =>
      readMember_eq_some.2 ⟨rfl, (h entry hentry).reads⟩
  rw [table?_object, hentries, Option.map_some, hsorted.ofList_eq]

/-! ## Records -/

/-- Members that are written for the names of a record. -/
structure Members (names : List String) (members : List (String × Json)) : Prop where
  keys : List.Sublist (Dict.keys members) names
  plain : ∀ m ∈ members, m.2.Plain

namespace Members

variable {names names' : List String} {members members' : List (String × Json)} {name : String}

theorem append (h : Members names members) (h' : Members names' members') :
    Members (names ++ names') (members ++ members') where
  keys := by
    rw [Dict.keys, List.map_append]
    exact h.keys.append h'.keys
  plain := List.forall_mem_append.2 ⟨h.plain, h'.plain⟩

theorem single {value : Json} (h : value.Plain) : Members [name] [(name, value)] where
  keys := .refl _
  plain := List.forall_mem_singleton.2 h

theorem none : Members [name] [] where
  keys := List.nil_sublist _
  plain := List.forall_mem_nil _

theorem field {value : Json} (h : value.Plain) : Members [name] (field name value) := single h

theorem field? {write : α → Json} {x : Option α} (h : ∀ y ∈ x, (write y).Plain) :
    Members [name] (field? name write x) := by
  cases x with
  | none => exact none
  | some y => exact single (h y rfl)

theorem text? {x : Option String} : Members [name] (Json.field? name .string x) :=
  field? fun y _ => plain_string y

theorem flag {b : Bool} : Members [name] (flag name b) := by
  cases b with
  | false => exact none
  | true => exact single (plain_bool true)

theorem fieldItems {items : List Json} (h : Plain (.array items)) :
    Members [name] (fieldItems name items) := by
  rw [Json.fieldItems]
  split
  · exact none
  · exact single h

theorem fieldTable {members : List (String × Json)} (h : Plain (.object members)) :
    Members [name] (fieldTable name members) := by
  rw [Json.fieldTable]
  split
  · exact none
  · exact single h

theorem plain_object (h : Members names members) (hnames : names.Nodup) :
    Plain (.object members) :=
  Json.plain_object.2 ⟨h.keys.nodup hnames, h.plain⟩

end Members

/-- The members of a record that was written. -/
theorem record?_written {names : List String} {members : List (String × Json)}
    (hnames : names.Nodup) (h : Members names members) :
    record? names (.object members) = some members := by
  have hknown : members.filter (fun m => names.contains m.1) = members := by
    refine List.filter_eq_self.2 fun m hm => ?_
    exact List.contains_iff_mem.2 (h.keys.subset (List.mem_map_of_mem hm))
  rw [record?_object (h.keys.nodup hnames), hknown]

/-- **A record that was written is read** when its members are. -/
theorem fits_record {names : List String} {members : List (String × Json)}
    {f : List (String × Json) → Option α} {x : α} (hnames : names.Nodup)
    (h : Members names members) (hread : f members = some x) :
    Fits (fun j => (record? names j).bind f) (.object members) x := by
  refine ⟨h.plain_object hnames, ?_⟩
  rw [record?_written hnames h]
  exact hread

/-! ### Members by their names -/

section Lookup

variable (name key : String)

@[simp] theorem lookup_field (value : Json) :
    (field name value).lookup key = if key = name then some value else none :=
  Dict.get?_cons name value [] key

@[simp] theorem lookup_field? (write : α → Json) (x : Option α) :
    (field? name write x).lookup key = if key = name then x.map write else none := by
  cases x with
  | none => simp [field?]
  | some y => exact lookup_field name key (write y)

@[simp] theorem lookup_flag (b : Bool) :
    (flag name b).lookup key = if key = name ∧ b then some (.bool true) else none := by
  cases b with
  | false => simp [flag]
  | true => exact (lookup_field name key (.bool true)).trans (by simp)

@[simp] theorem lookup_fieldItems (items : List Json) :
    (fieldItems name items).lookup key
      = if key = name ∧ items ≠ [] then some (.array items) else none := by
  cases items with
  | nil => simp [fieldItems]
  | cons item rest => exact (lookup_field name key (.array (item :: rest))).trans (by simp)

@[simp] theorem lookup_fieldTable (members : List (String × Json)) :
    (fieldTable name members).lookup key
      = if key = name ∧ members ≠ [] then some (.object members) else none := by
  cases members with
  | nil => simp [fieldTable]
  | cons m rest => exact (lookup_field name key (.object (m :: rest))).trans (by simp)

end Lookup

section Parts

variable {members : List (String × Json)} {name : String}

theorem required_written {j : Json} {x : α} (hread : Fits read j x)
    (h : members.lookup name = some j) :
    required members name read = some x := by
  rw [required, h]
  exact hread.reads

theorem absent_written
    (h : members.lookup name = none) :
    optional members name read = some none := by
  rw [Json.optional, h]

theorem given_written {j : Json} {y : α} (hread : Fits read j y) (hnull : j ≠ .null)
    (h : members.lookup name = some j) :
    optional members name read = some (some y) := by
  rw [Json.optional, h]
  have hy := congrArg (Option.map some) hread.reads
  cases j with
  | null => exact absurd rfl hnull
  | _ => exact hy

theorem optional_written {write : α → Json} (x : Option α)
    (hread : ∀ y ∈ x, Fits read (write y) y) (hnull : ∀ y ∈ x, write y ≠ .null)
    (h : members.lookup name = x.map write) :
    optional members name read = some x := by
  cases x with
  | none => exact absent_written h
  | some y => exact given_written (hread y rfl) (hnull y rfl) h

theorem text_written (x : Option String)
    (h : members.lookup name = x.map .string) :
    optional members name asString? = some x :=
  optional_written x (fun s _ => fits_string s) (fun _ _ => nofun) h

theorem present_written {j : Json} {x default : α} (hread : Fits read j x)
    (h : members.lookup name = some j) :
    defaulted members name default read = some x := by
  rw [defaulted, h]
  exact hread.reads

/-- A member that is left out stands for the default. -/
theorem defaulted_written {p : Prop} [Decidable p] {j : Json} {x default : α}
    (h : members.lookup name = if p then some j else none) (hread : p → read j = some x)
    (hdefault : ¬ p → x = default) : defaulted members name default read = some x := by
  rw [defaulted, h]
  by_cases hp : p
  · rw [if_pos hp]
    exact hread hp
  · rw [if_neg hp, hdefault hp]

theorem flag_written (b : Bool)
    (h : members.lookup name = if b then some (.bool true) else none) :
    defaulted members name false asBool? = some b := by
  refine defaulted_written h ?_ ?_ <;> cases b <;> simp [asBool?]

theorem items_written {write : α → Json} {l : List α}
    (hread : Fits (items? read) (.array (l.map write)) l)
    (h : members.lookup name = if l.map write ≠ [] then some (.array (l.map write)) else none) :
    defaulted members name [] (items? read) = some l :=
  defaulted_written h (fun _ => hread.reads) fun hnil => List.map_eq_nil_iff.1 (not_not.1 hnil)

theorem table_written {write : α → Json} {d : Dict α}
    (hread : Fits (table? read) (.object (Dict.mapValues write d)) d)
    (h : members.lookup name
        = if Dict.mapValues write d ≠ [] then some (.object (Dict.mapValues write d)) else none) :
    defaulted members name [] (table? read) = some d :=
  defaulted_written h (fun _ => hread.reads) fun hnil => List.map_eq_nil_iff.1 (not_not.1 hnil)

end Parts

/-- A step of reading that gives its part, and the steps after it. -/
theorem bind_written {β : Type} {x : Option α} {f : α → Option β} {a : α} {b : β}
    (hx : x = some a) (hf : f a = some b) : x.bind f = some b :=
  Option.bind_eq_some_iff.2 ⟨a, hx, hf⟩

/-! ## Variants and tagged records -/

section Variants

variable {names : List String} {kind : String} {content : Json}

theorem plain_variant (h : content.Plain) : (variant kind content).Plain :=
  plain_object.2 ⟨by simp [Dict.keys], by simpa [plain_string] using h⟩

theorem depth_variant (kind : String) (content : Json) :
    (variant kind content).depth = content.depth + 1 := by
  simp [variant, depth, membersDepth]

/-- **A variant that was written is read.** -/
theorem fits_variant {aside : Bool} {f : String × Json × Bool → Option α} {x : α}
    (hkind : names.contains kind) (hcontent : content.Plain)
    (hread : f (kind, content, aside) = some x) :
    Fits (fun j => (variant? names aside j).bind f) (variant kind content) x := by
  refine ⟨plain_variant hcontent, ?_⟩
  have hvariant : variant? names aside (variant kind content)
      = (word? names (.string kind)).bind fun name => some (name, content, aside) := rfl
  rw [hvariant, word?, if_pos hkind]
  exact hread

/-- The canonical form of a variant has its content first, so it is set aside. -/
theorem variant?_canonical (aside : Bool) :
    variant? names aside (variant kind content).canonical
      = variant? names true (variant kind content).canonical := by
  have hcanonical : (variant kind content).canonical
      = .object [("content", content.canonical), ("type", .string kind)] := by
    have hlt : "content" < "type" := by decide
    rw [variant, canonical_object]
    simp [Dict.ofList, Dict.mapValues, Dict.insert, hlt, canonical]
  rw [hcanonical]
  rfl

/-- **A tagged record that was written is read.** -/
theorem fits_tagged {tag : String} {aside : Bool} {parts : List String}
    {rest : List (String × Json)} {f : String × Json → Option α} {x : α}
    (hkind : names.contains kind) (hparts : (tag :: parts).Nodup) (h : Members parts rest)
    (hread : f (kind, .object rest) = some x) :
    Fits (fun j => (tagged? tag names aside j).bind f) (.object ((tag, .string kind) :: rest))
      x := by
  have hobject : Plain (.object ((tag, .string kind) :: rest)) :=
    (Members.append (.single (plain_string kind)) h).plain_object hparts
  have hrest : ((tag, Json.string kind) :: rest).filter (·.1 ≠ tag) = rest := by
    rw [List.filter_cons_of_neg (by simp), List.filter_eq_self]
    intro m hm
    refine decide_eq_true fun heq => (List.nodup_cons.1 hparts).1 ?_
    exact heq ▸ h.keys.subset (List.mem_map_of_mem hm)
  refine ⟨hobject, ?_⟩
  rw [tagged?_object hobject, hrest, Dict.get?_cons, if_pos rfl, Option.bind_some, kindName?,
    if_pos hkind]
  exact hread

end Variants

end Json

end PageCompiler
