import PageCompiler.Proofs.Text.Ways

/-!
# Relative paths

Behind the path it is relative to, a relative path leads to its target. It climbs to the longest
common beginning of the two places and goes down from there. No way between the two places climbs
less, because a way keeps all the names that it has no dots for.

* `take_prefix_walk`: what a way keeps of the place where it begins.
* `walk_relativePath`: where a relative path leads, and how it gets there.
-/

namespace PageCompiler

/-! ## How far a way climbs -/

/-- What two places both begin with is no longer than their common parts. -/
theorem length_le_commonParts {front source target : List String} (hsource : front <+: source)
    (htarget : front <+: target) : front.length ≤ commonParts source target := by
  induction front generalizing source target with
  | nil => exact Nat.zero_le _
  | cons name front ih =>
    obtain ⟨source, rfl⟩ := hsource
    obtain ⟨target, rfl⟩ := htarget
    rw [List.cons_append, List.cons_append, commonParts, if_pos rfl, List.length_cons]
    exact Nat.succ_le_succ (ih (List.prefix_append _ _) (List.prefix_append _ _))

/-- **A way keeps every name that it has no dots for.** -/
theorem take_prefix_walk (place parts : List String) :
    place.take (place.length - parts.count "..") <+: walk place parts := by
  -- along the way, from any place: two dots take one name off, every other part takes none
  induction parts generalizing place with
  | nil => exact List.take_prefix _ _
  | cons part rest ih =>
    have ih := ih (walkStep place part)
    rw [walk, List.foldl_cons]
    refine List.IsPrefix.trans ?_ ih
    by_cases hup : part = ".."
    · have hstep : walkStep place part = place.take (place.length - 1) := by
        rw [walkStep, if_neg (by simp [hup]), if_pos hup, List.dropLast_eq_take]
      have hcount : (part :: rest).count ".." = rest.count ".." + 1 := by
        rw [hup, List.count_cons_self]
      rw [hstep, hcount, List.take_take, List.length_take]
      exact List.take_prefix_take_left (by omega)
    · have hcount : (part :: rest).count ".." = rest.count ".." := List.count_cons_of_ne hup
      rw [hcount]
      by_cases hstay : part = "."
      · rw [walkStep, if_pos hstay]
      · rw [walkStep_of_ne hstay hup, List.length_append, List.length_singleton]
        have hkept : place.take (place.length - rest.count "..") =
            (place ++ [part]).take (place.length - rest.count "..") :=
          (List.take_append_of_le_length (Nat.sub_le _ _)).symm
        rw [hkept]
        exact List.take_prefix_take_left (by omega)

/-- **No way between two places climbs less than up to their common parts.** -/
theorem length_le_count_add_commonParts {source target way : List String}
    (h : walk source way = target) :
    source.length ≤ way.count ".." + commonParts source target := by
  have hkept : source.take (source.length - way.count "..") <+: target :=
    h ▸ take_prefix_walk source way
  have hcommon := length_le_commonParts (List.take_prefix _ _) hkept
  rw [List.length_take] at hcommon
  omega

/-! ## Where a relative path leads -/

/-- **A relative path leads from its source to its target.** Behind its source it is a path to its
target. It climbs to the longest common beginning of both, then it goes down from there by names,
and no other way between the two places climbs less. -/
theorem walk_relativePath {source target : String}
    (hsource : ∀ s ∈ pathParts source, s ≠ "." ∧ s ≠ "..")
    (htarget : ∀ s ∈ pathParts target, s ≠ "." ∧ s ≠ "..") :
    walk [] (pathParts (source ++ "/" ++ relativePath source target)) = pathParts target ∧
    ∃ common up down, pathParts source = common ++ up ∧ pathParts target = common ++ down ∧
      (∀ front, front <+: pathParts source → front <+: pathParts target → front <+: common) ∧
      relativePath source target = "/".intercalate (List.replicate up.length ".." ++ down) ∧
      pathParts (relativePath source target) = List.replicate up.length ".." ++ down ∧
      ".." ∉ down ∧
      ∀ way, walk (pathParts source) way = pathParts target → up.length ≤ way.count ".." := by
  have hparts : pathParts (relativePath source target) =
      wayParts (pathParts source) (pathParts target) := by
    refine pathParts_join fun s hs => ?_
    rcases mem_wayParts hs with rfl | hs
    · decide
    · exact of_mem_pathParts hs
  constructor
  · rw [pathParts_append, walk_append, walk_down hsource, List.nil_append, hparts]
    exact walk_wayParts _ htarget
  obtain ⟨common, up, down, hup, hdown, hcommon⟩ :=
    exists_of_commonParts (pathParts source) (pathParts target)
  have hway : wayParts (pathParts source) (pathParts target) =
      List.replicate up.length ".." ++ down := by
    rw [wayParts, hcommon, hup, hdown, List.drop_left, List.length_append, Nat.add_sub_cancel_left]
  refine ⟨common, up, down, hup, hdown, fun front hfront hfront' => ?_, ?_, hparts.trans hway, ?_,
    fun way hleads => ?_⟩
  · have hlength := length_le_commonParts hfront hfront'
    rw [hcommon] at hlength
    exact List.prefix_of_prefix_length_le hfront ⟨up, hup.symm⟩ hlength
  · rw [relativePath, hway]
  · intro hdots
    exact (htarget ".." (hdown ▸ List.mem_append_right _ hdots)).2 rfl
  · have hlength := length_le_count_add_commonParts hleads
    rw [hcommon, hup, List.length_append] at hlength
    omega

/-- From `/a/b` to `/a/index`: one step up, then down to the page. -/
theorem walk_relativePath_index :
    walk [] (pathParts ("/a/b" ++ "/" ++ relativePath "/a/b" "/a/index")) = ["a", "index"] ∧
    relativePath "/a/b" "/a/index" = "../index" :=
  ⟨(walk_relativePath (by decide) (by decide)).1, by decide⟩

end PageCompiler
