import Mathlib.Data.List.Forall2
import Mathlib.Data.List.TakeWhile
import PageCompiler.Resolve.Component

/-!
# Styles in the order of a sheet

Resolving style sets does two things. It puts the conditions of styles into the order of a style
sheet (`InSheetOrder`): those for states first, as they were, then those for widths from wide to
narrow, with those for one width as they were. And it places the addresses in style values, where an
address is the whole of `url(…)`; all other characters of a value stay (`UrlsPlaced`).

* `inSheetOrder_sortByWidth`, `sortByWidth_sortByWidth`: what sorting does.
* `Assets.urlsPlaced_placeUrls`: what placing addresses does to a text.
* `resolveStyleSets_sorts`: both, for the style sets of a component.
-/

namespace PageCompiler

/-! ## The order -/

section Order

variable {α : Type} (width? : α → Option Binary64)

/-- A condition that asks for a width of some value. -/
def asksFor (units : Int) (c : α) : Bool := (width? c).any (·.units = units)

/-- Conditions in the order of a style sheet: the conditions there were, those for states first, in
their order, then those for widths, from wide to narrow and those for one width in their order. -/
structure InSheetOrder (conditions sorted : List α) : Prop where
  perm : sorted.Perm conditions
  split : ∃ screens, sorted = conditions.filter (fun c => (width? c).isNone) ++ screens ∧
    (∀ c ∈ screens, (width? c).isSome) ∧
    screens.Pairwise fun a b => ∀ wa ∈ width? a, ∀ wb ∈ width? b, wb.units ≤ wa.units
  stable : ∀ units, sorted.filter (asksFor width? units) = conditions.filter (asksFor width? units)

/-- The value of the width that a condition asks for; zero if it asks for none. -/
def widthUnits (c : α) : Int := ((width? c).map (·.units)).getD 0

/-- At least as wide, with a value for every condition. -/
def isAsWide (a b : α) : Bool := widthUnits width? b ≤ widthUnits width? a

variable {width?}

theorem isAsWide_trans {a b c : α} (hab : isAsWide width? a b) (hbc : isAsWide width? b c) :
    isAsWide width? a c := by
  simp only [isAsWide, decide_eq_true_eq] at *
  omega

theorem isAsWide_total (a b : α) : isAsWide width? a b || isAsWide width? b a := by
  simp only [isAsWide, Bool.or_eq_true, decide_eq_true_eq]
  omega

/-- Among conditions for widths both comparisons are the same. -/
theorem atLeastAsWide_eq {a b : α} (ha : (width? a).isSome) (hb : (width? b).isSome) :
    atLeastAsWide width? a b = isAsWide width? a b := by
  obtain ⟨wa, hwa⟩ := Option.isSome_iff_exists.1 ha
  obtain ⟨wb, hwb⟩ := Option.isSome_iff_exists.1 hb
  rw [atLeastAsWide, isAsWide, widthUnits, widthUnits, hwa, hwb, Bool.eq_iff_iff]
  simp [Binary64.lt]

/-- The conditions for widths, sorted. -/
def sortedScreens (width? : α → Option Binary64) (conditions : List α) : List α :=
  (conditions.filter fun c => (width? c).isSome).mergeSort (isAsWide width?)

theorem sortByWidth_eq (conditions : List α) : sortByWidth width? conditions
    = conditions.filter (fun c => (width? c).isNone) ++ sortedScreens width? conditions := by
  have hsame : ∀ a ∈ conditions.filter fun c => (width? c).isSome,
      ∀ b ∈ conditions.filter fun c => (width? c).isSome,
        atLeastAsWide width? a b = isAsWide width? a b := fun a ha b hb =>
    atLeastAsWide_eq (List.mem_filter.1 ha).2 (List.mem_filter.1 hb).2
  have hsorted := List.map_mergeSort (f := id) hsame
  rw [sortByWidth, sortedScreens, ← List.map_id (List.mergeSort _ (atLeastAsWide width?)), hsorted,
    List.map_id]

theorem isSome_of_mem_sortedScreens {conditions : List α} {c : α}
    (h : c ∈ sortedScreens width? conditions) : (width? c).isSome :=
  (List.mem_filter.1 ((List.mergeSort_perm _ _).mem_iff.1 h)).2

theorem sortedScreens_pairwise (conditions : List α) :
    (sortedScreens width? conditions).Pairwise fun a b => isAsWide width? a b :=
  List.pairwise_mergeSort (fun _ _ _ => isAsWide_trans) isAsWide_total _

theorem sortByWidth_perm (conditions : List α) :
    (sortByWidth width? conditions).Perm conditions := by
  rw [sortByWidth_eq]
  refine ((List.mergeSort_perm _ _).append_left _).trans ?_
  have hsplit := List.filter_append_perm (fun c => (width? c).isNone) conditions
  simpa only [Option.not_isNone] using hsplit

/-- Sorting leaves the conditions for one width in their order. -/
theorem filter_sortedScreens (units : Int) (conditions : List α) :
    (sortedScreens width? conditions).filter (asksFor width? units)
      = conditions.filter (asksFor width? units) := by
  have hscreens : (conditions.filter fun c => (width? c).isSome).filter (asksFor width? units)
      = conditions.filter (asksFor width? units) := by
    rw [List.filter_filter]
    refine List.filter_congr fun c _ => ?_
    cases hwidth : width? c <;> simp [asksFor, hwidth]
  have hequal : (conditions.filter (asksFor width? units)).Pairwise fun a b =>
      isAsWide width? a b := by
    refine List.pairwise_of_forall_mem_list fun a ha b hb => ?_
    obtain ⟨wa, hwa, ha⟩ := (Option.any_eq_true _ _).1 (List.mem_filter.1 ha).2
    obtain ⟨wb, hwb, hb⟩ := (Option.any_eq_true _ _).1 (List.mem_filter.1 hb).2
    simp_all [isAsWide, widthUnits]
  have hsublist : (conditions.filter (asksFor width? units)).Sublist
      (sortedScreens width? conditions) :=
    List.sublist_mergeSort (fun _ _ _ => isAsWide_trans) isAsWide_total hequal
      (hscreens ▸ List.filter_sublist)
  have hfilter := hsublist.filter (asksFor width? units)
  simp only [List.filter_filter, Bool.and_self] at hfilter
  refine (hfilter.eq_of_length ?_).symm
  rw [← hscreens]
  exact ((List.mergeSort_perm _ _).filter _).length_eq.symm

/-- **Sorting puts conditions into the order of a style sheet.** -/
theorem inSheetOrder_sortByWidth (conditions : List α) :
    InSheetOrder width? conditions (sortByWidth width? conditions) where
  perm := sortByWidth_perm conditions
  split := by
    refine ⟨_, sortByWidth_eq conditions, fun c => isSome_of_mem_sortedScreens, ?_⟩
    refine (sortedScreens_pairwise conditions).imp fun {a b} h wa hwa wb hwb => ?_
    rw [isAsWide, widthUnits, widthUnits, Option.mem_def.1 hwa, Option.mem_def.1 hwb] at h
    simpa using h
  stable units := by
    have hstates : (conditions.filter fun c => (width? c).isNone).filter (asksFor width? units)
        = [] := by
      rw [List.filter_eq_nil_iff]
      intro c hc
      have hnone := Option.isNone_iff_eq_none.1 (List.mem_filter.1 hc).2
      simp [asksFor, hnone]
    rw [sortByWidth_eq, List.filter_append, hstates, filter_sortedScreens, List.nil_append]

/-- **Conditions that are sorted stay as they are.** -/
theorem sortByWidth_sortByWidth (conditions : List α) :
    sortByWidth width? (sortByWidth width? conditions) = sortByWidth width? conditions := by
  have hsome : ∀ c ∈ sortedScreens width? conditions, (width? c).isSome :=
    fun _ => isSome_of_mem_sortedScreens
  have hstates : (sortByWidth width? conditions).filter (fun c => (width? c).isNone)
      = conditions.filter fun c => (width? c).isNone := by
    rw [sortByWidth_eq, List.filter_append, List.filter_filter,
      (List.filter_eq_nil_iff (l := sortedScreens width? conditions)).2, List.append_nil]
    · simp
    · intro c hc
      simpa using Option.isSome_iff_ne_none.1 (hsome c hc)
  have hscreens : (sortByWidth width? conditions).filter (fun c => (width? c).isSome)
      = sortedScreens width? conditions := by
    rw [sortByWidth_eq, List.filter_append, List.filter_eq_self.2 hsome, List.filter_filter,
      List.filter_eq_nil_iff.2, List.nil_append]
    intro c _
    cases width? c <;> simp
  rw [sortByWidth_eq (sortByWidth width? conditions), sortedScreens, hstates, hscreens,
    List.mergeSort_of_pairwise (sortedScreens_pairwise conditions), sortByWidth_eq]

end Order

/-! ## Addresses -/

/-- A quote, or none. -/
def IsQuoting (cs : List Char) : Prop := cs = [] ∨ ∃ q, Assets.isQuote q ∧ cs = [q]

/-- The characters from the path of an address on: the path, which has neither quotes nor closing
brackets in it, a quote or none, white space, and the bracket. -/
structure EndsUrl (text path : List Char) : Prop where
  nonempty : path ≠ []
  plain : ∀ c ∈ path, ¬ Assets.isQuote c ∧ c ≠ ')'
  split : ∃ quote blanks, text = path ++ quote ++ blanks ++ [')'] ∧ IsQuoting quote ∧
    ∀ c ∈ blanks, isBlankChar c

/-- An address in a style value: `url(`, white space, a quote or none, and the path. -/
def IsUrl (text quote path : List Char) : Prop :=
  ∃ blanks ending, text = ['u', 'r', 'l', '('] ++ blanks ++ quote ++ ending ∧
    (∀ c ∈ blanks, isBlankChar c) ∧ IsQuoting quote ∧ EndsUrl ending path

/-- A text in which some addresses were placed: it is the same everywhere else. The quote before a
placed path stands behind it as well, and there is no white space around it. -/
inductive UrlsPlaced (assets : Assets) : List Char → List Char → Prop where
  | nil : UrlsPlaced assets [] []
  | keep (c : Char) {cs cs' : List Char} (rest : UrlsPlaced assets cs cs') :
      UrlsPlaced assets (c :: cs) (c :: cs')
  | url {text quote path cs cs' : List Char} (url : IsUrl text quote path)
      (rest : UrlsPlaced assets cs cs') : UrlsPlaced assets (text ++ cs)
        (['u', 'r', 'l', '('] ++ quote ++ (assets.place (String.ofList path)).toList ++ quote
          ++ [')'] ++ cs')

theorem UrlsPlaced.refl (assets : Assets) (cs : List Char) : UrlsPlaced assets cs cs := by
  induction cs with
  | nil => exact .nil
  | cons c rest ih => exact .keep c ih

namespace Assets

/-- What a closing is taken off. -/
theorem exists_of_closing? {cs after : List Char} (h : closing? cs = some after) :
    ∃ quote blanks, cs = quote ++ blanks ++ ')' :: after ∧ IsQuoting quote ∧
      ∀ c ∈ blanks, isBlankChar c := by
  unfold closing? at h
  extract_lets rest at h
  have hquote : ∃ quote, cs = quote ++ rest ∧ IsQuoting quote := by
    cases cs with
    | nil => exact ⟨[], rfl, .inl rfl⟩
    | cons q more =>
      by_cases hq : isQuote q
      · exact ⟨[q], by simp [rest, hq], .inr ⟨q, hq, rfl⟩⟩
      · exact ⟨[], by simp [rest, hq], .inl rfl⟩
  obtain ⟨quote, hcs, hquote⟩ := hquote
  split at h
  · rename_i hdrop
    cases h
    refine ⟨quote, rest.takeWhile isBlankChar, ?_, hquote, fun c hc => List.mem_takeWhile_imp hc⟩
    rw [hcs, List.append_assoc, ← hdrop, List.takeWhile_append_dropWhile]
  · cases h

/-- What a path is taken off. -/
theorem exists_of_pathBody? {cs path after : List Char} (h : pathBody? cs = some (path, after)) :
    ∃ ending, cs = ending ++ after ∧ EndsUrl ending path := by
  rw [pathBody?] at h
  split at h
  · cases h
  · rename_i hnonempty
    obtain ⟨rest, hclosing, heq⟩ := Option.bind_eq_some_iff.1 h
    cases heq
    obtain ⟨quote, blanks, hdrop, hquote, hblanks⟩ := exists_of_closing? hclosing
    refine ⟨_ ++ quote ++ blanks ++ [')'], ?_, by simpa using hnonempty, fun c hc => ?_, quote,
      blanks, rfl, hquote, hblanks⟩
    · rw [List.append_assoc, List.append_assoc, List.append_assoc, List.singleton_append,
        ← List.append_assoc quote, ← hdrop, List.takeWhile_append_dropWhile]
    · simpa using List.mem_takeWhile_imp hc

/-- What an address is taken off. -/
theorem exists_of_urlBody? {cs quote path after : List Char}
    (h : urlBody? cs = some (quote, path, after)) :
    ∃ text, ['u', 'r', 'l', '('] ++ cs = text ++ after ∧ IsUrl text quote path := by
  -- an opening quote or none, and a path behind it
  have hopened : ∀ blanks rest, cs = blanks ++ rest → (∀ c ∈ blanks, isBlankChar c) →
      (∃ ending, rest = quote ++ ending ++ after ∧ IsQuoting quote ∧ EndsUrl ending path) →
      ∃ text, ['u', 'r', 'l', '('] ++ cs = text ++ after ∧ IsUrl text quote path := by
    rintro blanks _ rfl hblanks ⟨ending, rfl, hquote, hending⟩
    exact ⟨_, by simp only [List.append_assoc], blanks, ending, rfl, hblanks, hquote, hending⟩
  have hblanks : ∀ c ∈ cs.takeWhile isBlankChar, isBlankChar c := fun c hc =>
    List.mem_takeWhile_imp hc
  have hsplit := (List.takeWhile_append_dropWhile (p := isBlankChar) (l := cs)).symm
  unfold urlBody? at h
  dsimp only at h
  split at h
  · rename_i found hfound
    cases h
    refine hopened _ _ hsplit hblanks ?_
    split at hfound
    · rename_i c more hdrop
      split at hfound
      · rename_i hc
        obtain ⟨⟨path', after'⟩, hpath, heq⟩ := Option.map_eq_some_iff.1 hfound
        cases heq
        obtain ⟨ending, rfl, hending⟩ := exists_of_pathBody? hpath
        exact ⟨ending, hdrop, .inr ⟨c, hc, rfl⟩, hending⟩
      · obtain ⟨⟨path', after'⟩, hpath, heq⟩ := Option.map_eq_some_iff.1 hfound
        cases heq
        obtain ⟨ending, hrest, hending⟩ := exists_of_pathBody? hpath
        exact ⟨ending, hrest, .inl rfl, hending⟩
    · cases hfound
  · rename_i blank hlast
    obtain ⟨⟨path', after'⟩, hpath, heq⟩ := Option.map_eq_some_iff.1 h
    cases heq
    obtain ⟨ending, hrest, hending⟩ := exists_of_pathBody? hpath
    obtain ⟨before, hbefore⟩ := List.getLast?_eq_some_iff.1 hlast
    rw [hbefore] at hsplit hblanks
    exact hopened before _ (hsplit.trans (List.append_assoc _ _ _))
      (fun c hc => hblanks c (List.mem_append_left _ hc)) ⟨ending, hrest, .inl rfl, hending⟩
  · cases h

/-- **Placing addresses changes nothing else.** -/
theorem urlsPlaced_placeUrlsIn (assets : Assets) (fuel : Nat) (cs : List Char) :
    UrlsPlaced assets cs (placeUrlsIn assets fuel cs) := by
  induction fuel generalizing cs with
  | zero => exact .refl _ _
  | succ fuel ih =>
    cases cs with
    | nil => exact .nil
    | cons c rest =>
      rw [placeUrlsIn.eq_def]
      dsimp only
      split
      · rename_i quote path after hfound
        split at hfound
        · obtain ⟨text, htext, hurl⟩ := exists_of_urlBody? hfound
          have hplaced := UrlsPlaced.url hurl (ih after)
          rwa [← htext] at hplaced
        · cases hfound
      · exact .keep c (ih rest)

theorem urlsPlaced_placeUrls (assets : Assets) (s : String) :
    UrlsPlaced assets s.toList (assets.placeUrls s).toList := by
  rw [placeUrls, String.toList_ofList]
  exact urlsPlaced_placeUrlsIn _ _ _

end Assets

/-! ## Style sets -/

/-- A style value in which nothing but the addresses in a text was placed. -/
inductive StyleValue.Placed (assets : Assets) : StyleValue → StyleValue → Prop where
  | text {s s' : String} (placed : UrlsPlaced assets s.toList s'.toList) :
      Placed assets (.constant (.text s)) (.constant (.text s'))
  | other (v : StyleValue) : Placed assets v v

/-- Style values in which nothing but addresses was placed, under the same names. -/
def StyleMap.Placed (assets : Assets) (styles styles' : StyleMap) : Prop :=
  List.Forall₂ (fun entry entry' => entry'.1 = entry.1 ∧ entry.2.Placed assets entry'.2)
    styles styles'

/-- A condition in whose values nothing but addresses was placed. -/
inductive StyleSetCondition.Placed (assets : Assets) :
    StyleSetCondition → StyleSetCondition → Prop where
  | elementState (state : String) {content content' : StyleMap}
      (placed : content.Placed assets content') :
      Placed assets (.elementState state content) (.elementState state content')
  | screenSize (maxWidth : Binary64) {content content' : StyleMap}
      (placed : content.Placed assets content') :
      Placed assets (.screenSize maxWidth content) (.screenSize maxWidth content')

/-- A style set whose conditions are in the order of a style sheet, and in whose values nothing but
addresses was placed. -/
structure StyleSet.Resolved (assets : Assets) (s s' : StyleSet) : Prop where
  id : s'.id = s.id
  name : s'.name = s.name
  kind : s'.kind = s.kind
  content : s.content.Placed assets s'.content
  conditions : ∃ sorted, InSheetOrder StyleSetCondition.width? s.conditions sorted ∧
    List.Forall₂ (StyleSetCondition.Placed assets) sorted s'.conditions

variable (assets : Assets)

theorem StyleValue.placed_place (v : StyleValue) : v.Placed assets (v.place assets) := by
  rcases v with (b | x | s) | r
  case constant.text => exact .text (assets.urlsPlaced_placeUrls s)
  all_goals exact .other _

/-- Two lists that are related entry by entry, the second being made from the first. -/
theorem forall₂_map_of_forall {α β : Type} {R : α → β → Prop} {f : α → β} (h : ∀ a, R a (f a))
    (l : List α) : List.Forall₂ R l (l.map f) := by
  rw [List.forall₂_map_right_iff]
  exact List.forall₂_same.2 fun a _ => h a

theorem StyleMap.placed_place (styles : StyleMap) : styles.Placed assets (styles.place assets) :=
  forall₂_map_of_forall (fun entry => ⟨rfl, entry.2.placed_place assets⟩) styles

theorem StyleSetCondition.placed_place (c : StyleSetCondition) :
    c.Placed assets (c.place assets) := by
  cases c with
  | elementState state content => exact .elementState state (content.placed_place assets)
  | screenSize maxWidth content => exact .screenSize maxWidth (content.placed_place assets)

theorem StyleSet.resolved_resolve (s : StyleSet) : s.Resolved assets (s.resolve assets) where
  id := rfl
  name := rfl
  kind := rfl
  content := s.content.placed_place assets
  conditions := ⟨_, inSheetOrder_sortByWidth _,
    forall₂_map_of_forall (fun c => c.placed_place assets) _⟩

/-- **The conditions of styles are sorted, and nothing else changes.** Conditions of style sets and
of referenced styles get into the order of a style sheet, and stay in it when they are sorted again.
The style sets of a component keep their names and all there is in them, but for the order of their
conditions and the addresses in constant texts. -/
theorem resolveStyleSets_sorts :
    (∀ conditions : List StyleSetCondition,
      InSheetOrder StyleSetCondition.width? conditions (sortStyleSetConditions conditions) ∧
      sortStyleSetConditions (sortStyleSetConditions conditions)
        = sortStyleSetConditions conditions) ∧
    (∀ conditions : List StyleCondition,
      InSheetOrder StyleCondition.width? conditions (sortStyleConditions conditions) ∧
      sortStyleConditions (sortStyleConditions conditions) = sortStyleConditions conditions) ∧
    ∀ c : Component, ∃ styleSets, c.resolveStyleSets assets = { c with styleSets } ∧
      List.Forall₂ (fun entry entry' => entry'.1 = entry.1 ∧ entry.2.Resolved assets entry'.2)
        c.styleSets styleSets :=
  ⟨fun conditions => ⟨inSheetOrder_sortByWidth conditions, sortByWidth_sortByWidth conditions⟩,
    fun conditions => ⟨inSheetOrder_sortByWidth conditions, sortByWidth_sortByWidth conditions⟩,
    fun c => ⟨_, rfl,
      forall₂_map_of_forall (fun entry => ⟨rfl, entry.2.resolved_resolve assets⟩) c.styleSets⟩⟩

end PageCompiler
