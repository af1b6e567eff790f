import PageCompiler.Proofs.Json.PageText
import PageCompiler.Proofs.Page.Forwarding
import PageCompiler.Proofs.Page.LocalLinks

/-!
# References among attributes

An attribute that refers to a prop or state has the text of its default. A constant attribute of the
same value mostly has this text too, but a constant address of a page is printed as the way there,
and the source of an image as the way up to it (`Literal.IsPlaced`); and a whole number of sixteen
digits or more is a floating-point number as a constant. These are all differences.

* `constantText_eq_iff`: when a constant attribute has the text of its value.
* `pageAttributes_reference`: when a reference can stand for its default.
-/

namespace PageCompiler

/-! ## Texts that stay in place -/

/-- The parts of a path are not empty and have no slash. -/
theorem head?_of_mem_pathParts {path part : String} (h : part ∈ pathParts path) :
    part ≠ "" ∧ part.toList.head? ≠ some '/' := by
  obtain ⟨piece, hpiece, rfl⟩ := List.mem_map.1 h
  refine ⟨fun hempty => ne_nil_of_mem_piecesBy hpiece ?_, fun hslash => ?_⟩
  · rw [← String.toList_ofList (l := piece), hempty]
    rfl
  · rw [String.toList_ofList] at hslash
    simpa using not_of_mem_piecesBy hpiece (List.mem_of_mem_head? hslash)

theorem slash_notMem_lastPart (path : String) : '/' ∉ (lastPart path).toList := by
  rw [lastPart, String.toList_ofList, List.mem_reverse]
  intro hmem
  simpa using List.mem_takeWhile_imp hmem

/-- A link within the project is a way, and does not begin at the top. -/
theorem head?_localLink (o : Options) (folder : List String) (href : String) :
    (localLink o folder href).toList.head? ≠ some '/' := by
  rw [localLink_eq_of_linkText]
  dsimp only
  split
  · intro hhead
    have hmem := List.mem_of_mem_head? hhead
    rw [String.toList_append, List.mem_append] at hmem
    exact hmem.elim (slash_notMem_lastPart _) (by simp)
  · rename_i hway
    rw [relativePath] at hway ⊢
    rcases hparts : wayParts (pathParts (siteAddress folder))
        (pathParts ("/" ++ trimStart (· = '/') (linkText o href))) with _ | ⟨first, more⟩
    · rw [hparts] at hway
      exact absurd rfl hway
    obtain ⟨hne, hslash⟩ : first ≠ "" ∧ first.toList.head? ≠ some '/' := by
      rcases mem_wayParts (hparts ▸ List.mem_cons_self) with rfl | hfirst
      · exact ⟨by decide, by simp⟩
      · exact head?_of_mem_pathParts hfirst
    have hhead : ("/".intercalate (first :: more)).toList.head? = first.toList.head? :=
      head?_intercalate hne more
    rwa [String.toList_append, List.head?_append_of_ne_nil, hhead]
    intro hnil
    rw [hnil] at hhead
    exact hne (String.toList_inj.1 (List.head?_eq_none_iff.1 hhead.symm))

theorem climb_succ (n : Nat) (path : String) : climb (n + 1) path =
    "../" ++ (String.join (List.replicate n "../") ++ trimStart (· = '/') path) := by
  rw [climb, if_neg n.succ_ne_zero, List.replicate_succ, String.join_cons, String.append_assoc]

theorem head?_climb_succ (n : Nat) (path : String) :
    (climb (n + 1) path).toList.head? = some '.' := by
  rw [climb_succ]
  simp

/-- A path climbs, unless there is nothing to climb. -/
theorem climb_eq_iff {depth : Nat} {path : String} : climb depth path = path ↔ depth = 0 := by
  refine ⟨fun heq => ?_, fun hzero => if_pos hzero⟩
  cases depth with
  | zero => rfl
  | succ n =>
    -- the path begins with a dot, so all of it stands behind the dots that are put before it
    have hhead := head?_climb_succ n path
    rw [heq] at hhead
    obtain ⟨rest, hrest⟩ := List.head?_eq_some_iff.1 hhead
    have htrim : trimStart (· = '/') path = path := by
      rw [trimStart, hrest, List.dropWhile_cons_of_neg (by simp), ← hrest, String.ofList_toList]
    have hlength := congrArg String.length heq
    rw [climb_succ, htrim, String.length_append, String.length_append,
      show "../".length = 3 from rfl] at hlength
    omega

/-! ## Constant attributes -/

/-- A constant attribute is an address that is printed as a way from the folder of the page. -/
inductive Literal.IsPlaced (folder : List String) (elementType name : String) : Literal → Prop
  /-- The address of a page of the project. -/
  | page {s : String} (href : name = "href") (within : s.toList.head? = some '/') :
    IsPlaced folder elementType name (.text s)
  /-- The source of an image, on a page in a folder. -/
  | image {value : Literal} (img : elementType = "img") (src : name = "src")
    (inside : folder ≠ []) (plain : ∀ b, value ≠ .bool b)
    (relative : ¬ isAbsoluteAddress value.toJson.text) : IsPlaced folder elementType name value

/-- The text of an image source is changed where it is placed. -/
theorem climb_source_eq_iff (folder : List String) (elementType name s : String) :
    (if elementType = "img" && name = "src" && !isAbsoluteAddress s then climb folder.length s
      else s) = s ↔
      ¬ (elementType = "img" ∧ name = "src" ∧ folder ≠ [] ∧ ¬ isAbsoluteAddress s) := by
  by_cases hsource : elementType = "img" ∧ name = "src" ∧ ¬ isAbsoluteAddress s
  · obtain ⟨himg, hsrc, hrelative⟩ := hsource
    simp [himg, hsrc, hrelative, climb_eq_iff]
  · rw [if_neg (by simpa [and_assoc] using hsource)]
    exact iff_of_true rfl fun ⟨himg, hsrc, _, hrelative⟩ => hsource ⟨himg, hsrc, hrelative⟩

/-- **When a constant attribute has the text of its value.** -/
theorem constantText_eq_iff (o : Options) (folder : List String) (elementType name : String)
    (value : Literal) :
    constantText o folder elementType name value = value.toJson.text ↔
      ¬ value.IsPlaced folder elementType name := by
  cases value with
  | bool b =>
    refine iff_of_true rfl fun hplaced => ?_
    cases hplaced with
    | image _ _ _ plain => exact plain b rfl
  | text s =>
    have htext : (Literal.text s).toJson.text = s := rfl
    rw [htext, constantText]
    by_cases hlocal : name = "href" ∧ s.toList.head? = some '/'
    · rw [if_pos (by simpa using hlocal)]
      refine iff_of_false (fun heq => ?_) fun hnot => hnot (.page hlocal.1 hlocal.2)
      have hhead := head?_localLink o folder s
      rw [heq] at hhead
      exact hhead hlocal.2
    · rw [if_neg (by simpa using hlocal), climb_source_eq_iff, not_iff_not]
      constructor
      · rintro ⟨himg, hsrc, hinside, hrelative⟩
        exact .image himg hsrc hinside nofun hrelative
      · intro hplaced
        cases hplaced with
        | page href within => exact absurd ⟨href, within⟩ hlocal
        | image img src inside _ relative => exact ⟨img, src, inside, relative⟩
  | number x =>
    have htext : (Literal.number x).toJson.text = (Json.number (.real x)).text := rfl
    rw [htext, constantText]
    generalize hs : (Json.number (.real x)).text = s
    rw [climb_source_eq_iff, not_iff_not]
    constructor
    · rintro ⟨himg, hsrc, hinside, hrelative⟩
      exact .image himg hsrc hinside nofun (hs ▸ hrelative)
    · intro hplaced
      cases hplaced with
      | image img src inside _ relative => exact ⟨img, src, inside, hs ▸ relative⟩

/-- A number that is placed begins with dots. -/
theorem head?_constantText_number (o : Options) {folder : List String} {elementType name : String}
    {x : Binary64} (h : (Literal.number x).IsPlaced folder elementType name) :
    (constantText o folder elementType name (.number x)).toList.head? = some '.' := by
  cases h with
  | image img src inside _ relative =>
    obtain ⟨first, more, rfl⟩ := List.exists_cons_of_ne_nil inside
    have hrelative : ¬ isAbsoluteAddress (Json.number (.real x)).text := relative
    rw [constantText, if_pos (by simp [img, src, hrelative]), List.length_cons, head?_climb_succ]

/-! ## References -/

/-- A whole number of sixteen digits or more. -/
def Json.IsLong (value : Json) : Prop := ∃ n, value = .number n ∧ n.IsLong

/-- A value has the same text as a constant, unless it is a long whole number. -/
theorem Literal.text_eq_iff {d : Json} {value : Literal} (h : Literal.ofJson? d = some value) :
    value.toJson.text = d.text ↔ ¬ d.IsLong := by
  cases d with
  | number n =>
    obtain rfl := Option.some.inj h
    have hlong : (Json.number n).IsLong ↔ n.IsLong :=
      ⟨fun ⟨_, heq, hn⟩ => Json.number.inj heq ▸ hn, fun hn => ⟨n, rfl, hn⟩⟩
    rw [hlong, ← n.pageText_toReal_iff, toJson, Json.text, Json.text]
  | bool | string =>
    obtain rfl := Option.some.inj h
    exact iff_of_true rfl fun ⟨_, heq, _⟩ => nomatch heq
  | _ => cases h

/-- **When a constant attribute has the text of the default** that it is written for. -/
theorem constantText_eq_text_iff {d : Json} {value : Literal} (h : Literal.ofJson? d = some value)
    (o : Options) (folder : List String) (elementType name : String) :
    constantText o folder elementType name value = d.text ↔
      ¬ value.IsPlaced folder elementType name ∧ ¬ d.IsLong := by
  by_cases hlong : d.IsLong
  · refine iff_of_false (fun heq => ?_) fun hboth => hboth.2 hlong
    by_cases hplaced : value.IsPlaced folder elementType name
    · -- the dots before the path are no digits
      obtain ⟨n, rfl, i, rfl, -⟩ := hlong
      obtain rfl := Option.some.inj h
      have hdot := head?_constantText_number o hplaced
      rw [heq] at hdot
      have hdigit := Binary64.isDigit_of_mem_toString (List.mem_of_mem_head? hdot)
      exact absurd hdigit (by decide)
    · rw [(constantText_eq_iff o folder elementType name value).2 hplaced] at heq
      exact (Literal.text_eq_iff h).1 heq hlong
  · rw [and_iff_left hlong, ← constantText_eq_iff o, (Literal.text_eq_iff h).2 hlong]

/-- Attributes are written one after the other, up to the first that fails. -/
theorem pageAttributes_append (o : Options) (folder : List String) (ds : Definitions)
    (elementType : String) (first second : Attributes) :
    pageAttributes o folder ds elementType (first ++ second) =
      match pageAttributes o folder ds elementType first with
      | (texts, .ok ()) =>
        (texts ++ (pageAttributes o folder ds elementType second).1,
          (pageAttributes o folder ds elementType second).2)
      | (texts, .error d) => (texts, .error d) := by
  induction first with
  | nil => rfl
  | cons entry rest ih =>
    obtain ⟨name, value⟩ := entry
    rw [List.cons_append, pageAttributes, pageAttributes]
    rcases value.pageText o folder ds elementType name with d | text
    · rfl
    · dsimp only
      rw [ih]
      rcases pageAttributes o folder ds elementType rest with ⟨texts, _ | _⟩
      · rfl
      · simp

/-- **When a reference can stand for its default.** A prop or state with a plain default of a
supported kind gives its attribute the text of the default. This makes the tag that a constant of
the same value would make, unless the constant is printed as a way from the folder of the page, or
the default is a whole number of sixteen digits or more. -/
theorem pageAttributes_reference {ds : Definitions} {r : Reference} {kind : String} {d : Json}
    {value : Literal} (hfind : ds.find r = .ok ⟨kind, some (.value d)⟩)
    (hkind : kind ∈ supportedKinds) (hvalue : Literal.ofJson? d = some value) (o : Options)
    (folder : List String) (elementType name : String) :
    Attribute.pageText o folder ds elementType name (.dynamic r) = .ok (some d.text) ∧
    ∀ before after : Attributes,
      pageAttributes o folder ds elementType (before ++ (name, .dynamic r) :: after)
          = pageAttributes o folder ds elementType (before ++ (name, .constant value) :: after) ↔
        (∃ e, (pageAttributes o folder ds elementType before).2 = .error e) ∨
          ¬ value.IsPlaced folder elementType name ∧ ¬ d.IsLong := by
  have htext : Attribute.pageText o folder ds elementType name (.dynamic r)
      = .ok (some d.text) := by
    rw [pageText_of_value ((Definitions.value_eq_ok_iff hfind).2
      ⟨List.contains_iff_mem.2 hkind, Or.inr rfl⟩), ReferredValue.text]
    have hplain : extractValue d r.path = d := by
      cases d with
      | array | object => cases hvalue
      | _ => rfl
    change Except.ok (some (extractValue d r.path).text) = _
    rw [hplain]
  refine ⟨htext, fun before after => ?_⟩
  rw [pageAttributes_append, pageAttributes_append]
  rcases pageAttributes o folder ds elementType before with ⟨texts, e | _⟩
  · exact iff_of_true rfl (Or.inl ⟨e, rfl⟩)
  · rw [← constantText_eq_text_iff hvalue o, pageAttributes, pageAttributes, htext,
      Attribute.pageText]
    simp [eq_comm]

/-- Props with an address, a picture and two numbers. -/
def shownProps : Definitions where
  props := [
    ("count", { kind := "number", default := some (.value (.number (.integer 42))) }),
    ("logo", { kind := "string", default := some (.value (.string "/logo.png")) }),
    ("serial", { kind := "number", default := some (.value (.number (.integer (10 ^ 15)))) }),
    ("to", { kind := "string", default := some (.value (.string "/about")) })]

/-- A picture with a number for a title, in a folder. -/
theorem countedPicture_reference :
    shownProps.find (.toProp "count") = .ok ⟨"number", some (.value (.number (.integer 42)))⟩ ∧
    Attribute.pageText {} ["docs"] shownProps "img" "title" (.dynamic (.toProp "count"))
      = .ok (some "42") ∧
    pageAttributes {} ["docs"] shownProps "img"
        [("src", .constant (.text "a.png")), ("title", .dynamic (.toProp "count"))]
      = pageAttributes {} ["docs"] shownProps "img"
        [("src", .constant (.text "a.png")),
          ("title", .constant (.number (Json.Number.integer 42).toReal))] := by
  have hfind : shownProps.find (.toProp "count")
      = .ok ⟨"number", some (.value (.number (.integer 42)))⟩ := rfl
  obtain ⟨htext, hiff⟩ := pageAttributes_reference hfind (by decide) rfl {} ["docs"] "img" "title"
  refine ⟨hfind, htext, (hiff [("src", .constant (.text "a.png"))] []).2 (Or.inr ⟨?_, ?_⟩)⟩
  · rintro (_ | _)
    contradiction
  · rintro ⟨n, heq, i, rfl, hlong⟩
    cases heq
    exact absurd hlong (by decide)

/-- **A reference is not always printed like its default.** The address of a page and the source of
an image stay as they are, and a long whole number has no point. -/
theorem shownProps_differ :
    (¬ ∀ (o : Options) (folder : List String) (ds : Definitions) (elementType name : String)
      (r : Reference) (kind : String) (d : Json) (value : Literal), kind ∈ supportedKinds →
        ds.find r = .ok ⟨kind, some (.value d)⟩ → Literal.ofJson? d = some value →
        r.path = none →
          pageAttributes o folder ds elementType [(name, .dynamic r)]
            = pageAttributes o folder ds elementType [(name, .constant value)]) ∧
    ((pageAttributes {} [] shownProps "a" [("href", .dynamic (.toProp "to"))]).1
        = [("href", "/about")] ∧
      (pageAttributes {} [] shownProps "a" [("href", .constant (.text "/about"))]).1
        = [("href", "about.html")]) ∧
    ((pageAttributes {} ["docs"] shownProps "img" [("src", .dynamic (.toProp "logo"))]).1
        = [("src", "/logo.png")] ∧
      (pageAttributes {} ["docs"] shownProps "img" [("src", .constant (.text "/logo.png"))]).1
        = [("src", "../logo.png")]) ∧
    ((pageAttributes {} [] shownProps "p" [("title", .dynamic (.toProp "serial"))]).1
        = [("title", "1000000000000000")] ∧
      (pageAttributes {} [] shownProps "p"
        [("title", .constant (.number (Json.Number.integer (10 ^ 15)).toReal))]).1
        = [("title", "1000000000000000.0")]) := by
  have hlink : (pageAttributes {} [] shownProps "a" [("href", .dynamic (.toProp "to"))]).1
        = [("href", "/about")] ∧
      (pageAttributes {} [] shownProps "a" [("href", .constant (.text "/about"))]).1
        = [("href", "about.html")] := by
    decide +kernel
  refine ⟨fun hall => ?_, hlink, by decide +kernel, by decide +kernel⟩
  have heq := hall {} [] shownProps "a" "href" (.toProp "to") "string" (.string "/about")
    (.text "/about") (by decide) rfl rfl rfl
  rw [heq, hlink.2] at hlink
  exact absurd hlink.1 (by decide)

end PageCompiler
