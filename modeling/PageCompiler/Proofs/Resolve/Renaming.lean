import PageCompiler.Document.Build
import PageCompiler.Mapping.Apply
import PageCompiler.Proofs.Dict

/-!
# Names of the target

A mapping renames the attributes and the events of an element entry by entry, in the order of its
tables. A name that an entry gives is looked up again by the entries behind it, so a name can be
renamed more than once, and a value can take the place of another one whose turn has not come.

* `renames_renameEntries`: where the values of a table are found in the end.
* `Renames.translates_iff`: when that is where the table of names says.
* `Element.applyMapping_names`: both, for the attributes and the events of an element.
-/

namespace PageCompiler

/-! ## Renaming entry by entry -/

section Renaming

variable {α : Type}

/-- The name that a table of names has for a name; a name that is not in the table stays. -/
def translate (names : Dict String) (name : String) : String := (Dict.get? names name).getD name

/-- What becomes of a name when a table of names is gone through entry by entry. -/
def passOn (names : Dict String) (name : String) : String :=
  names.foldl (fun name entry => if name = entry.1 then entry.2 else name) name

/-- A table holds what another one holds, under new names and with values that may depend on them.
Of entries that come under one name only one is left. -/
structure Renames (rename : String → String) (value : String → α → α) (d d' : Dict α) : Prop where
  named : ∀ name ∈ Dict.keys d, Dict.contains d' (rename name)
  origin : ∀ name v', Dict.get? d' name = some v' →
    ∃ old v, Dict.get? d old = some v ∧ rename old = name ∧ value name v = v'

/-- A table holds exactly what another one holds, each value under the new name of its name. -/
structure Translates (rename : String → String) (value : String → α → α) (d d' : Dict α) :
    Prop where
  kept : ∀ name v, Dict.get? d name = some v →
    Dict.get? d' (rename name) = some (value (rename name) v)
  only : ∀ name, Dict.contains d' name → ∃ old ∈ Dict.keys d, rename old = name

variable {rename rename' : String → String} {value : String → α → α} {d d' d'' : Dict α}

/-- Nothing is lost when the new names differ. -/
theorem Renames.translates (h : Renames rename value d d')
    (hinj : Set.InjOn rename {name | name ∈ Dict.keys d}) : Translates rename value d d' where
  kept name v hv := by
    have hname : name ∈ Dict.keys d := Dict.mem_keys_of_get? hv
    obtain ⟨v', hv'⟩ := Option.isSome_iff_exists.1 (h.named name hname)
    obtain ⟨old, w, hold, hsame, rfl⟩ := h.origin _ v' hv'
    have hmem : old ∈ Dict.keys d := Dict.mem_keys_of_get? hold
    rw [hinj hmem hname hsame, hv] at hold
    rw [hv', Option.some.inj hold]
  only name hname := by
    obtain ⟨v', hv'⟩ := Option.isSome_iff_exists.1 hname
    obtain ⟨old, v, hold, hsame, -⟩ := h.origin name v' hv'
    exact ⟨old, Dict.mem_keys_of_get? hold, hsame⟩

/-- Under the name that is meant for a value, a value like it arrives. -/
def Arrives (rename meant : String → String) (value : String → α → α) (d : Dict α) : Prop :=
  ∀ name v, Dict.get? d name = some v → ∃ other w, Dict.get? d other = some w ∧
    rename other = meant name ∧ value (meant name) w = value (meant name) v

/-- New names that reach all of as many others as there are names differ, and are those others. -/
theorem injOn_of_image_subset {names : Finset String} (hinj : Set.InjOn rename' names)
    (hsub : names.image rename' ⊆ names.image rename) :
    Set.InjOn rename names ∧ names.image rename = names.image rename' := by
  have hcard : (names.image rename').card = names.card := Finset.card_image_iff.2 hinj
  have heq : names.image rename' = names.image rename :=
    Finset.eq_of_subset_of_card_le hsub (hcard ▸ Finset.card_image_le)
  exact ⟨Finset.card_image_iff.1 (heq ▸ hcard), heq.symm⟩

/-- **Values come under the names that are meant** when values like them arrive there. -/
theorem Renames.translates_iff {meant : String → String} (h : Renames rename value d d')
    (hinj : Set.InjOn meant {name | name ∈ Dict.keys d}) :
    Translates meant value d d' ↔ Arrives rename meant value d := by
  constructor
  · intro htranslates name v hv
    obtain ⟨other, w, hw, hsame, hvalue⟩ := h.origin _ _ (htranslates.kept name v hv)
    exact ⟨other, w, hw, hsame, hvalue⟩
  · intro harrives
    have hcoe : (↑(Dict.keys d).toFinset : Set String) = {name | name ∈ Dict.keys d} :=
      Set.ext fun name => by simp
    have hsub : (Dict.keys d).toFinset.image meant ⊆ (Dict.keys d).toFinset.image rename := by
      intro name hname
      obtain ⟨old, hold, rfl⟩ := Finset.mem_image.1 hname
      obtain ⟨v, hv⟩ := Option.isSome_iff_exists.1
        (Dict.contains_iff_mem_keys.2 (List.mem_toFinset.1 hold))
      obtain ⟨other, w, hw, hsame, -⟩ := harrives old v hv
      exact Finset.mem_image.2 ⟨other, List.mem_toFinset.2 (Dict.mem_keys_of_get? hw), hsame⟩
    obtain ⟨hrename, himage⟩ := injOn_of_image_subset (hcoe ▸ hinj) hsub
    have hown := h.translates (hcoe ▸ hrename)
    refine ⟨fun name v hv => ?_, fun name hname => ?_⟩
    · obtain ⟨other, w, hw, hsame, hvalue⟩ := harrives name v hv
      rw [← hsame, hown.kept other w hw, hsame, hvalue]
    · obtain ⟨old, hold, rfl⟩ := hown.only name hname
      have hmem := Finset.mem_image_of_mem rename (List.mem_toFinset.2 hold)
      rw [himage] at hmem
      obtain ⟨old', hold', hsame⟩ := Finset.mem_image.1 hmem
      exact ⟨old', List.mem_toFinset.1 hold', hsame⟩

theorem Renames.refl (d : Dict α) : Renames id (fun _ v => v) d d where
  named _ hname := Dict.contains_iff_mem_keys.2 hname
  origin name v hv := ⟨name, v, hv, rfl, rfl⟩

theorem Renames.trans (h : Renames rename (fun _ v => v) d d')
    (h' : Renames rename' value d' d'') : Renames (rename' ∘ rename) value d d'' where
  named name hname := h'.named _ (Dict.contains_iff_mem_keys.1 (h.named name hname))
  origin name v'' hv'' := by
    obtain ⟨middle, v', hv', rfl, rfl⟩ := h'.origin name v'' hv''
    obtain ⟨old, v, hv, rfl, rfl⟩ := h.origin middle v' hv'
    exact ⟨old, v, hv, rfl, rfl⟩

/-- One entry takes the place of another one. -/
theorem renames_renameEntry (d : Dict α) (entry : String × String) :
    Renames (fun name => if name = entry.1 then entry.2 else name) (fun _ v => v) d
      (renameEntry d entry) := by
  obtain ⟨source, target⟩ := entry
  rw [renameEntry]
  dsimp only
  rcases hsource : Dict.get? d source with _ | moved
  · have hne : ∀ name ∈ Dict.keys d, name ≠ source := by
      rintro name hname rfl
      exact Dict.get?_eq_none_iff.1 hsource hname
    refine ⟨fun name hname => ?_, fun name v hv => ⟨name, v, hv, ?_, rfl⟩⟩
    · rw [if_neg (hne name hname)]
      exact Dict.contains_iff_mem_keys.2 hname
    · exact if_neg (hne name (Dict.mem_keys_of_get? hv))
  · refine ⟨fun name hname => ?_, fun name v hv => ?_⟩
    · dsimp only
      rw [Dict.contains_insert]
      split
      · exact Or.inl rfl
      · rename_i hne
        rw [Dict.contains, Dict.get?_erase, if_neg hne]
        exact Or.inr (Dict.contains_iff_mem_keys.2 hname)
    · by_cases htarget : name = target
      · subst htarget
        rw [Dict.get?_insert_self] at hv
        exact ⟨source, moved, hsource, if_pos rfl, Option.some.inj hv⟩
      · rw [Dict.get?_insert_of_ne _ _ htarget, Dict.get?_erase] at hv
        split at hv
        · cases hv
        · rename_i hne
          exact ⟨name, v, hv, if_neg hne, rfl⟩

/-- **Entries go where their names are passed on to.** -/
theorem renames_renameEntries (d : Dict α) (names : Dict String) :
    Renames (passOn names) (fun _ v => v) d (renameEntries d names) := by
  induction names generalizing d with
  | nil => exact .refl d
  | cons entry rest ih => exact (renames_renameEntry d entry).trans (ih _)

end Renaming

/-! ## Names that are passed on once -/

theorem passOn_eq_self {names : Dict String} {name : String}
    (h : ∀ entry ∈ names, entry.1 = name → entry.2 = name) : passOn names name = name := by
  induction names with
  | nil => rfl
  | cons entry rest ih =>
    obtain ⟨hentry, hrest⟩ := List.forall_mem_cons.1 h
    have hstep : (if name = entry.1 then entry.2 else name) = name := by
      split
      · exact hentry (Eq.symm ‹_›)
      · rfl
    rw [passOn, List.foldl_cons, hstep]
    exact ih hrest

/-- A table leaves the translation of a name when no entry behind that of the name is for it. -/
def Settles (names : Dict String) (name : String) : Prop :=
  name < translate names name → translate names (translate names name) = translate names name

instance (names : Dict String) (name : String) : Decidable (Settles names name) :=
  inferInstanceAs (Decidable (_ → _))

/-- A name that is not renamed twice is translated. -/
theorem passOn_eq_translate {names : Dict String} (hnames : Dict.Sorted names) {name : String}
    (h : Settles names name) : passOn names name = translate names name := by
  rcases hname : Dict.get? names name with _ | target
  · rw [translate, hname, Option.getD_none]
    refine passOn_eq_self fun entry hentry hkey => ?_
    exact absurd (List.mem_map.2 ⟨entry, hentry, hkey⟩) (Dict.get?_eq_none_iff.1 hname)
  · have htarget : translate names name = target := by rw [translate, hname, Option.getD_some]
    rw [Settles, htarget] at h
    obtain ⟨before, after, rfl⟩ := List.append_of_mem (Dict.mem_of_get? hname)
    obtain ⟨-, hbehind, hahead⟩ := List.pairwise_append.1 hnames
    have hbefore : passOn before name = name := passOn_eq_self fun entry hentry hkey =>
      absurd hkey (hahead entry hentry _ List.mem_cons_self).ne
    have hafter : passOn after target = target := passOn_eq_self fun entry hentry hkey => by
      have hlt : name < target := hkey ▸ (List.pairwise_cons.1 hbehind).1 entry hentry
      have hfound : Dict.get? (before ++ (name, target) :: after) target = some entry.2 :=
        hnames.get?_eq_some_iff.2 (by rw [← hkey]; simp [hentry])
      rw [← h hlt, translate, hfound, Option.getD_some]
    calc passOn (before ++ (name, target) :: after) name
        = passOn after (if passOn before name = name then target else passOn before name) := by
          rw [passOn, List.foldl_append, List.foldl_cons]
          rfl
      _ = translate (before ++ (name, target) :: after) name := by
          rw [hbefore, if_pos rfl, hafter, htarget]

/-! ## Elements -/

section Elements

variable (mapping : Mapping) (o : Options) (e : Element)

/-- The attributes of an element once it has taken over those of the mapping. -/
def Element.takenAttrs : Attributes :=
  match Dict.get? mapping.elements e.elementType with
  | some m => m.attrs.foldl takeOver e.attrs
  | none => e.attrs

/-- The events of an element once it has taken over those of the mapping. -/
def Element.takenEvents : Dict (List EventHandler) :=
  match Dict.get? mapping.elements e.elementType with
  | some m => m.events.foldl (fun events entry => Dict.insertNew events entry.1 entry.2) e.events
  | none => e.events

/-- The value of an attribute of a name, the address of an asset placed. -/
def placedValue (assets : Assets) (name : String) (value : Attribute) : Attribute :=
  if name ∈ assetAttributes then value.place assets else value

theorem Element.applyMapping_attrs : (e.applyMapping mapping o).attrs =
    assetAttributes.foldl (fun attrs name => Dict.modify attrs name (·.place o.assets))
      (renameEntries (e.takenAttrs mapping) mapping.attributes) := by
  rw [applyMapping, takenAttrs]
  dsimp only
  cases Dict.get? mapping.elements e.elementType <;> rfl

theorem Element.applyMapping_events : (e.applyMapping mapping o).events =
    renameEntries (e.takenEvents mapping) mapping.events := by
  rw [applyMapping, takenEvents]
  dsimp only
  cases Dict.get? mapping.elements e.elementType <;> rfl

theorem Element.renames_attrs : Renames (passOn mapping.attributes) (placedValue o.assets)
    (e.takenAttrs mapping) (e.applyMapping mapping o).attrs := by
  have hplaced : Renames id (placedValue o.assets)
      (renameEntries (e.takenAttrs mapping) mapping.attributes)
      (e.applyMapping mapping o).attrs := by
    rw [e.applyMapping_attrs]
    refine ⟨fun name hname => ?_, fun name v' hv' => ?_⟩
    · rw [id, Dict.contains, Dict.get?_foldl_modify (by decide), Option.isSome_map]
      exact Dict.contains_iff_mem_keys.2 hname
    · rw [Dict.get?_foldl_modify (by decide), Option.map_eq_some_iff] at hv'
      obtain ⟨v, hv, rfl⟩ := hv'
      exact ⟨name, v, hv, rfl, rfl⟩
  exact (renames_renameEntries _ _).trans hplaced

theorem Element.renames_events : Renames (passOn mapping.events) (fun _ handlers => handlers)
    (e.takenEvents mapping) (e.applyMapping mapping o).events := by
  rw [e.applyMapping_events]
  exact renames_renameEntries _ _

end Elements

/-- A table of names gives different names to the names in a list, and renames none of them twice. -/
structure RenamesOnce (names : Dict String) (keys : List String) : Prop where
  sorted : Dict.Sorted names
  injective : ∀ a ∈ keys, ∀ b ∈ keys, translate names a = translate names b → a = b
  settles : ∀ name ∈ keys, Settles names name

instance (names : Dict String) (keys : List String) : Decidable (RenamesOnce names keys) :=
  decidable_of_iff (Dict.Sorted names ∧
    (∀ a ∈ keys, ∀ b ∈ keys, translate names a = translate names b → a = b) ∧
      ∀ name ∈ keys, Settles names name)
    ⟨fun ⟨hsorted, hinj, hsettles⟩ => ⟨hsorted, hinj, hsettles⟩,
      fun ⟨hsorted, hinj, hsettles⟩ => ⟨hsorted, hinj, hsettles⟩⟩

/-- What renaming the values of a table by a table of names comes to, where `value` is what else is
done to a value under its new name. -/
structure NamesApplied {α : Type} (names : Dict String) (value : String → α → α) (d d' : Dict α) :
    Prop where
  passed : Renames (passOn names) value d d'
  exact : Set.InjOn (translate names) {name | name ∈ Dict.keys d} →
    (Translates (translate names) value d d' ↔ Arrives (passOn names) (translate names) value d)
  settled : RenamesOnce names (Dict.keys d) → Translates (translate names) value d d'

theorem Renames.namesApplied {α : Type} {names : Dict String} {value : String → α → α}
    {d d' : Dict α} (h : Renames (passOn names) value d d') : NamesApplied names value d d' where
  passed := h
  exact hinj := h.translates_iff hinj
  settled honce := (h.translates_iff fun a ha b hb => honce.injective a ha b hb).2 fun name v hv =>
    ⟨name, v, hv, passOn_eq_translate honce.sorted (honce.settles name (Dict.mem_keys_of_get? hv)),
      rfl⟩

/-- **What the names of an element become.** The names of attributes and of events are passed on
from entry to entry of the tables of the mapping. If the translations differ, each value comes under
the translation of its name exactly when a value like it is passed on to there; so it does when no
translation is the name of an entry further on. -/
theorem Element.applyMapping_names (mapping : Mapping) (o : Options) (e : Element) :
    NamesApplied mapping.attributes (placedValue o.assets) (e.takenAttrs mapping)
      (e.applyMapping mapping o).attrs ∧
    NamesApplied mapping.events (fun _ handlers => handlers) (e.takenEvents mapping)
      (e.applyMapping mapping o).events :=
  ⟨(e.renames_attrs mapping o).namesApplied, (e.renames_events mapping o).namesApplied⟩

/-- Names of a target: a picture is loaded late, and its names move up by one. -/
def towerNames : Mapping where
  elements := [("picture", { elementType := "img", attrs := [("loading", .text "lazy")] })]
  attributes := [("caption", "alt"), ("source", "caption"), ("url", "src")]
  events := [("press", "click"), ("tap", "press")]

/-- A picture with a caption, the source of the caption, and an address. -/
def towerPicture : Element where
  elementType := "picture"
  attrs := [("caption", .text "Tower"), ("source", .text "Atlas"), ("url", .text "/tower.png")]
  events := [("press", [{ kind := "open" }]), ("tap", [{ kind := "close" }])]

/-- The names of a picture move up, the default among them, and its address is placed. -/
theorem towerPicture_names :
    RenamesOnce towerNames.attributes (Dict.keys (towerPicture.takenAttrs towerNames)) ∧
    RenamesOnce towerNames.events (Dict.keys (towerPicture.takenEvents towerNames)) ∧
    (towerPicture.applyMapping towerNames { assets := { location := some "/files" } }).attrs =
      [("alt", .text "Tower"), ("caption", .text "Atlas"), ("loading", .text "lazy"),
        ("src", .text "/files/tower.png")] ∧
    Translates (translate towerNames.attributes) (placedValue { location := some "/files" })
      (towerPicture.takenAttrs towerNames)
      (towerPicture.applyMapping towerNames { assets := { location := some "/files" } }).attrs ∧
    Translates (translate towerNames.events) (fun _ handlers => handlers)
      (towerPicture.takenEvents towerNames)
      (towerPicture.applyMapping towerNames
        { assets := { location := some "/files" } }).events := by
  have hattrs : RenamesOnce towerNames.attributes
    (Dict.keys (towerPicture.takenAttrs towerNames)) := by decide +kernel
  have hevents : RenamesOnce towerNames.events
    (Dict.keys (towerPicture.takenEvents towerNames)) := by decide +kernel
  have hnames := towerPicture.applyMapping_names towerNames
    { assets := { location := some "/files" } }
  exact ⟨hattrs, hevents, rfl, hnames.1.settled hattrs, hnames.2.settled hevents⟩

/-- **Names that are exchanged lose a value.** When a title is called alt and an alt title, the alt
takes the place of the title before that has its turn, and gets its own name back; and a name that
is given can be taken for one to translate. -/
theorem swappedPicture_loses :
    (¬ ∀ (mapping : Mapping) (o : Options) (e : Element), Dict.Sorted mapping.attributes →
      Set.InjOn (translate mapping.attributes) {name | name ∈ Dict.keys (e.takenAttrs mapping)} →
      Translates (translate mapping.attributes) (placedValue o.assets) (e.takenAttrs mapping)
        (e.applyMapping mapping o).attrs) ∧
    (Element.applyMapping { attributes := [("alt", "title"), ("title", "alt")] } {}
        { elementType := "img", attrs := [("alt", .text "Tower"), ("title", .text "Atlas")] }).attrs
      = [("alt", .text "Tower")] ∧
    (Element.applyMapping { attributes := [("title", "tooltip"), ("tooltip", "hint")] } {}
        { elementType := "img", attrs := [("title", .text "Atlas")] }).attrs
      = [("hint", .text "Atlas")] := by
  refine ⟨fun hall => ?_, rfl, rfl⟩
  have hnames : ∀ a ∈ ["title"], ∀ b ∈ ["title"],
      translate [("title", "tooltip"), ("tooltip", "hint")] a
        = translate [("title", "tooltip"), ("tooltip", "hint")] b → a = b := by decide
  have htranslates := hall { attributes := [("title", "tooltip"), ("tooltip", "hint")] } {}
    { elementType := "img", attrs := [("title", .text "Atlas")] } (by decide +kernel)
    fun a ha b hb => hnames a ha b hb
  obtain ⟨old, hold, htitle⟩ := htranslates.only "hint" rfl
  obtain rfl : old = "title" := List.mem_singleton.1 hold
  exact absurd htitle (by decide +kernel)

end PageCompiler
