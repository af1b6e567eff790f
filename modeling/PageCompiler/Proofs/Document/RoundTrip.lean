import PageCompiler.Proofs.Document.Tidy
import PageCompiler.Proofs.Json.Written

/-!
# Writing and reading documents

What is written of a tidy document is read as that document.

* `Node.fits` and its siblings: trees, by recursion on the tree; the depth of what is written is
  fuel enough, whether it was set aside or not.
* `Default.fits`: a plain default does not read as a node, and a node does.
* `Component.ofJson?_written`: components, with their members in the order of the declaration or in
  canonical order. In canonical order a variant has its content before its name, so all of the tree
  is set aside; the readers are steady then.
-/

namespace PageCompiler

open Json

attribute [local simp] List.lookup_append List.lookup_cons

/-! ## References and dependencies -/

theorem fits_texts (texts : List String) : Fits texts? (strings texts) texts :=
  fits_items fun s _ => fits_string s

theorem Scope.fits (s : Scope) : Fits Scope.ofJson? (.string s.name) s :=
  ⟨plain_string _, by cases s <;> rfl⟩

theorem Reference.fits (r : Reference) : Fits Reference.ofJson? r.toJson r := by
  refine fits_record (by decide) (((Members.field (Scope.fits r.scope).plain).append
    (.field (plain_string _))).append (.field? fun path _ => (fits_texts path).plain)) ?_
  refine bind_written (required_written (Scope.fits r.scope) (by simp)) ?_
  refine bind_written (required_written (fits_string r.id) (by simp)) ?_
  exact bind_written (optional_written r.path (fun path _ => fits_texts path) (fun _ _ => nofun)
    (by simp)) rfl

theorem Origin.fits (origin : Origin) : Fits Origin.ofJson? (.string origin.name) origin :=
  ⟨plain_string _, by cases origin <;> rfl⟩

theorem ImportDetails.fits (d : ImportDetails) : Fits ImportDetails.ofJson? d.toJson d := by
  refine fits_record (by decide) ((Members.flag.append .text?).append .text?) ?_
  refine bind_written (flag_written d.named (by simp)) ?_
  refine bind_written (text_written d.exportedName (by simp)) ?_
  exact bind_written (text_written d.importAlias (by simp)) rfl

theorem Dependency.fits (d : Dependency) : Fits Dependency.ofJson? d.toJson d := by
  refine fits_record (by decide) ((((Members.field (plain_string _)).append
    (.field (plain_string _))).append .text?).append
    (.field? fun details _ => (ImportDetails.fits details).plain)) ?_
  refine bind_written (required_written (Origin.fits d.origin) (by simp)) ?_
  refine bind_written (present_written (fits_string d.path) (by simp)) ?_
  refine bind_written (text_written d.version (by simp)) ?_
  exact bind_written (optional_written d.details (fun details _ => ImportDetails.fits details)
    (fun _ _ => nofun) (by simp)) rfl

theorem Literal.fits (value : Literal) : Fits Literal.ofJson? value.toJson value := by
  cases value with
  | bool b => exact ⟨plain_bool b, rfl⟩
  | number x => exact ⟨plain_number _, rfl⟩
  | text s => exact ⟨plain_string s, rfl⟩

theorem Literal.toJson_ne_null (value : Literal) : value.toJson ≠ .null := by
  cases value <;> exact nofun

/-! ## Styles -/

theorem StyleValue.fits (value : StyleValue) (aside : Bool) :
    Fits (StyleValue.ofJson? aside) value.toJson value := by
  cases value with
  | constant value =>
    have hvalue := Literal.fits value
    exact fits_variant (by decide) hvalue.plain (by simp [hvalue.reads])
  | dynamic reference =>
    have hreference := Reference.fits reference
    exact fits_variant (by decide) hreference.plain (by simp [hreference.reads])

theorem StyleMap.fits {styles : StyleMap} (h : Dict.Sorted styles) (aside : Bool) :
    Fits (StyleMap.ofJson? aside) (StyleMap.toJson styles) styles :=
  fits_table h fun entry _ => StyleValue.fits entry.2 aside

theorem fits_width (maxWidth : Binary64) : Fits maxWidth? (widthJson maxWidth) maxWidth := by
  have hnumber : Fits asReal? (.number (.real maxWidth)) maxWidth := ⟨plain_number _, rfl⟩
  exact fits_record (by decide) (.single hnumber.plain) (required_written hnumber (by simp))

/-- A record that is just a text. -/
theorem fits_text_record {α : Type} (name s : String) (f : String → α) :
    Fits (fun j => do some (f (← required (← record? [name] j) name asString?)))
      (.object (field name (.string s))) (f s) := by
  refine fits_record (List.nodup_singleton _) (.single (plain_string s)) ?_
  exact bind_written (required_written (fits_string s) (by simp)) rfl

theorem StyleCondition.fits (condition : StyleCondition) (aside : Bool) :
    Fits (StyleCondition.ofJson? aside) condition.toJson condition := by
  cases condition with
  | elementState state =>
    have hstate := fits_text_record "content" state StyleCondition.elementState
    exact fits_tagged (by decide) (by decide) (.single (plain_string state)) hstate.reads
  | screenSize maxWidth =>
    have hwidth := fits_width maxWidth
    refine fits_tagged (by decide) (by decide) (.single hwidth.plain) ?_
    dsimp only
    rw [if_neg (by decide)]
    refine (fits_record (List.nodup_singleton _) (.single hwidth.plain) ?_).reads
    exact bind_written (required_written hwidth (by simp)) rfl


theorem StyleSource.fits {source : StyleSource} (h : source.Tidy) (aside : Bool) :
    Fits (StyleSource.ofJson? aside) source.toJson source := by
  cases source with
  | inlined conditions styles =>
    have hconditions := fits_items fun condition (_ : condition ∈ conditions) =>
      StyleCondition.fits condition true
    have hstyles := StyleMap.fits h true
    have hmembers : Members ["conditions", "styles"]
        [("conditions", .array (conditions.map (·.toJson))), ("styles", StyleMap.toJson styles)] :=
      (Members.single hconditions.plain).append (.single hstyles.plain)
    refine fits_tagged (by decide) (by decide) hmembers ?_
    dsimp only
    rw [if_pos rfl]
    refine (fits_record (by decide) hmembers ?_).reads
    refine bind_written (present_written hconditions (by simp)) ?_
    exact bind_written (present_written hstyles (by simp)) rfl
  | projectSet id =>
    refine fits_tagged (by decide) (by decide) (.single (plain_string id)) ?_
    exact (fits_text_record "referenceId" id StyleSource.projectSet).reads
  | componentSet id =>
    refine fits_tagged (by decide) (by decide) (.single (plain_string id)) ?_
    exact (fits_text_record "referenceId" id StyleSource.componentSet).reads

theorem ReferencedStyle.fits {s : ReferencedStyle} (h : s.content.Tidy) (aside : Bool) :
    Fits (ReferencedStyle.ofJson? aside) s.toJson s := by
  have hcontent := StyleSource.fits h aside
  refine fits_record (by decide) ((Members.single (plain_string s.id)).append
    (.single hcontent.plain)) ?_
  refine bind_written (required_written (fits_string s.id) (by simp)) ?_
  exact bind_written (required_written hcontent (by simp)) rfl

theorem StyleSetCondition.fits {condition : StyleSetCondition} (h : condition.Tidy) :
    Fits StyleSetCondition.ofJson? condition.toJson condition := by
  cases condition with
  | elementState state content =>
    have hcontent := StyleMap.fits h true
    have hstate : Fits (fun j => do required (← record? ["state"] j) "state" asString?)
        (.object [("state", .string state)]) state :=
      fits_record (by decide) (.single (plain_string state))
        (required_written (fits_string state) (by simp))
    have hmembers : Members ["meta", "content"] [("meta", _), ("content", _)] :=
      (Members.single hstate.plain).append (.single hcontent.plain)
    refine fits_tagged (by decide) (by decide) hmembers ?_
    refine (fits_record (by decide) hmembers ?_).reads
    rw [if_pos rfl]
    refine bind_written (required_written hstate (by simp)) ?_
    exact bind_written (present_written hcontent (by simp)) rfl
  | screenSize maxWidth content =>
    have hcontent := StyleMap.fits h true
    have hwidth := fits_width maxWidth
    have hmembers : Members ["meta", "content"] [("meta", _), ("content", _)] :=
      (Members.single hwidth.plain).append (.single hcontent.plain)
    refine fits_tagged (by decide) (by decide) hmembers ?_
    refine (fits_record (by decide) hmembers ?_).reads
    rw [if_neg (by decide)]
    refine bind_written (required_written hwidth (by simp)) ?_
    exact bind_written (present_written hcontent (by simp)) rfl

theorem StyleSet.fits {s : StyleSet} (h : s.Tidy) : Fits StyleSet.ofJson? s.toJson s := by
  have hcontent := StyleMap.fits h.1 false
  have hconditions := fits_items fun condition hcondition =>
    StyleSetCondition.fits (h.2 condition hcondition)
  refine fits_record (by decide) (((((Members.single (plain_string s.id)).append
    (.single (plain_string s.name))).append (.single (plain_string s.kind))).append
    (.single hcontent.plain)).append (.fieldItems hconditions.plain)) ?_
  refine bind_written (required_written (fits_string s.id) (by simp)) ?_
  refine bind_written (present_written (fits_string s.name) (by simp)) ?_
  refine bind_written (present_written (fits_string s.kind) (by simp)) ?_
  refine bind_written (present_written hcontent (by simp)) ?_
  exact bind_written (items_written hconditions (by simp)) rfl

theorem EventHandler.fits {handler : EventHandler} (h : handler.Tidy) :
    Fits EventHandler.ofJson? handler.toJson handler := by
  obtain ⟨kind, params⟩ := handler
  obtain ⟨hsorted, hparams⟩ := h
  have htable : Fits (table? value?) (.object (Dict.mapValues id params)) params :=
    fits_table hsorted fun p hp => ⟨(hparams p hp).2.plain, (hparams p hp).2.value?_eq⟩
  rw [Dict.mapValues_eq_self fun _ _ => rfl] at htable
  have hnames : ∀ p ∈ params, p.1 ≠ "type" := fun p hp => (hparams p hp).1
  have hkind : (("type", Json.string kind) :: params).filter (·.1 = "type")
      = [("type", .string kind)] := by
    rw [List.filter_cons_of_pos (by simp), List.filter_eq_nil_iff.2 (by simpa using hnames)]
  have hrest : (("type", Json.string kind) :: params).filter (·.1 ≠ "type") = params := by
    rw [List.filter_cons_of_neg (by simp), List.filter_eq_self.2 (by simpa using hnames)]
  constructor
  · refine plain_object.2 ⟨List.nodup_cons.2 ⟨fun hmem => ?_, hsorted.nodup_keys⟩,
      List.forall_mem_cons.2 ⟨plain_string kind, (plain_object.1 htable.plain).2⟩⟩
    obtain ⟨p, hp, hname⟩ := List.mem_map.1 hmem
    exact hnames p hp hname
  · rw [toJson, ofJson?]
    dsimp only
    rw [hkind, hrest]
    exact bind_written (fits_string kind).reads (bind_written htable.reads rfl)

theorem Condition.fits (c : Condition) : Fits Condition.ofJson? c.toJson c := by
  refine fits_record (by decide) ((Members.single (plain_string c.operation)).append
    (.field? fun operand _ => (Literal.fits operand).plain)) ?_
  refine bind_written (required_written (fits_string c.operation) (by simp)) ?_
  exact bind_written (optional_written c.operand (fun operand _ => Literal.fits operand)
    (fun operand _ => operand.toJson_ne_null) (by simp)) rfl

theorem ConditionGroup.fits (g : ConditionGroup) : Fits ConditionGroup.ofJson? g.toJson g := by
  have hconditions := fits_items fun condition (_ : condition ∈ g.conditions) =>
    Condition.fits condition
  refine fits_record (by decide) ((Members.single hconditions.plain).append .text?) ?_
  refine bind_written (present_written hconditions (by simp)) ?_
  exact bind_written (text_written g.criteria (by simp)) rfl

theorem RepetitionNames.fits (n : RepetitionNames) :
    Fits RepetitionNames.ofJson? n.toJson n := by
  refine fits_record (by decide) ((Members.text?.append .text?).append .flag) ?_
  refine bind_written (text_written n.source (by simp)) ?_
  refine bind_written (text_written n.iterator (by simp)) ?_
  exact bind_written (flag_written n.useIndex (by simp)) rfl

/-! ### Trees -/

theorem nodesJson_eq_map (nodes : List Node) : nodesJson nodes = nodes.map Node.toJson := by
  induction nodes with
  | nil => rfl
  | cons node rest ih => rw [nodesJson, ih, List.map_cons]

theorem attributesJson_eq_mapValues (attrs : List (String × Attribute)) :
    attributesJson attrs = Dict.mapValues Attribute.toJson attrs := by
  induction attrs with
  | nil => rfl
  | cons entry rest ih => rw [attributesJson, ih, Dict.mapValues_cons]

theorem fallbackJson_eq_field? (fallback : Option Node) :
    fallbackJson fallback = field? "fallback" Node.toJson fallback := by
  cases fallback <;> rfl

theorem abilitiesJson_eq_field? (abilities : Option Abilities) :
    abilitiesJson abilities = field? "abilities" Abilities.toJson abilities := by
  cases abilities <;> rfl

theorem Node.toJson_ne_null (node : Node) : node.toJson ≠ .null := by
  cases node <;> exact nofun

theorem Abilities.toJson_ne_null : (abilities : Abilities) → abilities.toJson ≠ .null
  | ⟨none⟩ => nofun
  | ⟨some _⟩ => nofun

theorem LinkAbility.toJson_ne_null (link : LinkAbility) : link.toJson ≠ .null := by
  cases link <;> exact nofun

theorem plain_textOrNull (text : Option String) : (textOrNull text).Plain := by
  cases text with
  | none => exact ⟨trivial, rfl⟩
  | some s => exact plain_string s

theorem textOrNull_written {members : List (String × Json)} {name : String} (text : Option String)
    (h : members.lookup name = some (textOrNull text)) :
    Json.optional members name asString? = some text := by
  rw [Json.optional, h]
  cases text <;> rfl

/-- What stands in a record is below a depth. -/
theorem below_of_depth {fuel : ℕ} {members : List (String × Json)} (name : String) {value : Json}
    (h : depth (.object members) < fuel + 1)
    (hvalue : members.lookup name = some value) : value.depth < fuel :=
  (depth_lt_of_lookup hvalue).trans_le (Nat.lt_succ_iff.1 h)

theorem content_below {fuel : ℕ} {kind : String} {content : Json}
    (h : (variant kind content).depth < fuel + 1) : content.depth < fuel := by
  rw [depth_variant] at h
  exact Nat.lt_of_succ_lt_succ h

mutual

theorem Node.fits (aside : Bool) : {fuel : ℕ} → (node : Node) → node.Tidy →
    node.toJson.depth < fuel → Fits (readNode aside fuel) node.toJson node
  | 0, _, _, hfuel => absurd hfuel (Nat.not_lt_zero _)
  | fuel + 1, .constant value, _, _ => by
    have hvalue := Literal.fits value
    exact fits_variant (by decide) hvalue.plain (by simp [hvalue.reads])
  | fuel + 1, .dynamic reference, _, _ => by
    have hreference := Reference.fits reference
    exact fits_variant (by decide) hreference.plain (by simp [hreference.reads])
  | fuel + 1, .raw text, _, _ => fits_variant (by decide) (plain_string text) rfl
  | fuel + 1, .inject text, _, _ => fits_variant (by decide) (plain_string text) rfl
  | fuel + 1, .expr text, _, _ => fits_variant (by decide) (plain_string text) rfl
  | fuel + 1, .slot content, htidy, hfuel => by
    have hcontent := content.fits aside htidy (content_below hfuel)
    exact fits_variant (by decide) hcontent.plain (by simp [hcontent.reads])
  | fuel + 1, .element content, htidy, hfuel => by
    have hcontent := content.fits aside htidy (content_below hfuel)
    exact fits_variant (by decide) hcontent.plain (by simp [hcontent.reads])
  | fuel + 1, .conditional content, htidy, hfuel => by
    have hcontent := content.fits aside htidy (content_below hfuel)
    exact fits_variant (by decide) hcontent.plain (by simp [hcontent.reads])
  | fuel + 1, .repetition content, htidy, hfuel => by
    have hcontent := content.fits aside htidy (content_below hfuel)
    exact fits_variant (by decide) hcontent.plain (by simp [hcontent.reads])

theorem Slot.fits (aside : Bool) : {fuel : ℕ} → (slot : Slot) → slot.Tidy →
    slot.toJson.depth < fuel → Fits (readSlot aside fuel) slot.toJson slot
  | 0, _, _, hfuel => absurd hfuel (Nat.not_lt_zero _)
  | fuel + 1, ⟨name, none⟩, _, _ => by
    rw [Slot.toJson, fallbackJson_eq_field?]
    refine fits_record (by decide) (Members.text?.append .none) ?_
    refine bind_written (text_written name (by simp)) ?_
    exact bind_written (absent_written (by simp)) rfl
  | fuel + 1, ⟨name, some node⟩, htidy, hfuel => by
    rw [Slot.toJson, fallbackJson_eq_field?] at hfuel ⊢
    have hnode := node.fits aside htidy (below_of_depth "fallback" hfuel (by simp))
    refine fits_record (by decide) (Members.text?.append (.single hnode.plain)) ?_
    refine bind_written (text_written name (by simp)) ?_
    exact bind_written (given_written hnode node.toJson_ne_null (by simp)) rfl

theorem Conditional.fits (aside : Bool) : {fuel : ℕ} → (q : Conditional) → q.Tidy →
    q.toJson.depth < fuel → Fits (readConditional aside fuel) q.toJson q
  | 0, _, _, hfuel => absurd hfuel (Nat.not_lt_zero _)
  | fuel + 1, ⟨node, reference, value, condition⟩, htidy, hfuel => by
    rw [Conditional.toJson] at hfuel ⊢
    have hnode := node.fits aside htidy.1 (below_of_depth "node" hfuel (by simp))
    have hreference := reference.fits aside htidy.2 (below_of_depth "reference" hfuel (by simp))
    refine fits_record (by decide) ((((Members.single hnode.plain).append
      (.single hreference.plain)).append (.field? fun value _ => (Literal.fits value).plain)).append
      (.field? fun condition _ => (ConditionGroup.fits condition).plain)) ?_
    refine bind_written (required_written hnode (by simp)) ?_
    refine bind_written (required_written hreference (by simp)) ?_
    refine bind_written (optional_written value (fun value _ => Literal.fits value)
      (fun value _ => value.toJson_ne_null) (by simp)) ?_
    exact bind_written (optional_written condition (fun group _ => ConditionGroup.fits group)
      (fun _ _ => nofun) (by simp)) rfl

theorem Repetition.fits (aside : Bool) : {fuel : ℕ} → (r : Repetition) → r.Tidy →
    r.toJson.depth < fuel → Fits (readRepetition aside fuel) r.toJson r
  | 0, _, _, hfuel => absurd hfuel (Nat.not_lt_zero _)
  | fuel + 1, ⟨node, source, names⟩, htidy, hfuel => by
    rw [Repetition.toJson] at hfuel ⊢
    have hnode := node.fits aside htidy.1 (below_of_depth "node" hfuel (by simp))
    have hsource := source.fits aside htidy.2 (below_of_depth "dataSource" hfuel (by simp))
    refine fits_record (by decide) (((Members.single hnode.plain).append
      (.single hsource.plain)).append (.single (RepetitionNames.fits names).plain)) ?_
    refine bind_written (required_written hnode (by simp)) ?_
    refine bind_written (required_written hsource (by simp)) ?_
    exact bind_written (present_written (RepetitionNames.fits names) (by simp)) rfl

theorem Element.fits (aside : Bool) : {fuel : ℕ} → (e : Element) → e.Tidy →
    e.toJson.depth < fuel → Fits (readElement aside fuel) e.toJson e
  | 0, _, _, hfuel => absurd hfuel (Nat.not_lt_zero _)
  | fuel + 1, ⟨key, elementType, name, semanticType, dependency, attrs, events, style,
      referencedStyles, abilities, children, selfClosing⟩,
      ⟨htables, hattrs, habilities, hchildren⟩, hfuel => by
    rw [Element.toJson, attributesJson_eq_mapValues, nodesJson_eq_map, abilitiesJson_eq_field?,
      eventsJson] at hfuel ⊢
    have hattrs : Fits (table? (readAttribute aside fuel))
        (.object (Dict.mapValues Attribute.toJson attrs)) attrs := by
      refine fits_table htables.attrs (attributesFit aside attrs hattrs fun entry hentry => ?_)
      refine (depth_lt_of_mem (Dict.mem_mapValues _ hentry)).trans
        (below_of_depth "attrs" hfuel ?_)
      simp [Dict.mapValues, List.ne_nil_of_mem hentry]
    have hchildren : Fits (items? (readNode aside fuel)) (.array (children.map Node.toJson))
        children := by
      refine fits_items (nodesFit aside children hchildren fun node hnode => ?_)
      refine (depth_lt_of_mem_items (List.mem_map_of_mem hnode)).trans
        (below_of_depth "children" hfuel ?_)
      simp [List.ne_nil_of_mem hnode]
    have habilities : ∀ a ∈ abilities, Fits (readAbilities aside fuel) a.toJson a := by
      refine abilitiesFit aside abilities habilities fun a ha => below_of_depth "abilities" hfuel ?_
      simp [Option.mem_def.1 ha]
    have hevents : Fits (table? (items? EventHandler.ofJson?)) (.object (Dict.mapValues
        (fun handlers => .array (handlers.map (·.toJson))) events)) events := by
      refine fits_table htables.events.1 fun entry hentry => fits_items fun handler hhandler => ?_
      exact EventHandler.fits (htables.events.2 entry hentry handler hhandler)
    have hreferenced := fits_table htables.referencedStyles.1 fun entry hentry =>
      ReferencedStyle.fits (htables.referencedStyles.2 entry hentry) aside
    have hstyle := StyleMap.fits htables.style aside
    refine fits_record (by decide) ((((((((((((Members.single (plain_string key)).append
      (.single (plain_string elementType))).append .text?).append .text?).append
      (.field? fun d _ => (Dependency.fits d).plain)).append (.fieldTable hattrs.plain)).append
      (.fieldTable hevents.plain)).append (.fieldTable hstyle.plain)).append
      (.fieldTable hreferenced.plain)).append (.field? fun a ha => (habilities a ha).plain)).append
      (.fieldItems hchildren.plain)).append .flag) ?_
    refine bind_written (present_written (fits_string key) (by simp)) ?_
    refine bind_written (required_written (fits_string elementType) (by simp)) ?_
    refine bind_written (text_written name (by simp)) ?_
    refine bind_written (text_written semanticType (by simp)) ?_
    refine bind_written (optional_written dependency (fun d _ => Dependency.fits d)
      (fun _ _ => nofun) (by simp)) ?_
    refine bind_written (table_written hattrs (by simp)) ?_
    refine bind_written (table_written hevents (by simp)) ?_
    refine bind_written (table_written hstyle (by simp)) ?_
    refine bind_written (table_written hreferenced (by simp)) ?_
    refine bind_written (optional_written abilities habilities
      (fun a _ => a.toJson_ne_null) (by simp)) ?_
    refine bind_written (items_written hchildren (by simp)) ?_
    exact bind_written (flag_written selfClosing (by simp)) rfl

theorem nodesFit (aside : Bool) {fuel : ℕ} : (nodes : List Node) → nodesTidy nodes →
    (∀ node ∈ nodes, node.toJson.depth < fuel) →
    ∀ node ∈ nodes, Fits (readNode aside fuel) node.toJson node
  | [], _, _ => List.forall_mem_nil _
  | node :: rest, htidy, hfuel =>
    have ⟨hnode, hrest⟩ := List.forall_mem_cons.1 hfuel
    List.forall_mem_cons.2 ⟨node.fits aside htidy.1 hnode, nodesFit aside rest htidy.2 hrest⟩

theorem attributesFit (aside : Bool) {fuel : ℕ} : (attrs : List (String × Attribute)) →
    attributesTidy attrs → (∀ entry ∈ attrs, entry.2.toJson.depth < fuel) →
    ∀ entry ∈ attrs, Fits (readAttribute aside fuel) entry.2.toJson entry.2
  | [], _, _ => List.forall_mem_nil _
  | (_, value) :: rest, htidy, hfuel =>
    have ⟨hvalue, hrest⟩ := List.forall_mem_cons.1 hfuel
    List.forall_mem_cons.2
      ⟨value.fits aside htidy.1 hvalue, attributesFit aside rest htidy.2 hrest⟩

theorem Attribute.fits (aside : Bool) : {fuel : ℕ} → (value : Attribute) → value.Tidy →
    value.toJson.depth < fuel → Fits (readAttribute aside fuel) value.toJson value
  | 0, _, _, hfuel => absurd hfuel (Nat.not_lt_zero _)
  | fuel + 1, .constant value, _, _ => by
    have hvalue := Literal.fits value
    exact fits_variant (by decide) hvalue.plain (by simp [hvalue.reads])
  | fuel + 1, .dynamic reference, _, _ => by
    have hreference := Reference.fits reference
    exact fits_variant (by decide) hreference.plain (by simp [hreference.reads])
  | fuel + 1, .raw text, _, _ => fits_variant (by decide) (plain_string text) rfl
  | fuel + 1, .expr text, _, _ => fits_variant (by decide) (plain_string text) rfl
  | fuel + 1, .imported id, _, _ => by
    have himported := fits_text_record "id" id Attribute.imported
    exact fits_variant (by decide) himported.plain himported.reads
  | fuel + 1, .object value, hstored, _ => by
    have hvalue := Json.Stored.value?_eq hstored
    exact fits_variant (by decide) hstored.plain (by simp [hvalue])
  | fuel + 1, .element content, htidy, hfuel => by
    have hcontent := content.fits aside htidy (content_below hfuel)
    exact fits_variant (by decide) hcontent.plain (by simp [hcontent.reads])

theorem abilitiesFit (aside : Bool) {fuel : ℕ} : (abilities : Option Abilities) →
    abilitiesTidy abilities → (∀ a ∈ abilities, a.toJson.depth < fuel) →
    ∀ a ∈ abilities, Fits (readAbilities aside fuel) a.toJson a
  | none, _, _ => nofun
  | some a, htidy, hfuel => by
    rintro _ ⟨⟩
    exact a.fits aside htidy (hfuel a rfl)

theorem Abilities.fits (aside : Bool) : {fuel : ℕ} → (abilities : Abilities) → abilities.Tidy →
    abilities.toJson.depth < fuel → Fits (readAbilities aside fuel) abilities.toJson abilities
  | 0, _, _, hfuel => absurd hfuel (Nat.not_lt_zero _)
  | fuel + 1, ⟨none⟩, _, _ => ⟨plain_object.2 ⟨.nil, List.forall_mem_nil _⟩, rfl⟩
  | fuel + 1, ⟨some link⟩, htidy, hfuel => by
    have hlink := link.fits aside htidy (below_of_depth "link" hfuel (by simp))
    refine fits_record (by decide) (.single hlink.plain) ?_
    exact bind_written (given_written hlink link.toJson_ne_null (by simp)) rfl

theorem LinkAbility.fits (aside : Bool) : {fuel : ℕ} → (link : LinkAbility) → link.Tidy →
    link.toJson.depth < fuel → Fits (readLink aside fuel) link.toJson link
  | 0, _, _, hfuel => absurd hfuel (Nat.not_lt_zero _)
  | fuel + 1, .url address newTab, htidy, hfuel => by
    have hdepth : address.toJson.depth < fuel :=
      (below_of_depth "url" ((content_below hfuel).trans (Nat.lt_succ_self fuel)) (by simp))
    have haddress := address.fits aside htidy hdepth
    have hmembers : Members ["url", "newTab"] [("url", address.toJson), ("newTab", .bool newTab)] :=
      (Members.single haddress.plain).append (.single (plain_bool newTab))
    refine fits_variant (by decide) (hmembers.plain_object (by decide)) ?_
    dsimp only
    rw [if_pos rfl]
    refine (fits_record (by decide) hmembers ?_).reads
    refine bind_written (required_written haddress (by simp)) ?_
    exact bind_written (present_written (fits_bool newTab) (by simp)) rfl
  | fuel + 1, .anchor id, _, _ => by
    have hrecord := fits_text_record "section" id LinkAbility.anchor
    exact fits_variant (by decide) hrecord.plain hrecord.reads
  | fuel + 1, .route name, _, _ => by
    have hrecord := fits_text_record "routeName" name LinkAbility.route
    exact fits_variant (by decide) hrecord.plain hrecord.reads
  | fuel + 1, .phone digits, _, _ => by
    have hrecord := fits_text_record "phone" digits LinkAbility.phone
    exact fits_variant (by decide) hrecord.plain hrecord.reads
  | fuel + 1, .mail address subject body, _, _ => by
    have hmembers : Members ["mail", "subject", "body"] [("mail", .string address),
        ("subject", textOrNull subject), ("body", textOrNull body)] :=
      ((Members.single (plain_string address)).append (.single (plain_textOrNull subject))).append
        (.single (plain_textOrNull body))
    refine fits_variant (by decide) (hmembers.plain_object (by decide)) ?_
    dsimp only
    rw [if_neg (by decide), if_neg (by decide), if_neg (by decide), if_pos rfl]
    refine (fits_record (by decide) hmembers ?_).reads
    refine bind_written (required_written (fits_string address) (by simp)) ?_
    refine bind_written (textOrNull_written subject (by simp)) ?_
    exact bind_written (textOrNull_written body (by simp)) rfl

end

/-! ## Components -/

theorem Default.fits {x : Default} (h : x.Tidy) : Fits Default.ofJson? x.toJson x := by
  cases x with
  | node content =>
    have hcontent := content.fits true h (Nat.lt_succ_self _)
    refine ⟨hcontent.plain, ?_⟩
    rw [toJson, ofJson?, if_pos hcontent.plain.readable, hcontent.reads]
  | value content =>
    obtain ⟨hstored, -, hnone⟩ := h
    refine ⟨hstored.plain, ?_⟩
    rw [toJson, ofJson?, if_pos hstored.plain.readable, hnone, hstored.canonical_eq]

theorem Default.toJson_ne_null {x : Default} (h : x.Tidy) : x.toJson ≠ .null := by
  cases x with
  | node content => exact content.toJson_ne_null
  | value content => exact h.2.1

theorem PropDefinition.fits {d : PropDefinition} (h : ∀ x ∈ d.default, x.Tidy) :
    Fits PropDefinition.ofJson? d.toJson d := by
  refine fits_record (by decide) (((Members.single (plain_string d.kind)).append
    (.field? fun x hx => (Default.fits (h x hx)).plain)).append .flag) ?_
  refine bind_written (required_written (fits_string d.kind) (by simp)) ?_
  refine bind_written (optional_written d.default (fun x hx => Default.fits (h x hx))
    (fun x hx => Default.toJson_ne_null (h x hx)) (by simp)) ?_
  exact bind_written (flag_written d.isRequired (by simp)) rfl

theorem StateDefinition.fits {d : StateDefinition} (h : ∀ x ∈ d.default, x.Tidy) :
    Fits StateDefinition.ofJson? d.toJson d := by
  refine fits_record (by decide) ((Members.single (plain_string d.kind)).append
    (.field? fun x hx => (Default.fits (h x hx)).plain)) ?_
  refine bind_written (required_written (fits_string d.kind) (by simp)) ?_
  exact bind_written (optional_written d.default (fun x hx => Default.fits (h x hx))
    (fun x hx => Default.toJson_ne_null (h x hx)) (by simp)) rfl

theorem MetaValue.fits : {value : MetaValue} → value.Tidy →
    Fits MetaValue.ofJson? value.toJson value
  | .text s, _ => ⟨plain_string s, rfl⟩
  | .attribute value, h => by
    have hvalue := value.fits true h (Nat.lt_succ_self _)
    have hread : MetaValue.ofJson? value.toJson = if value.toJson.readable then
        (readAttribute true (value.toJson.depth + 1) value.toJson).map MetaValue.attribute
        else none := by
      cases value <;> rfl
    refine ⟨hvalue.plain, ?_⟩
    rw [toJson, hread, if_pos hvalue.plain.readable, hvalue.reads, Option.map_some]

theorem HeadAsset.fits (a : HeadAsset) : Fits HeadAsset.ofJson? a.toJson a := by
  refine fits_record (by decide) ((Members.single (plain_string a.kind)).append
    (.single (plain_string a.path))) ?_
  refine bind_written (required_written (fits_string a.kind) (by simp)) ?_
  exact bind_written (required_written (fits_string a.path) (by simp)) rfl

theorem HeadContent.fits {head : HeadContent}
    (h : ∀ tag ∈ head.metaTags, Dict.Tidy MetaValue.Tidy tag) :
    Fits HeadContent.ofJson? head.toJson head := by
  have htags : Fits (items? (table? MetaValue.ofJson?))
      (.array (head.metaTags.map fun tag => .object (Dict.mapValues MetaValue.toJson tag)))
      head.metaTags :=
    fits_items fun tag htag => fits_table (h tag htag).1 fun entry hentry =>
      MetaValue.fits ((h tag htag).2 entry hentry)
  have hassets := fits_items fun asset (_ : asset ∈ head.assets) => HeadAsset.fits asset
  refine fits_record (by decide) ((Members.text?.append (.fieldItems htags.plain)).append
    (.fieldItems hassets.plain)) ?_
  refine bind_written (text_written head.title (by simp)) ?_
  refine bind_written (items_written htags (by simp)) ?_
  exact bind_written (items_written hassets (by simp)) rfl

theorem OutputNames.fits (o : OutputNames) : Fits OutputNames.ofJson? o.toJson o := by
  refine fits_record (by decide) ((((Members.text?.append .text?).append .text?).append
    .text?).append (.single (fits_texts o.folderPath).plain)) ?_
  refine bind_written (text_written o.className (by simp)) ?_
  refine bind_written (text_written o.fileName (by simp)) ?_
  refine bind_written (text_written o.styleFileName (by simp)) ?_
  refine bind_written (text_written o.templateFileName (by simp)) ?_
  exact bind_written (present_written (fits_texts o.folderPath) (by simp)) rfl

/-- The names of the members of a component. -/
def componentNames : List String := ["name", "node", "propDefinitions", "stateDefinitions",
  "styleSetDefinitions", "importDefinitions", "seo", "outputOptions"]

/-- Without the other name of the root node, nothing is renamed. -/
theorem renameRoot_eq {members : List (String × Json)} (h : "rootNode" ∉ Dict.keys members) :
    renameRoot (.object members) = .object members := by
  rw [renameRoot]
  congr 1
  refine (List.map_congr_left fun m hm => if_neg fun heq => h ?_).trans (List.map_id members)
  exact heq ▸ List.mem_map_of_mem hm

/-- A node is read from its canonical form, which has the content before the name. -/
theorem Node.ofJson?_canonical {node : Node} (h : node.Tidy) :
    Node.ofJson? node.toJson.canonical = some node := by
  have hnode := node.fits true h (Nat.lt_succ_self _)
  obtain ⟨kind, content, hvariant⟩ : ∃ kind content, node.toJson = variant kind content := by
    cases node <;> exact ⟨_, _, rfl⟩
  have haside : ∀ fuel, readNode false (fuel + 1) node.toJson.canonical
      = readNode true (fuel + 1) node.toJson.canonical := by
    intro fuel
    rw [hvariant, readNode, readNode, variant?_canonical]
  rw [ofJson?, haside, depth_canonical hnode.plain.noRepeats,
    (treeSteady _).node _ hnode.plain, hnode.reads]

namespace Component

/-- The members that are written for a component. -/
theorem exists_members {c : Component} (h : c.Tidy) : ∃ members, c.toJson = .object members ∧
    Members componentNames members ∧ members.lookup "node" = some c.node.toJson ∧
    ofJson? c.toJson = some c := by
  have hnode := c.node.fits false h.node (Nat.lt_succ_self _)
  have hprops := fits_table h.props.1 fun entry hentry =>
    PropDefinition.fits (h.props.2 entry hentry)
  have hstates := fits_table h.states.1 fun entry hentry =>
    StateDefinition.fits (h.states.2 entry hentry)
  have hsets := fits_table h.styleSets.1 fun entry hentry =>
    StyleSet.fits (h.styleSets.2 entry hentry)
  have himports := fits_table h.imports fun entry _ => Dependency.fits entry.2
  have hmembers : Members componentNames _ :=
    (((((((Members.field (plain_string c.name)).append (.field hnode.plain)).append
      (.fieldTable hprops.plain)).append (.fieldTable hstates.plain)).append
      (.fieldTable hsets.plain)).append (.fieldTable himports.plain)).append
      (.field? fun head hhead => (HeadContent.fits (h.head head hhead)).plain)).append
      (.field? fun o (_ : o ∈ c.output) => (OutputNames.fits o).plain)
  have hroot : "rootNode" ∉ Dict.keys _ := fun hmem =>
    absurd (hmembers.keys.subset hmem) (by decide)
  refine ⟨_, rfl, hmembers, by simp, ?_⟩
  rw [ofJson?, toJson, renameRoot_eq hroot]
  refine bind_written (record?_written (by decide) hmembers) ?_
  refine bind_written (required_written (fits_string c.name) (by simp)) ?_
  refine bind_written (required_written ⟨hnode.plain, hnode.reads⟩ (by simp)) ?_
  refine bind_written (table_written hprops (by simp)) ?_
  refine bind_written (table_written hstates (by simp)) ?_
  refine bind_written (table_written hsets (by simp)) ?_
  refine bind_written (table_written himports (by simp)) ?_
  refine bind_written (optional_written c.head
    (fun head hhead => HeadContent.fits (h.head head hhead)) (fun _ _ => nofun) (by simp)) ?_
  exact bind_written (optional_written c.output (fun o _ => OutputNames.fits o)
    (fun _ _ => nofun) (by simp)) rfl

/-- A component whose node is read from its canonical form is read from its own. -/
theorem ofJson?_canonical_eq {members : List (String × Json)}
    (hmembers : Members componentNames members)
    (hnode : ∀ node, members.lookup "node" = some node →
      Node.ofJson? node.canonical = Node.ofJson? node) :
    ofJson? (canonical (.object members)) = ofJson? (.object members) := by
  have hplain : Plain (.object members) := hmembers.plain_object (by decide)
  have hroot : "rootNode" ∉ Dict.keys members := fun hmem =>
    absurd (hmembers.keys.subset hmem) (by decide)
  obtain ⟨members', hcanonical, -, hperm⟩ := exists_canonical_object (plain_object.1 hplain).1
  have hroot' : "rootNode" ∉ Dict.keys members' := by
    rw [Dict.keys, (hperm.map Prod.fst).mem_iff, ← Dict.keys, Dict.keys_mapValues]
    exact hroot
  rw [ofJson?, ofJson?, hcanonical, renameRoot_eq hroot, renameRoot_eq hroot', ← hcanonical]
  have hwritten := record?_written (by decide) hmembers
  obtain ⟨hnone, -⟩ | ⟨m, m', hm, hm', hsame⟩ := record?_cases componentNames hplain
  · rw [hwritten] at hnone
    cases hnone
  · rw [hwritten] at hm
    cases hm
    have hnode : required m' "node" Node.ofJson? = required members "node" Node.ofJson? := by
      rw [required, required, hsame.lookup]
      cases hvalue : members.lookup "node" with
      | none => rfl
      | some node => exact hnode node hvalue
    rw [componentNames] at hm' hwritten
    rw [hm', hwritten]
    simp only [Option.bind_eq_bind, Option.bind_some, hsame.required asString?_steady, hnode,
      hsame.defaulted (table?_steady PropDefinition.ofJson?_steady),
      hsame.defaulted (table?_steady StateDefinition.ofJson?_steady),
      hsame.defaulted (table?_steady StyleSet.ofJson?_steady),
      hsame.defaulted (table?_steady Dependency.ofJson?_steady),
      hsame.optional HeadContent.ofJson?_steady, hsame.optional OutputNames.ofJson?_steady]

/-- **What is written of a tidy component is read as that component**, in the order of the
declaration and in canonical order. -/
theorem ofJson?_written {c : Component} (h : c.Tidy) :
    ofJson? c.toJson = some c ∧ ofJson? c.toJson.canonical = some c := by
  obtain ⟨members, hjson, hmembers, hlookup, hread⟩ := exists_members h
  refine ⟨hread, ?_⟩
  rw [hjson] at hread ⊢
  rw [ofJson?_canonical_eq hmembers fun node hnode => ?_, hread]
  cases hlookup.symm.trans hnode
  have hwritten := c.node.fits false h.node (Nat.lt_succ_self _)
  rw [Node.ofJson?_canonical h.node, Node.ofJson?, hwritten.reads]

end Component

end PageCompiler
