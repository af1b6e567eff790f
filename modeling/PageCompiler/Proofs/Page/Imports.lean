import PageCompiler.Page.Imports
import PageCompiler.Proofs.Dict

/-!
# What is imported

Every dependency that is imported by name gets a specifier in the declaration for its path. A path
has one place for a default, so of the dependencies that are imported as the default of one path
only the last one is imported at all.

* `get?_importGroups`: what is imported from a path.
* `nodup_importedNames`: no name is imported twice.
* `importStage_imports`: what the stage imports, and under which names.
-/

namespace PageCompiler

/-! ## Specifiers -/

namespace Dependency

/-- Whether a dependency is imported by name. -/
def isNamed (d : Dependency) : Bool := d.details.any (·.named)

/-- How a dependency is imported by name. -/
def specifier (name : String) (d : Dependency) : String := importSpecifier name (d.details.getD {})

end Dependency

/-- The name that a specifier binds stands behind its last space. -/
def boundName (specifier : String) : String :=
  String.ofList (specifier.toList.reverse.takeWhile (· ≠ ' ')).reverse

theorem boundName_specifier {name : String} (h : ' ' ∉ name.toList) (d : Dependency) :
    boundName (d.specifier name) = name := by
  have hname : ∀ c ∈ name.toList.reverse, decide (c ≠ ' ') = true := by
    intro c hc
    rw [decide_eq_true_eq]
    rintro rfl
    exact h (List.mem_reverse.1 hc)
  have hself : boundName name = name := by
    rw [boundName, List.takeWhile_eq_self_iff.2 hname, List.reverse_reverse, String.ofList_toList]
  rw [Dependency.specifier, importSpecifier]
  split
  · rename_i exported _
    split
    · exact hself
    · have hreverse : (exported ++ " as " ++ name).toList.reverse
          = name.toList.reverse ++ ' ' :: 's' :: 'a' :: ' ' :: exported.toList.reverse := by
        simp
      rw [boundName, hreverse, List.takeWhile_append_of_pos hname,
        List.takeWhile_cons_of_neg (by simp), List.append_nil, List.reverse_reverse,
        String.ofList_toList]
  · exact hself

/-! ## Groups -/

namespace ImportGroup

/-- The names that a declaration binds. -/
def names (g : ImportGroup) : List String := g.default.toList ++ g.named.map boundName

theorem add_eq (g : ImportGroup) (name : String) (d : Dependency) : g.add name d =
    if d.isNamed then
      if d.specifier name ∈ g.named then g else { g with named := g.named ++ [d.specifier name] }
    else { g with default := some name } := by
  rcases hdetails : d.details with _ | details
  · simp [add, Dependency.isNamed, hdetails]
  · simp [add, Dependency.isNamed, Dependency.specifier, hdetails]

/-- What is imported from the path of some dependencies. -/
def ofDependencies (entries : Dict Dependency) : ImportGroup :=
  entries.foldl (fun g entry => g.add entry.1 entry.2) {}

theorem ofDependencies_concat (entries : Dict Dependency) (entry : String × Dependency) :
    ofDependencies (entries ++ [entry]) = (ofDependencies entries).add entry.1 entry.2 := by
  rw [ofDependencies, List.foldl_append]
  rfl

/-- The default is the last one. -/
theorem default_ofDependencies (entries : Dict Dependency) : (ofDependencies entries).default =
    ((entries.filter fun entry => !entry.2.isNamed).getLast?).map (·.1) := by
  induction entries using List.reverseRecOn with
  | nil => rfl
  | append_singleton entries entry ih =>
    rw [ofDependencies_concat, add_eq, List.filter_append]
    by_cases hnamed : entry.2.isNamed
    · rw [if_pos hnamed, List.filter_cons_of_neg (by simp [hnamed]), List.filter_nil,
        List.append_nil, ← ih]
      split <;> rfl
    · rw [if_neg hnamed, List.filter_cons_of_pos (by simp [hnamed]), List.filter_nil,
        List.getLast?_concat]
      rfl

/-- The specifiers are those of the named ones, each once. -/
theorem named_ofDependencies (entries : Dict Dependency) :
    (ofDependencies entries).named.Nodup ∧ ∀ s, s ∈ (ofDependencies entries).named ↔
      ∃ entry ∈ entries, entry.2.isNamed ∧ entry.2.specifier entry.1 = s := by
  induction entries using List.reverseRecOn with
  | nil => exact ⟨.nil, fun s => iff_of_false nofun nofun⟩
  | append_singleton entries entry ih =>
    obtain ⟨hnodup, hmem⟩ := ih
    have hmem' : ∀ s, (∃ e ∈ entries ++ [entry], e.2.isNamed ∧ e.2.specifier e.1 = s) ↔
        s ∈ (ofDependencies entries).named ∨ entry.2.isNamed ∧ entry.2.specifier entry.1 = s := by
      intro s
      simp only [List.mem_append, List.mem_singleton, or_and_right, exists_or, exists_eq_left, hmem]
    rw [ofDependencies_concat, add_eq]
    by_cases hnamed : entry.2.isNamed
    · rw [if_pos hnamed]
      split
      · rename_i hin
        refine ⟨hnodup, fun s => ?_⟩
        rw [hmem']
        exact ⟨Or.inl, fun hs => hs.elim id fun ⟨_, heq⟩ => heq ▸ hin⟩
      · rename_i hout
        refine ⟨by simpa using hnodup.concat hout, fun s => ?_⟩
        rw [hmem']
        simp [hnamed, eq_comm]
    · rw [if_neg hnamed]
      refine ⟨hnodup, fun s => ?_⟩
      rw [hmem']
      simp [hnamed]

end ImportGroup

/-! ## Declarations -/

section Declarations

variable (dependencies : Dict Dependency) (origin : Origin) (localPrefix : Option String)

/-- A dependency of an origin is imported from a path. -/
structure ImportedFrom (path : String) (entry : String × Dependency) : Prop where
  mem : entry ∈ dependencies
  origin : entry.2.origin = origin
  path : entry.2.importPath localPrefix = path

/-- The dependencies of an origin that are imported from a path. -/
def importsFrom (path : String) : Dict Dependency :=
  (dependencies.filter (·.2.origin = origin)).filter (·.2.importPath localPrefix = path)

variable {dependencies origin localPrefix} {path : String}

theorem mem_importsFrom {entry : String × Dependency} :
    entry ∈ importsFrom dependencies origin localPrefix path ↔
      ImportedFrom dependencies origin localPrefix path entry := by
  rw [importsFrom, List.mem_filter, List.mem_filter, decide_eq_true_eq, decide_eq_true_eq]
  exact ⟨fun ⟨⟨hmem, horigin⟩, hpath⟩ => ⟨hmem, horigin, hpath⟩,
    fun h => ⟨⟨h.mem, h.origin⟩, h.path⟩⟩

variable (dependencies origin localPrefix)

theorem importGroups_eq : importGroups dependencies origin localPrefix =
    Dict.gather (fun entry : String × Dependency => entry.2.importPath localPrefix)
      (fun g entry => ImportGroup.add g entry.1 entry.2) {}
      (dependencies.filter (·.2.origin = origin)) := rfl

theorem sorted_importGroups : Dict.Sorted (importGroups dependencies origin localPrefix) := by
  rw [importGroups_eq]
  exact Dict.sorted_gather ..

/-- **What is imported from a path.** -/
theorem get?_importGroups (path : String) :
    Dict.get? (importGroups dependencies origin localPrefix) path =
      if importsFrom dependencies origin localPrefix path = [] then none
      else some (.ofDependencies (importsFrom dependencies origin localPrefix path)) := by
  rw [importGroups_eq, Dict.get?_gather]
  rfl

variable {dependencies origin localPrefix}

/-- There is a declaration for a path when something is imported from there. -/
theorem mem_importGroups_iff {g : ImportGroup} :
    (path, g) ∈ importGroups dependencies origin localPrefix ↔
      (∃ entry, ImportedFrom dependencies origin localPrefix path entry) ∧
        g = .ofDependencies (importsFrom dependencies origin localPrefix path) := by
  rw [← (sorted_importGroups dependencies origin localPrefix).get?_eq_some_iff, get?_importGroups,
    Option.ite_none_left_eq_some, Option.some_inj, eq_comm (b := g),
    List.eq_nil_iff_forall_not_mem]
  simp only [mem_importsFrom, not_forall, not_not]

/-- A dependency is hidden when one behind it takes its place: both are imported as the default of
one path. -/
def IsHidden (dependencies : Dict Dependency) (localPrefix : Option String)
    (entry : String × Dependency) : Prop :=
  ¬ entry.2.isNamed ∧ ∃ later,
    ImportedFrom dependencies entry.2.origin localPrefix (entry.2.importPath localPrefix) later ∧
      ¬ later.2.isNamed ∧ entry.1 < later.1

section Sorted

variable (hsorted : dependencies.Sorted) {g : ImportGroup}
  (hg : (path, g) ∈ importGroups dependencies origin localPrefix)
include hg

theorem mem_named_iff (s : String) : s ∈ g.named ↔ ∃ entry,
    ImportedFrom dependencies origin localPrefix path entry ∧ entry.2.isNamed ∧
      entry.2.specifier entry.1 = s := by
  rw [(mem_importGroups_iff.1 hg).2, (ImportGroup.named_ofDependencies _).2]
  simp only [mem_importsFrom]

include hsorted

/-- The default of a path is the last dependency that is imported as such. -/
theorem default_eq_some_iff (name : String) : g.default = some name ↔ ∃ d,
    ImportedFrom dependencies origin localPrefix path (name, d) ∧ ¬ d.isNamed ∧
      ¬ IsHidden dependencies localPrefix (name, d) := by
  have hdefaults := ((hsorted.filter fun e => e.2.origin = origin).filter
    fun e => e.2.importPath localPrefix = path).filter fun e => !e.2.isNamed
  rw [(mem_importGroups_iff.1 hg).2, ImportGroup.default_ofDependencies, importsFrom,
    Option.map_eq_some_iff]
  simp only [hdefaults.getLast?_eq_some_iff]
  rw [← importsFrom]
  simp only [List.mem_filter, mem_importsFrom, Bool.not_eq_true']
  constructor
  · rintro ⟨⟨name, d⟩, ⟨⟨himported, hdefault⟩, hlast⟩, rfl⟩
    refine ⟨d, himported, by simp [hdefault], fun ⟨_, later, hlater, hnamed, hlt⟩ => ?_⟩
    rw [himported.origin, himported.path] at hlater
    exact hlast later ⟨hlater, by simpa using hnamed⟩ hlt
  · rintro ⟨d, himported, hdefault, hshown⟩
    refine ⟨(name, d), ⟨⟨himported, by simpa using hdefault⟩, fun later hlater hlt => ?_⟩, rfl⟩
    refine hshown ⟨hdefault, later, ?_, by simp [hlater.2], hlt⟩
    rw [himported.origin, himported.path]
    exact hlater.1

variable (hnames : ∀ name ∈ Dict.keys dependencies, ' ' ∉ name.toList)
include hnames

omit hsorted in
theorem mem_map_boundName_iff (name : String) : name ∈ g.named.map boundName ↔ ∃ d,
    ImportedFrom dependencies origin localPrefix path (name, d) ∧ d.isNamed := by
  simp only [List.mem_map, mem_named_iff hg]
  constructor
  · rintro ⟨s, ⟨⟨name, d⟩, himported, hnamed, rfl⟩, rfl⟩
    rw [boundName_specifier (hnames name (List.mem_map_of_mem himported.mem))]
    exact ⟨d, himported, hnamed⟩
  · rintro ⟨d, himported, hnamed⟩
    exact ⟨_, ⟨_, himported, hnamed, rfl⟩,
      boundName_specifier (hnames name (List.mem_map_of_mem himported.mem)) d⟩

/-- The declaration for a path binds the names of the dependencies that are imported from there. -/
theorem mem_names_iff (name : String) : name ∈ g.names ↔
    ∃ d, ImportedFrom dependencies origin localPrefix path (name, d) ∧
      ¬ IsHidden dependencies localPrefix (name, d) := by
  rw [ImportGroup.names, List.mem_append, Option.mem_toList,
    default_eq_some_iff hsorted hg, mem_map_boundName_iff hg hnames]
  constructor
  · rintro (⟨d, himported, _, hshown⟩ | ⟨d, himported, hnamed⟩)
    · exact ⟨d, himported, hshown⟩
    · exact ⟨d, himported, fun hhidden => hhidden.1 hnamed⟩
  · rintro ⟨d, himported, hshown⟩
    by_cases hnamed : d.isNamed
    · exact Or.inr ⟨d, himported, hnamed⟩
    · exact Or.inl ⟨d, himported, hnamed, hshown⟩

/-- A declaration binds no name twice. -/
theorem nodup_names : g.names.Nodup := by
  have hspecifiers : ∀ s ∈ g.named, ∀ s' ∈ g.named, boundName s = boundName s' → s = s' := by
    intro s hs s' hs' heq
    obtain ⟨entry, himported, -, rfl⟩ := (mem_named_iff hg s).1 hs
    obtain ⟨entry', himported', -, rfl⟩ := (mem_named_iff hg s').1 hs'
    rw [boundName_specifier (hnames _ (List.mem_map_of_mem himported.mem)),
      boundName_specifier (hnames _ (List.mem_map_of_mem himported'.mem))] at heq
    rw [hsorted.eq_of_key himported.mem himported'.mem heq]
  have hnodup : g.named.Nodup := by
    rw [(mem_importGroups_iff.1 hg).2]
    exact (ImportGroup.named_ofDependencies _).1
  rw [ImportGroup.names, List.nodup_append']
  refine ⟨?_, hnodup.map_on hspecifiers, fun name hdefault hnamed => ?_⟩
  · cases g.default <;> simp
  · rw [Option.mem_toList, default_eq_some_iff hsorted hg] at hdefault
    rw [mem_map_boundName_iff hg hnames] at hnamed
    obtain ⟨d, himported, hd, -⟩ := hdefault
    obtain ⟨d', himported', hd'⟩ := hnamed
    obtain rfl := congrArg Prod.snd (hsorted.eq_of_key himported.mem himported'.mem rfl)
    exact hd hd'

end Sorted

end Declarations

/-- All names that are bound by import declarations. -/
def importedNames (dependencies : Dict Dependency) (localPrefix : Option String) : List String :=
  [Origin.library, .package, .project].flatMap fun origin =>
    (importGroups dependencies origin localPrefix).flatMap (·.2.names)

section Names

variable {dependencies : Dict Dependency} {localPrefix : Option String}

theorem mem_importedNames_iff (hsorted : dependencies.Sorted)
    (hnames : ∀ name ∈ Dict.keys dependencies, ' ' ∉ name.toList) (name : String) :
    name ∈ importedNames dependencies localPrefix ↔
      ∃ d, (name, d) ∈ dependencies ∧ ¬ IsHidden dependencies localPrefix (name, d) := by
  simp only [importedNames, List.mem_flatMap]
  constructor
  · rintro ⟨origin, -, ⟨path, g⟩, hg, hname⟩
    obtain ⟨d, himported, hshown⟩ := (mem_names_iff hsorted hg hnames name).1 hname
    exact ⟨d, himported.mem, hshown⟩
  · rintro ⟨d, hd, hshown⟩
    have himported : ImportedFrom dependencies d.origin localPrefix (d.importPath localPrefix)
        (name, d) := ⟨hd, rfl, rfl⟩
    have hg := mem_importGroups_iff.2 ⟨⟨_, himported⟩, rfl⟩
    refine ⟨d.origin, by cases d.origin <;> decide, (_, _), hg, ?_⟩
    exact (mem_names_iff hsorted hg hnames name).2 ⟨d, himported, hshown⟩

/-- **No name is imported twice.** -/
theorem nodup_importedNames (hsorted : dependencies.Sorted)
    (hnames : ∀ name ∈ Dict.keys dependencies, ' ' ∉ name.toList) :
    (importedNames dependencies localPrefix).Nodup := by
  -- a name belongs to one dependency, which has one origin and one path
  have hone : ∀ {origin origin' path path' g g' name},
      (path, g) ∈ importGroups dependencies origin localPrefix →
      (path', g') ∈ importGroups dependencies origin' localPrefix →
      name ∈ g.names → name ∈ g'.names → origin = origin' ∧ path = path' := by
    intro origin origin' path path' g g' name hg hg' hname hname'
    obtain ⟨d, himported, -⟩ := (mem_names_iff hsorted hg hnames name).1 hname
    obtain ⟨d', himported', -⟩ := (mem_names_iff hsorted hg' hnames name).1 hname'
    obtain rfl := congrArg Prod.snd (hsorted.eq_of_key himported.mem himported'.mem rfl)
    exact ⟨himported.origin.symm.trans himported'.origin, himported.path.symm.trans himported'.path⟩
  have hgroups : ∀ origin,
      ((importGroups dependencies origin localPrefix).flatMap (·.2.names)).Nodup := by
    intro origin
    refine List.nodup_flatMap.2 ⟨fun entry hentry => nodup_names hsorted hentry hnames, ?_⟩
    refine (sorted_importGroups dependencies origin localPrefix).imp_of_mem
      fun hentry hentry' hlt name hname hname' => ?_
    exact hlt.ne (hone hentry hentry' hname hname').2
  refine List.nodup_flatMap.2 ⟨fun origin _ => hgroups origin, ?_⟩
  refine List.Pairwise.imp (fun hne name hname hname' => ?_)
    (by decide : [Origin.library, .package, .project].Pairwise (· ≠ ·))
  obtain ⟨entry, hentry, hname⟩ := List.mem_flatMap.1 hname
  obtain ⟨entry', hentry', hname'⟩ := List.mem_flatMap.1 hname'
  exact hne (hone hentry hentry' hname hname').1

end Names

/-! ## The stage -/

/-- What a component depends on: what it imports, and what was noted for it, which decides. -/
def Compilation.dependencies (c : Compilation) : Dict Dependency :=
  Dict.merge c.component.imports c.context.dependencies

/-- The declarations for an origin: one for each path that something is imported from, with the last
dependency that is imported as the default, and with a specifier for each that is imported by name.
-/
structure DeclaresImports (dependencies : Dict Dependency) (origin : Origin)
    (localPrefix : Option String) (declarations : Dict ImportGroup) : Prop where
  sorted : declarations.Sorted
  paths : ∀ path, path ∈ Dict.keys declarations ↔
    ∃ entry, ImportedFrom dependencies origin localPrefix path entry
  default : ∀ path g, (path, g) ∈ declarations → ∀ name, g.default = some name ↔ ∃ d,
    ImportedFrom dependencies origin localPrefix path (name, d) ∧ ¬ d.isNamed ∧
      ¬ IsHidden dependencies localPrefix (name, d)
  named : ∀ path g, (path, g) ∈ declarations → g.named.Nodup ∧ ∀ s, s ∈ g.named ↔ ∃ entry,
    ImportedFrom dependencies origin localPrefix path entry ∧ entry.2.isNamed ∧
      entry.2.specifier entry.1 = s

section Stage

variable {dependencies : Dict Dependency} {origin : Origin} {localPrefix : Option String}

theorem importGroups_declaresImports (hsorted : dependencies.Sorted) :
    DeclaresImports dependencies origin localPrefix
      (importGroups dependencies origin localPrefix) where
  sorted := sorted_importGroups ..
  paths path := by
    rw [Dict.keys, List.mem_map]
    constructor
    · rintro ⟨⟨path, g⟩, hg, rfl⟩
      exact (mem_importGroups_iff.1 hg).1
    · exact fun himported => ⟨_, mem_importGroups_iff.2 ⟨himported, rfl⟩, rfl⟩
  default path g hg := default_eq_some_iff hsorted hg
  named path g hg := by
    refine ⟨?_, mem_named_iff hg⟩
    rw [(mem_importGroups_iff.1 hg).2]
    exact (ImportGroup.named_ofDependencies _).1

/-- There is no chunk for an origin without dependencies. -/
theorem importChunk?_eq_none_iff : importChunk? dependencies localPrefix origin = none ↔
    ∀ entry ∈ dependencies, entry.2.origin ≠ origin := by
  have hgroups : importGroups dependencies origin localPrefix = [] ↔
      ∀ entry ∈ dependencies, entry.2.origin ≠ origin := by
    rw [List.eq_nil_iff_forall_not_mem]
    constructor
    · intro hnone entry hentry horigin
      exact hnone _ (mem_importGroups_iff.2 ⟨⟨entry, hentry, horigin, rfl⟩, rfl⟩)
    · rintro hother ⟨path, g⟩ hg
      obtain ⟨⟨entry, himported⟩, -⟩ := mem_importGroups_iff.1 hg
      exact hother entry himported.mem himported.origin
  rw [← hgroups, importChunk?]
  simp

theorem importChunk?_eq_some {chunk : Chunk}
    (h : importChunk? dependencies localPrefix origin = some chunk) : chunk = {
      name := (importChunkNames origin).1
      kind := .script
      fileType := jsFile
      content := .parts
        ((importGroups dependencies origin localPrefix).map fun g => .script (g.2.source g.1))
      after := (importChunkNames origin).2 } := by
  rw [importChunk?] at h
  split at h
  · cases h
  · exact (Option.some.inj h).symm

end Stage

theorem foldl_push (chunks : List Chunk) (c : Context) :
    chunks.foldl (·.push ·) c = { c with chunks := c.chunks ++ chunks } := by
  induction chunks generalizing c with
  | nil => simp
  | cons chunk rest ih =>
    rw [List.foldl_cons, ih, Context.push, List.append_assoc]
    rfl

/-- **What the stage imports.** It adds a chunk for each origin that there are dependencies of, with
one declaration for each of their paths. Every dependency that is imported by name has its
specifier there, and the last one that is imported as the default is the default. So each name is
bound once, unless a later default of the same path hides it; then it is not bound at all. -/
theorem importStage_imports (c : Compilation) (himports : c.component.imports.Sorted)
    (hnoted : c.context.dependencies.Sorted)
    (hnames : ∀ name ∈ Dict.keys c.dependencies, ' ' ∉ name.toList) :
    importStage.run c = (.ok (), { c with
      context := { c.context with
        chunks := c.context.chunks ++ [Origin.library, .package, .project].filterMap
          (importChunk? c.dependencies c.options.localPrefix) } }) ∧
    (∀ name, Dict.get? c.dependencies name
      = (Dict.get? c.context.dependencies name).or (Dict.get? c.component.imports name)) ∧
    (∀ origin, (importChunk? c.dependencies c.options.localPrefix origin = none ↔
        ∀ entry ∈ c.dependencies, entry.2.origin ≠ origin) ∧
      DeclaresImports c.dependencies origin c.options.localPrefix
        (importGroups c.dependencies origin c.options.localPrefix) ∧
      ∀ chunk ∈ importChunk? c.dependencies c.options.localPrefix origin, chunk = {
        name := (importChunkNames origin).1
        kind := .script
        fileType := jsFile
        content := .parts ((importGroups c.dependencies origin c.options.localPrefix).map fun g =>
          .script (Script.importSource g.2.default g.2.named g.1))
        after := (importChunkNames origin).2 }) ∧
    (importedNames c.dependencies c.options.localPrefix).Nodup ∧
    ∀ name, name ∈ importedNames c.dependencies c.options.localPrefix ↔
      ∃ d, Dict.get? c.dependencies name = some d ∧
        ¬ IsHidden c.dependencies c.options.localPrefix (name, d) := by
  have hsorted : c.dependencies.Sorted := himports.merge _
  refine ⟨?_, Dict.get?_merge _ hnoted, fun origin => ⟨importChunk?_eq_none_iff,
    importGroups_declaresImports hsorted, fun chunk hchunk => importChunk?_eq_some hchunk⟩,
    nodup_importedNames hsorted hnames, fun name => ?_⟩
  · rw [importStage]
    dsimp only
    rw [foldl_push]
    rfl
  · rw [mem_importedNames_iff hsorted hnames]
    simp only [hsorted.get?_eq_some_iff]

/-- A dependency on a library. -/
def libraryPart (path : String) (details : Option ImportDetails) : Dependency :=
  { origin := .library, path, details }

/-- A component that imports a library and two of its parts, one under another name, and a component
of the project. -/
def reactCompilation : Compilation where
  component := {
    name := "Card"
    node := .raw ""
    imports := [("Button", { origin := .project, path := "./button" }),
      ("React", libraryPart "preact" none)] }
  options := { localPrefix := some "../components/" }
  context := { dependencies := [
    ("React", libraryPart "react" none),
    ("state", libraryPart "react" (some { named := true, exportedName := some "useState" })),
    ("useMemo", libraryPart "react" (some { named := true }))] }

theorem reactCompilation_imports :
    reactCompilation.component.imports.Sorted ∧ reactCompilation.context.dependencies.Sorted ∧
    (∀ name ∈ Dict.keys reactCompilation.dependencies, ' ' ∉ name.toList) ∧
    (importStage.run reactCompilation).2.context.chunks.map (·.content) =
      [.parts [.script "import React, \x7b useState as state, useMemo \x7d from 'react'"],
        .parts [.script "import Button from '../components/button'"]] ∧
    importedNames reactCompilation.dependencies (some "../components/")
      = ["React", "state", "useMemo", "Button"] ∧
    ¬ IsHidden reactCompilation.dependencies (some "../components/")
      ("React", libraryPart "react" none) := by
  have himports : reactCompilation.component.imports.Sorted := by decide
  have hnoted : reactCompilation.context.dependencies.Sorted := by decide
  have hnames : ∀ name ∈ Dict.keys reactCompilation.dependencies, ' ' ∉ name.toList := by
    decide +kernel
  obtain ⟨hrun, -, -, -, hbound⟩ := importStage_imports reactCompilation himports hnoted hnames
  refine ⟨himports, hnoted, hnames, ?_, by decide +kernel, ?_⟩
  · rw [hrun]
    rfl
  · obtain ⟨d, hd, hshown⟩ := (hbound "React").1 (by decide +kernel)
    cases hd
    exact hshown

/-- A component that imports two libraries from one path. -/
def sharedPath : Compilation where
  component := {
    name := "I"
    node := .raw ""
    imports := [("Button", libraryPart "ui" none), ("Card", libraryPart "ui" none)] }
  options := {}

/-- **Not every dependency is imported.** Of two that are the default of one path only the last one
is. -/
theorem sharedPath_hides :
    (¬ ∀ c : Compilation, c.component.imports.Sorted → c.context.dependencies.Sorted →
      (∀ name ∈ Dict.keys c.dependencies, ' ' ∉ name.toList) →
        ∀ name ∈ Dict.keys c.dependencies,
          name ∈ importedNames c.dependencies c.options.localPrefix) ∧
    (importStage.run sharedPath).2.context.chunks.map (·.content)
      = [.parts [.script "import Card from 'ui'"]] := by
  refine ⟨fun hall => ?_, rfl⟩
  have hbutton := hall sharedPath (by decide) (by decide) (by decide +kernel) "Button" (by decide)
  revert hbutton
  decide +kernel

end PageCompiler
