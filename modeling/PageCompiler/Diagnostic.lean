import PageCompiler.Document.Writer
import PageCompiler.Json.Printer

/-!
# Diagnostics

Everything that can keep a component from being compiled, by cause. Each cause has a stable
code and a message. Two of them come from how a generator was put together and not from the
documents (`isConfiguration`).

The message about a doubled key shows the element that was to be added and the one that is
there; the messages about references and nodes show the piece of the document they are about.
-/

namespace PageCompiler

/-- What a name stands for. -/
inductive NameRole where
  | className
  | prop
  | state
  deriving DecidableEq, Inhabited, Repr

/-- The word for what a name stands for. -/
def NameRole.word : NameRole → String
  | .className => "class"
  | .prop => "prop"
  | .state => "state"

/-- Where a definition was looked for. -/
inductive DefinitionPlace where
  | props
  | states
  /-- A meta tag of the head refers to it. -/
  | metaTag
  deriving DecidableEq, Inhabited, Repr

/-- The word for where a definition was looked for. -/
def DefinitionPlace.word : DefinitionPlace → String
  | .props => "prop"
  | .states => "state"
  | .metaTag => "meta tag"

/-- Why a component cannot be compiled. -/
inductive Diagnostic where
  /-- The target does not allow a name. -/
  | illegalName (component : String) (role : NameRole) (name : String)
  /-- Two elements of a page have one key; their markup is `received` and `existing`. -/
  | duplicateKey (key : String) (hierarchy : List String) (received : String)
      (element : Element) (existing : String)
  /-- A component refers to another one that is not registered. -/
  | missingExternal (name : String)
  /-- A reference names a definition that does not exist. -/
  | missingDefinition (id : String) (place : DefinitionPlace)
  /-- A referenced definition has no default. -/
  | missingDefault (id kind : String)
  /-- A reference looks its value up in something a page does not have. -/
  | unresolvable (reference : Reference)
  /-- A referenced definition is of an unknown kind. -/
  | unsupportedKind (reference : Reference) (kind : String)
  /-- An instance is given a reference that cannot be handed on. -/
  | unforwardable (reference : Reference)
  /-- A page cannot show a node. -/
  | unsupportedNode (node : Node)
  /-- An instance is given an object for one of its states. -/
  | objectForState (name : String)
  /-- Two repetitions have one data source identifier. -/
  | duplicateDataSource (component identifier : String)
  /-- No printer is registered for a kind of chunk. -/
  | unknownChunkKind (kind : String)
  /-- A chunk is needed that no stage has made. -/
  | missingChunk (name : String)
  /-- A text or value does not read as a document. -/
  | unreadable
  /-- The document leads back into itself. -/
  | endless
  deriving BEq, Repr

namespace Diagnostic

/-- The stable code of a cause. -/
def code : Diagnostic → String
  | illegalName .. => "UIDL001"
  | duplicateKey .. => "UIDL002"
  | missingExternal .. => "UIDL003"
  | missingDefinition .. => "UIDL004"
  | missingDefault .. => "UIDL005"
  | unresolvable .. | unsupportedKind .. | unforwardable .. => "UIDL006"
  | unsupportedNode .. => "UIDL007"
  | objectForState .. => "UIDL008"
  | duplicateDataSource .. => "UIDL009"
  | unknownChunkKind .. => "UIDL010"
  | missingChunk .. => "UIDL011"
  | unreadable => "UIDL012"
  | endless => "UIDL013"

/-- Whether the cause lies in how a generator was put together. -/
def isConfiguration : Diagnostic → Bool
  | unknownChunkKind .. | missingChunk .. => true
  | _ => false

/-- The name of a scope at the start of a sentence. -/
def scopeTitle : Scope → String
  | .prop => "Prop"
  | .state => "State"
  | .iterator => "Local"
  | .attr => "Attr"
  | .children => "Children"
  | .token => "Token"
  | .locale => "Locale"

/-- The message about a reference. -/
def referenceMessage (reference : Reference) (reason : String) : String :=
  "Reference '" ++ reference.id ++ "' is not supported here: " ++ reason ++ "\n"
    ++ reference.toJson.pretty

/-- The message for a reader of the documents. -/
def message : Diagnostic → String
  | illegalName component role name =>
    "Illegal " ++ role.word ++ " name '" ++ name ++ "' in component '" ++ component ++ "'"
  | duplicateKey key hierarchy received element existing =>
    "Duplicate key '" ++ key ++ "' found in nodes lookup. Hierarchy: "
      ++ " -> ".intercalate hierarchy ++ "\nReceived\n" ++ received ++ "\n"
      ++ element.toJson.pretty ++ "\nExisting\n" ++ existing
  | missingExternal name => name ++ " is missing from externals"
  | missingDefinition id place =>
    "Definition for " ++ id ++ " is missing from " ++ place.word ++ " definitions"
  | missingDefault id kind => "Default value is missing for " ++ id ++ " of type " ++ kind
  | unresolvable reference =>
    referenceMessage reference
      (scopeTitle reference.scope ++ " references cannot be resolved in html")
  | unsupportedKind reference kind =>
    referenceMessage reference ("dynamic value has unsupported type " ++ kind)
  | unforwardable reference =>
    referenceMessage reference
      (scopeTitle reference.scope ++ " references cannot be forwarded in html")
  | unsupportedNode node =>
    "Node of type '" ++ node.kind ++ "' is not supported by the html target\n"
      ++ node.toJson.pretty
  | objectForState name =>
    "Attribute '" ++ name ++ "' is not supported: object attributes cannot seed state in html"
  | duplicateDataSource component identifier =>
    "Data source '" ++ identifier ++ "' is used by more than one repeat node in '"
      ++ component ++ "'"
  | unknownChunkKind kind => "Attempted to generate unknown type " ++ kind
  | missingChunk name => "Chunk '" ++ name ++ "' is required but was not produced"
  | unreadable => "The document cannot be read"
  | endless => "The document leads back into itself"

end Diagnostic

end PageCompiler
