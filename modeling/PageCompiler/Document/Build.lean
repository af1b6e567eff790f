import PageCompiler.Document.Basic
import PageCompiler.Text.Casing

/-!
# Building documents

Short forms for the parts of a document that are put together by hand or by a step of the
compilation.
-/

namespace PageCompiler

/-- An element keyed and named after its type. -/
def Element.plain (elementType : String) : Element where
  key := elementType
  elementType := elementType
  name := some elementType

/-- The dependency on another component of the same project. -/
def Dependency.ofComponent (name : String) : Dependency where
  origin := .project
  path := "./" ++ dashCase name

/-- An element that stands for another component of the project. -/
def Element.ofComponent (name key : String) : Element where
  key := key
  elementType := "component"
  name := some name
  semanticType := some name
  dependency := some (.ofComponent name)

/-- A text as a node. -/
def Node.text (s : String) : Node := .constant (.text s)

/-- A text as an attribute. -/
def Attribute.text (s : String) : Attribute := .constant (.text s)

/-- A text as a style value. -/
def StyleValue.text (s : String) : StyleValue := .constant (.text s)

/-- A component that is just a tree. -/
def Component.ofNode (name : String) (node : Node) : Component where
  name := name
  node := node

end PageCompiler
