import PageCompiler.Json.Text
import PageCompiler.Page.Context

/-!
# The head of a page

The title, the meta tags and the links to files that a page asks for become a chunk of their
own, which comes before the chunk with the markup of the page.
-/

namespace PageCompiler

/-- The name of the chunk with the tags of the head. -/
def headChunkName : String := "html-head"

/-- The text of a value in a meta tag, if it has one: a reference to a prop stands for its plain
default. -/
def MetaValue.text? (c : Component) : MetaValue → Option String
  | .text s => some s
  | .attribute (.constant value) => some value.toJson.text
  | .attribute (.dynamic r) =>
    if r.scope = .prop then do
      let definition ← Dict.get? c.props r.id
      return (← (← definition.default).asValue?).text
    else none
  | .attribute _ => none

/-- The tag for the title. -/
def titleTag (title : String) : Tag := { name := "title", children := [.text title] }

/-- A meta tag. -/
def metaTag (c : Component) (values : Dict MetaValue) : Tag where
  name := "meta"
  attrs := values.filterMap fun entry => (entry.2.text? c).map fun s => (entry.1, s)

/-- The tag for a file. -/
def assetTag (a : HeadAsset) : Tag where
  name := "link"
  attrs := [("href", a.path), ("rel", a.kind)]

/-- The tags of the head: the title, the meta tags, the files. -/
def Component.headTags (c : Component) : List Tag :=
  match c.head with
  | some h => (h.title.map titleTag).toList ++ h.metaTags.map (metaTag c) ++ h.assets.map assetTag
  | none => []

/-- Add elements to the canvas; their pieces. -/
def Canvas.createAll (canvas : Canvas) : List Tag → List Piece × Canvas
  | [] => ([], canvas)
  | t :: rest =>
    let (id, canvas) := canvas.create t
    let (pieces, canvas) := canvas.createAll rest
    (.element id :: pieces, canvas)

/-- The stage that makes the tags of the head. -/
def headStage : Stage where
  name := "html-head"
  run := fun c =>
    let tags := c.component.headTags
    if tags.isEmpty then (.ok (), c)
    else
      let (pieces, canvas) := c.context.canvas.createAll tags
      let context := { c.context with canvas }.push {
        name := headChunkName
        kind := .markup
        fileType := htmlFile
        content := .parts (pieces.map .markup) }
      let context := context.modifyChunk templateChunkName fun chunk =>
        { chunk with after := chunk.after ++ [headChunkName] }
      (.ok (), { c with context })

end PageCompiler
