import PageCompiler.Document.Walk
import PageCompiler.Assets

/-!
# Styles

The conditional variants of styles are put into the order in which a stylesheet needs them:
those for a state of the element first, as they were written, then those for a width of the
screen, the widest first, so that the narrower ones come later and win. The addresses in style
values are placed by the asset rules.
-/

namespace PageCompiler

/-- The width that a style-set condition asks for, if it asks for one. -/
def StyleSetCondition.width? : StyleSetCondition → Option Binary64
  | .elementState _ _ => none
  | .screenSize maxWidth _ => some maxWidth

/-- The width that a style condition asks for, if it asks for one. -/
def StyleCondition.width? : StyleCondition → Option Binary64
  | .elementState _ => none
  | .screenSize maxWidth => some maxWidth

/-- At least as wide as another condition; one without a width is not compared. -/
def atLeastAsWide {α : Type} (width? : α → Option Binary64) (a b : α) : Bool :=
  match width? a, width? b with
  | some wa, some wb => !wa.lt wb
  | _, _ => true

/-- Conditions without a width first, then the others from wide to narrow; the order of
equal ones is kept. -/
def sortByWidth {α : Type} (width? : α → Option Binary64) (conditions : List α) : List α :=
  conditions.filter (fun c => (width? c).isNone)
    ++ (conditions.filter (fun c => (width? c).isSome)).mergeSort (atLeastAsWide width?)

/-- The conditions of a style set in the order of a stylesheet. -/
def sortStyleSetConditions (conditions : List StyleSetCondition) : List StyleSetCondition :=
  sortByWidth StyleSetCondition.width? conditions

/-- The conditions of a referenced style in the order of a stylesheet. -/
def sortStyleConditions (conditions : List StyleCondition) : List StyleCondition :=
  sortByWidth StyleCondition.width? conditions

/-- Place the addresses in a style value. -/
def StyleValue.place (assets : Assets) : StyleValue → StyleValue
  | .constant (.text s) => .constant (.text (assets.placeUrls s))
  | other => other

/-- Place the addresses in style values. -/
def StyleMap.place (assets : Assets) (styles : StyleMap) : StyleMap :=
  Dict.mapValues (StyleValue.place assets) styles

/-- Place the addresses in a conditional variant. -/
def StyleSetCondition.place (assets : Assets) : StyleSetCondition → StyleSetCondition
  | .elementState state content => .elementState state (content.place assets)
  | .screenSize maxWidth content => .screenSize maxWidth (content.place assets)

/-- A style set with sorted conditions and placed addresses. -/
def StyleSet.resolve (assets : Assets) (s : StyleSet) : StyleSet :=
  { s with
    content := s.content.place assets
    conditions := (sortStyleSetConditions s.conditions).map (·.place assets) }

/-- A referenced style with sorted conditions and placed addresses. -/
def ReferencedStyle.resolve (assets : Assets) (s : ReferencedStyle) : ReferencedStyle :=
  match s.content with
  | .inlined conditions styles =>
    { s with content := .inlined (sortStyleConditions conditions) (styles.place assets) }
  | _ => s

/-- An element with resolved styles. -/
def Element.resolveStyles (assets : Assets) (e : Element) : Element :=
  { e with
    style := e.style.place assets
    referencedStyles := Dict.mapValues (ReferencedStyle.resolve assets) e.referencedStyles }

end PageCompiler
