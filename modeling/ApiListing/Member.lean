import ApiListing.Braces.Basic
import ApiListing.Declaration.Match

namespace ApiListing

structure ScanOptions where
  hideMarkers : List Text := ["[MoonSharpVisible(false)]".toList]
  boundary : Boundary := .indentation
  deriving DecidableEq, Repr

namespace ScanOptions

def isMarker (o : ScanOptions) (line : Text) : Bool :=
  (o.hideMarkers.map Text.trim).contains (Text.trim line)

end ScanOptions

structure Member where
  declaration : Declaration
  braces? : Option Braces
  deriving DecidableEq, Repr

namespace Member

def text (m : Member) : Text := m.declaration.text ++ (m.braces?.map Braces.text).getD []

/-- The member that `t` begins with, where `t` is the source from the start of a line on and
`above?` is the line above. A marked declaration is none, and neither is the definition of a
type, whose own members follow on later lines. -/
def read? (o : ScanOptions) (above? : Option Text) (t : Text) : Option Member := do
  let (d, _) ← Declaration.read? (Text.firstLine t)
  if above?.any o.isMarker || d.head.isTypeDefinition then none
  else some ⟨d, Braces.after? o.boundary d.indent (t.drop d.text.length)⟩

end Member

end ApiListing
