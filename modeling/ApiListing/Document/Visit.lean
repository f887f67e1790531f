import ApiListing.Document.Walk

namespace ApiListing

structure Visit where
  block : Block
  blocks : List Block

namespace Filter

def recorder : Filter where
  State := List Visit
  initial := []
  action b := do
    modify fun (seen, d) => (seen ++ [⟨b, d.blocks⟩], d)
    return [b]

def splitRaw (mark : Text) : Filter where
  State := Unit
  initial := ()
  action
    | .raw _ text =>
      return (Text.parts mark text.toList).map fun t => .code (.ofClasses []) (String.ofList t)
    | b => return [b]

end Filter

namespace Document

def visits (d : Document) : List Visit :=
  match walkBlocks Filter.recorder.action d.blocks ([], { d with blocks := [] }) with
  | .ok _ (seen, _) => seen
  | .error _ (seen, _) => seen

end Document

end ApiListing
