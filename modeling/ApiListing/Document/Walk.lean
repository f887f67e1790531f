import ApiListing.Document.Basic
import ApiListing.Error

namespace ApiListing

/-- What a walk does with a block: it answers with the blocks that take its place. It may keep a
state and may stop the walk. -/
abbrev Action (σ : Type) := Block → EStateM Error σ (List Block)

namespace Action

def keep {σ : Type} : Action σ := fun b => return [b]

end Action

variable {σ : Type}

mutual

/-- Every block is offered to the action once, those that it holds before the block itself, in the
order of the document. The answers are not offered again. -/
def walkBlocks (act : Action σ) : List Block → EStateM Error σ (List Block)
  | [] => return []
  | b :: bs => do
    let inPlace ← act (← walkInside act b)
    return inPlace ++ (← walkBlocks act bs)

def walkInside (act : Action σ) : Block → EStateM Error σ Block
  | .container kind content => return .container kind (← walkContent act content)
  | .header level attr inlines => return .header level attr inlines
  | .raw format text => return .raw format text
  | .code attr text => return .code attr text
  | .other value => return .other value

def walkContent (act : Action σ) : Content → EStateM Error σ Content
  | .value v => return .value v
  | .blocks bs => return .blocks (← walkBlocks act bs)
  | .list cs => return .list (← walkContents act cs)

def walkContents (act : Action σ) : List Content → EStateM Error σ (List Content)
  | [] => return []
  | c :: cs => do
    let c ← walkContent act c
    return c :: (← walkContents act cs)

end

/-- A change of documents: a preparation and then a walk. During the walk the document has no
blocks, but its metadata can be read and changed. -/
structure Filter where
  State : Type
  initial : State
  prepare : Document → Document := id
  action : Action (State × Document)

namespace Filter

/-- Applies a filter. When it stops, the document is left without blocks. -/
def apply (f : Filter) : EStateM Error Document Unit := fun d =>
  let d := f.prepare d
  match walkBlocks f.action d.blocks (f.initial, { d with blocks := [] }) with
  | .ok blocks (_, d) => .ok () { d with blocks := blocks }
  | .error e (_, d) => .error e d

end Filter

end ApiListing
