import ApiListing.Json.Basic

namespace ApiListing

structure Attr where
  identifier : String
  classes : List String
  pairs : List (String × String)
  deriving DecidableEq, Repr

namespace Attr

def ofClasses (classes : List String) : Attr := ⟨"", classes, []⟩

end Attr

inductive Container where
  | blockQuote
  | div
  | bulletList
  | orderedList
  | definitionList
  | figure
  | table
  deriving DecidableEq, Repr

mutual

/-- Of the blocks only those are told apart that a filter asks for or looks into; all others, and
everything inside a block that is no block list, stay JSON. -/
inductive Block where
  | header (level : Nat) (attr : Attr) (inlines : List Json)
  | raw (format text : String)
  | code (attr : Attr) (text : String)
  | container (kind : Container) (content : Content)
  | other (value : Json)

/-- What a container holds: a tree whose leaves are JSON values and lists of blocks, in the order in
which a reader meets them. -/
inductive Content where
  | value (v : Json)
  | blocks (bs : List Block)
  | list (cs : List Content)

end

structure Document where
  apiVersion : List Nat
  /-- The metadata, sorted by key. -/
  metadata : List (String × Json)
  blocks : List Block

namespace Block

def isList : Block → Bool
  | container .bulletList _ => true
  | container .orderedList _ => true
  | _ => false

end Block

namespace Document

def metaString (text : String) : Json := .obj [("c", .str text), ("t", .str "MetaString")]

def setMetaString (key text : String) (d : Document) : Document :=
  { d with metadata := Json.setField key (metaString text) d.metadata }

def metaValue? (key : String) (d : Document) : Option Json :=
  (d.metadata.find? fun f => f.1 = key).map Prod.snd

def metaString? (key : String) (d : Document) : Option String := do
  let value ← d.metaValue? key
  let tag ← (← value.get? "t").str?
  if tag = "MetaString" then (← value.get? "c").str? else none

end Document

end ApiListing
