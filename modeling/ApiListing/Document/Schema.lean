import ApiListing.Document.Basic

namespace ApiListing

/-- The shape of a content in JSON: where in a container block lists stand, and which other values
the container needs to be recognised. -/
inductive Schema where
  | value
  | text
  | count
  | blocks
  | list (item : Schema)
  | tuple (items : List Schema)

namespace Schema

def attr : Schema := tuple [text, list text, list (tuple [text, text])]

def caption : Schema := tuple [value, blocks]

def cell : Schema := tuple [attr, value, count, count, blocks]

def row : Schema := tuple [attr, list cell]

def rows : Schema := tuple [attr, list row]

def body : Schema := tuple [attr, value, list row, list row]

end Schema

namespace Container

open Schema in
def schema : Container → Schema
  | blockQuote => blocks
  | div => tuple [attr, blocks]
  | bulletList => list blocks
  | orderedList => tuple [value, list blocks]
  | definitionList => list (tuple [list value, list blocks])
  | figure => tuple [attr, caption, blocks]
  | table => tuple [attr, caption, list value, rows, list body, rows]

end Container

inductive Tag where
  | header
  | raw
  | code
  | container (kind : Container)
  deriving DecidableEq, Repr

namespace Tag

/-- All kinds. A kind can be written as its place in this list. -/
def all : List Tag :=
  [header, raw, code, container .blockQuote, container .div, container .bulletList,
    container .orderedList, container .definitionList, container .figure, container .table]

def name : Tag → String
  | header => "Header"
  | raw => "RawBlock"
  | code => "CodeBlock"
  | container .blockQuote => "BlockQuote"
  | container .div => "Div"
  | container .bulletList => "BulletList"
  | container .orderedList => "OrderedList"
  | container .definitionList => "DefinitionList"
  | container .figure => "Figure"
  | container .table => "Table"

def ofName? (name : String) : Option Tag := all.find? fun t => t.name = name

end Tag

end ApiListing
