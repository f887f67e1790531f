import ApiListing.Document.Schema
import ApiListing.Json.Writer

namespace ApiListing

namespace Attr

def toJson (a : Attr) : Json :=
  .arr [.str a.identifier, .arr (a.classes.map .str),
    .arr (a.pairs.map fun p => .arr [.str p.1, .str p.2])]

end Attr

def taggedJson (tag : Tag) (content : Json) : Json := .obj [("t", .str tag.name), ("c", content)]

mutual

def Block.toJson : Block → Json
  | .header level attr inlines =>
    taggedJson .header (.arr [.int level, attr.toJson, .arr inlines])
  | .raw format text => taggedJson .raw (.arr [.str format, .str text])
  | .code attr text => taggedJson .code (.arr [attr.toJson, .str text])
  | .container kind content => taggedJson (.container kind) content.toJson
  | .other value => value

def Content.toJson : Content → Json
  | .value v => v
  | .blocks bs => .arr (Block.toItems bs)
  | .list cs => .arr (Content.toItems cs)

def Block.toItems : List Block → List Json
  | [] => []
  | b :: bs => b.toJson :: Block.toItems bs

def Content.toItems : List Content → List Json
  | [] => []
  | c :: cs => c.toJson :: Content.toItems cs

end

namespace Document

def toJson (d : Document) : Json :=
  .obj [("pandoc-api-version", .arr (d.apiVersion.map fun (n : Nat) => .int n)),
    ("meta", .obj d.metadata), ("blocks", .arr (Block.toItems d.blocks))]

def text (d : Document) : Text := d.toJson.text

end Document

end ApiListing
