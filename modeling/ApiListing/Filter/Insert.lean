import ApiListing.Document.Walk
import ApiListing.Files.Tree
import ApiListing.Filter.Directive
import ApiListing.Listing

namespace ApiListing

structure InsertOptions where
  root : Text := ['.']
  language : String := "cs"
  scan : ScanOptions := {}
  deriving DecidableEq, Repr

namespace Files

def source (files : Files) (path : Text) : Except Error Text :=
  (files path).mapError (.unreadable path)

def listing (files : Files) (o : ScanOptions) (path label : Text) (m : Mode) : Except Error Text :=
  (files.source path).map fun source => Listing.ofSource o label source m

end Files

namespace InsertOptions

def listing? (o : InsertOptions) (files : Files) (d : Directive) : Except Error (Option Text) :=
  match Mode.ofName? d.mode with
  | none => .ok none
  | some m => (files.listing o.scan (Path.resolve o.root d.path) d.path m).map some

def resolve? (o : InsertOptions) (files : Files) (text : String) : Except Error (Option Block) :=
  match Directive.ofText? text.toList with
  | none => .ok none
  | some d => (o.listing? files d).map fun listing? =>
    listing?.map fun listing => .code (.ofClasses [o.language]) (String.ofList listing)

end InsertOptions

namespace Filter

/-- Puts listings in the place of directives: a raw block that holds one gives way to a code block
with the listing that it asks for. -/
def insertCode (o : InsertOptions) (files : Files) : Filter where
  State := Unit
  initial := ()
  action
    | .raw format text =>
      match o.resolve? files text with
      | .ok (some code) => return [code]
      | .ok none => return [.raw format text]
      | .error e => throw e
    | b => return [b]

end Filter

end ApiListing
