import ApiListing.Scan

namespace ApiListing

inductive Mode where
  | methods
  | attributes
  | enums
  deriving DecidableEq, Repr

namespace Mode

def name : Mode → Text
  | methods => "ClassMethods".toList
  | attributes => "ClassAttributes".toList
  | enums => "Enum".toList

def all : List Mode := [methods, attributes, enums]

def ofName? (name : Text) : Option Mode := all.find? fun m => m.name = name

def kind : Mode → Kind
  | methods => .method
  | attributes => .property
  | enums => .enum

end Mode

namespace Record

def shownBlock (block : Text) : Text :=
  let inside := Text.collapse block
  if inside = [] then " \x7b \x7d".toList else " \x7b ".toList ++ inside ++ " \x7d".toList

def constants (block : Text) : List Text :=
  ((Text.lines block).map Text.trim).filter fun l => !l.isEmpty

/-- What a listing shows of a record besides its summary. An enum shows the lines of its block, so
it needs one. -/
def body? (r : Record) : Mode → Option (List Text)
  | .methods => some [r.declaration ++ [';']]
  | .attributes => some [r.declaration ++ (r.block?.map shownBlock).getD []]
  | .enums => r.block?.map constants

def summaryLines (r : Record) : List Text := (r.summary?.map ("// ".toList ++ ·)).toList

def entry? (r : Record) (m : Mode) : Option (List Text) :=
  if r.kind = m.kind then
    (r.body? m).bind fun body =>
      match r.summaryLines ++ body with
      | [] => none
      | lines => some lines
  else none

end Record

namespace Listing

def label : Text → Text
  | '.' :: '/' :: t => label t
  | t => t

/-- The sections of a listing: a header with the name of the source, then one entry for each record
of the kind that is asked for. -/
def sections (path : Text) (records : List Record) (m : Mode) : List Text :=
  ("// ".toList ++ label path) ::
    (records.filterMap fun r => r.entry? m).map (Text.join ['\n'])

def render (path : Text) (records : List Record) (m : Mode) : Text :=
  Text.join "\n\n".toList (sections path records m)

def ofSource (o : ScanOptions) (path source : Text) (m : Mode) : Text :=
  render path (scan o source) m

end Listing

end ApiListing
