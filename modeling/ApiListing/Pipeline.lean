import ApiListing.Document.Encode
import ApiListing.Document.Reader
import ApiListing.Filter.DateStamp
import ApiListing.Filter.Headings
import ApiListing.Filter.Insert

namespace ApiListing

inductive FilterName where
  | compileDate
  | shiftHeadings
  | removeToc
  | insertCode
  deriving DecidableEq, Repr

namespace FilterName

def text : FilterName → Text
  | compileDate => "compile-date".toList
  | shiftHeadings => "shift-headings".toList
  | removeToc => "remove-toc".toList
  | insertCode => "insert-code".toList

/-- All filters, in the order in which they run if no others are asked for. -/
def all : List FilterName := [compileDate, shiftHeadings, removeToc, insertCode]

def ofText? (t : Text) : Option FilterName := all.find? fun n => n.text = t

end FilterName

structure Settings where
  insert : InsertOptions := {}
  date : Date
  filters : List FilterName := FilterName.all
  deriving DecidableEq, Repr

namespace Settings

def filter (s : Settings) (files : Files) : FilterName → Filter
  | .compileDate => .compileDate s.date
  | .shiftHeadings => .shiftHeadings
  | .removeToc => .removeToc
  | .insertCode => .insertCode s.insert files

def applyAll (s : Settings) (files : Files) : List FilterName → EStateM Error Document Unit
  | [] => return ()
  | n :: ns => do
    (s.filter files n).apply
    s.applyAll files ns

def run (s : Settings) (files : Files) (d : Document) : Except Error Document :=
  match s.applyAll files s.filters d with
  | .ok _ d => .ok d
  | .error e _ => .error e

end Settings

namespace Document

def read (source : Json.Source) (input : Json.Bytes) : Except Error Document :=
  (ofBytes input).mapError (.ofFault source input)

end Document

namespace Settings

def runStream (s : Settings) (files : Files) (input : Json.Bytes) : Except Error Text := do
  let d ← Document.read .stream input
  return (← s.run files d).text

end Settings

end ApiListing
