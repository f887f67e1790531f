import ApiListing.Text.Letter
import ApiListing.Text.Blank

namespace ApiListing

/-- A comment at the start of a raw block that asks for a listing, such as `<!-- insertEnum,
src/Color.cs -->`. Its mode need not be known, its path is kept as it is written, and each of the
three spaces may be left out. -/
structure Directive where
  mode : Text
  path : Text
  deriving DecidableEq, Repr

namespace Directive

def closing : Text := "-->".toList

def stripSpace : Text → Text
  | ' ' :: t => t
  | t => t

def beforeClosing? (run : Text) : Option Text :=
  ((List.range run.length).reverse.find? fun n =>
    n ≠ 0 && closing.isPrefixOf (run.drop n)).map run.take

/-- The path of a directive and its end. The path is as long as it can be, so it ends before a space
and a closing mark if these follow its characters, else at the last closing mark among them. -/
def path? (t : Text) : Option Text :=
  let run := t.takeWhile fun c => !Text.isSpace c
  if run ≠ [] && (' ' :: closing).isPrefixOf (t.drop run.length) then some run
  else beforeClosing? run

def ofText? (t : Text) : Option Directive := do
  let t ← Text.stripPrefix? "<!--".toList t
  let t ← Text.stripPrefix? "insert".toList (stripSpace t)
  let mode := t.takeWhile Text.isWordChar
  if mode = [] then none
  else
    let t ← Text.stripPrefix? [','] (t.dropWhile Text.isWordChar)
    return ⟨mode, ← path? (stripSpace t)⟩

end Directive

end ApiListing
