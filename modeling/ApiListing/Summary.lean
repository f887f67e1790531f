import ApiListing.Text.Blank

namespace ApiListing.Summary

def marker : Text := "///".toList

def openingTag : Text := "<summary>".toList

def closingTag : Text := "</summary>".toList

def isDocLine (line : Text) : Bool := marker.isPrefixOf (Text.trimStart line)

def said (line : Text) : Text :=
  let t := Text.trim line
  Text.trim ((Text.stripPrefix? marker t).getD t)

def stripOpening (t : Text) : Text :=
  match h : Text.stripPrefix? openingTag t with
  | none => t
  | some rest =>
    have := Text.length_lt_of_stripPrefix? (by decide) h
    stripOpening rest
termination_by t.length

/-- The first line of a summary that is not empty, up to its closing tag. -/
def firstSaid : List Text → Option Text
  | [] => none
  | t :: ts =>
    match Text.cut? closingTag t with
    | some (before, _) => let said := Text.trim before; if said = [] then none else some said
    | none => let said := Text.trim t; if said = [] then firstSaid ts else some said

/-- The summary of a doc comment from its lines, top to bottom. Without an opening tag it is the
first line that is not empty and does not begin with a tag. -/
def condense (lines : List Text) : Option Text :=
  let texts := lines.map said
  match texts.dropWhile fun t => !openingTag.isPrefixOf t with
  | t :: ts => firstSaid (stripOpening t :: ts)
  | [] => texts.find? fun t => !t.isEmpty && t.head? != some '<'

end ApiListing.Summary
