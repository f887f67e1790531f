import ApiListing.Braces.Lexeme

namespace ApiListing

/-- How the end of a block of several lines is found: by the first later line that begins with the
indentation of the opening line and a brace, or by the brace that matches the opening one, with
those in comments and literals left out. -/
inductive Boundary where
  | indentation
  | braceDepth
  deriving DecidableEq, Repr

def closeAtIndent (indent : Text) : Text → Option Text
  | [] => none
  | c :: t =>
    if c = '\n' && (indent ++ ['}']).isPrefixOf t then some ('\n' :: indent)
    else (closeAtIndent indent t).map (c :: ·)

/-- The content of a block up to the brace that closes it, when the reader stands at `reader` and
`depth` more blocks are open inside it. -/
def closeAtDepth (reader : Lexeme) (depth : Nat) : Text → Option Text
  | [] => none
  | c :: t =>
    if reader.isCode && c = '}' then
      match depth with
      | 0 => some []
      | depth + 1 => (closeAtDepth (reader.next c) depth t).map (c :: ·)
    else if reader.isCode && c = '{' then
      (closeAtDepth (reader.next c) (depth + 1) t).map (c :: ·)
    else (closeAtDepth (reader.next c) depth t).map (c :: ·)

namespace Boundary

def close (b : Boundary) (indent t : Text) : Option Text :=
  match b with
  | indentation => closeAtIndent indent t
  | braceDepth => closeAtDepth .code 0 t

end Boundary

end ApiListing
