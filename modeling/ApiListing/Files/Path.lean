import ApiListing.Text.Basic

namespace ApiListing.Path

def isAbsolute (path : Text) : Bool := path.head? = some '/'

def resolve (root path : Text) : Text :=
  if isAbsolute path || root = [] then path
  else if root.getLast? = some '/' then root ++ path
  else root ++ '/' :: path

def components : Text → List Text
  | [] => [[]]
  | c :: t =>
    if c = '/' then [] :: components t
    else match components t with
      | [] => [[c]]
      | name :: names => (c :: name) :: names

def maxComponent : Nat := 255

def maxLength : Nat := 4095

end ApiListing.Path
