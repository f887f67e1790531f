import ApiListing.Error
import ApiListing.Files.Path

namespace ApiListing

abbrev Files := Text → Except ReadFailure Text

def decodeUtf8 (bytes : List UInt8) : Except ReadFailure Text :=
  match String.fromUTF8? ⟨bytes.toArray⟩ with
  | some s => .ok s.toList
  | none => .error .invalidUtf8

inductive Entry where
  | file (content : List UInt8)
  | directory
  deriving DecidableEq, Repr

/-- The entries below a directory by their components. The directories on the way to an entry need
no entry of their own. -/
abbrev Tree := List (List Text × Entry)

namespace Tree

def ofPaths (entries : List (Text × Entry)) : Tree :=
  entries.map fun e => ((Path.components e.1).filter fun c => c ≠ [] && c ≠ ['.'], e.2)

def entry? (tree : Tree) (names : List Text) : Option Entry :=
  match tree.find? fun e => e.1 = names with
  | some e => some e.2
  | none => if names = [] || tree.any fun e => names.isPrefixOf e.1 then some .directory else none

inductive Place where
  | inside (names : List Text)
  | outside
  deriving DecidableEq, Repr

def enter (tree : Tree) (place : Place) (name : Text) : Except ReadFailure (Place × Entry) :=
  if name = [] || name = ['.'] then .ok (place, .directory)
  else if name = "..".toList then
    match place with
    | .inside (n :: names) => .ok (.inside (n :: names).dropLast, .directory)
    | _ => .ok (.outside, .directory)
  else if Path.maxComponent < Text.byteSize name then .error .nameTooLong
  else
    match place with
    | .outside => .error .notFound
    | .inside names =>
      match tree.entry? (names ++ [name]) with
      | some entry => .ok (.inside (names ++ [name]), entry)
      | none => .error .notFound

def walk (tree : Tree) (place : Place) (entry : Entry) : List Text → Except ReadFailure Entry
  | [] => .ok entry
  | name :: names =>
    match entry with
    | .file _ => .error .notADirectory
    | .directory => do
      let (place, entry) ← tree.enter place name
      tree.walk place entry names

def files (tree : Tree) : Files := fun path =>
  if path.contains '\x00' then .error .nulInPath
  else if path = [] then .error .notFound
  else if Path.maxLength < Text.byteSize path then .error .nameTooLong
  else do
    let start := if Path.isAbsolute path then Place.outside else .inside []
    match ← tree.walk start .directory (Path.components path) with
    | .file content => decodeUtf8 content
    | .directory => .error .isADirectory

end Tree

end ApiListing
