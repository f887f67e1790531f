import ApiListing.Filter.Insert
import ApiListing.Pipeline

namespace ApiListing

inductive OptionName where
  | filter
  | language
  | date
  | root
  | hideMarker
  | braceDepth
  deriving DecidableEq, Repr

namespace OptionName

def text : OptionName → Text
  | filter => "filter".toList
  | language => "language".toList
  | date => "date".toList
  | root => "root".toList
  | hideMarker => "hide-marker".toList
  | braceDepth => "brace-depth".toList

def all : List OptionName := [filter, language, date, root, hideMarker, braceDepth]

def scanning : List OptionName := [root, hideMarker, braceDepth]

end OptionName

structure Arguments where
  filters : List FilterName := []
  language? : Option Text := none
  date? : Option Text := none
  root? : Option Text := none
  hideMarkers : List Text := []
  braceDepth : Bool := false
  operands : List Text := []
  deriving DecidableEq, Repr

namespace Arguments

def once {α : Type} (old? : Option α) (new : α) : Option (Option α) :=
  if old?.isSome then none else some (some new)

def setValue (a : Arguments) (value : Text) : OptionName → Option Arguments
  | .filter => do return { a with filters := a.filters ++ [← FilterName.ofText? value] }
  | .language => do return { a with language? := ← once a.language? value }
  | .date => do return { a with date? := ← once a.date? value }
  | .root =>
    if value = [] then none else do return { a with root? := ← once a.root? value }
  | .hideMarker => some { a with hideMarkers := a.hideMarkers ++ [value] }
  | .braceDepth => none

def setFlag (a : Arguments) : Option Arguments :=
  if a.braceDepth then none else some { a with braceDepth := true }

def addOperand (isOperand : Nat → Text → Bool) (a : Arguments) (t : Text) : Option Arguments :=
  if isOperand a.operands.length t then some { a with operands := a.operands ++ [t] } else none

def insertOptions (a : Arguments) : InsertOptions where
  root := a.root?.getD ['.']
  language := String.ofList (a.language?.getD "cs".toList)
  scan :=
    { hideMarkers := if a.hideMarkers = [] then ({} : ScanOptions).hideMarkers else a.hideMarkers
      boundary := if a.braceDepth then .braceDepth else .indentation }

end Arguments

inductive Request where
  | given (a : Arguments)
  | help
  | version
  deriving DecidableEq, Repr

structure Grammar where
  options : List OptionName
  hasVersion : Bool
  isOperand : Nat → Text → Bool

namespace Grammar

def isOption (t : Text) : Bool := t.head? = some '-' && t ≠ ['-']

/-- What a cluster of short options asks for: its first letter decides. -/
def short? (g : Grammar) : Text → Option Request
  | 'h' :: _ => some .help
  | 'V' :: _ => if g.hasVersion then some .version else none
  | _ => none

def long? (g : Grammar) (name : Text) : Option Request :=
  if name = "help".toList then some .help
  else if name = "version".toList && g.hasVersion then some .version
  else none

def option? (g : Grammar) (name : Text) : Option OptionName :=
  g.options.find? fun o => o.text = name

/-- Reads arguments from left to right; `none` if they are no use of the command. Help and version
are answered where they stand, whatever follows. -/
def read (g : Grammar) (a : Arguments) : List Text → Option Request
  | [] => some (.given a)
  | t :: ts =>
    if t = "--".toList then (ts.foldlM (Arguments.addOperand g.isOperand) a).map .given
    else
      match Text.stripPrefix? "--".toList t with
      | some t =>
        match Text.cut? ['='] t with
        | some (name, value) =>
          match (g.option? name).bind (a.setValue value) with
          | some a => g.read a ts
          | none => none
        | none =>
          match g.long? t with
          | some request => some request
          | none =>
            match g.option? t, ts with
            | none, _ => none
            | some .braceDepth, ts =>
              match a.setFlag with
              | some a => g.read a ts
              | none => none
            | some _, [] => none
            | some o, value :: ts =>
              if isOption value then none
              else match a.setValue value o with
                | some a => g.read a ts
                | none => none
      | none =>
        if isOption t then g.short? (t.drop 1)
        else match a.addOperand g.isOperand t with
          | some a => g.read a ts
          | none => none

end Grammar

end ApiListing
