import ApiListing.CommandLine.Arguments
import ApiListing.Document.Visit

namespace ApiListing

inductive Command where
  | filter (a : Arguments)
  | extract (mode : Mode) (path : Text) (a : Arguments)
  | help
  | version
  deriving DecidableEq, Repr

structure Outcome where
  code : Nat
  output : Text
  errors : Text
  deriving DecidableEq, Repr

namespace Mode

def operand : Mode → Text
  | methods => "methods".toList
  | attributes => "attributes".toList
  | enums => "enum".toList

def ofOperand? (t : Text) : Option Mode := all.find? fun m => m.operand = t

end Mode

namespace Command

def programName : Text := "stripdoc".toList

def programVersion : Text := "0.2.0".toList

def usage : Text :=
  ("Usage: stripdoc [--filter NAME]... [--language LANG] [--date YYYY-MM-DD] [--root DIR]\n"
    ++ "                [--hide-marker TEXT]... [--brace-depth] [FORMAT]\n"
    ++ "       stripdoc extract <methods|attributes|enum> <PATH> [--root DIR]\n"
    ++ "                [--hide-marker TEXT]... [--brace-depth]\n").toList

def filterGrammar : Grammar where
  options := OptionName.all
  hasVersion := true
  isOperand n _ := n = 0

def extractGrammar : Grammar where
  options := OptionName.scanning
  hasVersion := false
  isOperand n t := if n = 0 then (Mode.ofOperand? t).isSome else n = 1

def ofRequest? (command? : Arguments → Option Command) : Request → Option Command
  | .given a => command? a
  | .help => some help
  | .version => some version

def extract? (a : Arguments) : Option Command :=
  match a.operands with
  | [mode, path] => (Mode.ofOperand? mode).map fun m => extract m path a
  | _ => none

def subcommands : List Text := ["extract".toList, "help".toList]

def ofArguments? : List Text → Option Command
  | [] => some (filter {})
  | t :: ts =>
    if t = "extract".toList then (extractGrammar.read {} ts).bind (ofRequest? extract?)
    else if t = "help".toList then
      if ts = [] || subcommands.any (ts = [·]) then some help else none
    else (filterGrammar.read {} (t :: ts)).bind (ofRequest? fun a => some (filter a))

def settings (today : Date) (a : Arguments) : Except Error Settings := do
  let date ← match a.date? with
    | none => pure today
    | some t => Date.read t
  return { insert := a.insertOptions, date,
           filters := if a.filters = [] then FilterName.all else a.filters }

def output (files : Files) (today : Date) (input : Json.Bytes) : Command → Except Error Text
  | filter a => do (← settings today a).runStream files input
  | extract mode path a => do
    let o := a.insertOptions
    return (← files.listing o.scan (Path.resolve o.root path) path mode) ++ ['\n']
  | help => return usage
  | version => return programName ++ ' ' :: programVersion ++ ['\n']

def run (files : Files) (today : Date) (input : Json.Bytes) (arguments : List Text) : Outcome :=
  match ofArguments? arguments with
  | none => ⟨2, [], usage⟩
  | some c =>
    match c.output files today input with
    | .ok t => ⟨0, t, []⟩
    | .error e => ⟨1, [], programName ++ ": ".toList ++ e.message ++ ['\n']⟩

def directivePath? (root : Text) (text : String) : Option Text := do
  let d ← Directive.ofText? text.toList
  guard (Mode.ofName? d.mode).isSome
  return Path.resolve root d.path

/-- The paths of all files that a run may read. -/
def paths (input : Json.Bytes) : Command → List Text
  | filter a =>
    match Document.read .stream input with
    | .error _ => []
    | .ok d => d.visits.filterMap fun v =>
      match v.block with
      | .raw _ text => directivePath? a.insertOptions.root text
      | _ => none
  | extract _ path a => [Path.resolve a.insertOptions.root path]
  | _ => []

end Command

end ApiListing
