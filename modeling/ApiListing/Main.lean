import ApiListing.CommandLine.Command
import Std.Time.Zoned

open ApiListing

/-- Why a file could not be opened or read. A directory can be opened, so that it is one shows only
when it is read. -/
def readFailure : IO.Error → ReadFailure
  | .inappropriateType none _ _ => .isADirectory
  | .inappropriateType .. => .notADirectory
  | .invalidArgument .. => .nameTooLong
  | .permissionDenied .. => .denied
  | _ => .notFound

def readSource (path : Text) : IO (Except ReadFailure Text) := do
  if path.contains '\x00' then return .error .nulInPath
  try
    let bytes ← IO.FS.readBinFile (String.ofList path)
    return decodeUtf8 bytes.toList
  catch e => return .error (readFailure e)

def today : IO Date := do
  let d ← Std.Time.PlainDate.now
  return ⟨d.year.toInt, d.month.toNat, d.day.toNat⟩

def readInput : IO Json.Bytes := do
  return (← (← IO.getStdin).readBinToEnd).toList

def main (arguments : List String) : IO UInt32 := do
  let arguments := arguments.map String.toList
  let command? := Command.ofArguments? arguments
  let input ← match command? with
    | some (.filter _) => readInput
    | _ => pure []
  let sources ← ((command?.map (Command.paths input)).getD []).mapM fun path =>
    return (path, ← readSource path)
  let files : Files := fun path => ((sources.find? fun s => s.1 = path).map Prod.snd).getD
    (.error .notFound)
  let outcome := Command.run files (← today) input arguments
  IO.print (String.ofList outcome.output)
  IO.eprint (String.ofList outcome.errors)
  return outcome.code.toUInt32
