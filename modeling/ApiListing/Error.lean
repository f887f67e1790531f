import ApiListing.Json.Fault

namespace ApiListing

inductive ReadFailure where
  | notFound
  | notADirectory
  | isADirectory
  | nameTooLong
  | invalidUtf8
  | nulInPath
  | denied
  deriving DecidableEq, Repr

namespace ReadFailure

def message : ReadFailure → Text
  | notFound => "No such file or directory (os error 2)".toList
  | notADirectory => "Not a directory (os error 20)".toList
  | isADirectory => "Is a directory (os error 21)".toList
  | nameTooLong => "File name too long (os error 36)".toList
  | invalidUtf8 => "stream did not contain valid UTF-8".toList
  | nulInPath => "file name contained an unexpected NUL byte".toList
  | denied => "Permission denied (os error 13)".toList

end ReadFailure

inductive Error where
  | unreadable (path : Text) (failure : ReadFailure)
  | document (cause : Json.Cause) (position : Json.Position)
  | invalidDate (text : Text)
  deriving DecidableEq, Repr

namespace Error

def message : Error → Text
  | unreadable path failure =>
    "cannot read source file '".toList ++ path ++ "': ".toList ++ failure.message
  | document cause position =>
    "invalid pandoc document: ".toList ++ cause.message ++ " at line ".toList
      ++ Text.ofNat position.line ++ " column ".toList ++ Text.ofNat position.column
  | invalidDate text => "invalid date '".toList ++ text ++ "' (expected YYYY-MM-DD)".toList

def ofFault (source : Json.Source) (input : Json.Bytes) (f : Json.Fault) : Error :=
  document f.cause (f.position source input)

end Error

end ApiListing
