import ApiListing.Json.Number
import ApiListing.Text.Quoted

namespace ApiListing.Json

abbrev Bytes := List UInt8

def charOf (b : UInt8) : Char := Char.ofNat b.toNat

inductive Found where
  | null
  | bool (b : Bool)
  | int (n : Int)
  | float (x : Binary64)
  | str (s : String)
  | sequence
  | map
  deriving DecidableEq, Repr

inductive Cause where
  | endOfValue
  | endOfList
  | endOfObject
  | endOfString
  | expectedColon
  | expectedListEnd
  | expectedObjectEnd
  | expectedIdent
  | expectedValue
  | invalidEscape
  | invalidNumber
  | numberOutOfRange
  | invalidCharacter
  | controlCharacter
  | keyNotString
  | loneSurrogate
  | trailingComma
  | trailingCharacters
  | endOfEscape
  | recursionLimit
  | invalidType (found : Found) (expected : String)
  | invalidValue (found : Found) (expected : String)
  | invalidLength (length : Nat) (expected : String)
  | duplicateField (name : String)
  | missingField (name : String)
  deriving DecidableEq, Repr

/-- How far the reader has looked when it finds a fault. At `looked` it has seen the next octet, in
which the fault does not lie: a reader that has the whole text at hand does not count this octet,
one that takes the text from a stream does. -/
inductive Reach where
  | read
  | looked
  | next
  deriving DecidableEq, Repr

structure Fault where
  cause : Cause
  unread : Nat
  reach : Reach
  deriving DecidableEq, Repr

inductive Source where
  | text
  | stream
  deriving DecidableEq, Repr

/-- A place in a text. Lines count from one; the column is the number of octets since the line's
start. -/
structure Position where
  line : Nat
  column : Nat
  deriving DecidableEq, Repr

namespace Position

def advance (p : Position) (b : UInt8) : Position :=
  if charOf b = '\n' then ⟨p.line + 1, 0⟩ else ⟨p.line, p.column + 1⟩

def behind (bytes : Bytes) : Position := bytes.foldl advance ⟨1, 0⟩

end Position

namespace Reach

def extra (s : Source) : Reach → Nat
  | read => 0
  | looked => if s = .stream then 1 else 0
  | next => 1

end Reach

namespace Fault

def position (f : Fault) (s : Source) (input : Bytes) : Position :=
  .behind (input.take (input.length - f.unread + f.reach.extra s))

end Fault

namespace Found

def message : Found → Text
  | null => "null".toList
  | bool true => "boolean `true`".toList
  | bool false => "boolean `false`".toList
  | int n => "integer `".toList ++ intText n ++ "`".toList
  | float x => "floating point `".toList ++ floatText x ++ "`".toList
  | str s => "string ".toList ++ Text.quoted s.toList
  | sequence => "sequence".toList
  | map => "map".toList

end Found

namespace Cause

def message : Cause → Text
  | endOfValue => "EOF while parsing a value".toList
  | endOfList => "EOF while parsing a list".toList
  | endOfObject => "EOF while parsing an object".toList
  | endOfString => "EOF while parsing a string".toList
  | expectedColon => "expected `:`".toList
  | expectedListEnd => "expected `,` or `]`".toList
  | expectedObjectEnd => "expected `,` or `\x7d`".toList
  | expectedIdent => "expected ident".toList
  | expectedValue => "expected value".toList
  | invalidEscape => "invalid escape".toList
  | invalidNumber => "invalid number".toList
  | numberOutOfRange => "number out of range".toList
  | invalidCharacter => "invalid unicode code point".toList
  | controlCharacter =>
    "control character (\\u0000-\\u001F) found while parsing a string".toList
  | keyNotString => "key must be a string".toList
  | loneSurrogate => "lone leading surrogate in hex escape".toList
  | trailingComma => "trailing comma".toList
  | trailingCharacters => "trailing characters".toList
  | endOfEscape => "unexpected end of hex escape".toList
  | recursionLimit => "recursion limit exceeded".toList
  | invalidType found expected =>
    "invalid type: ".toList ++ found.message ++ ", expected ".toList ++ expected.toList
  | invalidValue found expected =>
    "invalid value: ".toList ++ found.message ++ ", expected ".toList ++ expected.toList
  | invalidLength n expected =>
    "invalid length ".toList ++ Text.ofNat n ++ ", expected ".toList ++ expected.toList
  | duplicateField name => "duplicate field `".toList ++ name.toList ++ "`".toList
  | missingField name => "missing field `".toList ++ name.toList ++ "`".toList

end Cause

end ApiListing.Json
