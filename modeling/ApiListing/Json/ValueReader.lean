import ApiListing.Json.NumberReader
import ApiListing.Json.StringReader

namespace ApiListing.Json

def maxNesting : Nat := 127

namespace Reader

/-- Reads a value whose items and fields are read by `inner?`; without it no container may be
opened. -/
def node (inner? : Option (Reader Json)) (bound : Nat) : Reader Json := do
  match ← start with
  | none => fail .endOfValue .next
  | some c =>
    if c = 'n' then
      skip
      word "ull".toList
      return .null
    else if c = 't' then
      skip
      word "rue".toList
      return .bool true
    else if c = 'f' then
      skip
      word "alse".toList
      return .bool false
    else if c = '-' then
      skip
      number true
    else if c.isDigit then number false
    else if c = '"' then
      skip
      return .str (← string)
    else if c = '[' then
      match inner? with
      | none => fail .recursionLimit .next
      | some inner =>
        skip
        return .arr (← list inner bound)
    else if c = '\x7b' then
      match inner? with
      | none => fail .recursionLimit .next
      | some inner =>
        skip
        return .obj (← object string inner bound)
    else fail .expectedValue .next

def value (bound : Nat) : Nat → Reader Json
  | 0 => node none bound
  | depth + 1 => node (some (value bound depth)) bound

/-- Finds out what stands in the place of a value of another kind, which a fault has to name. A
container is left unread. -/
def mismatch {α : Type} (expected : String) : Reader α := do
  match ← peek with
  | some '[' => fail (.invalidType .sequence expected) .looked
  | some '\x7b' => fail (.invalidType .map expected) .looked
  | _ =>
    match ← node none 0 with
    | .null => fail (.invalidType .null expected) .read
    | .bool b => fail (.invalidType (.bool b) expected) .read
    | .int n => fail (.invalidType (.int n) expected) .looked
    | .float x => fail (.invalidType (.float x) expected) .looked
    | .str s => fail (.invalidType (.str s) expected) .read
    | .arr _ => fail (.invalidType .sequence expected) .looked
    | .obj _ => fail (.invalidType .map expected) .looked

end Reader

end ApiListing.Json
