import ApiListing.Json.NumberReader
import ApiListing.Json.StringReader

namespace ApiListing.Json

def skipString (s : Bytes) : Except Fault Bytes :=
  match s with
  | [] => .error ⟨.endOfString, 0, .read⟩
  | b :: rest =>
    if charOf b = '"' then .ok rest
    else if charOf b = '\\' then
      match rest with
      | [] => .error ⟨.endOfString, 0, .read⟩
      | e :: rest =>
        if (simpleEscape? (charOf e)).isSome then skipString rest
        else if charOf e = 'u' then
          match hexNumber rest with
          | .error fault => .error fault
          | .ok _ => skipString (rest.drop 4)
        else .error ⟨.invalidEscape, rest.length, .read⟩
    else if b < 0x20 then .error ⟨.controlCharacter, s.length, .looked⟩
    else skipString rest
termination_by s.length
decreasing_by
  · simp only [List.length_cons]; omega
  · simp only [List.length_cons, List.length_drop]; omega
  · simp

inductive Bracket where
  | list
  | object
  deriving DecidableEq, Repr

namespace Bracket

def closing : Bracket → Char
  | list => ']'
  | object => '\x7d'

def expectedEnd : Bracket → Cause
  | list => .expectedListEnd
  | object => .expectedObjectEnd

def endOfText : Bracket → Cause
  | list => .endOfList
  | object => .endOfObject

end Bracket

namespace Reader

def skippedString : Reader Unit := fun s => (skipString s).map ((), ·)

def skipExponent : Reader Unit := do
  let sign ← peek
  if sign = some '+' || sign = some '-' then skip
  if !(← next).any Char.isDigit then fail .invalidNumber .read
  discard (takeWhile Char.isDigit)

def skipNumber : Reader Unit := do
  match ← next with
  | none => fail .invalidNumber .read
  | some c =>
    if c = '0' then
      if ← peekDigit then fail .invalidNumber .next
    else if c.isDigit then discard (takeWhile Char.isDigit)
    else fail .invalidNumber .read
  if (← peek) = some '.' then
    skip
    if !(← peekDigit) then fail .invalidNumber .next
    discard (takeWhile Char.isDigit)
  if isExponentLetter (← peek) then
    skip
    skipExponent

def skipStart : Reader (Option Bracket) := do
  match ← start with
  | none => fail .endOfValue .next
  | some c =>
    if c = 'n' then
      skip
      word "ull".toList
      return none
    else if c = 't' then
      skip
      word "rue".toList
      return none
    else if c = 'f' then
      skip
      word "alse".toList
      return none
    else if c = '-' then
      skip
      skipNumber
      return none
    else if c.isDigit then
      skipNumber
      return none
    else if c = '"' then
      skip
      skippedString
      return none
    else if c = '[' then
      skip
      return some .list
    else if c = '\x7b' then
      skip
      return some .object
    else fail .expectedValue .next

/-- Reads over closing brackets up to the next item, of the open ones the innermost first.
`afterItem` tells whether an item has been read, so that a comma must come before the next. Gives
the brackets that are still open; there is a next item unless none is. -/
def skipEnds (stack : List Bracket) (afterItem : Bool) : Reader (List Bracket) :=
  match stack with
  | [] => return []
  | inner :: outer => do
    match ← start with
    | none => fail inner.endOfText .next
    | some c =>
      if c = ',' && afterItem then
        skip
        return inner :: outer
      else if c = inner.closing then
        skip
        skipEnds outer true
      else if afterItem then fail inner.expectedEnd .next
      else return inner :: outer

def skipKey : Reader Unit := do
  match ← start with
  | some '"' =>
    skip
    skippedString
    colon
  | some _ => fail .keyNotString .next
  | none => fail .endOfObject .next

def skipInside (stack : List Bracket) (bound : Nat) : Reader Unit :=
  match bound with
  | 0 => fail .endOfValue .next
  | bound + 1 => do
    let stack ← match ← skipStart with
      | none => skipEnds stack true
      | some c => skipEnds (c :: stack) false
    match stack with
    | [] => return ()
    | .list :: _ => skipInside stack bound
    | .object :: _ =>
      skipKey
      skipInside stack bound

/-- Reads over one value of an input with fewer octets than `bound`. Only its syntax is checked:
numbers may have any size, escapes need not form characters, and nesting is not limited. -/
def skipValue (bound : Nat) : Reader Unit := skipInside [] bound

end Reader

end ApiListing.Json
