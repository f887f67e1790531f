import ApiListing.Json.Fault

namespace ApiListing.Json

/-- Takes a value off the front of the octets that are still unread, or stops at a fault. -/
abbrev Reader := StateT Bytes (Except Fault)

namespace Reader

def fail {α : Type} (cause : Cause) (reach : Reach) : Reader α :=
  fun s => .error ⟨cause, s.length, reach⟩

def peek : Reader (Option Char) := fun s => .ok (s.head?.map charOf, s)

def skip : Reader Unit := fun s => .ok ((), s.drop 1)

def next : Reader (Option Char) := fun s => .ok (s.head?.map charOf, s.drop 1)

def takeWhile (p : Char → Bool) : Reader (List Char) := fun s =>
  .ok ((s.takeWhile fun b => p (charOf b)).map charOf, s.dropWhile fun b => p (charOf b))

def isJsonSpace (c : Char) : Bool := c = ' ' || c = '\n' || c = '\t' || c = '\r'

def start : Reader (Option Char) := do
  discard (takeWhile isJsonSpace)
  peek

def word : List Char → Reader Unit
  | [] => pure ()
  | c :: cs => do
    match ← next with
    | none => fail .endOfValue .read
    | some d => if d = c then word cs else fail .expectedIdent .read

def colon : Reader Unit := do
  match ← start with
  | some ':' => skip
  | some _ => fail .expectedColon .next
  | none => fail .endOfObject .next

def anotherItem (first : Bool) : Reader Bool := do
  match ← start with
  | none => fail .endOfList .next
  | some ']' => return false
  | some c =>
    if first then return true
    else if c = ',' then
      skip
      match ← start with
      | some ']' => fail .trailingComma .next
      | some _ => return true
      | none => fail .endOfValue .next
    else fail .expectedListEnd .next

def anotherField (first : Bool) : Reader Bool := do
  match ← start with
  | none => fail .endOfObject .next
  | some '\x7d' => return false
  | some c =>
    if first then
      if c = '"' then return true else fail .keyNotString .next
    else if c = ',' then
      skip
      match ← start with
      | some '"' => return true
      | some '\x7d' => fail .trailingComma .next
      | some _ => fail .keyNotString .next
      | none => fail .endOfValue .next
    else fail .expectedObjectEnd .next

def listEnd : Reader Unit := do
  match ← start with
  | some ']' => skip
  | some ',' =>
    skip
    match ← start with
    | some ']' => fail .trailingComma .next
    | _ => fail .trailingCharacters .next
  | some _ => fail .trailingCharacters .next
  | none => fail .endOfList .next

def objectEnd : Reader Unit := do
  match ← start with
  | some '\x7d' => skip
  | some ',' => fail .trailingComma .next
  | some _ => fail .trailingCharacters .next
  | none => fail .endOfObject .next

/-- The items of a list up to its end. There are fewer than `bound` of them, since each takes at
least one octet of an input shorter than that. -/
def items {α : Type} (item : Reader α) (bound : Nat) (first : Bool) : Reader (List α) :=
  match bound with
  | 0 => fail .endOfList .next
  | bound + 1 => do
    if ← anotherItem first then
      let x ← item
      return x :: (← items item bound false)
    else return []

def list {α : Type} (item : Reader α) (bound : Nat) : Reader (List α) := do
  let xs ← items item bound true
  listEnd
  return xs

def fields {α : Type} (key : Reader String) (value : Reader α) (bound : Nat) (first : Bool) :
    Reader (List (String × α)) :=
  match bound with
  | 0 => fail .endOfObject .next
  | bound + 1 => do
    if ← anotherField first then
      skip
      let k ← key
      colon
      let v ← value
      return (k, v) :: (← fields key value bound false)
    else return []

def object {α : Type} (key : Reader String) (value : Reader α) (bound : Nat) :
    Reader (List (String × α)) := do
  let fs ← fields key value bound true
  objectEnd
  return fs

def finish : Reader Unit := do
  match ← start with
  | none => return ()
  | some _ => fail .trailingCharacters .next

end Reader

end ApiListing.Json
