import ApiListing.Json.Binary64

namespace ApiListing

/-- A number without fraction and exponent is an `int` within 64 bits. The fields of an object keep
the order and the repetitions of the text that they were read from. -/
inductive Json where
  | null
  | bool (b : Bool)
  | int (n : Int)
  | float (x : Binary64)
  | str (s : String)
  | arr (items : List Json)
  | obj (fields : List (String × Json))
  deriving Repr

namespace Json

instance : Inhabited Json := ⟨null⟩

def setField (key : String) (value : Json) : List (String × Json) → List (String × Json)
  | [] => [(key, value)]
  | (k, v) :: fs =>
    if key = k then (key, value) :: fs
    else if key < k then (key, value) :: (k, v) :: fs
    else (k, v) :: setField key value fs

def hasKey (key : String) (fields : List (String × Json)) : Bool := fields.any fun f => f.1 = key

mutual

/-- A value whose objects have sorted keys, the last value of each. -/
def normal : Json → Json
  | arr items => arr (normalItems items)
  | obj fields => obj (normalFields fields)
  | v => v

def normalItems : List Json → List Json
  | [] => []
  | v :: vs => normal v :: normalItems vs

def normalFields : List (String × Json) → List (String × Json)
  | [] => []
  | (key, value) :: fs =>
    let rest := normalFields fs
    if hasKey key rest then rest else setField key (normal value) rest

end

/-- The value of a field, the last one if the key is repeated. -/
def get? (key : String) : Json → Option Json
  | obj fields => (fields.reverse.find? fun f => f.1 = key).map Prod.snd
  | _ => none

def at? (n : Nat) : Json → Option Json
  | arr items => items[n]?
  | _ => none

def str? : Json → Option String
  | str s => some s
  | _ => none

end Json

end ApiListing
