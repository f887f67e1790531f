import ApiListing.Document.Decode
import ApiListing.Json.Skip
import ApiListing.Json.ValueReader

namespace ApiListing.Document

open Json Json.Reader

inductive Field where
  | apiVersion
  | metadata
  | blocks
  deriving DecidableEq, Repr

namespace Field

def name : Field → String
  | apiVersion => "pandoc-api-version"
  | metadata => "meta"
  | blocks => "blocks"

def all : List Field := [apiVersion, metadata, blocks]

def ofName? (name : String) : Option Field := all.find? fun f => f.name = name

end Field

structure Parts where
  apiVersion : List Nat
  metadata : List (String × Json)
  blocks : List Json

structure Draft where
  apiVersion? : Option (List Nat) := none
  metadata? : Option (List (String × Json)) := none
  blocks? : Option (List Json) := none

namespace Draft

def has (d : Draft) : Field → Bool
  | .apiVersion => d.apiVersion?.isSome
  | .metadata => d.metadata?.isSome
  | .blocks => d.blocks?.isSome

def finish (d : Draft) : Except Field Parts :=
  match d.apiVersion?, d.metadata?, d.blocks? with
  | some v, some m, some bs => .ok ⟨v, m, bs⟩
  | none, _, _ => .error .apiVersion
  | _, none, _ => .error .metadata
  | _, _, none => .error .blocks

end Draft

def readCount : Reader Nat := do
  let number ← match ← start with
    | none => fail .endOfValue .next
    | some c =>
      if c = '-' then
        skip
        number true
      else if c.isDigit then number false
      else mismatch "u32"
  match count? number, number with
  | some n, _ => return n
  | none, .int n => fail (.invalidValue (.int n) "u32") .looked
  | none, .float x => fail (.invalidType (.float x) "u32") .looked
  | none, _ => fail .expectedValue .next

def openWith (bracket : Char) (expected : String) : Reader Unit := do
  match ← start with
  | none => fail .endOfValue .next
  | some c => if c = bracket then skip else mismatch expected

/-- How many containers may be open inside a field of a document: all but the document and the
field themselves. -/
def fieldNesting : Nat := maxNesting - 2

def readField (bound : Nat) (d : Draft) : Field → Reader Draft
  | .apiVersion => do
    openWith '[' "a sequence"
    return { d with apiVersion? := some (← list readCount bound) }
  | .metadata => do
    openWith '\x7b' "a map"
    let fields ← object string (value bound fieldNesting) bound
    return { d with metadata? := some fields }
  | .blocks => do
    openWith '[' "a sequence"
    let items ← list (value bound fieldNesting) bound
    return { d with blocks? := some items }

def readFields (bound : Nat) (first : Bool) (d : Draft) (left : Nat) :
    Reader (Except Field Draft) :=
  match left with
  | 0 => fail .endOfObject .next
  | left + 1 => do
    if ← anotherField first then
      skip
      match Field.ofName? (← string) with
      | none =>
        colon
        skipValue bound
        readFields bound false d left
      | some f =>
        if d.has f then return .error f
        else
          colon
          readFields bound false (← readField bound d f) left
    else return .ok d

/-- Reads a document behind its opening brace. A repeated field is reported behind the brace that
follows it, if one does. -/
def readObject (bound : Nat) : Reader Parts := do
  match ← readFields bound true {} bound with
  | .error f =>
    match ← start with
    | some '\x7d' =>
      skip
      fail (.duplicateField f.name) .read
    | _ => fail (.duplicateField f.name) .looked
  | .ok draft =>
    objectEnd
    match draft.finish with
    | .ok parts => return parts
    | .error f => fail (.missingField f.name) .read

def readValues (bound : Nat) (d : Draft) (n : Nat) : List Field → Reader Draft
  | [] => return d
  | f :: fs => do
    if ← anotherItem (n = 0) then readValues bound (← readField bound d f) (n + 1) fs
    else
      listEnd
      fail (.invalidLength n "struct Document with 3 elements") .read

def readList (bound : Nat) : Reader Parts := do
  let draft ← readValues bound {} 0 Field.all
  listEnd
  match draft.finish with
  | .ok parts => return parts
  | .error f => fail (.missingField f.name) .read

/-- Reads the parts of a document, which is an object with three fields or a list of their values,
and refuses anything behind them. Other fields are passed over. -/
def reader (bound : Nat) : Reader Parts := do
  let parts ← match ← start with
    | none => fail .endOfValue .next
    | some c =>
      if c = '\x7b' then
        skip
        readObject bound
      else if c = '[' then
        skip
        readList bound
      else mismatch "struct Document"
  finish
  return parts

def partsOf (input : Bytes) : Except Fault Parts :=
  (reader (input.length + 1) input).map Prod.fst

/-- The document with these parts. Metadata is sorted, and blocks that have a known shape are
recognised. -/
def ofParts (p : Parts) : Document :=
  ⟨p.apiVersion, normalFields p.metadata, Block.ofItems p.blocks⟩

def ofBytes (input : Bytes) : Except Fault Document := (partsOf input).map ofParts

end ApiListing.Document
