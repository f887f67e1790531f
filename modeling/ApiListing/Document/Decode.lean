import ApiListing.Document.Schema

namespace ApiListing

open Json (normal)

namespace Json

def valuesOf (key : String) (fields : List (String × Json)) : List Json :=
  (fields.filter fun f => f.1 = key).map Prod.snd

theorem sizeOf_lt_of_valuesOf (key : String) {fields : List (String × Json)} {v : Json}
    (h : v ∈ valuesOf key fields) : sizeOf v < sizeOf (obj fields) := by
  simp only [valuesOf, List.mem_map, List.mem_filter] at h
  obtain ⟨⟨k, w⟩, ⟨hm, -⟩, rfl⟩ := h
  have := List.sizeOf_lt_of_mem hm
  simp only [Prod.mk.sizeOf_spec, obj.sizeOf_spec] at *
  omega

end Json

namespace Tag

def ofField? : Json → Option Tag
  | .str name => ofName? name
  | .obj [(name, .null)] => ofName? name
  | _ => none

def ofItem? : Json → Option Tag
  | .str name => ofName? name
  | .int n => if 0 ≤ n then all[n.toNat]? else none
  | _ => none

/-- The kind of a block and its content. A block is an object with one field `t` and one field `c`,
or a pair. -/
def split? : Json → Option (Tag × Json)
  | .obj fields =>
    match Json.valuesOf "t" fields, Json.valuesOf "c" fields with
    | [t], [c] => (ofField? t).map (·, c)
    | _, _ => none
  | .arr [t, c] => (ofItem? t).map (·, c)
  | _ => none

theorem sizeOf_lt_of_split? {v c : Json} {t : Tag} (h : split? v = some (t, c)) :
    sizeOf c < sizeOf v := by
  unfold split? at h
  split at h
  · split at h
    · next fields _ c' _ hc =>
      simp only [Option.map_eq_some_iff, Prod.mk.injEq] at h
      obtain ⟨_, _, _, rfl⟩ := h
      exact Json.sizeOf_lt_of_valuesOf "c" (by simp [hc])
    · simp at h
  · simp only [Option.map_eq_some_iff, Prod.mk.injEq] at h
    obtain ⟨_, _, _, rfl⟩ := h
    simp only [Json.arr.sizeOf_spec, List.cons.sizeOf_spec]
    omega
  · simp at h

end Tag

namespace Attr

def texts? : List Json → Option (List String) := List.mapM Json.str?

def pair? : Json → Option (String × String)
  | .arr [.str k, .str v] => some (k, v)
  | _ => none

def ofJson? : Json → Option Attr
  | .arr [.str identifier, .arr classes, .arr pairs] => do
    return ⟨identifier, ← texts? classes, ← pairs.mapM pair?⟩
  | _ => none

end Attr

def count? : Json → Option Nat
  | .int n => if 0 ≤ n && n < Int.pow 2 32 then some n.toNat else none
  | _ => none

namespace Block

def header? : Json → Option Block
  | .arr [level, attr, .arr inlines] => do
    return header (← count? level) (← Attr.ofJson? attr) (inlines.map normal)
  | _ => none

def raw? : Json → Option Block
  | .arr [.str format, .str text] => some (raw format text)
  | _ => none

def code? : Json → Option Block
  | .arr [attr, .str text] => (Attr.ofJson? attr).map (code · text)
  | _ => none

end Block

mutual

/-- A value that fits the shape of a known block becomes one; any other value stays as it is, so
that decoding cannot fail. -/
def Block.ofJson (v : Json) : Block :=
  match h : Tag.split? v with
  | none => .other (normal v)
  | some (tag, c) =>
    have := Tag.sizeOf_lt_of_split? h
    let block? := match tag with
      | .header => Block.header? c
      | .raw => Block.raw? c
      | .code => Block.code? c
      | .container kind => (Content.ofJson? kind.schema c).map (.container kind)
    match block? with
    | some b => b
    | none => .other (normal v)
termination_by (sizeOf v, 0)

/-- The content of a container, if it has the shape of the schema. -/
def Content.ofJson? (s : Schema) (v : Json) : Option Content :=
  match s, v with
  | .value, v => some (.value (normal v))
  | .text, .str t => some (.value (.str t))
  | .count, v => (count? v).map fun n => .value (.int n)
  | .blocks, .arr vs => some (.blocks (Block.ofItems vs))
  | .list item, .arr vs => (Content.ofList? item vs).map .list
  | .tuple items, .arr vs => (Content.ofTuple? items vs).map .list
  | _, _ => none
termination_by (sizeOf v, 0)

def Block.ofItems (vs : List Json) : List Block :=
  match vs with
  | [] => []
  | v :: vs => Block.ofJson v :: Block.ofItems vs
termination_by (sizeOf vs, 0)

def Content.ofList? (item : Schema) (vs : List Json) : Option (List Content) :=
  match vs with
  | [] => some []
  | v :: vs => do
    let c ← Content.ofJson? item v
    return c :: (← Content.ofList? item vs)
termination_by (sizeOf vs, 0)

def Content.ofTuple? (items : List Schema) (vs : List Json) : Option (List Content) :=
  match items, vs with
  | [], [] => some []
  | item :: items, v :: vs => do
    let c ← Content.ofJson? item v
    return c :: (← Content.ofTuple? items vs)
  | _, _ => none
termination_by (sizeOf vs, 0)

end

end ApiListing
