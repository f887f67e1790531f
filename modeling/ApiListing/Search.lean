import ApiListing.Braces.Basic
import ApiListing.Declaration.Match

namespace ApiListing

structure Part where
  name : String
  start : Nat
  text : Text
  deriving DecidableEq, Repr

namespace Part

def stop (p : Part) : Nat := p.start + Text.byteSize p.text

end Part

namespace Signature

def parts (start : Nat) : Signature → List Part
  | parameters t => [⟨"method_params", start, t⟩]
  | expression t => [⟨"method_expr", start + 2, t⟩]

end Signature

namespace Head

def parts (start : Nat) : Head → List Part
  | h@(method type gap name trail signature) =>
    let nameStart := start + Text.byteSize (type ++ gap)
    [⟨"method", start, h.text⟩, ⟨"method_type", start, type⟩, ⟨"method_name", nameStart, name⟩]
      ++ signature.parts (nameStart + Text.byteSize (name ++ trail))
  | h@(enum gap name) =>
    [⟨"enum", start, h.text⟩,
      ⟨"enum_name", start + Text.byteSize ("enum".toList ++ gap), name⟩]
  | h@(property type gap name) =>
    [⟨"attribute", start, h.text⟩, ⟨"attribute_type", start, type⟩,
      ⟨"attribute_name", start + Text.byteSize (type ++ gap), name⟩]

end Head

namespace Declaration

def parts (start : Nat) (d : Declaration) : List Part :=
  let visibilityStart := start + Text.byteSize d.indent
  let staticStart := visibilityStart + Text.byteSize (d.visibility.word ++ d.gap)
  let static := (d.static?.map Modifier.text).getD []
  let modifiersStart := staticStart + Text.byteSize static
  let headStart := modifiersStart + Text.byteSize d.modifiersText
  [⟨"0", start, d.text⟩, ⟨"indent", start, d.indent⟩,
      ⟨"visibility", visibilityStart, d.visibility.word⟩]
    ++ (d.static?.map fun m => ⟨"static", staticStart, m.text⟩).toList
    ++ [⟨"modifiers", modifiersStart, d.modifiersText⟩] ++ d.head.parts headStart

/-- The first declaration on a line of `t` that begins at byte `least` or later, with its place,
where `offset` bytes stand before `t`. -/
def find? (least offset : Nat) (t : Text) : Option (Nat × Declaration) :=
  match (if least ≤ offset then read? (Text.firstLine t) else none) with
  | some (d, _) => some (offset, d)
  | none =>
    match h : Text.afterLine t with
    | none => none
    | some rest =>
      have := Text.length_lt_of_afterLine h
      find? least (offset + Text.byteSize (Text.firstLine t) + 1) rest
termination_by t.length

end Declaration

def Declaration.search (least : Nat) (source : Text) : Option (List Part) :=
  (Declaration.find? least 0 source).map fun found => found.2.parts found.1

/-- The parts of a block on the first line of a source. It can only be found from the start. -/
def Braces.search (least : Nat) (source : Text) : Option (List Part) :=
  if least = 0 then
    (Braces.onLine? (Text.firstLine source)).map fun b =>
      [⟨"0", 0, b.text⟩, ⟨"content", Text.byteSize b.lead + 1, b.content⟩]
  else none

def Text.searchSpaces (least : Nat) (source : Text) : Option (List Part) :=
  let (before, rest) := Text.splitBytes least source
  (Text.spaceRun? rest).map fun (skipped, run) => [⟨"0", Text.byteSize (before ++ skipped), run⟩]

end ApiListing
