import ApiListing.Declaration.TypeName

namespace ApiListing

def gap? (t : Text) : Option Reading :=
  match Text.spanBlanks t with
  | ([], _) => none
  | r => some r

theorem length_lt_of_gap? {t : Text} {r : Reading} (h : gap? t = some r) :
    r.2.length < t.length := by
  have hs := congrArg List.length (List.takeWhile_append_dropWhile (p := Text.isBlank) (l := t))
  unfold gap? Text.spanBlanks at h
  split at h
  · simp at h
  · next hne =>
    cases h
    have hpos := List.length_pos_iff.2 fun hb => hne _ (Prod.ext hb rfl)
    simp only [List.length_append] at hs hpos ⊢
    omega

namespace Signature

def read? : Text → Option (Signature × Text)
  | '(' :: t => (closeParameters false t).map fun r => (parameters ('(' :: r.1), r.2)
  | '=' :: '>' :: t => some (expression t, [])
  | _ => none

end Signature

namespace Head

def method? (t : Text) : Option (Head × Text) :=
  (typeReadings t).findSome? fun (type, t) => do
    let (gap, t) ← gap? t
    (methodNameReadings t).findSome? fun (name, t) => do
      let (trail, t) := Text.spanBlanks t
      let (signature, t) ← Signature.read? t
      return (method type gap name trail signature, t)

def enum? (t : Text) : Option (Head × Text) := do
  let t ← Text.stripPrefix? "enum".toList t
  let (gap, t) ← gap? t
  let (name, t) ← Text.name? t
  return (enum gap name, t)

def property? (t : Text) : Option (Head × Text) :=
  (typeReadings t).findSome? fun (type, t) => do
    let (gap, t) ← gap? t
    let (name, t) ← propertyName? t
    return (property type gap name, t)

def read? (t : Text) : Option (Head × Text) := method? t <|> enum? t <|> property? t

end Head

namespace Visibility

def read? (t : Text) : Option (Visibility × Text) :=
  all.findSome? fun v => (Text.stripPrefix? v.word t).map (v, ·)

end Visibility

namespace Modifier

def knownWords : List Text :=
  ["ref", "readonly", "const", "virtual", "override", "abstract", "async", "sealed", "new",
    "extern", "unsafe", "volatile", "event", "partial", "required"].map String.toList

def read? (t : Text) : Option (Modifier × Text) :=
  let word := t.takeWhile fun c => !Text.isBlank c
  (gap? (t.dropWhile fun c => !Text.isBlank c)).map fun (gap, t) => (⟨word, gap⟩, t)

def static? (t : Text) : Option (Modifier × Text) :=
  (read? t).filter fun r => r.1.word = "static".toList

def known? (t : Text) : Option (Modifier × Text) :=
  (read? t).filter fun r => knownWords.contains r.1.word

theorem length_lt_of_known? {t : Text} {r : Modifier × Text} (h : known? t = some r) :
    r.2.length < t.length := by
  simp only [known?, Option.filter_eq_some_iff, read?, Option.map_eq_some_iff] at h
  obtain ⟨⟨r, hg, rfl⟩, -⟩ := h
  exact Nat.lt_of_lt_of_le (length_lt_of_gap? hg) (List.dropWhile_sublist _).length_le

/-- The ways to read modifiers at the start of a text, as many as there are first. -/
def runs (t : Text) : List (List Modifier × Text) :=
  match h : known? t with
  | none => [([], t)]
  | some (m, rest) =>
    have := length_lt_of_known? h
    ((runs rest).map fun r => (m :: r.1, r.2)) ++ [([], t)]
termination_by t.length

end Modifier

namespace Declaration

/-- The declaration at the start of a line, and the rest of the line. A line can often be read in
several ways, since a word such as `static` or `new` may be a modifier or a type; the preferred
reading takes as many modifiers as it can, and a method before an enum before a property or a field.
-/
def read? (line : Text) : Option (Declaration × Text) := do
  let (indent, t) := Text.spanBlanks line
  let (visibility, t) ← Visibility.read? t
  let (gap, t) ← gap? t
  let withoutStatic : Option Modifier × Text := (none, t)
  let starts := match Modifier.static? t with
    | some (m, rest) => [(some m, rest), withoutStatic]
    | none => [withoutStatic]
  starts.findSome? fun (static?, t) =>
    (Modifier.runs t).findSome? fun (modifiers, t) =>
      (Head.read? t).map fun (head, rest) =>
        (⟨indent, visibility, gap, static?, modifiers, head⟩, rest)

end Declaration

end ApiListing
