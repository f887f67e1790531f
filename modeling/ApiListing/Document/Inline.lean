import ApiListing.Document.Basic
import ApiListing.Text.Blank

namespace ApiListing.Inline

/-- What an inline says: words of its own, what its inlines say, or nothing. The text of code and
the inlines of a link stand in the second place of an array. -/
inductive Sense where
  | word
  | gap
  | quotedText
  | inlines
  | describedInlines
  | silent
  deriving DecidableEq, Repr

def Sense.ofTag (tag : String) : Sense :=
  if tag = "Str" then word
  else if ["Space", "SoftBreak", "LineBreak"].contains tag then gap
  else if ["Code", "Math"].contains tag then quotedText
  else if ["Emph", "Underline", "Strong", "Strikeout", "Superscript", "Subscript",
      "SmallCaps"].contains tag then inlines
  else if ["Quoted", "Cite", "Link", "Image", "Span"].contains tag then describedInlines
  else silent

def sense (v : Json) : Sense := .ofTag (((v.get? "t").bind Json.str?).getD "")

theorem sizeOf_lt_of_get? {key : String} {v c : Json} (h : v.get? key = some c) :
    sizeOf c < sizeOf v := by
  unfold Json.get? at h
  split at h
  · next fields =>
    simp only [Option.map_eq_some_iff] at h
    obtain ⟨⟨k, w⟩, hf, rfl⟩ := h
    have := List.sizeOf_lt_of_mem (List.mem_reverse.1 (List.mem_of_find?_eq_some hf))
    simp only [Prod.mk.sizeOf_spec, Json.obj.sizeOf_spec] at *
    omega
  · simp at h

theorem sizeOf_lt_of_at? {n : Nat} {v c : Json} (h : v.at? n = some c) :
    sizeOf c < sizeOf v := by
  unfold Json.at? at h
  split at h
  · have := List.sizeOf_lt_of_mem (List.mem_of_getElem? h)
    simp only [Json.arr.sizeOf_spec]
    omega
  · simp at h

mutual

def plainText (v : Json) : String :=
  match h : v.get? "c" with
  | none => if sense v = .gap then " " else ""
  | some c =>
    have := sizeOf_lt_of_get? h
    match sense v with
    | .word => c.str?.getD ""
    | .gap => " "
    | .quotedText => ((c.at? 1).bind Json.str?).getD ""
    | .inlines => plainTextOf c
    | .describedInlines =>
      match hc : c.at? 1 with
      | none => ""
      | some d =>
        have := sizeOf_lt_of_at? hc
        plainTextOf d
    | .silent => ""
termination_by sizeOf v

def plainTextOf (v : Json) : String :=
  match v with
  | .arr vs => stringify vs
  | _ => ""
termination_by sizeOf v

def stringify (vs : List Json) : String :=
  match vs with
  | [] => ""
  | v :: vs => plainText v ++ stringify vs
termination_by sizeOf vs

end

def word (t : Text) : Json := .obj [("c", .str (String.ofList t)), ("t", .str "Str")]

def gap : Json := .obj [("t", .str "Space")]

def ofText (t : Text) : List Json := ((Text.words t).map word).intersperse gap

end ApiListing.Inline
