import ApiListing.Proofs.BraceDepth
import ApiListing.Proofs.Places

namespace ApiListing

variable {markers : List Text} {indent t behind lead content pair source : Text} {b : Braces}
  {o : Opening} {r : Record}

namespace Braces

/-- What stands between the first brace of a text and the brace that matches it. -/
def pair? (t : Text) : Option Text :=
  match t.dropWhile (· ≠ '{') with
  | [] => none
  | _ :: behind => closeAtDepth .code 0 behind

theorem pair?_append (hlead : '{' ∉ lead) (behind : Text) :
    pair? (lead ++ '{' :: behind) = closeAtDepth .code 0 behind := by
  rw [pair?, Text.dropWhile_run (Text.ne_of_not_mem hlead) (by simp)]

theorem pair?_eq_some_iff :
    pair? t = some content ↔
      ∃ lead rest, t = lead ++ '{' :: (content ++ '}' :: rest) ∧ '{' ∉ lead ∧
        Lexeme.code.Matched 0 content := by
  constructor
  · intro h
    by_cases hmem : '{' ∈ t
    · obtain ⟨lead, behind, rfl, hlead⟩ := List.eq_append_cons_of_mem hmem
      rw [pair?_append hlead] at h
      obtain ⟨hmatched, rest, rfl⟩ := closeAtDepth_eq_some_iff.1 h
      exact ⟨lead, rest, rfl, hlead, hmatched⟩
    · rw [pair?, List.dropWhile_eq_nil_iff.2 (Text.ne_of_not_mem hmem)] at h
      cases h
  · rintro ⟨lead, rest, rfl, hlead, hmatched⟩
    rw [pair?_append hlead]
    exact closeAtDepth_eq_some_iff.2 ⟨hmatched, rest, rfl⟩

/-- A block of several lines: a brace that ends its line, the brace that matches it, and what stands
between them. A brace before it is one of its own line, which is then that of the declaration. -/
structure OverLines (b : Braces) (t behind : Text) : Prop where
  eq : t = b.text ++ behind
  lines : '\n' ∈ b.content
  matched : Lexeme.code.Matched 0 b.content
  ends : ∀ c ∈ Text.firstLine b.content, Text.isSpace c = true
  first : '{' ∈ b.lead → '\n' ∉ b.lead

theorem Opens.overLines (h : Opens o t behind)
    (hclose : closeAtDepth .code 0 behind = some content) :
    ∃ rest, OverLines ⟨o.lead, content⟩ t rest := by
  obtain ⟨hmatched, rest, rfl⟩ := closeAtDepth_eq_some_iff.1 hclose
  have hends := h.ends
  rcases Text.line_cases content with hline | ⟨l, below, hl, rfl⟩
  · have hclosing : '}' ∈ Text.firstLine (content ++ '}' :: rest) := by
      rw [Text.firstLine_append hline, List.mem_append]
      exact Or.inr (List.mem_cons_self ..)
    exact absurd (hends _ hclosing) (by decide)
  · rw [List.append_assoc, List.cons_append, Text.firstLine_line hl] at hends
    refine ⟨rest, ?_, by simp, hmatched, ?_, h.first⟩
    · simp [h.eq, Braces.text]
    · rwa [Text.firstLine_line hl]

theorem OverLines.pair?_eq (h : OverLines b t behind) (hfirst : '{' ∉ b.lead) :
    pair? t = some b.content := by
  refine pair?_eq_some_iff.2 ⟨b.lead, behind, ?_, hfirst, h.matched⟩
  simp [h.eq, Braces.text]

/-- The matching brace of a block of one line is the last one of the line, or stands before it, or
stands on a later line. -/
theorem OnOneLine.pair?_cases (h : OnOneLine b t behind) (hpair : pair? t = some pair)
    (hline : '\n' ∉ pair) : pair = b.content ∨ pair ++ ['}'] <+: b.content := by
  have ht : t = b.lead ++ '{' :: (b.content ++ '}' :: behind) := by simp [h.eq, Braces.text]
  rw [ht, pair?_append h.first] at hpair
  obtain ⟨-, rest, hrest⟩ := closeAtDepth_eq_some_iff.1 hpair
  rcases List.append_eq_append_iff.1 hrest with ⟨a, rfl, ha⟩ | ⟨a, ha, ha'⟩
  · cases a with
    | nil => exact Or.inl (by simp)
    | cons c a =>
        have hbehind : behind = a ++ '}' :: rest := (List.cons.inj ha).2
        simp only [List.mem_append, List.mem_cons, not_or] at hline
        refine absurd ?_ h.last
        rw [hbehind, Text.firstLine_append hline.2.2, List.mem_append]
        exact Or.inr (List.mem_cons_self ..)
  · cases a with
    | nil => exact Or.inl (by simp [ha])
    | cons c a =>
        obtain ⟨rfl, -⟩ := List.cons.inj ha'
        exact Or.inr ⟨a, by simp [ha]⟩

/-- Where depths are counted, a block is one of one line or a pair of braces over several. -/
theorem after?_depth (h : after? .braceDepth indent t = some b) :
    ∃ behind, OnOneLine b t behind ∨ OverLines b t behind := by
  cases ho : opening? indent t with
  | none => exact (onOneLine_of_after? ho h).imp fun _ => Or.inl
  | some o =>
      obtain ⟨behind, hopens⟩ := opens_of_opening? ho
      rw [after?_of_opening? ho, hopens.open?] at h
      obtain ⟨content, hclose, rfl⟩ := Option.map_eq_some_iff.1 h
      exact (hopens.overLines hclose).imp fun _ => Or.inr

end Braces

/-- The pair of braces behind the declaration of a record. -/
def Record.pair? (source : Text) (r : Record) : Option Text :=
  (r.declared? source).bind fun (_, t) => Braces.pair? t

open Braces (OnOneLine OverLines)

/-- Where depths are counted a block of several lines is a pair of braces: that of the first brace
behind the declaration, unless the line of the declaration holds several and the last one ends it. A
block of one line goes from the first brace to the last one of its line, and so it is the pair
unless another closing brace stands behind the pair on that line. -/
theorem scan_depth_blocks (hr : r ∈ scan ⟨markers, .braceDepth⟩ source)
    (hb : r.block? = some content) :
    ∃ d t lead behind, r.declared? source = some (d, t) ∧
      (OnOneLine ⟨lead, content⟩ t behind ∧
          (∀ pair, r.pair? source = some pair → '\n' ∉ pair →
            pair = content ∨ pair ++ ['}'] <+: content) ∨
        OverLines ⟨lead, content⟩ t behind ∧ ('{' ∉ lead → r.pair? source = some content)) := by
  obtain ⟨before, d, t, rfl, h⟩ := exists_declares hr
  obtain ⟨⟨lead, content⟩, hafter, rfl⟩ := Option.map_eq_some_iff.1 (h.block.symm.trans hb)
  have hpair : r.pair? (before ++ (d.text ++ t)) = Braces.pair? t := by
    rw [Record.pair?, h.declared, Option.bind_some]
  obtain ⟨behind, hbehind⟩ := Braces.after?_depth hafter
  refine ⟨d, t, lead, behind, h.declared, ?_⟩
  rw [hpair]
  exact hbehind.imp (fun hline => ⟨hline, fun pair => hline.pair?_cases⟩)
    fun hlines => ⟨hlines, hlines.pair?_eq⟩

def commentedProperty : Text :=
  "public int X\n\x7b\n    get \x7b return '\x7d'; \x7d // \x7d\n\x7d\n".toList

theorem scan_depth_blocks_commentedProperty :
    ∃ r ∈ scan ⟨[], .braceDepth⟩ commentedProperty,
      ∃ content, r.block? = some content ∧
        ∃ d t lead behind, r.declared? commentedProperty = some (d, t) ∧
          (OnOneLine ⟨lead, content⟩ t behind ∧
              (∀ pair, r.pair? commentedProperty = some pair → '\n' ∉ pair →
                pair = content ∨ pair ++ ['}'] <+: content) ∨
            OverLines ⟨lead, content⟩ t behind ∧
              ('{' ∉ lead → r.pair? commentedProperty = some content)) := by
  obtain ⟨r, hr, hb⟩ : ∃ r ∈ scan ⟨[], .braceDepth⟩ commentedProperty,
      r.block? = some "\n    get \x7b return '\x7d'; \x7d // \x7d\n".toList := by
    decide +kernel
  exact ⟨r, hr, _, hb, scan_depth_blocks hr hb⟩

def crowdedProperties : Text :=
  ("public int X \x7b get; \x7d // \x7d\n" ++
    "public int Y \x7b get \x7b\n    return 1; \x7d\n\x7d\n").toList

/-- Neither block is the pair of braces behind the declaration. -/
theorem scan_depth_crowdedProperties :
    (scan ⟨[], .braceDepth⟩ crowdedProperties).map Record.block? =
      [some " get; \x7d // ".toList, some "\n    return 1; ".toList] ∧
    (scan ⟨[], .braceDepth⟩ crowdedProperties).map (Record.pair? crowdedProperties) =
      [some " get; ".toList, some " get \x7b\n    return 1; \x7d\n".toList] := by
  decide +kernel

end ApiListing
