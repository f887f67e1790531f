import ApiListing.Proofs.RespelledMembers
import ApiListing.Proofs.Skipping

namespace ApiListing

open Text

variable {w e x t u v : Text} {closed : Bool} {o : ScanOptions} {s s' : LineStart}

namespace Summary

theorem said_trim (l : Text) : said (trim l) = said l := by
  rw [said, said, trim_trim]

theorem isDocLine_iff (l : Text) : isDocLine l = true ↔ marker <+: trim l := by
  obtain ⟨spaces, hs, hspaces⟩ := trimEnd_append (trimStart l)
  have hlast : ∀ c ∈ marker.getLast?, c ∉ spaces := by
    intro c hc hmem
    obtain rfl : '/' = c := Option.some.inj hc
    exact absurd (hspaces _ hmem) (by decide)
  rw [isDocLine, List.isPrefixOf_iff_prefix, hs]
  exact ⟨prefix_of_prefix_append hlast, fun h => h.trans (List.prefix_append ..)⟩

theorem isDocLine_trim (l : Text) : isDocLine (trim l) = isDocLine l := by
  rw [Bool.eq_iff_iff, isDocLine_iff, isDocLine_iff, trim_trim]

theorem condense_map_trim (ls : List Text) : condense (ls.map trim) = condense ls := by
  have hsaid : said ∘ trim = said := funext said_trim
  rw [condense, condense, List.map_map, hsaid]

end Summary

namespace LineStart

structure Alike (s s' : LineStart) : Prop where
  above : s'.above?.map trim = s.above?.map trim
  gap : s'.gap.map trim = s.gap.map trim

theorem alike_refl (s : LineStart) : s.Alike s := ⟨rfl, rfl⟩

theorem Alike.advance_line {l l' : Text} (h : s.Alike s') (hl : '\n' ∉ l) (hl' : '\n' ∉ l')
    (htrim : trim l' = trim l) :
    (s.advance l (l :: s.gap)).Alike (s'.advance l' (l' :: s'.gap)) where
  above := by
    rw [advance, advance, lastLine_of_not_mem hl, lastLine_of_not_mem hl', Option.map_some,
      Option.map_some, htrim]
  gap := by
    rw [advance, advance, List.map_cons, List.map_cons, htrim, h.gap]

theorem alike_advance_member (s s' : LineStart) {passed passed' l l' : Text}
    (hpassed : trim (lastLine passed') = trim (lastLine passed)) (htrim : trim l' = trim l) :
    (s.advance passed [l]).Alike (s'.advance passed' [l']) :=
  ⟨congrArg some hpassed, congrArg (fun l => [l]) htrim⟩

theorem Alike.any_isMarker (h : s.Alike s') (o : ScanOptions) :
    s'.above?.any o.isMarker = s.above?.any o.isMarker := by
  have hmap : ∀ l? : Option Text, l?.any o.isMarker =
      (l?.map trim).any fun l => (o.hideMarkers.map trim).contains l := by
    intro l?
    cases l? <;> rfl
  rw [hmap, hmap, h.above]

theorem summary?_eq (s : LineStart) : s.summary? =
    Summary.condense ((s.gap.map trim).takeWhile Summary.isDocLine).reverse := by
  have hdoc : Summary.isDocLine ∘ trim = Summary.isDocLine := funext Summary.isDocLine_trim
  rw [List.takeWhile_map, hdoc, ← List.map_reverse, Summary.condense_map_trim, summary?]

theorem Alike.summary? (h : s.Alike s') : s'.summary? = s.summary? := by
  rw [summary?_eq, summary?_eq, h.gap]

end LineStart

namespace Record

/-- Records that a listing shows the same. -/
structure Alike (w e : Text) (r r' : Record) : Prop where
  summary? : r'.summary? = r.summary?
  visibility : r'.visibility = r.visibility
  isStatic : r'.isStatic = r.isStatic
  modifiers : r'.modifiers = r.modifiers
  kind : r'.kind = r.kind
  head : r'.head = r.head
  block? : Option.Rel (Respelled w e false) r.block? r'.block?

theorem Alike.entry?_eq (hm : Margins w e) {r r' : Record} (h : Alike w e r r') (m : Mode) :
    r'.entry? m = r.entry? m := by
  have hdeclaration : r'.declaration = r.declaration := by
    rw [declaration, declaration, h.visibility, h.isStatic, h.modifiers, h.head]
  have hshown : r'.block?.map shownBlock = r.block?.map shownBlock := by
    refine map_eq_of_rel h.block? fun c d hcd => ?_
    rw [shownBlock, shownBlock, collapse, collapse, hcd.squeeze hm]
  have hconstants : r'.block?.map constants = r.block?.map constants :=
    map_eq_of_rel h.block? fun c d hcd => hcd.constants hm
  have hbody : r'.body? m = r.body? m := by
    cases m <;> simp only [body?, hdeclaration, hshown, hconstants]
  rw [Record.entry?.eq_def, Record.entry?.eq_def, h.kind, hbody, summaryLines, summaryLines, h.summary?]

end Record

theorem record_alike {m m' : Member} (hs : s.Alike s') (h : Member.Alike w e closed t v m m') :
    Record.Alike w e (s.record m) (s'.record m') where
  summary? := hs.summary?
  visibility := h.declaration.visibility
  isStatic := h.declaration.isStatic
  modifiers := h.declaration.modifierWords
  kind := h.declaration.kind
  head := h.declaration.shown
  block? := rel_map h.braces? fun _ _ hb => hb

theorem scanFrom_nil (o : ScanOptions) (s : LineStart) : scanFrom o s [] = [] := by
  rw [scanFrom_of_none (Member.read?_eq_none rfl)]
  rfl

/-- The scans of two texts that differ in the white space around their lines find the same. -/
theorem scanFrom_relined (hm : Margins w e) (he : o.boundary = .braceDepth → e = [])
    (hs : s.Alike s') (h : Relined w e closed t v) :
    List.Forall₂ (Record.Alike w e) (scanFrom o s t) (scanFrom o s' v) := by
  -- A step passes a line, or a member and the rest of its last line. Both scans stand at the start
  -- of a line again, with the same lines above it but for the white space.
  induction hn : t.length using Nat.strong_induction_on generalizing s s' t v with
  | _ n ih =>
      cases h with
      | nil hclosed =>
          rw [scanFrom_nil, scanFrom_nil]
          exact .nil
      | @line _ u h =>
          have hread := Member.read?_respelled hm he (hs.any_isMarker o) h
          generalize hr : Member.read? o s.above? t = m? at hread
          generalize hr' : Member.read? o s'.above? (w ++ u) = m'? at hread
          cases hread with
          | none =>
              have htrim : trim (firstLine (w ++ u)) = trim (firstLine t) := by
                rw [firstLine_append hm.not_mem_left, trim_spaces_append hm.isSpace_left,
                  h.trim_firstLine hm]
              have hnext := hs.advance_line (not_mem_firstLine t) (not_mem_firstLine _) htrim
              have hafter := h.afterLine hm
              rw [scanFrom_of_none hr, scanFrom_of_none hr', afterLine_append hm.not_mem_left]
              generalize hb : afterLine t = below? at hafter ⊢
              generalize afterLine u = below'? at hafter ⊢
              cases hafter with
              | none => exact .nil
              | some hbelow => exact ih _ (hn ▸ length_lt_of_afterLine hb) hnext hbelow rfl
          | @some m m' hmember =>
              obtain ⟨y, z, hy, hz, hrest, hlast⟩ := hmember.rest
              have hrecord := record_alike hs hmember
              have hnext := s.alike_advance_member s' hlast (hrest.trim_firstLine hm)
              have hafter := hrest.afterLine hm
              have hlt : y.length < t.length := by
                have := List.length_pos_iff.2 m.text_ne_nil
                rw [hy, List.length_append]
                omega
              rw [scanFrom_of_some hy hr, scanFrom_of_some hz hr']
              generalize hb : afterLine y = below? at hafter ⊢
              generalize afterLine z = below'? at hafter ⊢
              cases hafter with
              | none => exact .cons hrecord .nil
              | some hbelow =>
                  have := length_lt_of_afterLine hb
                  exact .cons hrecord (ih _ (by omega) hnext hbelow rfl)

theorem filterMap_entry?_eq (hm : Margins w e) {rs rs' : List Record}
    (h : List.Forall₂ (Record.Alike w e) rs rs') (m : Mode) :
    rs'.filterMap (fun r => r.entry? m) = rs.filterMap (fun r => r.entry? m) := by
  induction h with
  | nil => rfl
  | cons hr h ih => rw [List.filterMap_cons, List.filterMap_cons, hr.entry?_eq hm, ih]

namespace Listing

theorem ofSource_relined (hm : Margins w e) (he : o.boundary = .braceDepth → e = [])
    (h : Relined w e closed t v) (path : Text) (m : Mode) :
    ofSource o path v m = ofSource o path t m := by
  have hscan := scanFrom_relined (s := .first) hm he (LineStart.alike_refl _) h
  rw [ofSource, ofSource, render, render, sections, sections, scan, scan,
    filterMap_entry?_eq hm hscan m]

end Listing

namespace Text

/-- The text with `w` in front of every line, what stands behind the last newline included. -/
def indented (w t : Text) : Text := w ++ t.flatMap fun c => if c = '\n' then '\n' :: w else [c]

/-- The text with a carriage return in front of every newline. -/
def withReturns (t : Text) : Text := t.flatMap fun c => if c = '\n' then ['\r', '\n'] else [c]

theorem respelled_flatMap (w e t : Text) : Respelled w e closed t
    (t.flatMap fun c => if c = '\n' then e ++ '\n' :: w else [c]) := by
  induction t with
  | nil => exact .nil
  | cons c t ih =>
      rw [List.flatMap_cons]
      by_cases hc : c = '\n'
      · subst hc
        rw [if_pos rfl, List.append_assoc]
        exact .newline e (Or.inl rfl) ih
      · rw [if_neg hc]
        exact .char c hc ih

theorem relined_indented (w t : Text) : Relined w [] closed t (indented w t) :=
  .line (respelled_flatMap w [] t)

theorem relined_indented_newline (w t : Text) :
    Relined w [] true (t ++ ['\n']) (indented w t ++ ['\n']) := by
  rw [indented, List.append_assoc]
  exact .line ((respelled_flatMap w [] t).append (.close [] (Or.inl rfl) rfl))

theorem relined_withReturns (t : Text) : Relined [] ['\r'] closed t (withReturns t) :=
  .line (respelled_flatMap [] ['\r'] t)

end Text

namespace Listing

/-- A listing stays as it is when its source is indented as a whole, whether or not the empty line
at the end of the source is indented as well. -/
theorem ofSource_indented (o : ScanOptions) (path source : Text) (m : Mode)
    (hw : ∀ c ∈ w, isBlank c = true) :
    ofSource o path (indented w source) m = ofSource o path source m ∧
      ofSource o path (indented w source ++ ['\n']) m = ofSource o path (source ++ ['\n']) m := by
  have hm : Margins w [] := ⟨hw, fun c hc => absurd hc List.not_mem_nil⟩
  have hlines : Relined w [] false source (indented w source) := relined_indented w source
  exact ⟨ofSource_relined hm (fun _ => rfl) hlines path m,
    ofSource_relined hm (fun _ => rfl) (relined_indented_newline w source) path m⟩

theorem ofSource_indented_clock :
    (∀ c ∈ "\t ".toList, isBlank c = true) ∧
    ofSource { boundary := .braceDepth } "Clock.cs".toList
        (indented "\t ".toList "public int Hour\n\x7b\n    get;\n    set;\n\x7d".toList)
        .attributes =
      "// Clock.cs\n\npublic int Hour \x7b get; set; \x7d".toList := by
  have hw : ∀ c ∈ "\t ".toList, isBlank c = true := by simp [isBlank]
  exact ⟨hw, (ofSource_indented _ _ _ _ hw).1.trans (by decide +kernel)⟩

/-- A listing stays as it is when the lines of its source end in carriage returns and newlines. -/
theorem ofSource_withReturns (markers : List Text) (path source : Text) (m : Mode) :
    ofSource { hideMarkers := markers, boundary := .indentation } path (withReturns source) m =
      ofSource { hideMarkers := markers, boundary := .indentation } path source m := by
  have hm : Margins [] ['\r'] := ⟨fun c hc => absurd hc List.not_mem_nil, by simp [Returns]⟩
  have hlines : Relined [] ['\r'] false source (withReturns source) := relined_withReturns source
  exact ofSource_relined hm (fun hb => by cases hb) hlines path m

-- Where blocks end at their matching brace, a backslash in a string hides a newline, but not one
-- behind a carriage return.
example : ofSource { boundary := .braceDepth } []
      (withReturns "public int X\n\x7b\n\"\\\n\x7d\n\x7d".toList) .attributes ≠
    ofSource { boundary := .braceDepth } [] "public int X\n\x7b\n\"\\\n\x7d\n\x7d".toList
      .attributes := by
  decide +kernel

end Listing

end ApiListing
