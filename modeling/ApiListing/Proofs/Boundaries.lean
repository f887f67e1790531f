import ApiListing.Proofs.ConventionalScan
import ApiListing.Proofs.Places

namespace ApiListing

/-- What stands behind the brace that opens a block, on a line indented by `indent`, in conventional
code: no end of the block in either way, or else the matching brace on a later line right behind the
indentation, and no line between that begins with the indentation and a closing brace. -/
inductive LaidOut (indent behind : Text) : Prop
  | unclosed (hdepth : closeAtDepth .code 0 behind = none)
      (hindent : closeAtIndent indent behind = none)
  | closed (first : Text) (ls : List Text)
      (hdepth : closeAtDepth .code 0 behind = some (first ++ '\n' :: (Text.ofLines ls ++ indent)))
      (hfirst : '\n' ∉ first) (hindent : '\n' ∉ indent) (hls : ∀ l ∈ ls, '\n' ∉ l)
      (hopen : ∀ l ∈ ls, ¬ indent ++ ['}'] <+: l)

/-- The block that a record opens, if it is one of several lines, is laid out. -/
def Record.IsLaidOut (source : Text) (r : Record) : Prop :=
  ∀ opening indent, r.opening? source = some (opening, indent) →
    LaidOut indent (Text.splitBytes (opening + 1) source).2

variable {markers : List Text} {s : LineStart} {t before indent behind source : Text} {m : Member}
  {d : Declaration} {r : Record} {rs : List Record} {above? : Option Text}
  {boundary boundary' : Boundary}

theorem LaidOut.closeAtIndent_eq (h : LaidOut indent behind) :
    closeAtIndent indent behind = closeAtDepth .code 0 behind := by
  cases h with
  | unclosed hdepth hindent => rw [hdepth, hindent]
  | closed first ls hdepth hfirst hindent hls hopen =>
      obtain ⟨rest, hrest⟩ := eq_append_of_closeAtDepth hdepth
      have hlines := closeAtIndent_lines hindent hls hopen rest
      rw [hdepth, hrest, List.append_assoc, closeAtIndent_line hfirst, List.cons_append,
        List.append_assoc, hlines]
      rfl

theorem Record.Declares.after?_eq {o : ScanOptions} (h : r.Declares o before d behind)
    (hlaid : r.IsLaidOut (before ++ (d.text ++ behind))) :
    Braces.after? .indentation d.indent behind = Braces.after? .braceDepth d.indent behind := by
  cases ho : Braces.opening? d.indent behind with
  | none => exact Braces.after?_of_no_opening ho _ _
  | some o =>
      obtain ⟨u, hopens⟩ := Braces.opens_of_opening? ho
      have hopening : r.opening? (before ++ (d.text ++ behind)) =
          some (Text.byteSize (before ++ (d.text ++ o.lead)), o.indent) := by
        simp [Record.opening?, h.declared, h.start, ho]
      have hsplit : before ++ (d.text ++ behind) =
          before ++ (d.text ++ o.lead) ++ ['{'] ++ u := by
        simp [hopens.eq]
      have hbyte : Text.byteSize (before ++ (d.text ++ o.lead)) + 1 =
          Text.byteSize (before ++ (d.text ++ o.lead) ++ ['{']) := by
        rw [Text.byteSize_append _ ['{']]
        rfl
      have hclose := hlaid _ _ hopening
      rw [hbyte, hsplit, Text.splitBytes_append] at hclose
      rw [Braces.after?_of_opening? ho, Braces.after?_of_opening? ho, hopens.open?, hopens.open?]
      exact congrArg _ hclose.closeAtIndent_eq

namespace Member

theorem read?_none_of_boundary (h : read? ⟨markers, boundary⟩ above? t = none) :
    read? ⟨markers, boundary'⟩ above? t = none := by
  rw [Option.eq_none_iff_forall_ne_some] at h ⊢
  intro m hm
  obtain ⟨d, rest, hd, habove, htype, -⟩ := read?_eq_some_iff.1 hm
  exact h _ (read?_eq_some_iff.2 ⟨d, rest, hd, habove, htype, rfl⟩)

theorem read?_of_isLaidOut (hs : s.Behind before)
    (hread : read? ⟨markers, .braceDepth⟩ s.above? t = some m)
    (hlaid : (s.record m).IsLaidOut (before ++ t)) :
    read? ⟨markers, .indentation⟩ s.above? t = some m := by
  obtain ⟨d, rest, hd, habove, htype, rfl⟩ := read?_eq_some_iff.1 hread
  obtain ⟨behind, ht, hdeclares⟩ := hs.declares hread
  obtain rfl : t = d.text ++ behind := ht
  refine read?_eq_some_iff.2 ⟨d, rest, hd, habove, htype, ?_⟩
  rw [List.drop_left, hdeclares.after?_eq hlaid]

end Member

/-- A run over blocks that are laid out takes the same steps with the other boundary. -/
theorem Run.of_isLaidOut (h : Run ⟨markers, .braceDepth⟩ s t rs) (hs : s.Behind before)
    (hlaid : ∀ r ∈ rs, r.IsLaidOut (before ++ t)) : Run ⟨markers, .indentation⟩ s t rs := by
  induction h generalizing before with
  | last s line hline hread => exact .last s line hline (Member.read?_none_of_boundary hread)
  | lastMember s m line hline hread =>
      rw [List.forall_mem_singleton] at hlaid
      exact .lastMember s m line hline (Member.read?_of_isLaidOut hs hread hlaid)
  | skip s line below rs hline hread hrun ih =>
      refine .skip s line below rs hline (Member.read?_none_of_boundary hread) ?_
      exact ih (hs.advance line (line :: s.gap)) (by simpa using hlaid)
  | take s m line below rs hline hread hrun ih =>
      rw [List.forall_mem_cons] at hlaid
      refine .take s m line below rs hline (Member.read?_of_isLaidOut hs hread hlaid.1) ?_
      exact ih (hs.advance (m.text ++ line) [line]) (by simpa using hlaid.2)

/-- Scans with either boundary give the same records, where each block of several lines is laid
out in the conventional way. -/
theorem scan_indentation_eq_braceDepth
    (h : ∀ r ∈ scan ⟨markers, .braceDepth⟩ source, r.IsLaidOut source) :
    scan ⟨markers, .indentation⟩ source = scan ⟨markers, .braceDepth⟩ source :=
  ((run_scanFrom _ .first source).of_isLaidOut LineStart.behind_first h).eq_scanFrom

def laidOutProperties : Text :=
  ("    public int X \x7b\n//\x7d\n        get;\n    \x7d\npublic int Y\n\x7b\n").toList

theorem isLaidOut_laidOutProperties :
    ∀ r ∈ scan ⟨[], .braceDepth⟩ laidOutProperties, r.IsLaidOut laidOutProperties := by
  have hopenings : ∀ r ∈ scan ⟨[], .braceDepth⟩ laidOutProperties,
      r.opening? laidOutProperties = some (17, "    ".toList) ∨
        r.opening? laidOutProperties = some (55, []) := by
    decide +kernel
  intro r hr opening indent hopening
  rcases hopenings r hr with h | h <;> cases h.symm.trans hopening
  · exact .closed [] ["//\x7d".toList, "        get;".toList] (by decide +kernel) (by decide)
      (by decide) (by decide) (by decide)
  · exact .unclosed (by decide +kernel) (by decide +kernel)

theorem scan_indentation_eq_braceDepth_laidOut :
    (∀ r ∈ scan ⟨[], .braceDepth⟩ laidOutProperties, r.IsLaidOut laidOutProperties) ∧
    scan ⟨[], .indentation⟩ laidOutProperties = scan ⟨[], .braceDepth⟩ laidOutProperties :=
  ⟨isLaidOut_laidOutProperties, scan_indentation_eq_braceDepth isLaidOut_laidOutProperties⟩

end ApiListing
