import ApiListing.Proofs.Conventional
import ApiListing.Proofs.Marks

namespace ApiListing

variable {o : ScanOptions} {s : LineStart} {t before indent : Text} {ls : List Text}

theorem closeAtIndent_lines (hindent : '\n' ∉ indent) (hls : ∀ l ∈ ls, '\n' ∉ l)
    (hopen : ∀ l ∈ ls, ¬ indent ++ ['}'] <+: l) (rest : Text) :
    closeAtIndent indent ('\n' :: (Text.ofLines ls ++ (indent ++ '}' :: rest))) =
      some ('\n' :: (Text.ofLines ls ++ indent)) := by
  induction ls with
  | nil =>
      have hp : (indent ++ ['}']).isPrefixOf (indent ++ '}' :: rest) = true :=
        List.isPrefixOf_iff_prefix.2 ⟨rest, by simp⟩
      simp [Text.ofLines, closeAtIndent, hp]
  | cons l ls ih =>
      have hp : (indent ++ ['}']).isPrefixOf
          (l ++ '\n' :: (Text.ofLines ls ++ (indent ++ '}' :: rest))) = false := by
        rw [Bool.eq_false_iff, Ne, List.isPrefixOf_iff_prefix]
        intro h
        refine hopen l (List.mem_cons_self ..) (Text.prefix_of_prefix_append_cons ?_ h)
        simpa using hindent
      have hrest := ih (fun m hm => hls m (List.mem_cons_of_mem _ hm))
        fun m hm => hopen m (List.mem_cons_of_mem _ hm)
      rw [Text.ofLines_cons, closeAtIndent, List.append_assoc, List.cons_append, hp,
        closeAtIndent_line (hls l (List.mem_cons_self ..)), hrest]
      simp

namespace Summary

theorem said_line {said : Text} (hindent : ∀ c ∈ indent, Text.isBlank c = true)
    (hne : said ≠ []) (htrim : Text.trim said = said) :
    Summary.said (indent ++ (marker ++ ' ' :: said)) = said := by
  have hspace : ∀ c ∈ indent, Text.isSpace c = true :=
    fun c hc => Text.isSpace_of_isBlank (hindent c hc)
  have hmarker : marker = ['/', '/', '/'] := by decide
  have hlast : ∀ c ∈ (marker ++ ' ' :: said).getLast?, Text.isSpace c = false := by
    rw [← List.singleton_append, ← List.append_assoc, List.getLast?_append_of_ne_nil _ hne]
    exact Text.isSpace_getLast_of_trim htrim
  have hhead : ∀ c ∈ (marker ++ ' ' :: said).head?, Text.isSpace c = false := by
    rw [hmarker]
    exact Text.forall_mem_head?_cons (by decide)
  rw [Summary.said, Text.trim_spaces_append hspace, Text.trim_of_ends hhead hlast,
    Text.stripPrefix?_append_self, Option.getD_some]
  have hblank : ∀ c ∈ [' '], Text.isSpace c = true := by simp [Text.isSpace]
  exact (Text.trim_spaces_append hblank said).trans htrim

theorem stripOpening_eq (t : Text) :
    stripOpening t = (Text.stripPrefix? openingTag t).elim t stripOpening := by
  rw [stripOpening]
  split <;> next h => simp [h]

theorem IsPlain.firstSaid {said : Text} (h : IsPlain said) (below : List Text) :
    firstSaid ([] :: said :: below) = some said := by
  have hnil : Text.cut? closingTag [] = none := by decide
  simp [Summary.firstSaid, hnil, Text.cut?_eq_none_iff.2 h.unclosed, h.trimmed, h.ne_nil,
    (by decide : Text.trim [] = [])]

theorem IsPlain.condense {said : Text} (h : IsPlain said)
    (hindent : ∀ c ∈ indent, Text.isBlank c = true) :
    condense ([openingTag, said, closingTag].map fun t => indent ++ (marker ++ ' ' :: t)) =
      some said := by
  have hsaid : ([openingTag, said, closingTag].map fun t => indent ++ (marker ++ ' ' :: t)).map
      Summary.said = [openingTag, said, closingTag] := by
    simp only [List.map_cons, List.map_nil]
    rw [said_line hindent (by decide) (by decide), said_line hindent h.ne_nil h.trimmed,
      said_line hindent (by decide) (by decide)]
  have hstrip : stripOpening openingTag = [] := by
    rw [stripOpening_eq, (by decide : Text.stripPrefix? openingTag openingTag = some [])]
    rw [Option.elim_some, stripOpening_eq, (by decide : Text.stripPrefix? openingTag [] = none)]
    rfl
  rw [Summary.condense, hsaid]
  have hdrop : [openingTag, said, closingTag].dropWhile (fun t => !openingTag.isPrefixOf t) =
      [openingTag, said, closingTag] := by
    rw [List.dropWhile_cons_of_neg (by decide)]
  simp only [hdrop, hstrip, h.firstSaid]

end Summary

namespace Braces

/-- The opening brace of a block alone on the line below a declaration, with nothing but a clause
behind the declaration on its own line. -/
theorem opening?_below (line dIndent rest : Text) (hline : '\n' ∉ line)
    (hclause : clause line = line) (hindent : ∀ c ∈ indent, Text.isBlank c = true) :
    opening? dIndent (line ++ '\n' :: (indent ++ '{' :: '\n' :: rest)) =
      some ⟨line ++ '\n' :: indent, indent⟩ := by
  have hspace := Text.isSpace_of_blanks hindent
  have hnext : Text.firstLine (indent ++ '{' :: '\n' :: rest) = indent ++ ['{'] := by
    rw [← List.singleton_append, ← List.append_assoc]
    refine Text.firstLine_line ?_ rest
    simpa using Text.not_mem_of_blanks hindent
  have htrim : Text.trim (indent ++ ['{']) = ['{'] :=
    (Text.trim_spaces_append hspace _).trans (by decide)
  have hrun : (indent ++ ['{']).takeWhile Text.isSpace = indent :=
    Text.takeWhile_run hspace (Text.forall_mem_head?_cons (by decide))
  have hbelow : openingBelow? line (line ++ '\n' :: (indent ++ '{' :: '\n' :: rest)) =
      some ⟨line ++ '\n' :: indent, indent⟩ := by
    rw [openingBelow?, Text.afterLine_line hline]
    simp only [Option.bind_some, hnext, htrim, hrun, if_true]
  rw [opening?, Text.firstLine_line hline, hclause]
  simp only [List.drop_length]
  exact hbelow

/-- The opening brace of a block at the end of the line of its declaration. -/
theorem opening?_endOfLine (line gap dIndent rest : Text) (hline : '\n' ∉ line)
    (hclause : clause (line ++ (gap ++ ['{'])) = line) (hgap : ∀ c ∈ gap, Text.isBlank c = true) :
    opening? dIndent (line ++ (gap ++ '{' :: '\n' :: rest)) = some ⟨line ++ gap, dIndent⟩ := by
  have hfirst : Text.firstLine (line ++ (gap ++ '{' :: '\n' :: rest)) = line ++ (gap ++ ['{']) := by
    have hsplit : line ++ (gap ++ '{' :: '\n' :: rest) =
        line ++ (gap ++ ['{']) ++ '\n' :: rest := by simp
    rw [hsplit]
    refine Text.firstLine_line ?_ rest
    simpa [hline] using Text.not_mem_of_blanks hgap
  have honLine : onLine? (gap ++ ['{']) = none := by
    rw [onLine?, spanBlanks_append hgap (Text.forall_mem_head?_cons (by decide))]
    rfl
  have htrim : Text.trimEnd (gap ++ ['{']) = gap ++ ['{'] :=
    Text.trimEnd_of_getLast (by simpa using (by decide : Text.isSpace '{' = false))
  rw [opening?, hfirst, hclause, List.drop_left]
  simp only [honLine, htrim, List.getLast?_concat, List.dropLast_concat]
  rfl

theorem after?_of_close {boundary : Boundary} {dIndent behind content : Text} {o : Opening}
    (hopening : opening? dIndent t = some o) (ht : t = o.lead ++ '{' :: behind)
    (hclose : boundary.close o.indent behind = some content) :
    after? boundary dIndent t = some ⟨o.lead, content⟩ := by
  have hdrop : t.drop (o.lead.length + 1) = behind := by simp [ht]
  rw [after?_of_opening? hopening, open?, hdrop, hclose]
  rfl

end Braces

theorem LineStart.clear_of_closing (hindent : ∀ c ∈ indent, Text.isBlank c = true)
    (habove : s.above? = some (indent ++ ['}']))
    (hgap : ∀ l ∈ s.gap.head?, l = [] ∨ l = indent ++ ['}']) : s.Clear := by
  refine clear_of_above habove ?_ fun l hl => ?_
  · rw [Text.trim_spaces_append (Text.isSpace_of_blanks hindent)]
    decide
  · have hstart : Text.trimStart (indent ++ ['}']) = ['}'] :=
      Text.dropWhile_run (Text.isSpace_of_blanks hindent) (Text.forall_mem_head?_cons (by decide))
    rcases hgap l hl with rfl | rfl
    · decide
    · rw [Summary.isDocLine, hstart]
      decide

/-- A member that ends in a closing brace on a line of its own. -/
theorem scanFrom_closed {m : Member} {rest : Text} (hindent : ∀ c ∈ indent, Text.isBlank c = true)
    (hread : Member.read? {} s.above? (m.text ++ '\n' :: rest) = some m)
    (hlast : Text.lastLine m.text = indent ++ ['}']) :
    (s.advance m.text [[]]).Clear ∧
      scanFrom {} s (m.text ++ '\n' :: rest) =
        s.record m :: scanFrom {} (s.advance m.text [[]]) rest := by
  have hafter : Text.afterLine ('\n' :: rest) = some rest :=
    Text.afterLine_line (l := []) (by simp) rest
  have hfirst : Text.firstLine ('\n' :: rest) = [] := rfl
  constructor
  · refine LineStart.clear_of_closing hindent ?_ fun l hl => ?_
    · rw [LineStart.advance, hlast]
    · cases hl
      exact Or.inl rfl
  · rw [scanFrom_of_some rfl hread, hafter, hfirst, List.append_nil]

namespace Conventional

variable {c : Conventional}

theorem not_mem_name {w : Text} (h : Text.IsName w) : '\n' ∉ w :=
  fun hmem => absurd (h.isWordChar _ hmem) (by decide)

theorem not_mem_headText (c : Conventional) : '\n' ∉ c.headText := by
  have hparameters : '\n' ∉ c.parametersText := by
    rw [parametersText]
    split
    · next p hp => simpa using (c.parameters_plain p hp).2.2
    · simp
  simp [headText, not_mem_name c.type_name, not_mem_name c.name_name, hparameters]

theorem not_mem_spaced {ws : List Text} (h : ∀ w ∈ ws, w ∈ Modifier.knownWords) :
    '\n' ∉ Modifier.spaced ws := by
  have hknown : ∀ w ∈ Modifier.knownWords, '\n' ∉ w := by decide
  simp only [Modifier.spaced, List.mem_flatten, List.mem_map]
  rintro ⟨_, ⟨w, hw, rfl⟩, hmem⟩
  exact hknown w (h w hw) (by simpa using hmem)

theorem not_mem_declarationLine (c : Conventional) : '\n' ∉ c.declarationLine := by
  have hvisibility : '\n' ∉ c.visibility.word := by cases c.visibility <;> decide
  have hstatic : '\n' ∉ c.staticText := by
    rw [staticText]
    cases c.isStatic <;> decide
  simp [declarationLine, Text.not_mem_of_blanks c.indent_blank, hvisibility, hstatic,
    not_mem_spaced c.modifiers_known, c.not_mem_headText]

theorem not_mem_docLines (c : Conventional) : ∀ l ∈ c.docLines, '\n' ∉ l := by
  have hindent := Text.not_mem_of_blanks c.indent_blank
  have hmarker : '\n' ∉ Summary.marker := by decide
  have hdocLine : ∀ t, '\n' ∉ t → '\n' ∉ c.docLine t := by
    intro t ht
    simp [docLine, hindent, hmarker, ht]
  rw [docLines]
  split
  · next t ht =>
      simp only [List.forall_mem_cons, List.not_mem_nil, false_implies, implies_true, and_true]
      exact ⟨hdocLine _ (by decide), hdocLine t (c.doc_plain t ht).line, hdocLine _ (by decide)⟩
  · simp

theorem ofLines_blockLines (c : Conventional) :
    Text.ofLines c.blockLines = c.indent ++ '{' :: (c.block ++ ['}', '\n']) := by
  simp [blockLines, block, closingLine, Text.ofLines]

theorem after?_declaration (c : Conventional) (rest : Text) :
    Braces.after? .indentation c.indent ('\n' :: (Text.ofLines c.blockLines ++ rest)) =
      some ⟨'\n' :: c.indent, c.block⟩ := by
  have hclose : Boundary.close .indentation c.indent
      ('\n' :: (Text.ofLines c.body ++ (c.indent ++ '}' :: '\n' :: rest))) = some c.block :=
    closeAtIndent_lines (Text.not_mem_of_blanks c.indent_blank) c.body_lines c.body_open _
  have hopening := Braces.opening?_below [] c.indent
    (Text.ofLines c.body ++ (c.indent ++ '}' :: '\n' :: rest)) (by simp) rfl c.indent_blank
  refine Braces.after?_of_close (o := ⟨'\n' :: c.indent, c.indent⟩) ?_ ?_ hclose
  · rw [ofLines_blockLines]
    simpa [block] using hopening
  · simp [ofLines_blockLines, block]

def member (c : Conventional) : Member := ⟨c.declaration, some ⟨'\n' :: c.indent, c.block⟩⟩

theorem text_member (c : Conventional) :
    c.member.text = c.declarationLine ++ '\n' :: (c.indent ++ '{' :: (c.block ++ ['}'])) := by
  simp [member, Member.text, Braces.text, c.text_declaration]

theorem read?_member {above? : Option Text} (habove : above?.any o.isMarker = false)
    (hboundary : o.boundary = .indentation) (rest : Text) :
    Member.read? o above? (c.declarationLine ++ '\n' :: (Text.ofLines c.blockLines ++ rest)) =
      some c.member := by
  rw [Member.read?_eq_some_iff, Text.firstLine_line c.not_mem_declarationLine]
  refine ⟨c.declaration, [], c.read?_declarationLine, habove, c.isTypeDefinition_head, ?_⟩
  rw [c.text_declaration, List.drop_left, hboundary]
  exact congrArg _ (c.after?_declaration rest).symm

theorem isDocLine_docLine (c : Conventional) (t : Text) :
    Summary.isDocLine (c.docLine t) = true := by
  have hmarker : Summary.marker = ['/', '/', '/'] := by decide
  have hstart : Text.trimStart (c.docLine t) = Summary.marker ++ ' ' :: t := by
    apply Text.dropWhile_run (Text.isSpace_of_blanks c.indent_blank)
    rw [hmarker]
    exact Text.forall_mem_head?_cons (by decide)
  rw [Summary.isDocLine, hstart, List.isPrefixOf_iff_prefix]
  exact List.prefix_append ..

theorem isDocLine_of_mem_docLines (c : Conventional) :
    ∀ l ∈ c.docLines, Summary.isDocLine l = true := by
  rw [docLines]
  split <;> simp [isDocLine_docLine]

theorem read?_docLine (c : Conventional) (t : Text) : Declaration.read? (c.docLine t) = none := by
  have hmarker : Summary.marker = ['/', '/', '/'] := by decide
  refine Declaration.read?_eq_none ?_
  rw [docLine, spanBlanks_append c.indent_blank (by simp [hmarker, Text.isBlank])]
  simp [hmarker]

theorem read?_of_mem_docLines (c : Conventional) :
    ∀ l ∈ c.docLines, Declaration.read? l = none := by
  rw [docLines]
  split <;> simp [read?_docLine]

theorem summary?_skip (hgap : s.gap.takeWhile Summary.isDocLine = []) :
    (s.skip c.docLines).summary? = c.doc? := by
  have hdoc : ∀ l ∈ c.docLines.reverse, Summary.isDocLine l = true :=
    fun l hl => c.isDocLine_of_mem_docLines l (List.mem_reverse.1 hl)
  rw [LineStart.summary?, LineStart.gap_skip, List.takeWhile_append_of_pos hdoc, hgap,
    List.append_nil, List.reverse_reverse]
  rw [docLines]
  cases ht : c.doc? with
  | none => rfl
  | some t => exact (c.doc_plain t ht).condense c.indent_blank

theorem above_skip_docLines (habove : s.above?.any ({} : ScanOptions).isMarker = false) :
    (s.skip c.docLines).above?.any ({} : ScanOptions).isMarker = false := by
  cases ht : c.doc? with
  | none =>
      have hlines : c.docLines = [] := by simp [docLines, ht]
      rw [hlines]
      exact habove
  | some t =>
      have hlines : c.docLines = [c.docLine Summary.openingTag, c.docLine t] ++
          [c.docLine Summary.closingTag] := by simp [docLines, ht]
      have hlast : '\n' ∉ c.docLine Summary.closingTag :=
        c.not_mem_docLines _ (by rw [hlines]; simp)
      have htrim : Text.trim (c.docLine Summary.closingTag) =
          Summary.marker ++ ' ' :: Summary.closingTag :=
        (Text.trim_spaces_append (Text.isSpace_of_blanks c.indent_blank) _).trans (by decide)
      rw [hlines, LineStart.above_skip hlast, Option.any_some, ScanOptions.isMarker, htrim]
      decide

theorem record_member (hs : s.Behind before) (hsummary : s.summary? = c.doc?) :
    s.record c.member = c.record before := by
  have hwords : c.member.declaration.modifierWords = c.modifiers := by
    simp [member, declaration, Declaration.modifierWords, Modifier.ofWord, Function.comp_def]
  have hstatic : c.member.declaration.isStatic = c.isStatic := by
    rw [member, declaration, Declaration.isStatic]
    cases c.isStatic <;> rfl
  have hkind : c.member.declaration.head.kind = _ := c.kind_head
  have hhead : c.member.declaration.head.shown = _ := c.shown_head
  have htext : before ++ c.declarationLine ++ '\n' :: c.indent ++ '{' :: c.block ++ ['}'] =
      before ++ c.member.text := by simp [c.text_member]
  rw [LineStart.record, record, hsummary, hs.offset, hs.line, hwords, hstatic, hkind, hhead, htext,
    Text.byteSize_append]
  rfl

theorem scanFrom_visible (hs : s.Behind before) (hclear : s.Clear) (hhidden : c.hidden = false)
    (rest : Text) :
    ∃ s', s'.Behind (before ++ c.text) ∧ s'.Clear ∧
      scanFrom {} s (c.text ++ rest) =
        c.record (before ++ Text.ofLines c.docLines) :: scanFrom {} s' rest := by
  have hmarkers : c.markerLines = [] := by simp [markerLines, hhidden]
  have htext : c.text = Text.ofLines c.docLines ++ (c.member.text ++ ['\n']) := by
    rw [text, hmarkers, List.append_nil, Text.ofLines_append, Text.ofLines_cons,
      ofLines_blockLines, text_member]
    simp
  have hbehind := hs.skip c.docLines
  have hread := c.read?_member (o := {}) (above_skip_docLines (c := c) hclear.above) rfl rest
  have hsplit : c.declarationLine ++ '\n' :: (Text.ofLines c.blockLines ++ rest) =
      c.member.text ++ '\n' :: rest := by
    simp [ofLines_blockLines, text_member]
  have hlast : Text.lastLine c.member.text = c.closingLine := by
    have hclosing : '\n' ∉ c.closingLine := by
      simpa [closingLine] using Text.not_mem_of_blanks c.indent_blank
    have hend : c.member.text = (c.declarationLine ++ '\n' :: (c.indent ++ ['{']) ++ ['\n']) ++
        Text.ofLines c.body ++ c.closingLine := by simp [text_member, block, closingLine]
    rw [hend, Text.lastLine_append ((Text.beginsLine_append_newline _).ofLines _),
      Text.lastLine_of_not_mem hclosing]
  rw [hsplit] at hread
  obtain ⟨hclear', hscan⟩ := scanFrom_closed c.indent_blank hread hlast
  refine ⟨(s.skip c.docLines).advance c.member.text [[]], ?_, hclear', ?_⟩
  · rw [htext, ← List.append_assoc, ← List.append_assoc]
    exact hbehind.advance c.member.text [[]]
  · rw [htext, List.append_assoc, scanFrom_lines c.not_mem_docLines c.read?_of_mem_docLines,
      List.append_assoc, List.singleton_append, hscan,
      record_member hbehind (summary?_skip hclear.gap)]

theorem read?_brace {brace : Char} (hindent : ∀ a ∈ indent, Text.isBlank a = true)
    (hbrace : brace = '{' ∨ brace = '}' ∨ brace = '[') (behind : Text) :
    Declaration.read? (indent ++ brace :: behind) = none := by
  refine Declaration.read?_eq_none ?_
  rw [spanBlanks_append hindent]
  · rcases hbrace with rfl | rfl | rfl <;> simp
  · rcases hbrace with rfl | rfl | rfl <;> simp [Text.isBlank]

theorem read?_of_mem_blockLines (hhidden : c.hidden = true) :
    ∀ l ∈ c.blockLines, Declaration.read? l = none := by
  intro l hl
  simp only [blockLines, List.cons_append, List.mem_cons, List.mem_append, List.not_mem_nil,
    or_false] at hl
  rcases hl with rfl | hl | rfl
  · exact read?_brace c.indent_blank (Or.inl rfl) []
  · exact c.body_hidden hhidden l hl
  · exact read?_brace c.indent_blank (Or.inr (Or.inl rfl)) []

theorem not_mem_blockLines (c : Conventional) : ∀ l ∈ c.blockLines, '\n' ∉ l := by
  have hindent := Text.not_mem_of_blanks c.indent_blank
  intro l hl
  simp only [blockLines, List.cons_append, List.mem_cons, List.mem_append, List.not_mem_nil,
    or_false] at hl
  rcases hl with rfl | hl | rfl
  · simpa using hindent
  · exact c.body_lines l hl
  · simpa [closingLine] using hindent

theorem not_mem_markerLines (c : Conventional) : ∀ l ∈ c.markerLines, '\n' ∉ l := by
  have hline : '\n' ∉ c.indent ++ "[MoonSharpVisible(false)]".toList := by
    rw [List.mem_append, not_or]
    exact ⟨Text.not_mem_of_blanks c.indent_blank, by decide⟩
  rw [markerLines]
  split
  · simpa using hline
  · simp

theorem read?_of_mem_markerLines (c : Conventional) :
    ∀ l ∈ c.markerLines, Declaration.read? l = none := by
  have hmarker : "[MoonSharpVisible(false)]".toList = '[' :: "MoonSharpVisible(false)]".toList := by
    decide
  rw [markerLines, hmarker]
  split
  · simpa using read?_brace c.indent_blank (Or.inr (Or.inr rfl)) _
  · simp

theorem above_skip_markerLines (hhidden : c.hidden = true) :
    (s.skip (c.docLines ++ c.markerLines)).above?.any ({} : ScanOptions).isMarker = true := by
  have hlines : c.markerLines = [c.indent ++ "[MoonSharpVisible(false)]".toList] := by
    rw [markerLines, if_pos hhidden]
  have hline := c.not_mem_markerLines _ (hlines ▸ List.mem_singleton_self _)
  have htrim : Text.trim (c.indent ++ "[MoonSharpVisible(false)]".toList) =
      "[MoonSharpVisible(false)]".toList :=
    (Text.trim_spaces_append (Text.isSpace_of_blanks c.indent_blank) _).trans (by decide)
  rw [hlines, LineStart.above_skip hline, Option.any_some, ScanOptions.isMarker, htrim]
  decide

theorem scanFrom_hidden (hs : s.Behind before) (hhidden : c.hidden = true) (rest : Text) :
    ∃ s', s'.Behind (before ++ c.text) ∧ s'.Clear ∧
      scanFrom {} s (c.text ++ rest) = scanFrom {} s' rest := by
  have hdeclaration (t : Text) : scanFrom {} (s.skip (c.docLines ++ c.markerLines))
      (c.declarationLine ++ '\n' :: t) =
        scanFrom {} (s.skip (c.docLines ++ c.markerLines ++ [c.declarationLine])) t := by
    rw [scanFrom_of_none (Member.read?_of_marker (above_skip_markerLines hhidden)),
      Text.afterLine_line c.not_mem_declarationLine, Text.firstLine_line c.not_mem_declarationLine,
      LineStart.skip_append _ _ [c.declarationLine]]
    rfl
  have hall : c.docLines ++ c.markerLines ++ c.declarationLine :: c.blockLines =
      c.docLines ++ c.markerLines ++ [c.declarationLine] ++ ((c.indent ++ ['{']) :: c.body) ++
        [c.closingLine] := by simp [blockLines]
  have hclosing : '\n' ∉ c.closingLine := c.not_mem_blockLines _ (by simp [blockLines])
  refine ⟨s.skip (c.docLines ++ c.markerLines ++ c.declarationLine :: c.blockLines),
    hs.skip _, LineStart.clear_of_closing c.indent_blank ?_ ?_, ?_⟩
  · rw [hall, LineStart.above_skip hclosing]
    rfl
  · rw [hall, LineStart.gap_skip]
    intro l hl
    simp only [List.reverse_append, List.reverse_singleton, List.cons_append, List.head?_cons,
      Option.mem_def, Option.some.injEq] at hl
    exact Or.inr hl.symm
  · rw [text, Text.ofLines_append, Text.ofLines_append, List.append_assoc, List.append_assoc,
      scanFrom_lines c.not_mem_docLines c.read?_of_mem_docLines,
      scanFrom_lines c.not_mem_markerLines c.read?_of_mem_markerLines, ← LineStart.skip_append,
      Text.ofLines_cons, List.append_assoc, List.cons_append, hdeclaration,
      scanFrom_lines c.not_mem_blockLines (read?_of_mem_blockLines hhidden),
      ← LineStart.skip_append]
    simp

/-- One member of a source: its record, if it is not hidden, and again the start of a member. -/
theorem scanFrom_text (c : Conventional) (hs : s.Behind before) (hclear : s.Clear) (rest : Text) :
    ∃ s', s'.Behind (before ++ c.text) ∧ s'.Clear ∧
      scanFrom {} s (c.text ++ rest) =
        (if c.hidden then [] else [c.record (before ++ Text.ofLines c.docLines)])
          ++ scanFrom {} s' rest := by
  cases hhidden : c.hidden with
  | false => exact scanFrom_visible hs hclear hhidden rest
  | true => exact scanFrom_hidden hs hhidden rest

theorem scanFrom_texts (cs : List Conventional) (hs : s.Behind before) (hclear : s.Clear) :
    scanFrom {} s (cs.map text).flatten = records before cs := by
  induction cs generalizing s before with
  | nil =>
      have hnone : Member.read? {} s.above? [] = none := Member.read?_eq_none rfl
      rw [List.map_nil, List.flatten_nil, scanFrom_of_none hnone]
      rfl
  | cons c cs ih =>
      obtain ⟨s', hs', hclear', hscan⟩ := scanFrom_text c hs hclear (cs.map text).flatten
      rw [List.map_cons, List.flatten_cons, hscan, ih hs' hclear', records]

end Conventional

/-- A source of members in the conventional layout gives exactly their records. -/
theorem scan_conventional (cs : List Conventional) :
    scan {} (cs.map Conventional.text).flatten = Conventional.records [] cs :=
  Conventional.scanFrom_texts cs LineStart.behind_first LineStart.clear_first

end ApiListing
