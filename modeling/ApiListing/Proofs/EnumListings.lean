import ApiListing.Proofs.ConventionalScan
import ApiListing.Proofs.ListingFixpoint
import ApiListing.Proofs.Respelling

namespace ApiListing

inductive BraceStyle where
  | ownLine
  | endOfLine
  deriving DecidableEq, Repr

/-- An enum in the conventional layout, with any lines that are not blank between its braces. -/
structure ConventionalEnum where
  indent : Text
  visibility : Visibility
  name : Text
  base? : Option Text
  body : List Text
  style : BraceStyle
  indent_blank : ∀ c ∈ indent, Text.isBlank c = true
  name_name : Text.IsName name
  base_name : ∀ b ∈ base?, Text.IsName b
  body_lines : ∀ l ∈ body, '\n' ∉ l
  body_filled : ∀ l ∈ body, Text.trim l ≠ []
  body_open : ∀ l ∈ body, ¬ indent ++ ['}'] <+: l

instance : Inhabited ConventionalEnum where
  default :=
    { indent := ['\t']
      visibility := .owner
      name := "Access".toList
      base? := some "byte".toList
      body := ["  None = 0, // (public int X;)".toList, "\x7d Read".toList]
      style := .endOfLine
      indent_blank := by simp [Text.isBlank]
      name_name := by decide
      base_name := by
        intro b hb
        cases hb
        decide
      body_lines := by decide
      body_filled := by decide
      body_open := by decide }

namespace ConventionalEnum

variable {s : LineStart}

def clause (e : ConventionalEnum) : Text :=
  match e.base? with
  | some b => " : ".toList ++ b
  | none => []

def declarationLine (e : ConventionalEnum) : Text :=
  e.indent ++ (e.visibility.word ++ ([' '] ++ ("enum".toList ++ ' ' :: (e.name ++ e.clause))))

def closingLine (e : ConventionalEnum) : Text := e.indent ++ ['}']

def openingLines (e : ConventionalEnum) : List Text :=
  match e.style with
  | .ownLine => [e.declarationLine, e.indent ++ ['{']]
  | .endOfLine => [e.declarationLine ++ " \x7b".toList]

def text (e : ConventionalEnum) : Text :=
  Text.ofLines (e.openingLines ++ e.body ++ [e.closingLine])

def block (e : ConventionalEnum) : Text := '\n' :: Text.ofLines e.body ++ e.indent

def tail (e : ConventionalEnum) : Text :=
  match e.style with
  | .ownLine => e.clause
  | .endOfLine => e.clause ++ " \x7b".toList

def lead (e : ConventionalEnum) : Text :=
  match e.style with
  | .ownLine => e.clause ++ '\n' :: e.indent
  | .endOfLine => e.clause ++ [' ']

def declaration (e : ConventionalEnum) : Declaration where
  indent := e.indent
  visibility := e.visibility
  gap := [' ']
  static? := none
  modifiers := []
  head := .enum [' '] e.name

def member (e : ConventionalEnum) : Member := ⟨e.declaration, some ⟨e.lead, e.block⟩⟩

theorem plain_clause (e : ConventionalEnum) :
    ∀ c ∈ e.clause, c = ' ' ∨ c = ':' ∨ Text.isWordChar c = true := by
  rw [clause]
  split
  · next b hb =>
      have hspaced : " : ".toList = [' ', ':', ' '] := by decide
      have hword := (e.base_name b hb).isWordChar
      simp only [hspaced, List.cons_append, List.nil_append, List.forall_mem_cons, true_or, or_true,
        true_and]
      exact fun c hc => .inr (.inr (hword c hc))
  · simp

theorem not_mem_clause (e : ConventionalEnum) : '\n' ∉ e.clause := by
  intro hmem
  rcases e.plain_clause _ hmem with h | h | h <;> revert h <;> decide

theorem open_not_mem_clause (e : ConventionalEnum) : '{' ∉ e.clause := by
  intro hmem
  rcases e.plain_clause _ hmem with h | h | h <;> revert h <;> decide

theorem opensSignature_clause (e : ConventionalEnum) :
    ∀ c ∈ e.clause, Head.opensSignature c = false := by
  intro c hc
  rcases e.plain_clause c hc with rfl | rfl | h
  · decide
  · decide
  · exact Head.opensSignature_of_isWordChar h

theorem isWordChar_head?_clause (e : ConventionalEnum) {t : Text}
    (ht : ∀ c ∈ t.head?, Text.isWordChar c = false) :
    ∀ c ∈ (e.clause ++ t).head?, Text.isWordChar c = false := by
  rw [clause]
  split
  · exact Text.forall_mem_head?_cons (t := ": ".toList ++ _ ++ t) (by decide)
  · exact ht

theorem clause_eq (e : ConventionalEnum) : Braces.clause e.clause = e.clause := by
  have hall : e.clause.takeWhile (· ≠ '{') = e.clause :=
    List.takeWhile_eq_self_iff.2 (Text.ne_of_not_mem e.open_not_mem_clause)
  rw [Braces.clause, hall]
  rw [clause]
  split <;> rfl

theorem clause_brace {e : ConventionalEnum} (hbase : e.clause ≠ []) :
    Braces.clause (e.clause ++ [' '] ++ ['{']) = e.clause ++ [' '] := by
  have hopen : '{' ∉ e.clause ++ [' '] := by simpa using e.open_not_mem_clause
  have hrun : (e.clause ++ [' '] ++ ['{']).takeWhile (· ≠ '{') = e.clause ++ [' '] :=
    Text.takeWhile_run (Text.ne_of_not_mem hopen) (by simp)
  rw [Braces.clause, hrun]
  rw [clause] at hbase ⊢
  split at hbase
  · rfl
  · exact absurd rfl hbase

theorem opening?_lead (e : ConventionalEnum) (below : Text) :
    Braces.opening? e.indent (e.lead ++ '{' :: '\n' :: below) = some ⟨e.lead, e.indent⟩ := by
  rw [lead]
  cases e.style with
  | ownLine =>
      have hopening :=
        Braces.opening?_below e.clause e.indent below e.not_mem_clause e.clause_eq e.indent_blank
      simpa using hopening
  | endOfLine =>
      by_cases hbase : e.clause = []
      · have hopening := Braces.opening?_endOfLine [] [' '] e.indent below (by simp) rfl
          isGap_space.isBlank
        simpa [hbase] using hopening
      · have hopening := Braces.opening?_endOfLine (e.clause ++ [' ']) [] e.indent below
          (by simpa using e.not_mem_clause) (clause_brace hbase) (by simp)
        simpa using hopening

theorem brace_eq : " \x7b".toList = [' ', '{'] := by decide

theorem isWordChar_head?_tail (e : ConventionalEnum) :
    ∀ c ∈ e.tail.head?, Text.isWordChar c = false := by
  rw [tail]
  split
  · have hclause := e.isWordChar_head?_clause (t := []) (by simp)
    rwa [List.append_nil] at hclause
  · rw [brace_eq]
    exact e.isWordChar_head?_clause (Text.forall_mem_head?_cons (by decide))

theorem opensSignature_tail (e : ConventionalEnum) :
    ∀ c ∈ e.tail, Head.opensSignature c = false := by
  rw [tail]
  split
  · exact e.opensSignature_clause
  · rw [brace_eq, List.forall_mem_append, List.forall_mem_cons, List.forall_mem_singleton]
    exact ⟨e.opensSignature_clause, by decide, by decide⟩

def headText (e : ConventionalEnum) : Text := "enum".toList ++ ' ' :: (e.name ++ e.tail)

theorem isBlank_enum : ∀ c ∈ "enum".toList, Text.isBlank c = false :=
  isBlank_of_mem_wordChars (by decide : Text.IsName "enum".toList).isWordChar

theorem static?_headText (e : ConventionalEnum) : Modifier.static? e.headText = none :=
  Modifier.static?_append_eq_none (by decide) isBlank_enum isGap_space e.name_name.isBlank_head?

theorem modifierHead?_headText (e : ConventionalEnum) :
    Modifier.head? e.headText = some ([], .enum [' '] e.name, e.tail) := by
  have hknown : Modifier.known? e.headText = none :=
    Modifier.known?_append_eq_none (by decide) isBlank_enum isGap_space e.name_name.isBlank_head?
  rw [Modifier.head?_of_known?_eq_none hknown, headText,
    Head.read?_enum_append e.name_name e.isWordChar_head?_tail e.opensSignature_tail]
  rfl

theorem read?_firstLine (e : ConventionalEnum) :
    Declaration.read? (e.indent ++ (e.visibility.word ++ ([' '] ++ e.headText))) =
      some (e.declaration, e.tail) := by
  have hletters : "enum".toList = 'e' :: "num".toList := by decide
  have hblank : ∀ c ∈ e.headText.head?, Text.isBlank c = false := by
    rw [headText, hletters]
    exact Text.forall_mem_head?_cons (by decide)
  have hmodified : Declaration.modified? e.headText =
      some (none, [], .enum [' '] e.name, e.tail) := by
    refine Declaration.modified?_of_head? e.modifierHead?_headText fun m hm => ?_
    cases e.static?_headText.symm.trans hm
  exact Declaration.read?_words e.indent_blank hblank hmodified

theorem text_declaration (e : ConventionalEnum) :
    e.declaration.text =
      e.indent ++ (e.visibility.word ++ ([' '] ++ ("enum".toList ++ ' ' :: e.name))) := by
  simp [declaration, Declaration.text, Declaration.modifiersText, Head.text]

theorem not_mem_firstLine (e : ConventionalEnum) : '\n' ∉ e.declaration.text ++ e.tail := by
  have hvisibility : '\n' ∉ e.visibility.word := by cases e.visibility <;> decide
  have hname : '\n' ∉ e.name := Conventional.not_mem_name e.name_name
  have htail : '\n' ∉ e.tail := by
    rw [tail]
    split <;> simp [e.not_mem_clause]
  simp [text_declaration, Text.not_mem_of_blanks e.indent_blank, hvisibility, hname, htail]

theorem text_member (e : ConventionalEnum) :
    e.member.text = e.declaration.text ++ (e.lead ++ '{' :: (e.block ++ ['}'])) := by
  simp [member, Member.text, Braces.text]

theorem text_eq (e : ConventionalEnum) : e.text = e.member.text ++ ['\n'] := by
  rw [text, openingLines, text_member, lead]
  split <;>
    simp [Text.ofLines, text_declaration, declarationLine, block, closingLine]

theorem firstLine_lead (e : ConventionalEnum) (below : Text) :
    Text.firstLine (e.declaration.text ++ (e.lead ++ '{' :: '\n' :: below)) =
      e.declaration.text ++ e.tail := by
  obtain ⟨rest, hrest⟩ : ∃ rest, e.lead ++ '{' :: '\n' :: below = e.tail ++ '\n' :: rest := by
    rw [lead, tail]
    split
    · exact ⟨e.indent ++ '{' :: '\n' :: below, by simp⟩
    · exact ⟨below, by simp⟩
  rw [hrest, ← List.append_assoc, Text.firstLine_line e.not_mem_firstLine]

theorem read?_member (e : ConventionalEnum) {above? : Option Text}
    (habove : above?.any ({} : ScanOptions).isMarker = false) (rest : Text) :
    Member.read? {} above? (e.member.text ++ rest) = some e.member := by
  have hclose : Boundary.close .indentation e.indent
      ('\n' :: (Text.ofLines e.body ++ (e.indent ++ '}' :: rest))) = some e.block :=
    closeAtIndent_lines (Text.not_mem_of_blanks e.indent_blank) e.body_lines e.body_open _
  have hopening := e.opening?_lead (Text.ofLines e.body ++ (e.indent ++ '}' :: rest))
  have hafter := Braces.after?_of_close hopening rfl hclose
  have hsplit : e.member.text ++ rest = e.declaration.text ++
      (e.lead ++ '{' :: '\n' :: (Text.ofLines e.body ++ (e.indent ++ '}' :: rest))) := by
    simp [text_member, block]
  have hread := e.read?_firstLine
  rw [Member.read?_eq_some_iff, hsplit, e.firstLine_lead]
  refine ⟨e.declaration, e.tail, ?_, habove, rfl, ?_⟩
  · rw [text_declaration]
    simpa [headText] using hread
  · rw [List.drop_left]
    exact congrArg _ hafter.symm

theorem lastLine_member (e : ConventionalEnum) : Text.lastLine e.member.text = e.closingLine := by
  have hclosing : '\n' ∉ e.closingLine := by
    simpa [closingLine] using Text.not_mem_of_blanks e.indent_blank
  have hend : e.member.text = (e.declaration.text ++ (e.lead ++ ['{']) ++ ['\n']) ++
      Text.ofLines e.body ++ e.closingLine := by simp [text_member, block, closingLine]
  rw [hend, Text.lastLine_append ((Text.beginsLine_append_newline _).ofLines _),
    Text.lastLine_of_not_mem hclosing]

/-- One enum of a source: its record, and again the start of an enum. -/
theorem scanFrom_text (e : ConventionalEnum) (hclear : s.Clear) (rest : Text) :
    ∃ s', s'.Clear ∧ scanFrom {} s (e.text ++ rest) = s.record e.member :: scanFrom {} s' rest := by
  have hread := e.read?_member hclear.above ('\n' :: rest)
  obtain ⟨hclear', hscan⟩ := scanFrom_closed e.indent_blank hread e.lastLine_member
  refine ⟨_, hclear', ?_⟩
  rw [text_eq, List.append_assoc, List.singleton_append, hscan]

theorem constants_block (e : ConventionalEnum) :
    Record.constants e.block = e.body.map Text.trim := by
  have hlines : ∀ l ∈ [] :: e.body, '\n' ∉ l := List.forall_mem_cons.2 ⟨by simp, e.body_lines⟩
  have hblock : e.block = Text.ofLines ([] :: e.body) ++ e.indent := by
    rw [block, Text.ofLines_cons]
    rfl
  have hindent : Record.constants e.indent = [] := by
    rw [← List.append_nil e.indent, Record.constants_blanks_append e.indent_blank]
    rfl
  have hfilled : (e.body.map Text.trim).filter (fun l => !l.isEmpty) = e.body.map Text.trim := by
    refine List.filter_eq_self.2 fun l hl => ?_
    obtain ⟨line, hline, rfl⟩ := List.mem_map.1 hl
    simpa using e.body_filled line hline
  rw [hblock, Record.constants, Text.lines_ofLines hlines, List.map_append, List.filter_append,
    ← Record.constants, hindent, List.append_nil, List.map_cons]
  exact hfilled

def entry? (e : ConventionalEnum) : Option (List Text) :=
  if e.body = [] then none else some (e.body.map Text.trim)

theorem entry?_record (e : ConventionalEnum) (hclear : s.Clear) :
    Record.entry? (s.record e.member) .enums = e.entry? := by
  have hsummary : (s.record e.member).summaryLines = [] := by
    rw [Record.summaryLines, LineStart.record, hclear.summary?]
    rfl
  have hbody : (s.record e.member).body? .enums = some (e.body.map Text.trim) :=
    congrArg some e.constants_block
  have hkind : (s.record e.member).kind = Mode.enums.kind := rfl
  rw [Record.entry?, if_pos hkind, hbody, Option.bind_some, hsummary, List.nil_append, entry?]
  cases e.body <;> rfl

theorem entries_texts (es : List ConventionalEnum) (hclear : s.Clear) :
    ((scanFrom {} s (es.map text).flatten).filterMap fun r => r.entry? .enums) =
      es.filterMap entry? := by
  induction es generalizing s with
  | nil =>
      have hnone : Member.read? {} s.above? [] = none := Member.read?_eq_none rfl
      rw [List.map_nil, List.flatten_nil, scanFrom_of_none hnone]
      rfl
  | cons e es ih =>
      obtain ⟨s', hclear', hscan⟩ := e.scanFrom_text hclear (es.map text).flatten
      rw [List.map_cons, List.flatten_cons, hscan, List.filterMap_cons, List.filterMap_cons,
        e.entry?_record hclear, ih hclear']

theorem filterMap_shown (es : List ConventionalEnum) :
    es.filterMap entry? = (es.filter (·.body ≠ [])).map (·.body.map Text.trim) := by
  rw [← List.filterMap_eq_map, List.filterMap_filter]
  refine List.filterMap_congr fun e _ => ?_
  rw [ConventionalEnum.entry?]
  by_cases he : e.body = [] <;> simp [he]

theorem lines_entry (e : ConventionalEnum) :
    Text.lines (Text.join ['\n'] (e.body.map Text.trim)) = e.body.map Text.trim := by
  refine Text.lines_join fun l hl => ?_
  obtain ⟨line, hline, rfl⟩ := List.mem_map.1 hl
  exact ⟨Summary.not_mem_trim (e.body_lines line hline), e.body_filled line hline⟩

end ConventionalEnum

/-- The listing of the enums of a source gives back the lines that they were printed from. -/
theorem Listing.ofSource_enums (es : List ConventionalEnum) (path : Text) :
    ((scan {} (es.map ConventionalEnum.text).flatten).filterMap fun r => r.entry? .enums) =
      (es.filter (·.body ≠ [])).map (·.body.map Text.trim) ∧
    Listing.ofSource {} path (es.map ConventionalEnum.text).flatten .enums =
      Text.join "\n\n".toList (("// ".toList ++ Listing.label path) ::
        (es.filter (·.body ≠ [])).map fun e => Text.join ['\n'] (e.body.map Text.trim)) ∧
    ∀ e ∈ es, Text.lines (Text.join ['\n'] (e.body.map Text.trim)) = e.body.map Text.trim := by
  have hentries :
      ((scan {} (es.map ConventionalEnum.text).flatten).filterMap fun r => r.entry? .enums) =
      (es.filter (·.body ≠ [])).map (·.body.map Text.trim) :=
    (ConventionalEnum.entries_texts es LineStart.clear_first).trans
      (ConventionalEnum.filterMap_shown es)
  refine ⟨hentries, ?_, fun e _ => e.lines_entry⟩
  rw [Listing.ofSource, Listing.render, Listing.sections, hentries, List.map_map]
  rfl

end ApiListing
