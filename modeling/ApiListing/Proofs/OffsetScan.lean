import ApiListing.Proofs.Closings
import ApiListing.Proofs.Jumps

namespace ApiListing

open Text (slice sliceFrom lineEnd byteSize)

structure Enclosed where
  content : Text
  stop : Nat
  deriving DecidableEq, Repr

def enclose (boundary : Boundary) (t : Text) (opening : Nat) (indent : Text) :
    Checked (Option Enclosed) := do
  match ← closeFrom boundary t opening indent with
  | none => return none
  | some close => return some ⟨← t.slice (opening + 1) close, close + 1⟩

/-- The block on the line behind the one that ends at `lineStop`. -/
def blockBelow (boundary : Boundary) (t : Text) (lineStop : Nat) : Checked (Option Enclosed) := do
  if byteSize t ≤ lineStop then return none
  else
    let start := lineStop + 1
    let next ← t.slice start (← t.lineEnd start)
    let trimmed := Text.trim next
    if trimmed = ['{'] then
      let width ← minus (byteSize next) (byteSize (Text.trimStart next))
      enclose boundary t (start + width) (← next.slice 0 width)
    else if trimmed.head? = some '{' && trimmed.getLast? = some '}' then
      return (Braces.onLine? next).map fun b => ⟨b.content, start + byteSize b.text⟩
    else return none

def blockAfter (boundary : Boundary) (t : Text) (headStop : Nat) (indent : Text) :
    Checked (Option Enclosed) := do
  let lineStop ← t.lineEnd headStop
  let start := headStop + byteSize (Braces.clause (← t.slice headStop lineStop))
  let rest ← t.slice start lineStop
  match Braces.onLine? rest with
  | some b => return some ⟨b.content, start + byteSize b.text⟩
  | none =>
    let trimmed := Text.trimEnd rest
    if trimmed.getLast? = some '{' then
      enclose boundary t (← minus (start + byteSize trimmed) 1) indent
    else if Text.trimStart trimmed = [] then blockBelow boundary t lineStop
    else return none

/-- What a scan by offsets has come to: `floor` is the end of the last record, and up to `offset`
the lines are counted. -/
structure Cursor where
  floor : Nat
  offset : Nat
  line : Nat
  found : List Record
  deriving DecidableEq, Repr

def Cursor.after (k : Cursor) (r : Record) : Cursor := ⟨r.stop, r.start, r.line, k.found ++ [r]⟩

def isHidden (o : ScanOptions) (t : Text) (start : Nat) : Checked Bool := do
  return (Text.lines (← t.slice 0 start)).getLast?.any o.isMarker

def summaryAbove (t : Text) (floor start : Nat) : Checked (Option Text) := do
  let lines := Text.lines (← t.slice floor start)
  return Summary.condense (lines.reverse.takeWhile Summary.isDocLine).reverse

def lineAt (t : Text) (k : Cursor) (start : Nat) : Checked Nat := do
  return k.line + (← t.slice k.offset start).count '\n'

def acceptAt (o : ScanOptions) (t : Text) (k : Cursor) (start : Nat) (d : Declaration) :
    Checked (Option Record) := do
  if ← isHidden o t start then return none
  else if d.head.isTypeDefinition then return none
  else
    let headStop := start + byteSize d.text
    let block? ← blockAfter o.boundary t headStop d.indent
    return some
      { summary? := ← summaryAbove t k.floor start
        visibility := d.visibility
        isStatic := d.isStatic
        modifiers := d.modifierWords
        kind := d.head.kind
        head := d.head.shown
        block? := block?.map Enclosed.content
        start
        stop := (block?.map Enclosed.stop).getD headStop
        line := ← lineAt t k start }

def scanRound (o : ScanOptions) (t : Text) (pos : Nat) (k : Cursor) :
    Checked (Round Cursor (List Record)) := do
  match Declaration.find? pos 0 t with
  | none => return .leave k.found
  | some (start, d) =>
    match ← acceptAt o t k start d with
    | some r => return .goOn r.stop (k.after r)
    | none => return .goOn (← t.lineEnd (start + byteSize d.text)) k

/-- The records of a source, found by its offsets. -/
def scanOffsets (o : ScanOptions) (t : Text) : Checked (List Record) :=
  loop (byteSize t) (scanRound o t) Cursor.found 0 ⟨0, 0, 1, []⟩

variable {o : ScanOptions} {t x r before source line : Text} {boundary : Boundary} {b : Braces}
  {d : Declaration} {k : Cursor} {m : Member} {pos : Nat}

def Enclosed.behind (x : Text) (b : Braces) : Enclosed := ⟨b.content, byteSize (x ++ b.text)⟩

theorem enclose_append (boundary : Boundary) (x lead behind indent : Text) :
    enclose boundary (x ++ (lead ++ '{' :: behind)) (byteSize (x ++ lead)) indent =
      .ok ((Braces.open? boundary indent lead (lead ++ '{' :: behind)).map
        (Enclosed.behind x)) := by
  have hclose := closeFrom_append boundary (x ++ lead) behind indent
  have hdrop : (lead ++ '{' :: behind).drop (lead.length + 1) = behind := by simp
  rw [List.append_assoc] at hclose
  rw [enclose, Checked.bind_ok hclose, Braces.open?, hdrop]
  cases hcontent : boundary.close indent behind with
  | none => rfl
  | some content =>
      obtain ⟨rest, rfl⟩ := Boundary.eq_append_of_close hcontent
      have hopen : byteSize (x ++ lead) + 1 = byteSize (x ++ lead ++ ['{']) :=
        (byteSize_concat_ascii (by decide) _).symm
      have hstop : byteSize (x ++ lead ++ '{' :: content) + 1 =
          byteSize (x ++ (⟨lead, content⟩ : Braces).text) := by
        rw [← byteSize_concat_ascii (c := '}') (by decide)]
        simp [Braces.text]
      have hslice := Text.slice_append (x ++ lead ++ ['{']) content ('}' :: rest)
      simp only [List.append_assoc, List.singleton_append] at hslice hopen hstop ⊢
      simp only [Option.map_some, hopen]
      rw [Checked.bind_ok hslice, hstop]
      rfl

theorem behind_lead (x lead : Text) (b : Braces) :
    Enclosed.behind x { b with lead := lead ++ b.lead } =
      ⟨b.content, byteSize (x ++ lead) + byteSize b.text⟩ := by
  rw [← Text.byteSize_append, Enclosed.behind]
  simp [Braces.text]

theorem minus_trimStart (next : Text) : minus (byteSize next) (byteSize (Text.trimStart next)) =
    .ok (byteSize (next.takeWhile Text.isSpace)) := by
  have hsize : byteSize (next.takeWhile Text.isSpace ++ Text.trimStart next) = byteSize next :=
    congrArg byteSize List.takeWhile_append_dropWhile
  rw [Text.byteSize_append] at hsize
  rw [minus, if_pos (by omega), ← hsize, Nat.add_sub_cancel_right]

theorem slice_indent (next : Text) : next.slice 0 (byteSize (next.takeWhile Text.isSpace)) =
    .ok (next.takeWhile Text.isSpace) := by
  have hindent : next.takeWhile Text.isSpace ++ Text.trimStart next = next :=
    List.takeWhile_append_dropWhile
  have h := Text.slice_append [] (next.takeWhile Text.isSpace) (Text.trimStart next)
  rwa [List.nil_append, List.nil_append, hindent] at h

/-- A block opens alone on the line below, behind the indentation of that line. -/
theorem enclose_below (boundary : Boundary) (x l : Text) {next : Text}
    (hopen : Text.trim next = ['{']) (more : Text) :
    enclose boundary (x ++ (l ++ '\n' :: (next ++ more)))
        (byteSize (x ++ l ++ ['\n']) + byteSize (next.takeWhile Text.isSpace))
        (next.takeWhile Text.isSpace) =
      .ok ((Braces.open? boundary (next.takeWhile Text.isSpace)
        (l ++ '\n' :: next.takeWhile Text.isSpace) (l ++ '\n' :: (next ++ more))).map
          (Enclosed.behind x)) := by
  obtain ⟨spaces, hspaces, -⟩ := Text.trim_append next
  rw [hopen] at hspaces
  generalize next.takeWhile Text.isSpace = indent at hspaces ⊢
  have h := enclose_append boundary x (l ++ '\n' :: indent) (spaces ++ more) indent
  have hbelow : l ++ '\n' :: indent ++ '{' :: (spaces ++ more) = l ++ '\n' :: (next ++ more) := by
    rw [hspaces]
    simp
  have hopening : byteSize (x ++ (l ++ '\n' :: indent)) =
      byteSize (x ++ l ++ ['\n']) + byteSize indent := by
    rw [← Text.byteSize_append]
    simp
  rwa [hbelow, hopening] at h

theorem blockBelow_last (boundary : Boundary) (x : Text) {r : Text} (hr : '\n' ∉ r) :
    blockBelow boundary (x ++ r) (byteSize (x ++ Text.firstLine r)) = .ok none := by
  rw [blockBelow, Text.firstLine_of_not_mem hr, if_pos (Nat.le_refl _)]
  rfl

theorem blockBelow_append (boundary : Boundary) (x r : Text) :
    blockBelow boundary (x ++ r) (byteSize (x ++ Text.firstLine r)) =
      .ok ((Braces.below? boundary (Text.firstLine r) r).map (Enclosed.behind x)) := by
  rw [Braces.below?]
  rcases Text.line_cases r with hr | ⟨l, below, hl, rfl⟩
  · rw [blockBelow_last boundary x hr, Text.afterLine_of_not_mem hr]
    rfl
  rw [blockBelow, Text.firstLine_line hl, Text.afterLine_line hl]
  have hlt : ¬ byteSize (x ++ (l ++ '\n' :: below)) ≤ byteSize (x ++ l) :=
    Nat.not_le.2 (byteSize_lt_append (List.append_assoc x l _).symm)
  have hstart : byteSize (x ++ l) + 1 = byteSize (x ++ l ++ ['\n']) :=
    (byteSize_concat_ascii (by decide) _).symm
  have hsplit : x ++ (l ++ '\n' :: below) = x ++ l ++ ['\n'] ++ below := by simp
  have hend := Text.lineEnd_append (x ++ l ++ ['\n']) below
  have hslice := Text.slice_firstLine (x ++ l ++ ['\n']) below
  rw [← hsplit] at hend hslice
  rw [if_neg hlt]
  simp only [hstart]
  rw [Checked.bind_ok hend, Checked.bind_ok hslice]
  by_cases hopen : Text.trim (Text.firstLine below) = ['{']
  · have h := enclose_below boundary x l hopen (below.dropWhile (· ≠ '\n'))
    rw [Text.firstLine_append_dropWhile] at h
    rw [if_pos hopen, if_pos hopen, Checked.bind_ok (minus_trimStart _),
      Checked.bind_ok (slice_indent _), h]
  · rw [if_neg hopen, if_neg hopen]
    split
    · cases Braces.onLine? (Text.firstLine below) with
      | none => rfl
      | some b =>
          have hlead := behind_lead x (l ++ ['\n']) b
          simp only [List.append_assoc, List.singleton_append] at hlead ⊢
          simp only [Option.map_some, hlead]
          rfl
    · rfl

theorem enclose_endOfLine (boundary : Boundary) (x clause indent : Text) {rest : Text}
    (hlast : (Text.trimEnd rest).getLast? = some '{') (more : Text) :
    (minus (byteSize x + byteSize clause + byteSize (Text.trimEnd rest)) 1 >>= fun opening =>
        enclose boundary (x ++ (clause ++ (rest ++ more))) opening indent) =
      .ok ((Braces.open? boundary indent (clause ++ (Text.trimEnd rest).dropLast)
        (clause ++ (rest ++ more))).map (Enclosed.behind x)) := by
  obtain ⟨spaces, hspaces, -⟩ := Text.trimEnd_append rest
  have htrimmed := List.dropLast_append_getLast? _ hlast
  generalize (Text.trimEnd rest).dropLast = lead at htrimmed ⊢
  have hopening : minus (byteSize x + byteSize clause + byteSize (Text.trimEnd rest)) 1 =
      .ok (byteSize (x ++ (clause ++ lead))) := by
    rw [← htrimmed, byteSize_concat_ascii (by decide), minus, if_pos (by omega)]
    simp only [Text.byteSize_append]
    exact congrArg Except.ok (by omega)
  have h := enclose_append boundary x (clause ++ lead) (spaces ++ more) indent
  have hbrace : clause ++ lead ++ '{' :: (spaces ++ more) = clause ++ (rest ++ more) := by
    rw [hspaces, ← htrimmed]
    simp
  rw [hbrace] at h
  rw [Checked.bind_ok hopening, h]

/-- The block by offsets is the one that is found in the text behind the declaration. -/
theorem blockAfter_append (boundary : Boundary) (x r indent : Text) :
    blockAfter boundary (x ++ r) (byteSize x) indent =
      .ok ((Braces.after? boundary indent r).map (Enclosed.behind x)) := by
  have hbelow := blockBelow_append boundary x r
  rw [blockAfter, Checked.bind_ok (Text.lineEnd_append x r),
    Checked.bind_ok (Text.slice_firstLine x r), Braces.after?]
  have hr : Text.firstLine r ++ r.dropWhile (· ≠ '\n') = r := Text.firstLine_append_dropWhile r
  have hclause := Braces.clause_append_drop (Text.firstLine r)
  generalize r.dropWhile (· ≠ '\n') = more at hr
  generalize Braces.clause (Text.firstLine r) = clause at hclause ⊢
  simp only
  generalize (Text.firstLine r).drop clause.length = rest at hclause ⊢
  have hsplit : clause ++ (rest ++ more) = r := by rw [← List.append_assoc, hclause, hr]
  have hrest := Text.slice_append (x ++ clause) rest more
  rw [List.append_assoc, hsplit, List.append_assoc x clause rest, hclause,
    Text.byteSize_append x clause] at hrest
  rw [Checked.bind_ok hrest]
  cases Braces.onLine? rest with
  | some b =>
      have hlead := behind_lead x clause b
      rw [Text.byteSize_append] at hlead
      simp only [Option.map_some, hlead]
      rfl
  | none =>
      simp only
      by_cases hlast : (Text.trimEnd rest).getLast? = some '{'
      · have h := enclose_endOfLine boundary x clause indent hlast more
        rw [hsplit] at h
        rw [if_pos hlast, if_pos hlast, h]
      · rw [if_neg hlast, if_neg hlast]
        split
        · exact hbelow
        · rfl

theorem Text.getLast?_lines (h : Text.BeginsLine before) :
    (Text.lines before).getLast? = Text.lineAbove? before := by
  induction hn : before.length using Nat.strong_induction_on generalizing before with
  | _ n ih =>
      rcases Text.eq_nil_or_line h with rfl | ⟨l, below, hl, hbelow, rfl⟩
      · rfl
      rw [Text.lines_line hl]
      rcases List.eq_nil_or_concat below with rfl | ⟨y, c, rfl⟩
      · have habove : Text.lineAbove? (l ++ ['\n']) = some (Text.lastLine l) :=
          Text.lineAbove?_append (Or.inl rfl)
        rw [Text.lastLine_of_not_mem hl] at habove
        rw [habove]
        rfl
      · have hc : c = '\n' := by
          rcases hbelow with hbelow | hbelow
          · simp at hbelow
          · simpa using hbelow
        subst hc
        have hlast := ih (y ++ ['\n']).length (by simp [← hn]; omega)
          (Text.beginsLine_append_newline y) rfl
        have hy : Text.lineAbove? (y ++ ['\n']) = some (Text.lastLine y) :=
          Text.lineAbove?_append (Or.inl rfl)
        have hly : Text.lineAbove? (l ++ ['\n'] ++ y ++ ['\n']) = some (Text.lastLine y) :=
          Text.lineAbove?_append (Text.beginsLine_append_newline l)
        rw [hy] at hlast
        simp only [List.append_assoc, List.cons_append, List.nil_append, List.concat_eq_append]
          at hly hlast ⊢
        rw [hly, List.getLast?_cons, hlast]
        rfl

theorem Text.prefix_of_byteSize_le {a b : Text} (ha : a <+: source) (hb : b <+: source)
    (h : byteSize a ≤ byteSize b) : a <+: b := by
  rcases List.prefix_or_prefix_of_prefix ha hb with hab | hba
  · exact hab
  · by_cases hne : b = a
    · exact hne ▸ List.prefix_refl b
    · have := Text.byteSize_lt_of_prefix hba hne
      omega

theorem Declaration.prefix_of_read? (h : Declaration.read? (Text.firstLine r) = some (d, line)) :
    d.text <+: r :=
  (Declaration.eq_append_of_read? h ▸ List.prefix_append d.text line).trans
    (List.takeWhile_prefix _)

/-- What holds of the cursor when a search is to begin at `pos`. -/
structure Cursor.Holds (k : Cursor) (t : Text) (pos : Nat) : Prop where
  floor : ∃ u, u <+: t ∧ byteSize u = k.floor ∧ k.floor ≤ pos
  counted : ∃ u, u <+: t ∧ byteSize u = k.offset ∧ k.offset ≤ pos ∧ k.line = u.count '\n' + 1

theorem Cursor.Holds.mono {pos' : Nat} (h : k.Holds t pos) (hle : pos ≤ pos') : k.Holds t pos' where
  floor := by
    obtain ⟨u, hu, hsize, hpos⟩ := h.floor
    exact ⟨u, hu, hsize, hpos.trans hle⟩
  counted := by
    obtain ⟨u, hu, hsize, hpos, hline⟩ := h.counted
    exact ⟨u, hu, hsize, hpos.trans hle, hline⟩

section

variable (h : k.Holds (before ++ r) pos) (hpos : pos ≤ byteSize before)
include h hpos

theorem summaryAbove_append : summaryAbove (before ++ r) k.floor (byteSize before) =
    .ok (LineStart.between k.floor before).summary? := by
  obtain ⟨u, hu, hsize, hle⟩ := h.floor
  obtain ⟨between, rfl⟩ := Text.prefix_of_byteSize_le hu (List.prefix_append before r)
    (by omega)
  have hslice := Text.slice_append u between r
  rw [← List.append_assoc] at hslice
  rw [summaryAbove, ← hsize, Checked.bind_ok hslice, LineStart.summary?,
    LineStart.gap_between rfl]
  rfl

theorem lineAt_append : lineAt (before ++ r) k (byteSize before) = .ok (before.count '\n' + 1) := by
  obtain ⟨u, hu, hsize, hle, hline⟩ := h.counted
  obtain ⟨between, rfl⟩ := Text.prefix_of_byteSize_le hu (List.prefix_append before r)
    (by omega)
  have hslice := Text.slice_append u between r
  rw [← List.append_assoc] at hslice
  rw [lineAt, ← hsize, Checked.bind_ok hslice, hline, List.count_append, Nat.add_right_comm]
  rfl

theorem acceptAt_append (hbegins : Text.BeginsLine before) (hr : d.text <+: r) :
    acceptAt o (before ++ r) k (byteSize before) d =
      .ok ((Member.accept? o (Text.lineAbove? before) r d).map
        (LineStart.between k.floor before).record) := by
  have hhidden : isHidden o (before ++ r) (byteSize before) =
      .ok ((Text.lineAbove? before).any o.isMarker) := by
    have hslice : (before ++ r).slice 0 (byteSize before) = .ok before :=
      Text.slice_append [] before r
    rw [isHidden, Checked.bind_ok hslice, Text.getLast?_lines hbegins]
    rfl
  rw [acceptAt, Checked.bind_ok hhidden, Member.accept?]
  by_cases habove : (Text.lineAbove? before).any o.isMarker
  · rw [habove]
    rfl
  by_cases htype : d.head.isTypeDefinition
  · rw [htype, Bool.or_true, if_neg habove]
    rfl
  rw [if_neg habove, if_neg htype, if_neg (by simp [habove, htype])]
  obtain ⟨behind, rfl⟩ := hr
  have hblock := blockAfter_append o.boundary (before ++ d.text) behind d.indent
  rw [List.append_assoc, Text.byteSize_append before d.text] at hblock
  rw [List.drop_left]
  simp only
  rw [Checked.bind_ok hblock, Checked.bind_ok (summaryAbove_append h hpos),
    Checked.bind_ok (lineAt_append h hpos)]
  cases Braces.after? o.boundary d.indent behind with
  | none =>
      have hstop : byteSize (⟨d, none⟩ : Member).text = byteSize d.text := by simp [Member.text]
      simp only [Option.map_some, LineStart.record, hstop]
      rfl
  | some b =>
      have hstop : byteSize before + byteSize (⟨d, some b⟩ : Member).text =
          byteSize (before ++ d.text ++ b.text) := by
        simp [Member.text]
      simp only [Option.map_some, LineStart.record, LineStart.between, hstop]
      rfl

end

theorem Cursor.holds_after (floor : Nat) (hm : m.text <+: r) :
    (k.after ((LineStart.between floor before).record m)).Holds (before ++ r)
      ((LineStart.between floor before).record m).stop where
  floor := ⟨before ++ m.text, (List.prefix_append_right_inj before).2 hm,
    Text.byteSize_append before m.text, Nat.le_refl _⟩
  counted := ⟨before, List.prefix_append before r, rfl, Nat.le_add_right _ _, rfl⟩

theorem scanRound_of_none (h : Declaration.find? pos 0 t = none) :
    scanRound o t pos k = .ok (.leave k.found) := by
  rw [scanRound, h]
  rfl

section

variable (hfind : Declaration.find? pos 0 (before ++ r) = some (byteSize before, d))
  (hread : Declaration.read? (Text.firstLine r) = some (d, line))
  (hbegins : Text.BeginsLine before) (hpos : pos ≤ byteSize before)
  (h : k.Holds (before ++ r) pos)
include hfind hread hbegins hpos h

theorem scanRound_of_accept (hm : Member.accept? o (Text.lineAbove? before) r d = some m) :
    scanRound o (before ++ r) pos k =
      .ok (.goOn ((LineStart.between k.floor before).record m).stop
        (k.after ((LineStart.between k.floor before).record m))) := by
  have haccept := acceptAt_append (o := o) h hpos hbegins (Declaration.prefix_of_read? hread)
  rw [hm] at haccept
  rw [scanRound, hfind]
  simp only
  rw [Checked.bind_ok haccept]
  rfl

theorem scanRound_of_reject (hm : Member.accept? o (Text.lineAbove? before) r d = none) :
    scanRound o (before ++ r) pos k =
      .ok (.goOn (byteSize before + byteSize (Text.firstLine r)) k) := by
  have haccept := acceptAt_append (o := o) h hpos hbegins (Declaration.prefix_of_read? hread)
  have hstop : (before ++ r).lineEnd (byteSize before + byteSize d.text) =
      .ok (byteSize before + byteSize (Text.firstLine r)) := by
    obtain ⟨behind, rfl⟩ := Declaration.prefix_of_read? hread
    have hline : '\n' ∉ d.text := fun hmem =>
      Text.not_mem_firstLine _ (Declaration.eq_append_of_read? hread ▸
        List.mem_append_left line hmem)
    have := Text.lineEnd_append (before ++ d.text) behind
    rwa [List.append_assoc before, List.append_assoc before, ← Text.firstLine_append hline,
      Text.byteSize_append, Text.byteSize_append] at this
  rw [hm] at haccept
  rw [scanRound, hfind]
  simp only
  rw [Checked.bind_ok haccept]
  simp only [Option.map_none]
  rw [Checked.bind_ok hstop]
  rfl

end

/-- From a place on the loop finds what searches from that place on find. -/
theorem loop_scanRound (h : k.Holds t pos) :
    loop (byteSize t) (scanRound o t) Cursor.found pos k =
      .ok (k.found ++ scanJumps o t pos k.floor) := by
  induction hn : byteSize t - pos using Nat.strong_induction_on generalizing k pos with
  | _ n ih =>
      by_cases hlt : pos < byteSize t
      swap
      · rw [loop_of_end (Nat.le_of_not_lt hlt), scanJumps, dif_neg hlt, List.append_nil]
      cases hfind : Declaration.find? pos 0 t with
      | none =>
          rw [loop_of_leave hlt (scanRound_of_none hfind), scanJumps_of_none hfind,
            List.append_nil]
      | some found =>
          obtain ⟨before, r, line, rfl, hbegins, hstart, hpos, hread⟩ :=
            Declaration.find?_eq_some hfind
          obtain ⟨start, d⟩ := found
          obtain rfl : start = byteSize before := by simpa using hstart
          rw [scanJumps_of_find? hfind]
          cases hm : Member.accept? o (Text.lineAbove? before) r d with
          | some m =>
              have htext : m.text <+: r := by
                have hmember : Member.read? o (Text.lineAbove? before) r = some m := by
                  rw [Member.read?_eq, hread]
                  exact hm
                obtain ⟨rest, -, hrest, -⟩ := Member.eq_append_of_read? hmember
                exact ⟨rest, hrest.symm⟩
              have hstop : pos < ((LineStart.between k.floor before).record m).stop := by
                have := Text.byteSize_pos m.text_ne_nil
                simp only [LineStart.record, LineStart.between]
                omega
              rw [loop_of_goOn hlt (scanRound_of_accept hfind hread hbegins hpos h hm) hstop,
                ih _ (by omega) (Cursor.holds_after _ htext) rfl]
              simp [Cursor.after]
          | none =>
              have hstop : pos < byteSize before + byteSize (Text.firstLine r) := by
                have := Text.byteSize_pos (ne_nil_of_read? hread)
                omega
              rw [loop_of_goOn hlt (scanRound_of_reject hfind hread hbegins hpos h hm) hstop,
                ih _ (by omega) (h.mono (Nat.le_of_lt hstop)) rfl]

/-- The scan by offsets meets no trap, and its records are those of the scan. -/
theorem scanOffsets_eq (o : ScanOptions) (t : Text) : scanOffsets o t = .ok (scan o t) := by
  have hstart : Cursor.Holds ⟨0, 0, 1, []⟩ t 0 :=
    ⟨⟨[], List.nil_prefix, rfl, Nat.le_refl 0⟩, [], List.nil_prefix, rfl, Nat.le_refl 0, rfl⟩
  rw [scanOffsets, loop_scanRound hstart, scanJumps_zero, List.nil_append]

end ApiListing
