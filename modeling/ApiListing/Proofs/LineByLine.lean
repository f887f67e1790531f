import ApiListing.Proofs.Jumps
import Mathlib.Data.List.Infix

namespace ApiListing

variable {o : ScanOptions} {s : LineStart} {t before source : Text} {found rs : List Record}
  {m : Member} {r : Record}

/-- The texts before the line starts of a source, in order. -/
def lineStarts (source : Text) : List Text := source.inits.filter Text.BeginsLine

/-- The records after a visit to one more line start. -/
def visit (o : ScanOptions) (source : Text) (found : List Record) (before : Text) : List Record :=
  if found.any fun r => r.covers (Text.byteSize before) then found
  else
    match Declaration.at? source (Text.byteSize before) with
    | none => found
    | some d =>
      match Member.accept? o (Text.lineAbove? before) (source.drop before.length) d with
      | none => found
      | some m =>
        let floor := (found.getLast?.map Record.stop).getD 0
        found ++ [(LineStart.between floor before).record m]

def scanLines (o : ScanOptions) (source : Text) : List Record :=
  (lineStarts source).foldl (visit o source) []

theorem visit_of_covers (hr : r ∈ found) (hcovers : r.covers (Text.byteSize before) = true) :
    visit o source found before = found := by
  rw [visit, if_pos (List.any_eq_true.2 ⟨r, hr, hcovers⟩)]

theorem visit_eq (hbefore : Text.BeginsLine before)
    (hstop : ∀ r ∈ found, r.stop ≤ Text.byteSize before) :
    visit o (before ++ t) found before =
      match Member.read? o (Text.lineAbove? before) t with
      | none => found
      | some m =>
        found ++ [(LineStart.between ((found.getLast?.map Record.stop).getD 0) before).record m] := by
  have hnone : ¬ (found.any fun r => r.covers (Text.byteSize before)) = true := by
    simp only [List.any_eq_true, Record.covers, Bool.and_eq_true, decide_eq_true_eq, not_exists,
      not_and, Nat.not_lt]
    intro r hr _
    exact hstop r hr
  rw [visit, if_neg hnone, Declaration.at?_eq hbefore, List.drop_left, Member.read?_eq]
  cases (Declaration.read? (Text.firstLine t)).map Prod.fst with
  | none => rfl
  | some d => rfl

def lineStartsFrom (before t : Text) : List Text :=
  (t.inits.map (before ++ ·)).filter Text.BeginsLine

theorem lineStartsFrom_line (before v below : Text) :
    lineStartsFrom before (v ++ '\n' :: below) =
      lineStartsFrom before v ++ lineStartsFrom (before ++ v ++ ['\n']) below := by
  have hinits : (v ++ '\n' :: below).inits = v.inits ++ below.inits.map (v ++ ['\n'] ++ ·) := by
    rw [List.inits_append, List.inits_cons]
    simp [Function.comp_def]
  simp [lineStartsFrom, hinits, Function.comp_def]

theorem foldl_visit_of_covers (hr : r ∈ found) (bs : List Text)
    (h : ∀ b ∈ bs, r.covers (Text.byteSize b) = true) :
    bs.foldl (visit o source) found = found := by
  induction bs with
  | nil => rfl
  | cons b bs ih =>
      rw [List.foldl_cons, visit_of_covers hr (h b (by simp))]
      exact ih fun b hb => h b (by simp [hb])

theorem lineStartsFrom_eq_cons (h : Text.BeginsLine before) (v : Text) :
    ∃ bs, lineStartsFrom before v = before :: bs ∧
      ∀ b ∈ bs, ∃ x, b = before ++ x ∧ x <+: v ∧ x.getLast? = some '\n' := by
  have hinits : v.inits = [] :: v.inits.tail := by cases v <;> rfl
  refine ⟨(v.inits.tail.map (before ++ ·)).filter Text.BeginsLine, ?_, ?_⟩
  · rw [lineStartsFrom, hinits]
    simp [h]
  · intro b hb
    simp only [List.mem_filter, List.mem_map, decide_eq_true_eq] at hb
    obtain ⟨⟨x, hx, rfl⟩, hbegins⟩ := hb
    have hxv : x <+: v := (List.mem_inits x v).1 (List.mem_of_mem_tail hx)
    have hne : x ≠ [] := by
      cases v with
      | nil => simp at hx
      | cons c v =>
          rw [List.inits_cons, List.tail_cons, List.mem_map] at hx
          obtain ⟨y, -, rfl⟩ := hx
          simp
    refine ⟨x, rfl, hxv, ?_⟩
    rcases hbegins with h | h
    · exact absurd (List.append_eq_nil_iff.1 h).2 hne
    · rwa [List.getLast?_append_of_ne_nil _ hne] at h

theorem lineStartsFrom_of_not_mem (h : Text.BeginsLine before) {line : Text} (hline : '\n' ∉ line) :
    lineStartsFrom before line = [before] := by
  obtain ⟨bs, hbs, hinside⟩ := lineStartsFrom_eq_cons h line
  cases bs with
  | nil => exact hbs
  | cons b bs =>
      obtain ⟨x, -, hx, hlast⟩ := hinside b (by simp)
      exact absurd (hx.subset (List.mem_of_getLast? hlast)) hline

theorem foldl_visit_line {line : Text} (hbefore : Text.BeginsLine before)
    (hstop : ∀ r ∈ found, r.stop ≤ Text.byteSize before) (hline : '\n' ∉ line)
    (hsource : source = before ++ t)
    (hread : Member.read? o (Text.lineAbove? before) t = none) :
    (lineStartsFrom before line).foldl (visit o source) found = found := by
  rw [lineStartsFrom_of_not_mem hbefore hline, List.foldl_cons, List.foldl_nil, hsource,
    visit_eq hbefore hstop, hread]

theorem foldl_visit_member {line : Text} {floor : Nat} (hbefore : Text.BeginsLine before)
    (hfloor : (found.getLast?.map Record.stop).getD 0 = floor)
    (hstop : ∀ r ∈ found, r.stop ≤ Text.byteSize before) (hline : '\n' ∉ line)
    (hsource : source = before ++ t)
    (hread : Member.read? o (Text.lineAbove? before) t = some m) :
    (lineStartsFrom before (m.text ++ line)).foldl (visit o source) found =
      found ++ [(LineStart.between floor before).record m] := by
  obtain ⟨bs, hbs, hinside⟩ := lineStartsFrom_eq_cons hbefore (m.text ++ line)
  rw [hbs, List.foldl_cons, hsource, visit_eq hbefore hstop, hread, hfloor]
  apply foldl_visit_of_covers (r := (LineStart.between floor before).record m) (by simp)
  intro b hb
  obtain ⟨x, rfl, hx, hlast⟩ := hinside b hb
  exact covers_of_prefix (Member.getLast?_text_ne_newline hread) hline hx hlast rfl

/-- The visits to the line starts from a place on find what the run from there finds. -/
theorem Run.foldl_visit {floor : Nat} (h : Run o s t rs) (hs : s.StandsAt floor before)
    (hsource : source = before ++ t)
    (hfloor : (found.getLast?.map Record.stop).getD 0 = floor)
    (hstop : ∀ r ∈ found, r.stop ≤ Text.byteSize before) :
    (lineStartsFrom before t).foldl (visit o source) found = found ++ rs := by
  induction h generalizing before found floor with
  | last s line hline hread =>
      obtain rfl := hs.eq
      rw [foldl_visit_line hs.begins hstop hline hsource hread, List.append_nil]
  | lastMember s m line hline hread =>
      obtain rfl := hs.eq
      exact foldl_visit_member hs.begins hfloor hstop hline hsource hread
  | skip s line below rs hline hread hrun ih =>
      have hnext := hs.skip hline
      obtain rfl := hs.eq
      rw [lineStartsFrom_line, List.foldl_append,
        foldl_visit_line hs.begins hstop hline hsource hread]
      apply ih hnext (by simp [hsource]) hfloor
      intro r hr
      have := hstop r hr
      simp only [Text.byteSize_append]
      omega
  | take s m line below rs hline hread hrun ih =>
      have hnext := hs.take m.text hline
      obtain rfl := hs.eq
      rw [← List.append_assoc, lineStartsFrom_line, List.foldl_append,
        foldl_visit_member hs.begins hfloor hstop hline hsource hread]
      have hrecord : ((LineStart.between floor before).record m).stop =
          Text.byteSize (before ++ m.text) := (Text.byteSize_append _ _).symm
      rw [ih hnext (by simp [hsource]) (by simp [hrecord]) ?_]
      · simp
      · intro r hr
        rcases List.mem_append.1 hr with hr | hr
        · have := hstop r hr
          simp only [Text.byteSize_append]
          omega
        · rw [List.mem_singleton.1 hr, hrecord]
          simp only [Text.byteSize_append]
          omega

/-- What a visit asks of a line start: no record found covers it, and it is the start of a
declaration that no marker hides and that defines no type. -/
structure Accepts (o : ScanOptions) (source : Text) (found : List Record) (before : Text) :
    Prop where
  uncovered : ∀ r ∈ found, r.covers (Text.byteSize before) = false
  declared : ∃ d, Declaration.at? source (Text.byteSize before) = some d ∧
    d.head.isTypeDefinition = false
  shown : (Text.lineAbove? before).any o.isMarker = false

theorem visit_cases (o : ScanOptions) (source : Text) (found : List Record) (before : Text) :
    (¬ Accepts o source found before ∧ visit o source found before = found) ∨
      (Accepts o source found before ∧ ∃ r, r.start = Text.byteSize before ∧
        visit o source found before = found ++ [r]) := by
  by_cases hany : (found.any fun r => r.covers (Text.byteSize before)) = true
  · left
    obtain ⟨r, hr, hcovers⟩ := List.any_eq_true.1 hany
    refine ⟨fun h => ?_, visit_of_covers hr hcovers⟩
    simp [h.uncovered r hr] at hcovers
  · have huncovered : ∀ r ∈ found, r.covers (Text.byteSize before) = false := by simpa using hany
    rw [visit, if_neg hany]
    cases hat : Declaration.at? source (Text.byteSize before) with
    | none =>
        left
        refine ⟨fun h => ?_, rfl⟩
        obtain ⟨d, hd, -⟩ := h.declared
        simp [hat] at hd
    | some d =>
        simp only [Member.accept?]
        split
        · next hno =>
            left
            split at hno
            · next hreject =>
                refine ⟨fun h => ?_, rfl⟩
                obtain ⟨d', hd', htype⟩ := h.declared
                obtain rfl : d = d' := Option.some.inj (hat.symm.trans hd')
                simp [h.shown, htype] at hreject
            · simp at hno
        · next m hsome =>
            right
            split at hsome
            · simp at hsome
            · next haccept =>
                simp only [Bool.or_eq_true, not_or, Bool.not_eq_true] at haccept
                exact ⟨⟨huncovered, ⟨d, hat, haccept.2⟩, haccept.1⟩, _, rfl, rfl⟩

theorem foldl_visit_eq_append (o : ScanOptions) (source : Text) (bs : List Text)
    (found : List Record) : ∃ later, bs.foldl (visit o source) found = found ++ later ∧
      ∀ r ∈ later, ∃ b ∈ bs, r.start = Text.byteSize b := by
  induction bs generalizing found with
  | nil => exact ⟨[], by simp, by simp⟩
  | cons b bs ih =>
      obtain ⟨later, hlater, hstart⟩ := ih (visit o source found b)
      rcases visit_cases o source found b with ⟨-, hvisit⟩ | ⟨-, r, hr, hvisit⟩
      · refine ⟨later, by rw [List.foldl_cons, hlater, hvisit], ?_⟩
        intro r hr
        obtain ⟨b', hb', h⟩ := hstart r hr
        exact ⟨b', by simp [hb'], h⟩
      · refine ⟨r :: later, by rw [List.foldl_cons, hlater, hvisit]; simp, ?_⟩
        intro r' hr'
        rcases List.mem_cons.1 hr' with rfl | hr'
        · exact ⟨b, by simp, hr⟩
        · obtain ⟨b', hb', h⟩ := hstart r' hr'
          exact ⟨b', by simp [hb'], h⟩

theorem accepts_append_iff {later : List Record}
    (h : ∀ r ∈ later, Text.byteSize before ≤ r.start) :
    Accepts o source (found ++ later) before ↔ Accepts o source found before := by
  constructor
  · intro ha
    exact ⟨fun r hr => ha.uncovered r (List.mem_append_left _ hr), ha.declared, ha.shown⟩
  · intro ha
    refine ⟨fun r hr => ?_, ha.declared, ha.shown⟩
    rcases List.mem_append.1 hr with hr | hr
    · exact ha.uncovered r hr
    · exact not_covers_of_le (h r hr)

/-- Of the line starts visited in order, exactly those are starts of records that the final records
accept. -/
theorem exists_start_iff {bs : List Text}
    (hsorted : bs.Pairwise fun b b' => Text.byteSize b < Text.byteSize b')
    (hfound : ∀ r ∈ found, ∀ b ∈ bs, r.start < Text.byteSize b) (hmem : before ∈ bs) :
    (∃ r ∈ bs.foldl (visit o source) found, r.start = Text.byteSize before) ↔
      Accepts o source (bs.foldl (visit o source) found) before := by
  induction bs generalizing found with
  | nil => simp at hmem
  | cons b bs ih =>
      obtain ⟨hhead, htail⟩ := List.pairwise_cons.1 hsorted
      have hvisit : ∀ r ∈ visit o source found b, r ∈ found ∨ r.start = Text.byteSize b := by
        intro r hr
        rcases visit_cases o source found b with ⟨-, h⟩ | ⟨-, r', hr', h⟩
        · exact Or.inl (h ▸ hr)
        · rw [h, List.mem_append, List.mem_singleton] at hr
          exact hr.imp_right (by rintro rfl; exact hr')
      rcases List.mem_cons.1 hmem with rfl | hmem
      -- Records found before the visit start above `before`, later ones below it.
      · obtain ⟨later, hlater, hstart⟩ :=
          foldl_visit_eq_append o source bs (visit o source found before)
        have hbehind : ∀ r ∈ later, Text.byteSize before < r.start := by
          intro r hr
          obtain ⟨b, hb, h⟩ := hstart r hr
          exact h ▸ hhead b hb
        rw [List.foldl_cons, hlater]
        rcases visit_cases o source found before with ⟨hno, h⟩ | ⟨hyes, r, hr, h⟩
        · rw [h, accepts_append_iff fun r hr => Nat.le_of_lt (hbehind r hr)]
          refine ⟨?_, fun ha => absurd ha hno⟩
          rintro ⟨r, hr, hstart⟩
          rcases List.mem_append.1 hr with hr | hr
          · exact absurd hstart (Nat.ne_of_lt (hfound r hr before (by simp)))
          · exact absurd hstart (Nat.ne_of_gt (hbehind r hr))
        · rw [h, List.append_assoc, accepts_append_iff]
          · exact ⟨fun _ => hyes, fun _ => ⟨r, by simp, hr⟩⟩
          · intro r' hr'
            rcases List.mem_cons.1 hr' with rfl | hr'
            · exact hr.ge
            · exact Nat.le_of_lt (hbehind r' hr')
      · refine ih htail ?_ hmem
        intro r hr b' hb'
        rcases hvisit r hr with hr | hr
        · exact hfound r hr b' (by simp [hb'])
        · exact hr ▸ hhead b' hb'

theorem sorted_inits (t : Text) :
    t.inits.Pairwise fun b b' => Text.byteSize b < Text.byteSize b' := by
  induction t with
  | nil => simp
  | cons c t ih =>
      rw [List.inits_cons, List.pairwise_cons]
      constructor
      · intro b hb
        obtain ⟨b, -, rfl⟩ := List.mem_map.1 hb
        exact Text.byteSize_pos (by simp)
      · refine ih.map _ fun b b' h => ?_
        simpa [Text.byteSize_cons] using h

theorem mem_lineStarts_iff :
    before ∈ lineStarts source ↔ before <+: source ∧ Text.BeginsLine before := by
  rw [lineStarts, List.mem_filter, List.mem_inits, decide_eq_true_eq]

theorem scanLines_eq (o : ScanOptions) (source : Text) : scanLines o source = scan o source := by
  have h : (lineStartsFrom [] source).foldl (visit o source) [] = [] ++ scanFrom o .first source :=
    (run_scanFrom o .first source).foldl_visit LineStart.standsAt_first rfl rfl (by simp)
  rw [List.nil_append] at h
  rw [scanLines, scan, ← h]
  simp [lineStarts, lineStartsFrom]

theorem Declaration.at?_eq_some_iff {start : Nat} {d : Declaration} :
    Declaration.at? source start = some d ↔ Declaration.find? start 0 source = some (start, d) := by
  rw [Declaration.at?, Option.map_eq_some_iff]
  constructor
  · rintro ⟨⟨place, d'⟩, hfound, rfl⟩
    obtain ⟨hfind, hplace⟩ := Option.filter_eq_some_iff.1 hfound
    obtain rfl : place = start := by simpa using hplace
    exact hfind
  · intro h
    exact ⟨(start, d), Option.filter_eq_some_iff.2 ⟨h, by simp⟩, rfl⟩

theorem any_isMarker_eq_false_iff {above? : Option Text} :
    above?.any o.isMarker = false ↔
      ∀ above ∈ above?, ∀ marker ∈ o.hideMarkers, Text.trim marker ≠ Text.trim above := by
  cases above? <;> simp [ScanOptions.isMarker]

/-- The scan is one visit to each line start in order, and it is also what searches find that go on
at the end of each record or behind the line of a declaration that is not accepted. A record starts
at a line start exactly if a declaration is found there that defines no type, the line above is no
marker, and no record that starts before covers it. -/
theorem scan_line_by_line (o : ScanOptions) (source : Text) :
    scan o source = scanLines o source ∧ scan o source = scanJumps o source 0 0 ∧
    ∀ before, before <+: source → Text.BeginsLine before →
      ((∃ r ∈ scan o source, r.start = Text.byteSize before) ↔
        (∃ d, Declaration.find? (Text.byteSize before) 0 source = some (Text.byteSize before, d) ∧
          d.head.isTypeDefinition = false) ∧
        (∀ above ∈ Text.lineAbove? before, ∀ marker ∈ o.hideMarkers,
          Text.trim marker ≠ Text.trim above) ∧
        ∀ r ∈ scan o source, ¬ (r.start < Text.byteSize before ∧ Text.byteSize before < r.stop)) := by
  refine ⟨(scanLines_eq o source).symm, (scanJumps_zero o source).symm, ?_⟩
  intro before hbefore hbegins
  have h : (∃ r ∈ scanLines o source, r.start = Text.byteSize before) ↔
      Accepts o source (scanLines o source) before :=
    exists_start_iff ((sorted_inits source).filter _) (by simp)
      (mem_lineStarts_iff.2 ⟨hbefore, hbegins⟩)
  rw [scanLines_eq] at h
  rw [h]
  constructor
  · rintro ⟨huncovered, ⟨d, hd, htype⟩, hshown⟩
    refine ⟨⟨d, Declaration.at?_eq_some_iff.1 hd, htype⟩, any_isMarker_eq_false_iff.1 hshown, ?_⟩
    intro r hr
    simpa [Record.covers] using huncovered r hr
  · rintro ⟨⟨d, hd, htype⟩, hshown, huncovered⟩
    refine ⟨?_, ⟨d, Declaration.at?_eq_some_iff.2 hd, htype⟩, any_isMarker_eq_false_iff.2 hshown⟩
    intro r hr
    simpa [Record.covers] using huncovered r hr

end ApiListing
