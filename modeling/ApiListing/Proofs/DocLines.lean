import ApiListing.Proofs.Places
import Mathlib.Data.List.DropRight

namespace ApiListing

variable {o : ScanOptions} {s : LineStart} {t source upTo behind : Text} {rs rs₁ rs₂ : List Record}
  {r : Record} {m : Member}

namespace Text

def placed (offset : Nat) : List Text → List (Nat × Text)
  | [] => []
  | l :: ls => (offset, l) :: placed (offset + byteSize l + 1) ls

/-- The lines of a source that begin at byte `floor` or behind it, and before byte `start`. -/
def linesBetween (source : Text) (floor start : Nat) : List Text :=
  ((placed 0 (lines source)).filter fun l => floor ≤ l.1 && l.1 < start).map Prod.snd

def lineRest (source : Text) (floor : Nat) : Text := firstLine (splitBytes floor source).2

variable {before l : Text} {offset floor start : Nat}

theorem map_snd_placed (offset : Nat) (ls : List Text) : (placed offset ls).map Prod.snd = ls := by
  induction ls generalizing offset with
  | nil => rfl
  | cons l ls ih => rw [placed, List.map_cons, ih]

theorem le_of_mem_placed {ls : List Text} {p : Nat × Text} (h : p ∈ placed offset ls) :
    offset ≤ p.1 := by
  induction ls generalizing offset with
  | nil => cases h
  | cons l ls ih =>
      rcases List.mem_cons.1 h with rfl | h
      · exact Nat.le_refl _
      · have := ih h
        omega

theorem placed_append (h : BeginsLine before) (offset : Nat) (t : Text) :
    placed offset (lines (before ++ t)) =
      placed offset (lines before) ++ placed (offset + byteSize before) (lines t) := by
  induction hn : before.length using Nat.strong_induction_on generalizing before offset with
  | _ n ih =>
      rcases eq_nil_or_line h with rfl | ⟨l, below, hl, hbelow, rfl⟩
      · rfl
      · have hsize : offset + byteSize (l ++ '\n' :: below) =
            offset + byteSize l + 1 + byteSize below := by
          rw [byteSize_append, byteSize_newline]
          omega
        rw [List.append_assoc, List.cons_append, lines_line hl, lines_line hl, placed, placed,
          ih _ (by simp [← hn]; omega) hbelow _ rfl, hsize, List.cons_append]

theorem lt_of_mem_placed (h : BeginsLine before) {p : Nat × Text}
    (hp : p ∈ placed offset (lines before)) : p.1 < offset + byteSize before := by
  induction hn : before.length using Nat.strong_induction_on generalizing before offset with
  | _ n ih =>
      rcases eq_nil_or_line h with rfl | ⟨l, below, hl, hbelow, rfl⟩
      · cases hp
      · rw [byteSize_append, byteSize_newline]
        rw [lines_line hl, placed] at hp
        rcases List.mem_cons.1 hp with rfl | hp
        · simp only
          omega
        · have := ih _ (by simp [← hn]; omega) hbelow hp rfl
          omega

theorem lt_of_mem_placed_line (hne : before ≠ []) (hlast : before.getLast? ≠ some '\n')
    (hl : '\n' ∉ l) {p : Nat × Text}
    (hp : p ∈ placed offset (lines (before ++ (l ++ ['\n'])))) :
    p.1 < offset + byteSize before := by
  induction hn : before.length using Nat.strong_induction_on generalizing before offset with
  | _ n ih =>
      rcases line_cases before with hbefore | ⟨above, below, habove, rfl⟩
      · have hline : '\n' ∉ before ++ l := by simp [hbefore, hl]
        have := byteSize_pos hne
        rw [← List.append_assoc, lines_line hline, placed] at hp
        rcases List.mem_cons.1 hp with rfl | hp
        · simp only
          omega
        · cases hp
      · have hbelow : below ≠ [] := by
          rintro rfl
          exact hlast List.getLast?_concat
        rw [← List.singleton_append, ← List.append_assoc,
          List.getLast?_append_of_ne_nil _ hbelow] at hlast
        rw [List.append_assoc, List.cons_append, lines_line habove, placed] at hp
        rw [byteSize_append, byteSize_newline]
        rcases List.mem_cons.1 hp with rfl | hp
        · simp only
          omega
        · have := ih _ (by simp [← hn]; omega) hbelow hlast hp rfl
          omega

theorem linesBetween_eq {middle : Text} (hbefore : BeginsLine before) (hmiddle : BeginsLine middle)
    (habove : ∀ p ∈ placed 0 (lines before), p.1 < floor) (hfloor : floor ≤ byteSize before)
    (t : Text) :
    linesBetween (before ++ (middle ++ t)) floor (byteSize (before ++ middle)) = lines middle := by
  rw [linesBetween, placed_append hbefore, placed_append hmiddle, List.filter_append,
    List.filter_append]
  have hnone : (placed 0 (lines before)).filter
      (fun l => floor ≤ l.1 && l.1 < byteSize (before ++ middle)) = [] := by
    refine List.filter_eq_nil_iff.2 fun p hp => ?_
    have := habove p hp
    simp
    omega
  have hall : (placed (0 + byteSize before) (lines middle)).filter
      (fun l => floor ≤ l.1 && l.1 < byteSize (before ++ middle)) =
        placed (0 + byteSize before) (lines middle) := by
    refine List.filter_eq_self.2 fun p hp => ?_
    have hle := le_of_mem_placed hp
    have hlt := lt_of_mem_placed hmiddle hp
    simp only [byteSize_append, Bool.and_eq_true, decide_eq_true_eq]
    omega
  have hlater : (placed (0 + byteSize before + byteSize middle) (lines t)).filter
      (fun l => floor ≤ l.1 && l.1 < byteSize (before ++ middle)) = [] := by
    refine List.filter_eq_nil_iff.2 fun p hp => ?_
    have := le_of_mem_placed hp
    simp only [byteSize_append, Bool.and_eq_true, decide_eq_true_eq]
    omega
  rw [hnone, hall, hlater, List.nil_append, List.append_nil, map_snd_placed]

end Text

namespace LineStart

/-- The scan stands behind `upTo` and `behind`: `upTo` is where the last record ends, or the start
of the source, and of the text behind it the scan has all lines. -/
structure Sees (s : LineStart) (upTo behind : Text) : Prop where
  offset : s.offset = Text.byteSize (upTo ++ behind)
  gap : s.gap = (Text.lines behind).reverse
  begins : Text.BeginsLine (upTo ++ behind)

theorem sees_first : first.Sees [] [] := ⟨rfl, rfl, Or.inl rfl⟩

theorem Sees.begins_behind (h : s.Sees upTo behind) : Text.BeginsLine behind := by
  by_cases hb : behind = []
  · exact Or.inl hb
  · rcases h.begins with h | h
    · exact absurd (List.append_eq_nil_iff.1 h).2 hb
    · exact Or.inr (by rwa [List.getLast?_append_of_ne_nil _ hb] at h)

theorem Sees.skip {line : Text} (h : s.Sees upTo behind) (hline : '\n' ∉ line) :
    (s.advance line (line :: s.gap)).Sees upTo (behind ++ line ++ ['\n']) where
  offset := by
    simp only [advance, h.offset, Text.byteSize_append, Text.byteSize_newline, Text.byteSize_nil]
    omega
  gap := by
    rw [List.append_assoc, Text.lines_append h.begins_behind, Text.lines_line hline,
      List.reverse_append, ← h.gap]
    rfl
  begins := by
    rw [← List.append_assoc]
    exact Text.beginsLine_append_newline _

theorem Sees.take {passed line : Text} (h : s.Sees upTo behind) (hline : '\n' ∉ line) :
    (s.advance (passed ++ line) [line]).Sees (upTo ++ behind ++ passed) (line ++ ['\n']) where
  offset := by
    simp only [advance, h.offset, Text.byteSize_append, Text.byteSize_newline, Text.byteSize_nil]
    omega
  gap := by
    rw [Text.lines_line hline]
    rfl
  begins := by
    rw [← List.append_assoc]
    exact Text.beginsLine_append_newline _

end LineStart

namespace Record

def floor (rs : List Record) : Nat := (rs.getLast?.map stop).getD 0

structure EndAt (rs : List Record) (upTo : Text) : Prop where
  floor : floor rs = Text.byteSize upTo
  first : rs = [] → upTo = []
  within : rs ≠ [] → upTo ≠ [] ∧ upTo.getLast? ≠ some '\n'

theorem endAt_nil : EndAt [] [] := ⟨rfl, fun _ => rfl, fun h => absurd rfl h⟩

end Record

open Record (EndAt)

/-- The summary of each record of a run condenses the doc lines that the scan sees at its line, and
what it sees reaches back to the end of the record before. -/
theorem Run.exists_sees {found : List Record} (h : Run o s t rs) (hs : s.Sees upTo behind)
    (hfound : EndAt found upTo) (hsource : source = upTo ++ (behind ++ t))
    (hsplit : rs = rs₁ ++ r :: rs₂) :
    ∃ (s' : LineStart) (upTo' behind' rest : Text) (m : Member),
      source = upTo' ++ (behind' ++ rest) ∧ s'.Sees upTo' behind' ∧
      EndAt (found ++ rs₁) upTo' ∧ r = s'.record m := by
  induction h generalizing upTo behind found rs₁ with
  | last s line hline hread => simp at hsplit
  | lastMember s m line hline hread =>
      obtain ⟨rfl, hr⟩ : rs₁ = [] ∧ r = s.record m := by
        cases rs₁ with
        | nil => exact ⟨rfl, (List.cons.inj hsplit).1.symm⟩
        | cons p rs₁ => simp at hsplit
      exact ⟨s, upTo, behind, _, m, hsource, hs, by simpa using hfound, hr⟩
  | skip s line below rs hline hread hrun ih =>
      exact ih (hs.skip hline) hfound (by simp [hsource]) hsplit
  | take s m line below rs hline hread hrun ih =>
      cases rs₁ with
      | nil =>
          obtain rfl := (List.cons.inj hsplit).1
          exact ⟨s, upTo, behind, _, m, hsource, hs, by simpa using hfound, rfl⟩
      | cons p rs₁ =>
          obtain ⟨rfl, hrest⟩ := List.cons.inj hsplit
          have hend : EndAt (found ++ [s.record m]) (upTo ++ behind ++ m.text) := by
            refine ⟨?_, by simp, fun _ => ⟨by simp [m.text_ne_nil], ?_⟩⟩
            · simp [Record.floor, LineStart.record, hs.offset, Nat.add_assoc]
            · rw [List.getLast?_append_of_ne_nil _ m.text_ne_nil]
              exact Member.getLast?_text_ne_newline hread
          simpa using ih (hs.take hline) hend (by simp [hsource]) hrest

/-- The doc lines right above byte `start`, as far as they begin at byte `floor` or behind it. -/
def Text.docLinesAbove (source : Text) (floor start : Nat) : List Text :=
  (linesBetween source floor start).rtakeWhile Summary.isDocLine

/-- The rest of the line behind byte `floor` reads like a doc line, and from there on only doc lines
follow up to byte `start`. -/
def Text.TrailsTo (source : Text) (floor start : Nat) : Prop :=
  Summary.isDocLine (lineRest source floor) = true ∧
    ∀ l ∈ linesBetween source floor start, Summary.isDocLine l = true

instance (source : Text) (floor start : Nat) : Decidable (source.TrailsTo floor start) := by
  unfold Text.TrailsTo; infer_instance

theorem LineStart.Sees.lines_eq_of_first (h : s.Sees [] behind) (t : Text) :
    Text.lines behind = Text.linesBetween (behind ++ t) 0 (Text.byteSize behind) := by
  have hlines : Text.linesBetween ([] ++ (behind ++ t)) 0 (Text.byteSize ([] ++ behind)) =
      Text.lines behind :=
    Text.linesBetween_eq (Or.inl rfl) h.begins_behind (fun p hp => by cases hp) (Nat.le_refl _) t
  exact hlines.symm

/-- Behind a record the scan sees the rest of its last line, and then whole lines. -/
theorem LineStart.Sees.lines_eq (h : s.Sees upTo behind) (hne : upTo ≠ [])
    (hlast : upTo.getLast? ≠ some '\n') (hsource : source = upTo ++ (behind ++ t)) :
    Text.lines behind = Text.lineRest source (Text.byteSize upTo) ::
      Text.linesBetween source (Text.byteSize upTo) (Text.byteSize (upTo ++ behind)) := by
  have hbegins := h.begins
  rcases Text.eq_nil_or_line h.begins_behind with rfl | ⟨l, below, hl, hbelow, rfl⟩
  · rw [List.append_nil] at hbegins
    exact absurd hbegins (by simp [Text.BeginsLine, hne, hlast])
  · have hsplit : upTo ++ (l ++ '\n' :: below) = upTo ++ (l ++ ['\n']) ++ below := by simp
    have hrest : Text.lineRest source (Text.byteSize upTo) = l := by
      rw [Text.lineRest, hsource, Text.splitBytes_append, List.append_assoc, List.cons_append,
        Text.firstLine_line hl]
    have hsource' : source = upTo ++ (l ++ ['\n']) ++ (below ++ t) := by simp [hsource]
    have hbefore : Text.BeginsLine (upTo ++ (l ++ ['\n'])) := by
      rw [← List.append_assoc]
      exact Text.beginsLine_append_newline _
    rw [Text.lines_line hl, hrest, hsplit, hsource', Text.linesBetween_eq hbefore hbelow]
    · intro p hp
      have := Text.lt_of_mem_placed_line hne hlast hl hp
      omega
    · simp only [Text.byteSize_append]
      omega

theorem rtakeWhile_cons_of_all {p : Text → Bool} {l : Text} {ls : List Text} (hl : p l = true)
    (hls : ∀ a ∈ ls, p a = true) : (l :: ls).rtakeWhile p = l :: ls.rtakeWhile p := by
  rw [List.rtakeWhile_eq_self_iff.2 (List.forall_mem_cons.2 ⟨hl, hls⟩),
    List.rtakeWhile_eq_self_iff.2 hls]

theorem rtakeWhile_cons_of_not_all {p : Text → Bool} {l : Text} {ls : List Text}
    (h : ¬ (p l = true ∧ ∀ a ∈ ls, p a = true)) : (l :: ls).rtakeWhile p = ls.rtakeWhile p := by
  unfold List.rtakeWhile
  rw [List.reverse_cons, List.takeWhile_append]
  split
  · next hlength =>
      have htake := (List.takeWhile_prefix p).eq_of_length hlength
      have hls : ∀ a ∈ ls, p a = true := fun a ha =>
        List.takeWhile_eq_self_iff.1 htake a (List.mem_reverse.2 ha)
      rw [List.takeWhile_cons_of_neg fun hl => h ⟨hl, hls⟩, List.append_nil, htake]
  · rfl

/-- The summary of a record condenses the doc lines right above its declaration, of the whole lines
behind the record before. Only if these reach up to the line on which that record ends, and the rest
of that line reads like a doc line too, is the rest of it taken for one more. -/
theorem scan_summary (h : scan o source = rs₁ ++ r :: rs₂) :
    (¬ (rs₁ ≠ [] ∧ source.TrailsTo (Record.floor rs₁) r.start) →
      r.summary? = Summary.condense (source.docLinesAbove (Record.floor rs₁) r.start)) ∧
    (rs₁ ≠ [] → source.TrailsTo (Record.floor rs₁) r.start →
      r.summary? = Summary.condense
        (source.lineRest (Record.floor rs₁) ::
          source.docLinesAbove (Record.floor rs₁) r.start)) := by
  have hempty : source = [] ++ ([] ++ source) := rfl
  obtain ⟨s, upTo, behind, rest, m, hsource, hs, hend, rfl⟩ :=
    (run_scanFrom o .first source).exists_sees LineStart.sees_first Record.endAt_nil hempty h
  rw [List.nil_append] at hend
  have hsummary : (s.record m).summary? =
      Summary.condense ((Text.lines behind).rtakeWhile Summary.isDocLine) := by
    rw [LineStart.record, LineStart.summary?, hs.gap]
    rfl
  have hstart : (s.record m).start = Text.byteSize (upTo ++ behind) := hs.offset
  rw [hsummary, hstart, hend.floor]
  by_cases hnil : rs₁ = []
  · obtain rfl := hend.first hnil
    obtain rfl : source = behind ++ rest := hsource
    refine ⟨fun _ => ?_, fun hne => absurd hnil hne⟩
    rw [hs.lines_eq_of_first rest]
    rfl
  · obtain ⟨hne, hlast⟩ := hend.within hnil
    rw [hs.lines_eq hne hlast hsource]
    constructor
    · intro htrails
      rw [rtakeWhile_cons_of_not_all fun h => htrails ⟨hnil, h⟩]
      rfl
    · rintro - ⟨hrest, hlines⟩
      rw [rtakeWhile_cons_of_all hrest hlines]
      rfl

def trailedProperty : Text :=
  ("public int X \x7b get; \x7d /// trailing\npublic int Y;\n" ++
    "/// Own line.\npublic int Z;\n").toList

theorem scan_summary_trailedProperty :
    ∃ x y z, scan {} trailedProperty = [x, y] ++ z :: [] ∧
      ¬ trailedProperty.TrailsTo (Record.floor [x, y]) z.start ∧
      z.summary? =
        Summary.condense (trailedProperty.docLinesAbove (Record.floor [x, y]) z.start) ∧
      z.summary? = some "Own line.".toList := by
  have hspans : (scan {} trailedProperty).map (fun r => (r.start, r.stop)) =
      [(0, 21), (35, 47), (63, 75)] := by decide +kernel
  have hlength : (scan {} trailedProperty).length = 3 := by
    simpa using congrArg List.length hspans
  obtain ⟨x, y, z, h⟩ := List.length_eq_three.1 hlength
  rw [h] at hspans
  simp only [List.map_cons, List.cons.injEq, Prod.mk.injEq] at hspans
  obtain ⟨-, ⟨-, hfloor⟩, ⟨hstart, -⟩, -⟩ := hspans
  have htrails : ¬ trailedProperty.TrailsTo (Record.floor [x, y]) z.start := by
    rw [show Record.floor [x, y] = 47 from hfloor, hstart]
    decide +kernel
  have hsplit : scan {} trailedProperty = [x, y] ++ z :: [] := h
  have hsummary := (scan_summary hsplit).1 fun hboth => htrails hboth.2
  refine ⟨x, y, z, hsplit, htrails, hsummary, ?_⟩
  rw [hsummary, show Record.floor [x, y] = 47 from hfloor, hstart]
  decide +kernel

/-- The doc comment behind the block of the first property is taken for the summary of the second
member, above which there is no doc line. -/
theorem scan_trailedProperty :
    (scan {} trailedProperty).map (fun r => (r.start, r.stop, r.summary?)) =
      [(0, 21, none), (35, 47, some "trailing".toList), (63, 75, some "Own line.".toList)] ∧
    trailedProperty.docLinesAbove 21 35 = [] ∧ Summary.condense [] = none := by
  decide +kernel

end ApiListing
