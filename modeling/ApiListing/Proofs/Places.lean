import ApiListing.Search
import ApiListing.Proofs.Runs

namespace ApiListing

variable {o : ScanOptions} {s : LineStart} {t before source : Text} {d : Declaration}
  {least offset : Nat} {m : Member} {r : Record}

namespace Text

theorem splitBytes_append (before t : Text) :
    splitBytes (byteSize before) (before ++ t) = (before, t) := by
  induction before with
  | nil => cases t <;> simp [splitBytes]
  | cons c before ih =>
      have hc := c.utf8Size_pos
      rw [byteSize_cons, List.cons_append, splitBytes, if_neg (by omega), Nat.add_sub_cancel_left,
        ih]

theorem BeginsLine.behind_line (h : BeginsLine before) (l : Text) :
    BeginsLine (l ++ '\n' :: before) := by
  right
  rcases h with rfl | h
  · exact List.getLast?_concat
  · rw [← List.singleton_append, ← List.append_assoc, List.getLast?_append, h]
    rfl

theorem eq_nil_or_line (h : BeginsLine before) :
    before = [] ∨ ∃ l below, '\n' ∉ l ∧ BeginsLine below ∧ before = l ++ '\n' :: below := by
  rcases line_cases before with hbefore | ⟨l, below, hl, rfl⟩
  · rcases h with rfl | h
    · exact Or.inl rfl
    · exact absurd (List.mem_of_getLast? h) hbefore
  · refine Or.inr ⟨l, below, hl, ?_, rfl⟩
    rcases h with h | h
    · simp at h
    · by_cases hb : below = []
      · exact Or.inl hb
      · rw [← List.singleton_append, ← List.append_assoc, List.getLast?_append] at h
        exact Or.inr (by simpa [List.getLast?_eq_some_getLast hb] using h)

theorem BeginsLine.cases_append {x v : Text} (h : BeginsLine x) (hx : x <+: before ++ v) :
    x <+: before ∨ ∃ y, x = before ++ y ∧ y <+: v ∧ y.getLast? = some '\n' := by
  rcases List.prefix_or_prefix_of_prefix hx (List.prefix_append before v) with hb | ⟨y, rfl⟩
  · exact Or.inl hb
  · by_cases hy : y = []
    · exact Or.inl (by simp [hy])
    · refine Or.inr ⟨y, rfl, by rwa [List.prefix_append_right_inj] at hx, ?_⟩
      rcases h with h | h
      · exact absurd (List.append_eq_nil_iff.1 h).2 hy
      · rwa [List.getLast?_append_of_ne_nil _ hy] at h

theorem lines_append (h : BeginsLine before) (t : Text) :
    lines (before ++ t) = lines before ++ lines t := by
  induction hn : before.length using Nat.strong_induction_on generalizing before with
  | _ n ih =>
      rcases eq_nil_or_line h with rfl | ⟨l, below, hl, hbelow, rfl⟩
      · rfl
      · rw [List.append_assoc, List.cons_append, lines_line hl, lines_line hl,
          ih _ (by simp [← hn]; omega) hbelow rfl, List.cons_append]

end Text

/-- What a scan knows at the start of a line, when the last record before it ends at `floor`. -/
def LineStart.between (floor : Nat) (before : Text) : LineStart where
  offset := Text.byteSize before
  line := before.count '\n' + 1
  above? := Text.lineAbove? before
  gap := (Text.lines (Text.splitBytes floor before).2).reverse

namespace LineStart

/-- A record ends at `floor`, and behind it a whole number of lines ends where `before` does. -/
def Follows (floor : Nat) (before : Text) : Prop :=
  ∃ upTo behind, before = upTo ++ behind ∧ Text.byteSize upTo = floor ∧ Text.BeginsLine behind

theorem behind_between (floor : Nat) (h : Text.BeginsLine before) :
    (between floor before).Behind before := ⟨rfl, rfl, rfl, h⟩

theorem Behind.eq_between {floor : Nat} (h : s.Behind before)
    (hgap : s.gap = (between floor before).gap) : s = between floor before := by
  cases s with
  | mk offset line above? gap =>
      obtain ⟨rfl, rfl, rfl, -⟩ := h
      simpa [between] using hgap

theorem gap_between {floor : Nat} {upTo behind : Text} (h : Text.byteSize upTo = floor) :
    (between floor (upTo ++ behind)).gap = (Text.lines behind).reverse := by
  rw [between, ← h, Text.splitBytes_append]

theorem advance_between {floor : Nat} {line : Text} (hbefore : Text.BeginsLine before)
    (hfloor : Follows floor before) (hline : '\n' ∉ line) :
    (between floor before).advance line (line :: (between floor before).gap) =
      between floor (before ++ line ++ ['\n']) := by
  apply ((behind_between floor hbefore).advance line _).eq_between
  obtain ⟨upTo, behind, rfl, hsize, hbehind⟩ := hfloor
  have hlines : Text.lines (behind ++ (line ++ ['\n'])) = Text.lines behind ++ [line] := by
    rw [Text.lines_append hbehind, Text.lines_line hline]
    rfl
  rw [List.append_assoc, List.append_assoc, gap_between hsize, gap_between hsize, hlines,
    List.reverse_append]
  rfl

theorem advance_between_member {passed line : Text} (floor : Nat)
    (hbefore : Text.BeginsLine before) (hline : '\n' ∉ line) :
    (between floor before).advance (passed ++ line) [line] =
      between (Text.byteSize (before ++ passed)) (before ++ (passed ++ line) ++ ['\n']) := by
  apply ((behind_between floor hbefore).advance (passed ++ line) _).eq_between
  have hsplit : before ++ (passed ++ line) ++ ['\n'] = before ++ passed ++ (line ++ ['\n']) := by
    simp
  rw [hsplit, gap_between rfl, Text.lines_line hline]
  rfl

/-- What holds of a scan at the start of a line, wherever it is. -/
structure StandsAt (s : LineStart) (floor : Nat) (before : Text) : Prop where
  eq : s = between floor before
  begins : Text.BeginsLine before
  follows : Follows floor before

theorem standsAt_first : first.StandsAt 0 [] :=
  ⟨rfl, Or.inl rfl, [], [], rfl, rfl, Or.inl rfl⟩

theorem StandsAt.skip {floor : Nat} {line : Text} (h : s.StandsAt floor before)
    (hline : '\n' ∉ line) :
    (s.advance line (line :: s.gap)).StandsAt floor (before ++ line ++ ['\n']) where
  eq := by
    rw [h.eq]
    exact advance_between h.begins h.follows hline
  begins := Text.beginsLine_append_newline _
  follows := by
    obtain ⟨upTo, behind, rfl, hfloor, -⟩ := h.follows
    exact ⟨upTo, behind ++ line ++ ['\n'], by simp, hfloor, Text.beginsLine_append_newline _⟩

theorem StandsAt.take {floor : Nat} {line : Text} (h : s.StandsAt floor before) (passed : Text)
    (hline : '\n' ∉ line) :
    (s.advance (passed ++ line) [line]).StandsAt (Text.byteSize (before ++ passed))
      (before ++ (passed ++ line) ++ ['\n']) where
  eq := by
    rw [h.eq]
    exact advance_between_member floor h.begins hline
  begins := Text.beginsLine_append_newline _
  follows := ⟨before ++ passed, line ++ ['\n'], by simp, rfl, Text.beginsLine_append_newline _⟩

end LineStart

namespace Declaration

theorem find?_eq (least offset : Nat) (t : Text) :
    find? least offset t = match (if least ≤ offset then read? (Text.firstLine t) else none) with
      | some (d, _) => some (offset, d)
      | none => (Text.afterLine t).bind fun rest =>
          find? least (offset + Text.byteSize (Text.firstLine t) + 1) rest := by
  rw [find?]
  rcases (if least ≤ offset then read? (Text.firstLine t) else none) with - | ⟨d, line⟩
  · simp only
    cases Text.afterLine t <;> rfl
  · rfl

theorem find?_append (h : Text.BeginsLine before) (t : Text)
    (hleast : ∀ x, x <+: before → Text.BeginsLine x → x ≠ before →
      offset + Text.byteSize x < least) :
    find? least offset (before ++ t) = find? least (offset + Text.byteSize before) t := by
  induction hn : before.length using Nat.strong_induction_on generalizing before offset with
  | _ n ih =>
      rcases Text.eq_nil_or_line h with rfl | ⟨l, below, hl, hbelow, rfl⟩
      · simp
      · have hlt : ¬ least ≤ offset := by
          have := hleast [] List.nil_prefix (Or.inl rfl) (by simp)
          simp only [Text.byteSize_nil] at this
          omega
        have hsize : offset + Text.byteSize (l ++ '\n' :: below) =
            offset + Text.byteSize l + 1 + Text.byteSize below := by
          rw [Text.byteSize_append, Text.byteSize_newline]
          omega
        rw [List.append_assoc, List.cons_append, find?_eq, if_neg hlt, Text.afterLine_line hl,
          Text.firstLine_line hl, hsize]
        refine ih _ (by simp [← hn]; omega) hbelow ?_ rfl
        intro x hx hbegins hne
        have := hleast (l ++ '\n' :: x) (by simpa using hx) (hbegins.behind_line l)
          (by simpa using hne)
        rw [Text.byteSize_append, Text.byteSize_newline] at this
        omega

theorem find?_eq_some {found : Nat × Declaration} (h : find? least offset t = some found) :
    ∃ b rest line, t = b ++ rest ∧ Text.BeginsLine b ∧ found.1 = offset + Text.byteSize b ∧
      least ≤ found.1 ∧ read? (Text.firstLine rest) = some (found.2, line) := by
  induction hn : t.length using Nat.strong_induction_on generalizing offset t with
  | _ n ih =>
      rw [find?_eq] at h
      split at h
      · next d line hd =>
          cases h
          split at hd
          · next hle => exact ⟨[], t, line, rfl, Or.inl rfl, rfl, hle, hd⟩
          · simp at hd
      · obtain ⟨below, hbelow, h⟩ := Option.bind_eq_some_iff.1 h
        obtain ⟨b, rest, line, rfl, hb, hplace, hle, hread⟩ :=
          ih _ (hn ▸ Text.length_lt_of_afterLine hbelow) h rfl
        refine ⟨Text.firstLine t ++ '\n' :: b, rest, line, ?_, hb.behind_line _, ?_, hle, hread⟩
        · simpa using Text.eq_of_afterLine hbelow
        · rw [hplace, Text.byteSize_append, Text.byteSize_newline]
          omega

def at? (source : Text) (start : Nat) : Option Declaration :=
  ((find? start 0 source).filter fun found => found.1 = start).map Prod.snd

theorem at?_eq (h : Text.BeginsLine before) (t : Text) :
    at? (before ++ t) (Text.byteSize before) =
      (read? (Text.firstLine t)).map Prod.fst := by
  have hfind : find? (Text.byteSize before) 0 (before ++ t) =
      find? (Text.byteSize before) (0 + Text.byteSize before) t := by
    refine find?_append h t fun x hx _ hne => ?_
    have := Text.byteSize_lt_of_prefix hx hne
    omega
  rw [Nat.zero_add] at hfind
  rw [at?, hfind, find?_eq, if_pos (Nat.le_refl _)]
  cases hread : read? (Text.firstLine t) with
  | some r => simp
  | none =>
      simp only [Option.map_none, Option.map_eq_none_iff, Option.filter_eq_none_iff]
      intro found hfound
      obtain ⟨rest, -, hfound⟩ := Option.bind_eq_some_iff.1 hfound
      obtain ⟨b, rest, line, -, -, hplace, -⟩ := find?_eq_some hfound
      simp only [decide_eq_true_eq]
      omega

end Declaration

/-- The member of a declaration, unless a marker on the line above hides it or it defines a type. -/
def Member.accept? (o : ScanOptions) (above? : Option Text) (t : Text) (d : Declaration) :
    Option Member :=
  if above?.any o.isMarker || d.head.isTypeDefinition then none
  else some ⟨d, Braces.after? o.boundary d.indent (t.drop d.text.length)⟩

theorem Member.read?_eq (o : ScanOptions) (above? : Option Text) (t : Text) :
    Member.read? o above? t =
      ((Declaration.read? (Text.firstLine t)).map Prod.fst).bind (Member.accept? o above? t) := by
  rw [Member.read?]
  cases Declaration.read? (Text.firstLine t) <;> rfl

/-- Whether a byte lies inside the span of a record, behind its start. -/
def Record.covers (r : Record) (byte : Nat) : Bool := r.start < byte && byte < r.stop

theorem not_covers_of_le {byte : Nat} (h : byte ≤ r.start) : r.covers byte = false := by
  simp only [Record.covers, Bool.and_eq_false_iff, decide_eq_false_iff_not]
  omega

theorem covers_of_prefix {x line : Text} (hm : m.text.getLast? ≠ some '\n') (hline : '\n' ∉ line)
    (hx : x <+: m.text ++ line) (hlast : x.getLast? = some '\n')
    (hoffset : s.offset = Text.byteSize before) :
    (s.record m).covers (Text.byteSize (before ++ x)) = true := by
  have hne : x ≠ [] := by rintro rfl; simp at hlast
  have hpos := Text.byteSize_pos hne
  obtain ⟨y, hy, hmy⟩ : ∃ y, y ≠ [] ∧ m.text = x ++ y := by
    rcases List.prefix_or_prefix_of_prefix hx (List.prefix_append m.text line) with h | h
    · obtain ⟨y, hy⟩ := h
      refine ⟨y, ?_, hy.symm⟩
      rintro rfl
      rw [List.append_nil] at hy
      exact hm (hy ▸ hlast)
    · obtain ⟨z, rfl⟩ := h
      rw [List.prefix_append_right_inj] at hx
      by_cases hz : z = []
      · rw [hz, List.append_nil] at hlast
        exact absurd hlast hm
      · rw [List.getLast?_append_of_ne_nil _ hz] at hlast
        exact absurd (hx.subset (List.mem_of_getLast? hlast)) hline
  have hpos' := Text.byteSize_pos hy
  simp only [Record.covers, LineStart.record, hoffset, hmy, Text.byteSize_append, Bool.and_eq_true,
    decide_eq_true_eq]
  omega

namespace Record

def declared? (source : Text) (r : Record) : Option (Declaration × Text) :=
  let t := (Text.splitBytes r.start source).2
  (Declaration.read? (Text.firstLine t)).map fun (d, _) => (d, t.drop d.text.length)

/-- The byte of the brace that opens a block of several lines behind a record, and the indentation of
its line. -/
def opening? (source : Text) (r : Record) : Option (Nat × Text) :=
  (r.declared? source).bind fun (d, t) =>
    (Braces.opening? d.indent t).map fun o =>
      (r.start + Text.byteSize (d.text ++ o.lead), o.indent)

end Record

/-- The declaration of a record stands behind `before`, and its block is what is found behind the
declaration. -/
structure Record.Declares (o : ScanOptions) (r : Record) (before : Text) (d : Declaration)
    (behind : Text) : Prop where
  start : r.start = Text.byteSize before
  declared : r.declared? (before ++ (d.text ++ behind)) = some (d, behind)
  block : r.block? = (Braces.after? o.boundary d.indent behind).map Braces.content

theorem LineStart.Behind.declares (hs : s.Behind before)
    (hread : Member.read? o s.above? t = some m) :
    ∃ behind, t = m.declaration.text ++ behind ∧
      (s.record m).Declares o before m.declaration behind := by
  obtain ⟨d, rest, hd, -, -, rfl⟩ := Member.read?_eq_some_iff.1 hread
  obtain ⟨behind, rfl⟩ : ∃ behind, t = d.text ++ behind := by
    have ht := Text.firstLine_append_dropWhile t
    rw [Declaration.eq_append_of_read? hd, List.append_assoc] at ht
    exact ⟨_, ht.symm⟩
  rw [List.drop_left]
  refine ⟨behind, rfl, hs.offset, ?_, by simp only [LineStart.record]⟩
  simp [Record.declared?, LineStart.record, hs.offset, Text.splitBytes_append, hd]

theorem exists_declares (hr : r ∈ scan o source) :
    ∃ before d behind, source = before ++ (d.text ++ behind) ∧ r.Declares o before d behind := by
  obtain ⟨before, t, s, m, rfl, hs, hread, rfl⟩ :=
    (run_scanFrom o .first source).exists_read LineStart.behind_first r hr
  obtain ⟨behind, rfl, h⟩ := hs.declares hread
  exact ⟨before, m.declaration, behind, rfl, h⟩

end ApiListing
