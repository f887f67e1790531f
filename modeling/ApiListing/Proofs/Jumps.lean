import ApiListing.Proofs.Places

namespace ApiListing

variable {o : ScanOptions} {s : LineStart} {t before source : Text} {rs : List Record}
  {m : Member} {d : Declaration} {pos floor start : Nat}

theorem Declaration.find?_bounds (h : find? pos 0 source = some (start, d)) :
    pos ≤ start ∧ Text.byteSize (Text.splitBytes start source).1 = start ∧
      0 < Text.byteSize (Text.firstLine (Text.splitBytes start source).2) := by
  obtain ⟨b, rest, line, rfl, -, hstart, hle, hread⟩ := find?_eq_some h
  simp only [Nat.zero_add] at hstart hle
  subst hstart
  rw [Text.splitBytes_append]
  refine ⟨hle, rfl, Text.byteSize_pos ?_⟩
  rw [eq_append_of_read? hread]
  simp [text_ne_nil]

/-- The records found by searches from byte `pos` on, when the last record before it ends at
`floor`. -/
def scanJumps (o : ScanOptions) (source : Text) (pos floor : Nat) : List Record :=
  if _hpos : pos < Text.byteSize source then
    match _hfind : Declaration.find? pos 0 source with
    | none => []
    | some (start, d) =>
      let place := Text.splitBytes start source
      match Member.accept? o (Text.lineAbove? place.1) place.2 d with
      | some m =>
        let r := (LineStart.between floor place.1).record m
        r :: scanJumps o source r.stop r.stop
      | none => scanJumps o source (start + Text.byteSize (Text.firstLine place.2)) floor
  else []
termination_by Text.byteSize source - pos
decreasing_by
  · obtain ⟨hle, hplace, -⟩ := Declaration.find?_bounds _hfind
    have := Text.byteSize_pos m.text_ne_nil
    simp only [LineStart.record, LineStart.between, hplace]
    omega
  · obtain ⟨hle, -, hline⟩ := Declaration.find?_bounds _hfind
    omega

theorem scanJumps_of_none (h : Declaration.find? pos 0 source = none) :
    scanJumps o source pos floor = [] := by
  rw [scanJumps]
  split
  · split
    · rfl
    · next hfind => simp [h] at hfind
  · rfl

theorem scanJumps_of_find?
    (h : Declaration.find? pos 0 (before ++ t) = some (Text.byteSize before, d)) :
    scanJumps o (before ++ t) pos floor =
      match Member.accept? o (Text.lineAbove? before) t d with
      | some m =>
        let r := (LineStart.between floor before).record m
        r :: scanJumps o (before ++ t) r.stop r.stop
      | none =>
        scanJumps o (before ++ t) (Text.byteSize before + Text.byteSize (Text.firstLine t))
          floor := by
  obtain ⟨hle, -, hline⟩ := Declaration.find?_bounds h
  simp only [Text.splitBytes_append] at hline
  have hsize := Text.firstLine_append_dropWhile t
  have hpos : pos < Text.byteSize (before ++ t) := by
    rw [← hsize]
    simp only [Text.byteSize_append]
    omega
  rw [scanJumps, dif_pos hpos]
  split
  · next hfind => simp [h] at hfind
  · next start d' hfind =>
      rw [h] at hfind
      cases hfind
      simp only [Text.splitBytes_append]

theorem find?_skip {line below : Text} (hline : '\n' ∉ line)
    (hread : Declaration.read? line = none) (pos offset : Nat) :
    Declaration.find? pos offset (line ++ '\n' :: below) =
      Declaration.find? pos (offset + Text.byteSize line + 1) below := by
  rw [Declaration.find?_eq, Text.firstLine_line hline, Text.afterLine_line hline, hread, ite_self]
  rfl

theorem lt_of_prefix_line {line x : Text} (hline : '\n' ∉ line) (hne : line ≠ [])
    (hx : x <+: before ++ line) (hbegins : Text.BeginsLine x) :
    Text.byteSize x < Text.byteSize before + Text.byteSize line := by
  have hpos := Text.byteSize_pos hne
  rcases hbegins.cases_append hx with h | ⟨y, -, hy, hlast⟩
  · have := Text.byteSize_le_of_prefix h
    omega
  · exact absurd (hy.subset (List.mem_of_getLast? hlast)) hline

theorem lt_of_prefix_member {line x : Text} (hm : m.text.getLast? ≠ some '\n') (hline : '\n' ∉ line)
    (hx : x <+: before ++ (m.text ++ line)) (hbegins : Text.BeginsLine x) :
    Text.byteSize x < Text.byteSize (before ++ m.text) := by
  have hpos := Text.byteSize_pos m.text_ne_nil
  rcases hbegins.cases_append hx with h | ⟨y, rfl, hy, hlast⟩
  · have := Text.byteSize_le_of_prefix h
    rw [Text.byteSize_append]
    omega
  · have hcovers := covers_of_prefix (s := .between 0 before) hm hline hy hlast rfl
    simp only [Record.covers, Bool.and_eq_true, decide_eq_true_eq] at hcovers
    rw [Text.byteSize_append before m.text]
    exact hcovers.2

theorem find?_last_line {v : Text}
    (h : ∀ x, x <+: before ++ v → Text.BeginsLine x → Text.byteSize x < pos) :
    Declaration.find? pos 0 (before ++ v) = none := by
  rw [Option.eq_none_iff_forall_ne_some]
  intro found hfound
  obtain ⟨b, rest, -, hb, hbegins, hplace, hle, -⟩ := Declaration.find?_eq_some hfound
  have := h b (hb ▸ List.prefix_append b rest) hbegins
  omega

/-- A search from inside a line goes on with the next line. -/
theorem find?_next_line {v : Text} (below : Text)
    (h : ∀ x, x <+: before ++ v → Text.BeginsLine x → Text.byteSize x < pos) :
    Declaration.find? pos 0 (before ++ v ++ ['\n'] ++ below) =
      Declaration.find? pos (Text.byteSize (before ++ v ++ ['\n'])) below := by
  rw [Declaration.find?_append (Text.beginsLine_append_newline _), Nat.zero_add]
  intro x hx hbegins hne
  rw [Nat.zero_add]
  exact h x ((List.prefix_concat_iff.1 hx).resolve_left hne) hbegins

theorem find?_here {offset : Nat} {r : Declaration × Text} (hpos : pos ≤ offset)
    (h : Declaration.read? (Text.firstLine t) = some r) :
    Declaration.find? pos offset t = some (offset, r.1) := by
  rw [Declaration.find?_eq, if_pos hpos, h]

theorem scanJumps_of_reject {r : Declaration × Text}
    (hfind : Declaration.find? pos 0 (before ++ t) = some (Text.byteSize before, r.1))
    (hd : Declaration.read? (Text.firstLine t) = some r)
    (hread : Member.read? o (Text.lineAbove? before) t = none) :
    scanJumps o (before ++ t) pos floor =
      scanJumps o (before ++ t) (Text.byteSize before + Text.byteSize (Text.firstLine t))
        floor := by
  rw [Member.read?_eq, hd] at hread
  simp only [Option.map_some, Option.bind_some] at hread
  rw [scanJumps_of_find? hfind, hread]

theorem ne_nil_of_read? {line : Text} {r : Declaration × Text}
    (h : Declaration.read? line = some r) : line ≠ [] := by
  rw [Declaration.eq_append_of_read? h]
  simp [Declaration.text_ne_nil]

/-- A search from byte `pos` on finds nothing before the place between two texts. -/
structure Reaches (pos : Nat) (before t : Text) : Prop where
  le : pos ≤ Text.byteSize before
  find : Declaration.find? pos 0 (before ++ t) = Declaration.find? pos (Text.byteSize before) t

namespace Reaches

theorem find_here {r : Declaration × Text} (h : Reaches pos before t)
    (hread : Declaration.read? (Text.firstLine t) = some r) :
    Declaration.find? pos 0 (before ++ t) = some (Text.byteSize before, r.1) :=
  h.find.trans (find?_here h.le hread)

theorem exists_below {line below : Text} (h : Reaches pos before (line ++ '\n' :: below))
    (hline : '\n' ∉ line)
    (hread : Member.read? o (Text.lineAbove? before) (line ++ '\n' :: below) = none) :
    ∃ next, Reaches next (before ++ line ++ ['\n']) below ∧
      scanJumps o (before ++ (line ++ '\n' :: below)) pos floor =
        scanJumps o (before ++ (line ++ '\n' :: below)) next floor := by
  have hle := h.le
  have hsplit : before ++ line ++ ['\n'] ++ below = before ++ (line ++ '\n' :: below) := by simp
  have hfirst := Text.firstLine_line hline below
  cases hd : Declaration.read? line with
  | none =>
      refine ⟨pos, ⟨?_, ?_⟩, rfl⟩
      · simp only [Text.byteSize_append]
        omega
      · rw [hsplit, h.find, find?_skip hline hd, Text.byteSize_append, Text.byteSize_append,
          Text.byteSize_newline]
        rfl
  | some r =>
      have hhere : Declaration.read? (Text.firstLine (line ++ '\n' :: below)) = some r :=
        hfirst.symm ▸ hd
      refine ⟨Text.byteSize before + Text.byteSize line, ⟨?_, ?_⟩, ?_⟩
      · simp only [Text.byteSize_append]
        omega
      · exact find?_next_line below fun x => lt_of_prefix_line hline (ne_nil_of_read? hd)
      · rw [scanJumps_of_reject (h.find_here hhere) hhere hread, hfirst]

theorem scanJumps_last {line : Text} (h : Reaches pos before line) (hline : '\n' ∉ line)
    (hread : Member.read? o (Text.lineAbove? before) line = none) :
    scanJumps o (before ++ line) pos floor = [] := by
  have hfirst := Text.firstLine_of_not_mem hline
  cases hd : Declaration.read? line with
  | none =>
      refine scanJumps_of_none (h.find.trans ?_)
      rw [Declaration.find?_eq, hfirst, Text.afterLine_of_not_mem hline, hd, ite_self]
      rfl
  | some r =>
      have hhere : Declaration.read? (Text.firstLine line) = some r := hfirst.symm ▸ hd
      rw [scanJumps_of_reject (h.find_here hhere) hhere hread, hfirst]
      exact scanJumps_of_none
        (find?_last_line fun x => lt_of_prefix_line hline (ne_nil_of_read? hd))

theorem scanJumps_of_member (h : Reaches pos before t)
    (hread : Member.read? o (Text.lineAbove? before) t = some m) :
    scanJumps o (before ++ t) pos floor =
      (LineStart.between floor before).record m ::
        scanJumps o (before ++ t) (Text.byteSize (before ++ m.text))
          (Text.byteSize (before ++ m.text)) := by
  rw [Member.read?_eq] at hread
  obtain ⟨d, hd, haccept⟩ := Option.bind_eq_some_iff.1 hread
  obtain ⟨r, hr, rfl⟩ := Option.map_eq_some_iff.1 hd
  rw [scanJumps_of_find? (h.find_here hr), haccept, Text.byteSize_append]
  rfl

end Reaches

theorem reaches_behind_member {line : Text} (hm : m.text.getLast? ≠ some '\n')
    (hline : '\n' ∉ line) (below : Text) :
    Reaches (Text.byteSize (before ++ m.text)) (before ++ (m.text ++ line) ++ ['\n']) below where
  le := by
    simp only [Text.byteSize_append]
    omega
  find := find?_next_line below fun x => lt_of_prefix_member hm hline

/-- Searches find the records of a run. They may go on from above the line that the run has reached,
at the end of a record or of a declaration, as long as there is nothing to be found in between. -/
theorem Run.scanJumps_eq (h : Run o s t rs) (hs : s.StandsAt floor before)
    (hreach : Reaches pos before t) : scanJumps o (before ++ t) pos floor = rs := by
  induction h generalizing before floor pos with
  | last s line hline hread =>
      obtain rfl := hs.eq
      exact hreach.scanJumps_last hline hread
  | lastMember s m line hline hread =>
      obtain rfl := hs.eq
      have hlast := Member.getLast?_text_ne_newline hread
      rw [hreach.scanJumps_of_member hread]
      exact congrArg _ (scanJumps_of_none
        (find?_last_line fun x => lt_of_prefix_member hlast hline))
  | skip s line below rs hline hread hrun ih =>
      have hnext := hs.skip hline
      obtain rfl := hs.eq
      obtain ⟨next, hbelow, hjump⟩ := hreach.exists_below hline hread
      have hsplit : before ++ (line ++ '\n' :: below) = before ++ line ++ ['\n'] ++ below := by simp
      rw [hjump, hsplit]
      exact ih hnext hbelow
  | take s m line below rs hline hread hrun ih =>
      have hnext := hs.take m.text hline
      obtain rfl := hs.eq
      have hlast := Member.getLast?_text_ne_newline hread
      have hsplit : before ++ (m.text ++ (line ++ '\n' :: below)) =
          before ++ (m.text ++ line) ++ ['\n'] ++ below := by simp
      rw [hreach.scanJumps_of_member hread, hsplit]
      exact congrArg _ (ih hnext (reaches_behind_member hlast hline below))

theorem scanJumps_zero (o : ScanOptions) (source : Text) : scanJumps o source 0 0 = scan o source :=
  (run_scanFrom o .first source).scanJumps_eq LineStart.standsAt_first ⟨Nat.le_refl 0, rfl⟩

end ApiListing
