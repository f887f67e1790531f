import ApiListing.Proofs.Runs

namespace ApiListing

variable {o : ScanOptions} {s : LineStart} {t before : Text} {ls : List Text}

def Text.ofLines (ls : List Text) : Text := (ls.map (· ++ ['\n'])).flatten

theorem Text.ofLines_cons (l : Text) (ls : List Text) :
    Text.ofLines (l :: ls) = l ++ '\n' :: Text.ofLines ls := by
  simp [Text.ofLines]

theorem Text.ofLines_append (ls ms : List Text) :
    Text.ofLines (ls ++ ms) = Text.ofLines ls ++ Text.ofLines ms := by
  simp [Text.ofLines]

theorem Text.BeginsLine.ofLines (h : Text.BeginsLine before) (ls : List Text) :
    Text.BeginsLine (before ++ Text.ofLines ls) := by
  induction ls generalizing before with
  | nil => simpa [Text.ofLines] using h
  | cons l ls ih =>
      rw [Text.ofLines_cons, ← List.singleton_append (x := '\n'), ← List.append_assoc,
        ← List.append_assoc]
      exact ih (Text.beginsLine_append_newline _)

namespace LineStart

def skip (s : LineStart) (ls : List Text) : LineStart :=
  ls.foldl (fun s l => s.advance l (l :: s.gap)) s

theorem skip_append (s : LineStart) (ls ms : List Text) : s.skip (ls ++ ms) = (s.skip ls).skip ms :=
  List.foldl_append ..

theorem gap_skip (s : LineStart) (ls : List Text) : (s.skip ls).gap = ls.reverse ++ s.gap := by
  induction ls generalizing s with
  | nil => rfl
  | cons l ls ih =>
      rw [skip, List.foldl_cons, ← skip, ih]
      simp [LineStart.advance]

theorem above_skip {l : Text} (hl : '\n' ∉ l) (s : LineStart) (ls : List Text) :
    (s.skip (ls ++ [l])).above? = some l := by
  rw [skip_append, skip, List.foldl_cons, List.foldl_nil, LineStart.advance,
    Text.lastLine_of_not_mem hl]

theorem Behind.skip (h : s.Behind before) (ls : List Text) :
    (s.skip ls).Behind (before ++ Text.ofLines ls) := by
  induction ls generalizing s before with
  | nil => simpa [Text.ofLines, LineStart.skip] using h
  | cons l ls ih =>
      have hrest := ih (h.advance l (l :: s.gap))
      rw [Text.ofLines_cons, ← List.singleton_append (x := '\n'), ← List.append_assoc,
        ← List.append_assoc]
      exact hrest

end LineStart

theorem Member.read?_eq_none {above? : Option Text}
    (h : Declaration.read? (Text.firstLine t) = none) : Member.read? o above? t = none := by
  simp [Member.read?, h]

theorem Member.read?_of_marker {above? : Option Text} (h : above?.any o.isMarker = true) :
    Member.read? o above? t = none := by
  rw [Member.read?]
  cases Declaration.read? (Text.firstLine t) <;> simp [h]

theorem scanFrom_lines (hls : ∀ l ∈ ls, '\n' ∉ l) (hread : ∀ l ∈ ls, Declaration.read? l = none) :
    scanFrom o s (Text.ofLines ls ++ t) = scanFrom o (s.skip ls) t := by
  induction ls generalizing s with
  | nil => rfl
  | cons l ls ih =>
      have hl := hls l (List.mem_cons_self ..)
      have hnone : Member.read? o s.above? (l ++ '\n' :: (Text.ofLines ls ++ t)) = none := by
        refine Member.read?_eq_none ?_
        rw [Text.firstLine_line hl]
        exact hread l (List.mem_cons_self ..)
      rw [Text.ofLines_cons, List.append_assoc, List.cons_append, scanFrom_of_none hnone,
        Text.afterLine_line hl, Text.firstLine_line hl]
      exact ih (fun m hm => hls m (List.mem_cons_of_mem _ hm))
        fun m hm => hread m (List.mem_cons_of_mem _ hm)

namespace LineStart

/-- No doc line and no marker stands right above. -/
structure Clear (s : LineStart) : Prop where
  gap : s.gap.takeWhile Summary.isDocLine = []
  above : s.above?.any ({} : ScanOptions).isMarker = false

theorem clear_first : first.Clear where
  gap := rfl
  above := rfl

theorem clear_of_above {l : Text} (habove : s.above? = some l)
    (hl : Text.trim l ≠ "[MoonSharpVisible(false)]".toList)
    (hgap : ∀ l ∈ s.gap.head?, Summary.isDocLine l = false) : s.Clear where
  gap := by
    cases hs : s.gap with
    | nil => rfl
    | cons l ls =>
        rw [hs] at hgap
        exact List.takeWhile_cons_of_neg (by simp [hgap l rfl])
  above := by
    have hmarker : Text.trim "[MoonSharpVisible(false)]".toList =
        "[MoonSharpVisible(false)]".toList := by decide
    rw [habove, Option.any_some, ScanOptions.isMarker, List.map_singleton, hmarker]
    simpa using hl

theorem clear_skip {l : Text} (hl : '\n' ∉ l) (hdoc : Summary.isDocLine l = false)
    (hmarker : Text.trim l ≠ "[MoonSharpVisible(false)]".toList) (s : LineStart) (ls : List Text) :
    (s.skip (ls ++ [l])).Clear := by
  apply clear_of_above (above_skip hl s ls) hmarker
  intro d hd
  rw [gap_skip, List.reverse_append, List.reverse_singleton, List.singleton_append,
    List.cons_append] at hd
  cases hd
  exact hdoc

theorem Clear.summary? (h : s.Clear) : s.summary? = none := by
  rw [LineStart.summary?, h.gap]
  rfl

end LineStart

end ApiListing
