import ApiListing.Scan
import ApiListing.Proofs.Blocks

namespace ApiListing

/-- The records found from a line start on, step by step. A step passes either a line, or a member
with what is left of the line that it ends on. -/
inductive Run (o : ScanOptions) : LineStart → Text → List Record → Prop
  | last (s) (line) (hline : '\n' ∉ line) (hread : Member.read? o s.above? line = none) :
      Run o s line []
  | lastMember (s) (m : Member) (line) (hline : '\n' ∉ line)
      (hread : Member.read? o s.above? (m.text ++ line) = some m) :
      Run o s (m.text ++ line) [s.record m]
  | skip (s) (line) (below) (rs) (hline : '\n' ∉ line)
      (hread : Member.read? o s.above? (line ++ '\n' :: below) = none)
      (hrun : Run o (s.advance line (line :: s.gap)) below rs) :
      Run o s (line ++ '\n' :: below) rs
  | take (s) (m : Member) (line) (below) (rs) (hline : '\n' ∉ line)
      (hread : Member.read? o s.above? (m.text ++ (line ++ '\n' :: below)) = some m)
      (hrun : Run o (s.advance (m.text ++ line) [line]) below rs) :
      Run o s (m.text ++ (line ++ '\n' :: below)) (s.record m :: rs)

variable {o : ScanOptions} {s : LineStart} {t line below before : Text} {rs : List Record}
  {m : Member}

theorem scanFrom_of_none (hread : Member.read? o s.above? t = none) :
    scanFrom o s t = match Text.afterLine t with
      | none => []
      | some below =>
        scanFrom o (s.advance (Text.firstLine t) (Text.firstLine t :: s.gap)) below := by
  rw [scanFrom]
  simp only [hread, Option.map_none, Option.getD_none, List.length_nil, List.drop_zero]
  split
  · next h =>
      simp only [hread, Option.map_none, Option.getD_none, List.length_nil, List.drop_zero] at h
      simp [h]
  · next below h =>
      simp only [hread, Option.map_none, Option.getD_none, List.length_nil, List.drop_zero] at h
      simp [h]

theorem scanFrom_of_some {rest : Text} (ht : t = m.text ++ rest)
    (hread : Member.read? o s.above? t = some m) :
    scanFrom o s t = match Text.afterLine rest with
      | none => [s.record m]
      | some below =>
        s.record m :: scanFrom o (s.advance (m.text ++ Text.firstLine rest) [Text.firstLine rest])
          below := by
  have hdrop : t.drop m.text.length = rest := by simp [ht]
  rw [scanFrom]
  simp only [hread, Option.map_some, Option.getD_some, hdrop]
  split
  · next h =>
      simp only [hread, Option.map_some, Option.getD_some, hdrop] at h
      simp [h]
  · next below h =>
      simp only [hread, Option.map_some, Option.getD_some, hdrop] at h
      simp [h]

theorem run_scanFrom (o : ScanOptions) (s : LineStart) (t : Text) : Run o s t (scanFrom o s t) := by
  induction hn : t.length using Nat.strong_induction_on generalizing s t with
  | _ n ih =>
      cases hread : Member.read? o s.above? t with
      | none =>
          rw [scanFrom_of_none hread]
          rcases Text.line_cases t with ht | ⟨line, below, hline, rfl⟩
          · rw [Text.afterLine_of_not_mem ht]
            exact .last s t ht hread
          · rw [Text.afterLine_line hline, Text.firstLine_line hline]
            exact .skip s line below _ hline hread (ih _ (by simp [← hn]; omega) _ _ rfl)
      | some m =>
          obtain ⟨rest, -, ht, -⟩ := Member.eq_append_of_read? hread
          rw [scanFrom_of_some ht hread]
          rcases Text.line_cases rest with hrest | ⟨line, below, hline, rfl⟩
          · rw [Text.afterLine_of_not_mem hrest]
            subst ht
            exact .lastMember s m rest hrest hread
          · rw [Text.afterLine_line hline, Text.firstLine_line hline]
            subst ht
            exact .take s m line below _ hline hread (ih _ (by simp [← hn]; omega) _ _ rfl)

/-- A run has no choice: its records are those of the scan. -/
theorem Run.eq_scanFrom (h : Run o s t rs) : scanFrom o s t = rs := by
  induction h with
  | last s line hline hread => rw [scanFrom_of_none hread, Text.afterLine_of_not_mem hline]
  | lastMember s m line hline hread =>
      rw [scanFrom_of_some rfl hread, Text.afterLine_of_not_mem hline]
  | skip s line below rs hline hread hrun ih =>
      rw [scanFrom_of_none hread, Text.afterLine_line hline, Text.firstLine_line hline]
      exact ih
  | take s m line below rs hline hread hrun ih =>
      rw [scanFrom_of_some rfl hread, Text.afterLine_line hline, Text.firstLine_line hline]
      exact congrArg _ ih

namespace Text

def BeginsLine (before : Text) : Prop := before = [] ∨ before.getLast? = some '\n'

instance (before : Text) : Decidable (BeginsLine before) := by
  unfold BeginsLine; infer_instance

def lineAbove? (before : Text) : Option Text :=
  if before = [] then none else some (lastLine before.dropLast)

theorem beginsLine_append_newline (t : Text) : BeginsLine (t ++ ['\n']) := by
  simp [BeginsLine]

theorem lastLine_append {passed : Text} (h : BeginsLine before) :
    lastLine (before ++ passed) = lastLine passed := by
  have hnil : before.reverse.takeWhile (· ≠ '\n') = [] := by
    rcases h with rfl | h
    · rfl
    · rw [← List.dropLast_append_getLast? _ h]
      simp
  rw [lastLine, List.reverse_append, List.takeWhile_append, hnil, List.append_nil]
  split
  · next hall =>
      rw [lastLine, List.IsPrefix.eq_of_length ( List.takeWhile_prefix _) hall]
  · rfl

theorem lineAbove?_append {passed : Text} (h : BeginsLine before) :
    lineAbove? (before ++ passed ++ ['\n']) = some (lastLine passed) := by
  rw [lineAbove?, if_neg (by simp), List.dropLast_concat, lastLine_append h]

end Text

namespace LineStart

/-- What a line start tells of the text before it. -/
structure Behind (s : LineStart) (before : Text) : Prop where
  offset : s.offset = Text.byteSize before
  line : s.line = before.count '\n' + 1
  above : s.above? = Text.lineAbove? before
  begins : Text.BeginsLine before

theorem behind_first : first.Behind [] where
  offset := rfl
  line := rfl
  above := rfl
  begins := Or.inl rfl

theorem Behind.advance (h : s.Behind before) (passed : Text) (gap : List Text) :
    (s.advance passed gap).Behind (before ++ passed ++ ['\n']) where
  offset := by
    simp only [LineStart.advance, h.offset, Text.byteSize_append]
    rfl
  line := by
    simp only [LineStart.advance, h.line, List.count_append, List.count_singleton_self]
    omega
  above := by rw [LineStart.advance, Text.lineAbove?_append h.begins]
  begins := Text.beginsLine_append_newline _

end LineStart

/-- Each record of a run is that of a member read at the start of a line. -/
theorem Run.exists_read (h : Run o s t rs) (hs : s.Behind before) :
    ∀ r ∈ rs, ∃ x rest s' m, t = x ++ rest ∧ LineStart.Behind s' (before ++ x) ∧
      Member.read? o s'.above? rest = some m ∧ r = s'.record m := by
  induction h generalizing before with
  | last s line hline hread => simp
  | lastMember s m line hline hread =>
      rw [List.forall_mem_singleton]
      exact ⟨[], _, s, m, rfl, by simpa using hs, hread, rfl⟩
  | skip s line below rs hline hread hrun ih =>
      intro r hr
      obtain ⟨x, rest, s', m, rfl, hs', h⟩ := ih (hs.advance line (line :: s.gap)) r hr
      exact ⟨line ++ '\n' :: x, rest, s', m, by simp, by simpa using hs', h⟩
  | take s m line below rs hline hread hrun ih =>
      rw [List.forall_mem_cons]
      refine ⟨⟨[], _, s, m, rfl, by simpa using hs, hread, rfl⟩, fun r hr => ?_⟩
      obtain ⟨x, rest, s', m', rfl, hs', h⟩ := ih (hs.advance (m.text ++ line) [line]) r hr
      exact ⟨m.text ++ line ++ '\n' :: x, rest, s', m', by simp, by simpa using hs', h⟩

end ApiListing
