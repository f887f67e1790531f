import ApiListing.Proofs.Collapsing
import ApiListing.Proofs.ListingFixpoint

namespace ApiListing

variable {r : Record} {m : Mode} {ls : List Text}

namespace Text

variable {l t : Text}

/-- All parts of a text between marks, also those that are empty. -/
def split (mark t : Text) : List Text :=
  if hm : mark = [] then [t]
  else
    match h : cut? mark t with
    | none => [t]
    | some (before, rest) =>
      have := length_lt_of_cut? hm h
      before :: split mark rest
termination_by t.length

theorem split_of_none {mark : Text} (h : cut? mark t = none) : split mark t = [t] := by
  rw [split]
  split
  · rfl
  · split <;> next hcut => simp [h] at hcut ⊢

theorem split_of_some {mark before rest : Text} (hmark : mark ≠ [])
    (h : cut? mark t = some (before, rest)) : split mark t = before :: split mark rest := by
  rw [split, dif_neg hmark]
  split <;> next hcut => simp_all

def blankLine : Text := ['\n', '\n']

/-- A line as a part of a text: it is not empty and holds no newline. -/
def IsFilled (l : Text) : Prop := l ≠ [] ∧ '\n' ∉ l

theorem cut?_blankLine_line (hl : '\n' ∉ l) (t : Text) :
    cut? blankLine (l ++ t) = (cut? blankLine t).map fun p => (l ++ p.1, p.2) := by
  induction l with
  | nil => simp
  | cons c l ih =>
      simp only [List.mem_cons, not_or] at hl
      have hno : stripPrefix? blankLine (c :: (l ++ t)) = none := if_neg hl.1
      rw [List.cons_append, cut?, hno]
      simp only [ih hl.2, Option.map_map]
      rfl

theorem cut?_blankLine_newline (ht : ∀ c ∈ t.head?, c ≠ '\n') :
    cut? blankLine ('\n' :: t) = (cut? blankLine t).map fun p => ('\n' :: p.1, p.2) := by
  have hno : stripPrefix? blankLine ('\n' :: t) = none := by
    cases t with
    | nil => rfl
    | cons c t => exact (if_pos rfl).trans (if_neg (Ne.symm (ht c rfl)))
  rw [cut?, hno]

theorem head?_join {l : Text} (hl : IsFilled l) (ls : List Text) (t : Text) :
    ∀ c ∈ (join ['\n'] (l :: ls) ++ t).head?, c ≠ '\n' := by
  intro c hc
  rw [join_cons, List.append_assoc, List.head?_append_of_ne_nil _ hl.1] at hc
  rintro rfl
  exact hl.2 (List.mem_of_head? hc)

theorem cut?_blankLine_join (hne : ls ≠ []) (hls : ∀ l ∈ ls, IsFilled l) (t : Text) :
    cut? blankLine (join ['\n'] ls ++ t) =
      (cut? blankLine t).map fun p => (join ['\n'] ls ++ p.1, p.2) := by
  induction ls with
  | nil => exact absurd rfl hne
  | cons l ls ih =>
      have hl := hls l (List.mem_cons_self ..)
      cases ls with
      | nil =>
          have hjoin : join ['\n'] [l] = l := List.intercalate_singleton
          rw [hjoin, cut?_blankLine_line hl.2]
      | cons k ls =>
          have hrest := ih (by simp) fun k hk => hls k (List.mem_cons_of_mem _ hk)
          have hhead := head?_join (hls k (by simp)) ls t
          rw [join_cons_of_ne_nil (by simp), List.append_assoc,
            cut?_blankLine_line hl.2, List.append_assoc, List.singleton_append,
            cut?_blankLine_newline hhead, hrest, Option.map_map, Option.map_map]
          simp [Function.comp_def]

/-- Sections of filled lines with a blank line between them are found again. -/
theorem split_join {sections : List (List Text)} (hne : sections ≠ [])
    (h : ∀ ls ∈ sections, ls ≠ [] ∧ ∀ l ∈ ls, IsFilled l) :
    split blankLine (join blankLine (sections.map (join ['\n']))) =
      sections.map (join ['\n']) := by
  induction sections with
  | nil => exact absurd rfl hne
  | cons ls sections ih =>
      obtain ⟨hls, hfilled⟩ := h ls (List.mem_cons_self ..)
      cases sections with
      | nil =>
          have hcut := cut?_blankLine_join hls hfilled []
          rw [List.append_nil] at hcut
          have hjoin : join blankLine [join ['\n'] ls] = join ['\n'] ls := List.intercalate_singleton
          rw [List.map_singleton, hjoin, split_of_none hcut]
      | cons ks sections =>
          have hrest := ih (by simp) fun ks hks => h ks (List.mem_cons_of_mem _ hks)
          have hblank (t : Text) : cut? blankLine (blankLine ++ t) = some ([], t) := by
            rw [blankLine, List.cons_append, cut?, ← List.cons_append, stripPrefix?_append_self]
          have hcut (t : Text) :
              cut? blankLine (join ['\n'] ls ++ (blankLine ++ t)) = some (join ['\n'] ls, t) := by
            rw [cut?_blankLine_join hls hfilled, hblank, Option.map_some, List.append_nil]
          rw [List.map_cons, join_cons_of_ne_nil (by simp), split_of_some (by decide) (hcut _), hrest]

-- A section that ends in a newline does not come back: the mark is taken one newline early.
example : split blankLine (join blankLine ["a\n".toList, "b".toList]) =
    ["a".toList, "\nb".toList] := by decide +kernel

theorem not_mem_lines (t : Text) : ∀ l ∈ lines t, '\n' ∉ l := by
  fun_induction lines t with
  | case1 => simp
  | case2 t ih => simpa using ih
  | case3 c t hc hlines ih => simpa using Ne.symm hc
  | case4 c t hc l ls hlines ih =>
      rw [hlines, List.forall_mem_cons] at ih
      rw [List.forall_mem_cons]
      exact ⟨by simpa [Ne.symm hc] using ih.1, ih.2⟩

end Text

open Text (IsFilled)

namespace Record

variable {line : Text} {d : Declaration}

theorem declaration_ne_nil (r : Record) : r.declaration ≠ [] := by
  have hword : r.visibility.word ++ [' '] ≠ [] := by simp
  have hstatic := List.append_ne_nil_of_left_ne_nil hword (if r.isStatic then "static ".toList else [])
  have hmodifiers := List.append_ne_nil_of_left_ne_nil hstatic (r.modifiers.map (· ++ [' '])).flatten
  exact List.append_ne_nil_of_left_ne_nil hmodifiers r.head

theorem not_mem_shownBlock (block : Text) : '\n' ∉ shownBlock block := by
  have hinside := Text.not_mem_collapse block
  rw [shownBlock]
  split
  · decide
  · simp [hinside]

theorem isFilled_constants (block : Text) : ∀ l ∈ constants block, IsFilled l := by
  intro l hl
  obtain ⟨hl, hne⟩ := List.mem_filter.1 hl
  obtain ⟨line, hline, rfl⟩ := List.mem_map.1 hl
  exact ⟨by simpa using hne, Summary.not_mem_trim (Text.not_mem_lines block line hline)⟩

theorem Shows.isFilled_body (h : r.Shows line d) {body : List Text} (hbody : r.body? m = some body) :
    ∀ l ∈ body, IsFilled l := by
  have hdeclaration : '\n' ∉ r.declaration := by
    have hmethodLine := h.not_mem_methodLine
    simp only [methodLine, List.mem_append, not_or] at hmethodLine
    exact hmethodLine.1
  cases m with
  | methods =>
      cases hbody
      rw [List.forall_mem_singleton]
      exact ⟨by simp, h.not_mem_methodLine⟩
  | attributes =>
      cases hbody
      rw [List.forall_mem_singleton]
      refine ⟨by simp [r.declaration_ne_nil], ?_⟩
      cases r.block? with
      | none => simpa using hdeclaration
      | some block => simpa [hdeclaration] using not_mem_shownBlock block
  | enums =>
      obtain ⟨block, -, rfl⟩ := Option.map_eq_some_iff.1 hbody
      exact isFilled_constants block

theorem entry?_eq_some_iff : r.entry? m = some ls ↔
    r.kind = m.kind ∧ ∃ body, r.body? m = some body ∧ r.summaryLines ++ body = ls ∧ ls ≠ [] := by
  rw [Record.entry?]
  by_cases hkind : r.kind = m.kind
  · rw [if_pos hkind, Option.bind_eq_some_iff]
    simp only [hkind, true_and]
    refine exists_congr fun body => and_congr_right fun _ => ?_
    split
    · next hnil => simp [hnil]
    · next hne =>
        rw [Option.some.injEq]
        exact ⟨fun h => ⟨h, h ▸ hne⟩, And.left⟩
  · simp [hkind]

theorem Shows.isFilled_entry (h : r.Shows line d) (hentry : r.entry? m = some ls) :
    ls ≠ [] ∧ ∀ l ∈ ls, IsFilled l := by
  obtain ⟨-, body, hbody, rfl, hne⟩ := entry?_eq_some_iff.1 hentry
  refine ⟨hne, fun l hl => ?_⟩
  rcases List.mem_append.1 hl with hl | hl
  · refine ⟨?_, (h.summaryLines l hl).1⟩
    obtain ⟨said, -, rfl⟩ := mem_summaryLines.1 hl
    simp
  · exact h.isFilled_body hbody l hl

/-- An enum without a block, or with neither a summary nor a line to show. -/
def IsBareEnum (r : Record) : Prop :=
  r.kind = .enum ∧ (r.block? = none ∨
    r.summary? = none ∧ ∀ block ∈ r.block?, ∀ l ∈ Text.lines block, Text.trim l = [])

theorem constants_eq_nil_iff (block : Text) :
    constants block = [] ↔ ∀ l ∈ Text.lines block, Text.trim l = [] := by
  simp [constants, List.filter_eq_nil_iff]

theorem exists_entry?_iff : (∃ ls, r.entry? m = some ls) ↔ r.kind = m.kind ∧ ¬ r.IsBareEnum := by
  simp only [entry?_eq_some_iff]
  constructor
  · rintro ⟨ls, hkind, body, hbody, rfl, hne⟩
    refine ⟨hkind, fun ⟨henum, hbare⟩ => ?_⟩
    obtain rfl : m = .enums := by
      cases m
      · cases hkind.symm.trans henum
      · cases hkind.symm.trans henum
      · rfl
    obtain ⟨block, hblock, rfl⟩ := Option.map_eq_some_iff.1 hbody
    rcases hbare with hnone | ⟨hsummary, hblank⟩
    · cases hblock.symm.trans hnone
    · have hconstants := (constants_eq_nil_iff block).2 (hblank block hblock)
      exact hne (by simp [summaryLines, hsummary, hconstants])
  · rintro ⟨hkind, hbare⟩
    cases m with
    | methods => exact ⟨_, hkind, _, rfl, rfl, by simp⟩
    | attributes => exact ⟨_, hkind, _, rfl, rfl, by simp⟩
    | enums =>
        simp only [IsBareEnum, hkind, Mode.kind, true_and, not_or] at hbare
        obtain ⟨hblock, hshown⟩ := hbare
        obtain ⟨block, hblock⟩ := Option.ne_none_iff_exists'.1 hblock
        refine ⟨_, hkind, constants block, congrArg (Option.map constants) hblock, rfl, ?_⟩
        intro hnil
        obtain ⟨hsummary, hconstants⟩ := List.append_eq_nil_iff.1 hnil
        refine hshown ⟨?_, fun b hb => ?_⟩
        · simpa [summaryLines] using hsummary
        · cases hblock.symm.trans hb
          exact (constants_eq_nil_iff block).1 hconstants

theorem existsUnique_mode (h : ¬ r.IsBareEnum) : ∃! m, ∃ ls, r.entry? m = some ls := by
  simp only [exists_entry?_iff, h, not_false_eq_true, and_true]
  cases hkind : r.kind with
  | method => exact ⟨.methods, rfl, fun m hm => by cases m <;> first | rfl | cases hm⟩
  | property => exact ⟨.attributes, rfl, fun m hm => by cases m <;> first | rfl | cases hm⟩
  | enum => exact ⟨.enums, rfl, fun m hm => by cases m <;> first | rfl | cases hm⟩

end Record

namespace Listing

theorem sections_eq (path : Text) (rs : List Record) (m : Mode) :
    sections path rs m =
      ([header path] :: rs.filterMap fun r => r.entry? m).map (Text.join ['\n']) := by
  have hheader : Text.join ['\n'] [header path] = header path := List.intercalate_singleton
  rw [List.map_cons, hheader]
  rfl

/-- Cut at its blank lines a listing gives back its header and its entries. Each record has one
entry in one listing, but for an enum with nothing to show. -/
theorem split_ofSource (o : ScanOptions) (source : Text) {path : Text} (hpath : '\n' ∉ path) :
    (∀ m, Text.split "\n\n".toList (ofSource o path source m) =
      ("// ".toList ++ label path) ::
        ((scan o source).filterMap fun r => r.entry? m).map (Text.join ['\n'])) ∧
    ∀ r ∈ scan o source,
      (r.IsBareEnum → ∀ m, r.entry? m = none) ∧
      (¬ r.IsBareEnum → ∃! m, ∃ ls, r.entry? m = some ls) := by
  refine ⟨fun m => ?_, fun r _ => ⟨fun hbare m => ?_, Record.existsUnique_mode⟩⟩
  · have hheader : ∀ l ∈ [header path], IsFilled l := by
      rw [List.forall_mem_singleton]
      exact ⟨by simp [header], not_mem_header hpath⟩
    have hsections : ∀ ls ∈ [header path] :: (scan o source).filterMap fun r => r.entry? m,
        ls ≠ [] ∧ ∀ l ∈ ls, IsFilled l := by
      rw [List.forall_mem_cons]
      refine ⟨⟨by simp, hheader⟩, fun ls hls => ?_⟩
      obtain ⟨r, hr, hentry⟩ := List.mem_filterMap.1 hls
      have hrun := run_scanFrom o .first source
      obtain ⟨line, d, hshows⟩ := hrun.shows (by simp [LineStart.first]) r hr
      exact hshows.isFilled_entry hentry
    have hbetween : "\n\n".toList = Text.blankLine := by decide
    rw [ofSource, render, hbetween, sections_eq, Text.split_join (by simp) hsections, ← sections_eq]
    rfl
  · by_contra hsome
    have hentry := Option.ne_none_iff_exists'.1 hsome
    exact (Record.exists_entry?_iff.1 hentry).2 hbare

theorem split_ofSource_path : '\n' ∉ "./Api.cs".toList ∧
    Text.split "\n\n".toList
        (ofSource {} "./Api.cs".toList
          "/// Adds up.\npublic int Sum(int a) => a;\npublic int Size;\npublic void Run() \x7b\n\n\x7d".toList
          .methods) =
      ["// Api.cs".toList, "// Adds up.\npublic int Sum(int a);".toList,
        "public void Run();".toList] := by
  refine ⟨by decide, ?_⟩
  rw [(split_ofSource {} _ (by decide)).1 .methods]
  decide +kernel

end Listing

end ApiListing
