import ApiListing.Proofs.Replacements
import ApiListing.Proofs.Sections

namespace ApiListing

namespace Record

variable {r : Record} {line block : Text} {d : Declaration}

theorem shownBlock_of_no_words (h : Text.words block = []) :
    shownBlock block = " \x7b \x7d".toList := by
  rw [shownBlock, if_pos (Text.collapse_eq_nil_iff.2 h)]

theorem shownBlock_of_words (h : Text.words block ≠ []) :
    shownBlock block =
      " \x7b ".toList ++ Text.join [' '] (Text.words block) ++ " \x7d".toList := by
  rw [shownBlock, if_neg (mt Text.collapse_eq_nil_iff.1 h), Text.collapse_eq_join]

/-- What a listing shows of a property besides its summary. -/
def propertyLine (r : Record) : Text := r.declaration ++ (r.block?.map shownBlock).getD []

theorem entry?_attributes (hkind : r.kind = .property) :
    r.entry? .attributes = some (r.summaryLines ++ [r.propertyLine]) :=
  entry?_eq_some_iff.2 ⟨hkind, _, rfl, rfl, by simp⟩

theorem Shows.lines_propertyLine (h : r.Shows line d) :
    Text.lines r.propertyLine = [r.propertyLine] := by
  have hbody : r.body? .attributes = some [r.propertyLine] := rfl
  obtain ⟨hne, hline⟩ := h.isFilled_body hbody r.propertyLine (List.mem_singleton_self _)
  exact Text.lines_of_not_mem hline hne

end Record

/-- A text whose runs of white space are replaced by one space each and whose ends are trimmed is
its words, joined by single spaces. So a listing shows each property on one line, a block without
words as a pair of braces and any other one as its words between them. -/
theorem collapse_joins_words :
    (∀ t : Text,
      Text.collapse t = Text.trim (Pattern.spaces.replaceAll [' '] [] t) ∧
      Text.Parted t (Text.words t) ∧ Text.collapse t = Text.join [' '] (Text.words t) ∧
      Text.collapse (Text.collapse t) = Text.collapse t ∧ '\n' ∉ Text.collapse t ∧
      (Text.collapse t).IsChain
        (fun c d => Text.isSpace c = true → Text.isSpace d = false) ∧
      ∀ u, Text.collapse t = Text.collapse u ↔ Text.words t = Text.words u) ∧
    ∀ (o : ScanOptions) (source : Text), ∀ r ∈ scan o source, r.kind = .property →
      ∃ shown, r.entry? .attributes = some (r.summaryLines ++ [shown]) ∧
        Text.lines shown = [shown] ∧
        (r.block? = none → shown = r.declaration) ∧
        ∀ block, r.block? = some block →
          (Text.words block = [] → shown = r.declaration ++ " \x7b \x7d".toList) ∧
          (Text.words block ≠ [] → shown = r.declaration ++
            (" \x7b ".toList ++ Text.join [' '] (Text.words block) ++ " \x7d".toList)) := by
  constructor
  · intro t
    refine ⟨?_, Text.parted_words t, Text.collapse_eq_join t, Text.collapse_collapse t,
      Text.not_mem_collapse t, Text.isChain_collapse t, fun u => Text.collapse_eq_iff⟩
    rw [Pattern.replaceAll_spaces]
    rfl
  · intro o source r hr hkind
    have hrun := run_scanFrom o .first source
    obtain ⟨line, d, hshows⟩ := hrun.shows (by simp [LineStart.first]) r hr
    refine ⟨r.propertyLine, Record.entry?_attributes hkind, hshows.lines_propertyLine, ?_, ?_⟩
    · intro hblock
      simp [Record.propertyLine, hblock]
    · intro block hblock
      have hshown : r.propertyLine = r.declaration ++ Record.shownBlock block := by
        rw [Record.propertyLine, hblock]
        rfl
      rw [hshown]
      exact ⟨fun h => by rw [Record.shownBlock_of_no_words h],
        fun h => by rw [Record.shownBlock_of_words h]⟩

def spacedAccessors : Text := "\r\n\tget;\u00a0\u2003\r\n\n  private  set;\r\n".toList

def spacedProperties : Text :=
  "/// Counts.\npublic int Count\r\n\x7b".toList ++ spacedAccessors ++
    "\x7d\nprotected string Name \x7b \t\u3000\x7d\n".toList

theorem collapse_joins_words_spacedProperties :
    ∃ counted ∈ scan {} spacedProperties, ∃ named ∈ scan {} spacedProperties,
      counted.kind = .property ∧ counted.block? = some spacedAccessors ∧
      counted.entry? .attributes =
        some ["// Counts.".toList, "public int Count \x7b get; private set; \x7d".toList] ∧
      named.kind = .property ∧ named.block? = some " \t\u3000".toList ∧
      named.entry? .attributes = some ["protected string Name \x7b \x7d".toList] := by
  have hscan : (scan {} spacedProperties).map
      (fun r => (r.kind, r.declaration, r.summaryLines, r.block?)) =
      [(.property, "public int Count".toList, ["// Counts.".toList], some spacedAccessors),
        (.property, "protected string Name".toList, [], some " \t\u3000".toList)] := by
    decide +kernel
  obtain ⟨counted, rest, hrecords, hcounted, hrest⟩ := List.map_eq_cons_iff.1 hscan
  obtain ⟨named, rest, rfl, hnamed, -⟩ := List.map_eq_cons_iff.1 hrest
  simp only [Prod.mk.injEq] at hcounted hnamed
  have hcountedMem : counted ∈ scan {} spacedProperties := by
    rw [hrecords]
    exact List.mem_cons_self ..
  have hnamedMem : named ∈ scan {} spacedProperties := by
    rw [hrecords]
    exact List.mem_cons_of_mem _ (List.mem_cons_self ..)
  have hentries := collapse_joins_words.2 {} spacedProperties
  refine ⟨counted, hcountedMem, named, hnamedMem, hcounted.1, hcounted.2.2.2, ?_, hnamed.1,
    hnamed.2.2.2, ?_⟩
  · obtain ⟨shown, hentry, -, -, hblock⟩ := hentries counted hcountedMem hcounted.1
    have hwords : Text.words spacedAccessors =
        ["get;".toList, "private".toList, "set;".toList] := by decide +kernel
    rw [hentry, (hblock _ hcounted.2.2.2).2 (by simp [hwords]), hwords, hcounted.2.1,
      hcounted.2.2.1]
    decide
  · obtain ⟨shown, hentry, -, -, hblock⟩ := hentries named hnamedMem hnamed.1
    have hwords : Text.words " \t\u3000".toList = [] := by decide +kernel
    rw [hentry, (hblock _ hnamed.2.2.2).1 hwords, hnamed.2.1, hnamed.2.2.1]
    decide

end ApiListing
