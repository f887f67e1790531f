import ApiListing.Proofs.Runs

namespace ApiListing

variable {o : ScanOptions} {s : LineStart} {t before span after : Text} {rs : List Record}
  {m : Member} {r : Record}

namespace Record

/-- What a record tells of its source, when its span stands between `before` and `after`. -/
structure LiesBetween (r : Record) (before span after : Text) : Prop where
  begins : Text.BeginsLine before
  start : r.start = Text.byteSize before
  stop : r.stop = Text.byteSize (before ++ span)
  line : r.line = 1 + before.count '\n'
  /-- The span begins with the declaration, and what follows it is the lead of the block, the block
  in its braces and nothing behind the closing one. -/
  spans : ∃ d rest, Declaration.read? (Text.firstLine (span ++ after)) = some (d, rest) ∧
    r.head = d.head.shown ∧
    match r.block? with
    | some content => ∃ lead, span = d.text ++ lead ++ '{' :: content ++ ['}']
    | none => span = d.text

theorem LiesBetween.span_ne_nil (h : r.LiesBetween before span after) : span ≠ [] := by
  obtain ⟨d, rest, -, -, hspan⟩ := h.spans
  split at hspan
  · obtain ⟨lead, rfl⟩ := hspan
    simp
  · rw [hspan]
    exact Declaration.text_ne_nil d

theorem LiesBetween.getLast?_of_block {content : Text} (h : r.LiesBetween before span after)
    (hb : r.block? = some content) : span.getLast? = some '}' := by
  obtain ⟨d, rest, -, -, hspan⟩ := h.spans
  simp only [hb] at hspan
  obtain ⟨lead, rfl⟩ := hspan
  exact List.getLast?_concat

theorem LiesBetween.prefix_of_no_block (h : r.LiesBetween before span after)
    (hb : r.block? = none) : span <+: Text.firstLine (span ++ after) := by
  obtain ⟨d, rest, hd, -, hspan⟩ := h.spans
  simp only [hb] at hspan
  rw [Declaration.eq_append_of_read? hd, hspan]
  exact List.prefix_append _ _

end Record

theorem LineStart.liesBetween_record (hs : s.Behind before)
    (hread : Member.read? o s.above? (m.text ++ after) = some m) :
    (s.record m).LiesBetween before m.text after where
  begins := hs.begins
  start := hs.offset
  stop := by simp [LineStart.record, hs.offset]
  line := by simp only [LineStart.record, hs.line]; omega
  spans := by
    obtain ⟨d, rest, hd, -, -, hm⟩ := Member.read?_eq_some_iff.1 hread
    have hdecl : m.declaration = d := congrArg Member.declaration hm
    refine ⟨d, rest, hd, by rw [← hdecl]; rfl, ?_⟩
    rw [← hdecl]
    cases hb : m.braces? with
    | none => simp [LineStart.record, Member.text, hb]
    | some b =>
        simp only [LineStart.record, hb, Option.map_some]
        exact ⟨b.lead, by simp [Member.text, hb, Braces.text]⟩

theorem Run.spans (h : Run o s t rs) (hs : s.Behind before) :
    (∀ r ∈ rs, ∃ x span after, t = x ++ span ++ after ∧
      r.LiesBetween (before ++ x) span after) ∧
    (∀ r ∈ rs, Text.byteSize before ≤ r.start) ∧
    rs.Pairwise fun r next => r.stop < next.start := by
  induction h generalizing before with
  | last s line hline hread => simp
  | lastMember s m line hline hread =>
      have hr := s.liesBetween_record hs hread
      simp only [List.mem_singleton, forall_eq, List.pairwise_singleton, and_true]
      exact ⟨⟨[], m.text, line, by simp, by simpa using hr⟩, hr.start.ge⟩
  | skip s line below rs hline hread hrun ih =>
      obtain ⟨hlie, hstart, hpair⟩ := ih (hs.advance line (line :: s.gap))
      refine ⟨?_, ?_, hpair⟩
      · intro r hr
        obtain ⟨x, span, after, rfl, h⟩ := hlie r hr
        exact ⟨line ++ '\n' :: x, span, after, by simp, by simpa using h⟩
      · intro r hr
        have := hstart r hr
        simp only [Text.byteSize_append] at this
        omega
  | take s m line below rs hline hread hrun ih =>
      obtain ⟨hlie, hstart, hpair⟩ := ih (hs.advance (m.text ++ line) [line])
      have hm := s.liesBetween_record hs hread
      have hnext : ∀ r ∈ rs, (s.record m).stop < r.start := by
        intro r hr
        have h1 := hstart r hr
        have h2 : 0 < Text.byteSize ['\n'] := by decide
        simp only [hm.stop, Text.byteSize_append] at h1 ⊢
        omega
      refine ⟨?_, ?_, List.pairwise_cons.2 ⟨hnext, hpair⟩⟩
      · intro r hr
        rcases List.mem_cons.1 hr with rfl | hr
        · exact ⟨[], m.text, _, rfl, by simpa using hm⟩
        · obtain ⟨x, span, after, rfl, h⟩ := hlie r hr
          exact ⟨m.text ++ line ++ '\n' :: x, span, after, by simp, by simpa using h⟩
      · intro r hr
        rcases List.mem_cons.1 hr with rfl | hr
        · exact hm.start.ge
        · have := hstart r hr
          simp only [Text.byteSize_append] at this
          omega

namespace Text

theorem isValid_byteSize {source : Text} (h : before <+: source) :
    (⟨byteSize before⟩ : String.Pos.Raw).IsValid (String.ofList source) := by
  obtain ⟨after, rfl⟩ := h
  rw [String.Pos.Raw.isValid_iff_exists_append]
  refine ⟨String.ofList before, String.ofList after, String.ofList_append, ?_⟩
  ext
  exact (utf8ByteSize_ofList before).symm

end Text

/-- Each record has a span of its own, which begins where a line begins and ends on a boundary of
characters before the next one; its line is the number of that line, and its block, if it has one, is
the text from a brace behind its head up to the brace that ends the span. -/
theorem scan_spans (o : ScanOptions) (source : Text) :
    (scan o source).Pairwise (fun r next => r.stop < next.start) ∧
    ∀ r ∈ scan o source,
      r.start < r.stop ∧ r.stop ≤ Text.byteSize source ∧
      (⟨r.start⟩ : String.Pos.Raw).IsValid (String.ofList source) ∧
      (⟨r.stop⟩ : String.Pos.Raw).IsValid (String.ofList source) ∧
      ∃ before span after, source = before ++ span ++ after ∧ r.LiesBetween before span after ∧
        (r.block? = none → span <+: Text.firstLine (span ++ after)) ∧
        (r.block?.isSome → span.getLast? = some '}') := by
  obtain ⟨hlie, -, hpair⟩ := (run_scanFrom o .first source).spans LineStart.behind_first
  refine ⟨hpair, ?_⟩
  intro r hr
  obtain ⟨before, span, after, rfl, h⟩ := hlie r hr
  rw [List.nil_append] at h
  have hpos := Text.byteSize_pos h.span_ne_nil
  refine ⟨?_, ?_, ?_, ?_, before, span, after, rfl, h, h.prefix_of_no_block, ?_⟩
  · rw [h.start, h.stop, Text.byteSize_append]
    omega
  · rw [h.stop]
    simp only [Text.byteSize_append]
    omega
  · rw [h.start]
    exact Text.isValid_byteSize (by rw [List.append_assoc]; exact List.prefix_append _ _)
  · rw [h.stop]
    exact Text.isValid_byteSize (List.prefix_append _ _)
  · intro hb
    obtain ⟨content, hb⟩ := Option.isSome_iff_exists.1 hb
    exact h.getLast?_of_block hb

end ApiListing
