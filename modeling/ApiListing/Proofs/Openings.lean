import ApiListing.Braces.Basic
import ApiListing.Proofs.Readings
import ApiListing.Proofs.Spaces

namespace ApiListing

/-- The brace that opens a block of several lines: what stands between a declaration and the brace,
and the indentation of the line that it stands on. -/
structure Opening where
  lead : Text
  indent : Text
  deriving DecidableEq, Repr

namespace Braces

def openingBelow? (line t : Text) : Option Opening :=
  (Text.afterLine t).bind fun rest =>
    let next := Text.firstLine rest
    let indent := next.takeWhile Text.isSpace
    if Text.trim next = ['{'] then some ⟨line ++ '\n' :: indent, indent⟩ else none

def opening? (indent t : Text) : Option Opening :=
  let line := Text.firstLine t
  let clause := clause line
  let rest := line.drop clause.length
  let trimmed := Text.trimEnd rest
  if (onLine? rest).isSome then none
  else if trimmed.getLast? = some '{' then some ⟨clause ++ trimmed.dropLast, indent⟩
  else if Text.trimStart trimmed = [] then openingBelow? line t
  else none

/-- How an opening brace stands in a text: it ends its line, and a brace before it is one of its own
line, which is then that of the declaration. -/
structure Opens (o : Opening) (t behind : Text) : Prop where
  eq : t = o.lead ++ '{' :: behind
  ends : ∀ c ∈ Text.firstLine behind, Text.isSpace c = true
  first : '{' ∈ o.lead → '\n' ∉ o.lead

/-- A block that opens and closes on one line: from the first brace on to the last one of the
line. -/
structure OnOneLine (b : Braces) (t behind : Text) : Prop where
  eq : t = b.text ++ behind
  line : '\n' ∉ b.content
  first : '{' ∉ b.lead
  last : '}' ∉ Text.firstLine behind

/-- What is found behind a declaration, in a text `t`: a brace that opens a block of several lines, a
block of one line, or neither. Only in the first case does the boundary have a say. -/
inductive Found (t : Text) : Option Opening → (Boundary → Option Braces) → Prop
  | opening {o behind} (h : Opens o t behind) :
      Found t (some o) fun boundary => open? boundary o.indent o.lead t
  | oneLine {b behind} (h : OnOneLine b t behind) : Found t none fun _ => some b
  | neither : Found t none fun _ => none

variable {t indent line rest : Text} {boundary : Boundary} {b : Braces} {o : Opening}

theorem exists_of_onLine? (h : onLine? line = some b) :
    ∃ rest, line = b.text ++ rest ∧ (∀ c ∈ b.lead, Text.isBlank c = true) ∧ '}' ∉ rest := by
  rw [onLine?] at h
  split at h
  · next blanks u hu =>
      split at h
      · simp at h
      · next c content hd =>
          cases h
          have hc : c = '}' := by
            have := List.head?_dropWhile_not (· ≠ '}') u.reverse
            rw [hd] at this
            simpa using this
          have hs := List.takeWhile_append_dropWhile (p := (· ≠ '}')) (l := u.reverse)
          rw [hd, hc] at hs
          have hline := eq_append_of_spanBlanks line
          rw [hu, List.reverse_eq_iff.1 hs.symm] at hline
          refine ⟨(u.reverse.takeWhile (· ≠ '}')).reverse, ?_, fun c hblank => ?_, fun hmem => ?_⟩
          · simpa [Braces.text] using hline
          · have hblanks : line.takeWhile Text.isBlank = blanks := congrArg Prod.fst hu
            exact List.mem_takeWhile_imp (hblanks ▸ hblank)
          · simpa using List.mem_takeWhile_imp (List.mem_reverse.1 hmem)
  · simp at h

theorem clause_append_drop (line : Text) :
    clause line ++ line.drop (clause line).length = line := by
  refine (List.prefix_iff_eq_append.1 ?_)
  unfold clause
  simp only
  split
  · exact List.takeWhile_prefix _
  · exact List.nil_prefix

theorem open_not_mem_clause (line : Text) : '{' ∉ clause line := by
  unfold clause
  simp only
  split
  · intro hmem
    simpa using List.mem_takeWhile_imp hmem
  · simp

theorem open_not_mem_of_blank (h : Text.trimStart (Text.trimEnd rest) = []) : '{' ∉ rest := by
  obtain ⟨spaces, hs, hspaces⟩ := Text.trimEnd_append rest
  have htrimmed : ∀ c ∈ Text.trimEnd rest, Text.isSpace c = true := List.dropWhile_eq_nil_iff.1 h
  intro hmem
  rw [hs, List.mem_append] at hmem
  exact absurd (hmem.elim (htrimmed _) (hspaces _)) (by decide)

theorem opens_of_spaces {lead spaces below : Text} (ht : t = lead ++ '{' :: (spaces ++ below))
    (hspaces : ∀ c ∈ spaces, Text.isSpace c = true) (hline : '\n' ∉ spaces)
    (hbelow : Text.firstLine below = []) (hfirst : '{' ∈ lead → '\n' ∉ lead) :
    Opens ⟨lead, indent⟩ t (spaces ++ below) where
  eq := ht
  ends := by rwa [Text.firstLine_append hline, hbelow, List.append_nil]
  first := hfirst

theorem onOneLine_of_onLine? {lead below : Text} (h : onLine? line = some b)
    (ht : t = lead ++ (line ++ below)) (hline : '\n' ∉ line) (hlead : '{' ∉ lead)
    (hbelow : Text.firstLine below = []) :
    ∃ behind, OnOneLine { b with lead := lead ++ b.lead } t behind := by
  obtain ⟨behind, rfl, hblank, hlast⟩ := exists_of_onLine? h
  have hopen : '{' ∉ b.lead := fun hmem => absurd (hblank _ hmem) (by decide)
  simp only [Braces.text, List.mem_append, List.mem_cons, not_or] at hline
  obtain ⟨⟨⟨-, -, hcontent⟩, -⟩, hbehind⟩ := hline
  refine ⟨behind ++ below, ?_, hcontent, ?_, ?_⟩
  · simp [ht, Braces.text]
  · simp [hlead, hopen]
  · rwa [Text.firstLine_append hbehind, hbelow, List.append_nil]

theorem found_below? (hline : '{' ∉ Text.firstLine t) :
    Found t (openingBelow? (Text.firstLine t) t) (below? · (Text.firstLine t) t) := by
  unfold openingBelow? below?
  cases hafter : Text.afterLine t with
  | none => exact .neither
  | some rest =>
      have ht := Text.eq_of_afterLine hafter
      have hnext := Text.not_mem_firstLine rest
      have hrest := Text.firstLine_append_dropWhile rest
      have hbelow := Text.firstLine_dropWhile rest
      have hlead : '{' ∉ Text.firstLine t ++ ['\n'] := by simp [hline]
      simp only [Option.bind_some]
      by_cases htrim : Text.trim (Text.firstLine rest) = ['{']
      · obtain ⟨spaces, hspaced, hspaces⟩ := Text.trim_append (Text.firstLine rest)
        rw [htrim] at hspaced
        simp only [htrim, if_true]
        refine .opening (opens_of_spaces ?_ hspaces ?_ hbelow fun hmem => ?_)
        · rw [hspaced] at hrest
          exact ht.trans (by simpa using hrest.symm)
        · rw [hspaced] at hnext
          simp only [List.mem_append, not_or] at hnext
          exact hnext.2
        · rw [← List.singleton_append, ← List.append_assoc, List.mem_append] at hmem
          exact absurd (List.mem_takeWhile_imp (hmem.resolve_left hlead)) (by decide)
      · simp only [htrim, if_false]
        split_ifs
        · cases hon : onLine? (Text.firstLine rest) with
          | none => exact .neither
          | some b =>
              have ht' : t = Text.firstLine t ++ ['\n'] ++
                  (Text.firstLine rest ++ rest.dropWhile (· ≠ '\n')) := by
                rw [hrest]
                simpa using ht
              obtain ⟨behind, h⟩ := onOneLine_of_onLine? hon ht' hnext hlead hbelow
              simpa using Found.oneLine h
        · exact .neither

theorem found_after? (indent t : Text) : Found t (opening? indent t) (after? · indent t) := by
  have hline := clause_append_drop (Text.firstLine t)
  have hnot := Text.not_mem_firstLine t
  have ht := Text.firstLine_append_dropWhile t
  have hbelow := Text.firstLine_dropWhile t
  have hclause := open_not_mem_clause (Text.firstLine t)
  rw [← hline, List.mem_append, not_or] at hnot
  unfold opening? after?
  simp only
  generalize (Text.firstLine t).drop (clause (Text.firstLine t)).length = rest at hline hnot ⊢
  cases hon : onLine? rest with
  | some b =>
      rw [← hline, List.append_assoc] at ht
      obtain ⟨behind, h⟩ := onOneLine_of_onLine? hon ht.symm hnot.2 hclause hbelow
      exact .oneLine h
  | none =>
      simp only [Option.isSome_none, Bool.false_eq_true, if_false]
      split_ifs with hlast hblank
      · obtain ⟨spaces, hrest, hspaces⟩ := Text.trimEnd_append rest
        rw [← List.dropLast_append_getLast? _ hlast] at hrest
        rw [hrest] at hline hnot
        simp only [List.mem_append, not_or] at hnot
        refine .opening (opens_of_spaces ?_ hspaces hnot.2.2 hbelow fun _ => ?_)
        · rw [← hline] at ht
          simpa using ht.symm
        · simp [hnot]
      · refine found_below? ?_
        rw [← hline, List.mem_append, not_or]
        exact ⟨hclause, open_not_mem_of_blank hblank⟩
      · exact .neither

theorem Found.of_some {after : Boundary → Option Braces} (h : Found t (some o) after) :
    (∃ behind, Opens o t behind) ∧
      ∀ boundary, after boundary = open? boundary o.indent o.lead t := by
  cases h with
  | opening h => exact ⟨⟨_, h⟩, fun _ => rfl⟩

theorem Found.of_none {after : Boundary → Option Braces} (h : Found t none after) :
    (∀ boundary boundary', after boundary = after boundary') ∧
      ∀ boundary b, after boundary = some b → ∃ behind, OnOneLine b t behind := by
  cases h with
  | oneLine h =>
      refine ⟨fun _ _ => rfl, fun _ b hb => ?_⟩
      cases hb
      exact ⟨_, h⟩
  | neither => exact ⟨fun _ _ => rfl, fun _ b hb => by cases hb⟩

theorem Opens.open? {behind : Text} (h : Opens o t behind) (boundary : Boundary) :
    open? boundary o.indent o.lead t =
      (boundary.close o.indent behind).map fun content => ⟨o.lead, content⟩ := by
  have hdrop : t.drop (o.lead.length + 1) = behind := by simp [h.eq]
  rw [Braces.open?, hdrop]

theorem opens_of_opening? (h : opening? indent t = some o) : ∃ behind, Opens o t behind :=
  (Found.of_some (h ▸ found_after? indent t)).1

/-- The block behind an opening brace is what the boundary makes of the text behind the brace. -/
theorem after?_of_opening? (h : opening? indent t = some o) (boundary : Boundary) :
    after? boundary indent t = open? boundary o.indent o.lead t :=
  (Found.of_some (h ▸ found_after? indent t)).2 boundary

theorem after?_of_no_opening (h : opening? indent t = none) (boundary boundary' : Boundary) :
    after? boundary indent t = after? boundary' indent t :=
  (Found.of_none (h ▸ found_after? indent t)).1 boundary boundary'

theorem onOneLine_of_after? (h : opening? indent t = none)
    (hb : after? boundary indent t = some b) : ∃ behind, OnOneLine b t behind :=
  (Found.of_none (h ▸ found_after? indent t)).2 boundary b hb

end Braces

end ApiListing
