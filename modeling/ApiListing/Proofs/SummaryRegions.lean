import ApiListing.Proofs.ListingFixpoint
import ApiListing.Proofs.Marks

namespace ApiListing

variable {t : Text} {ts ls : List Text}

namespace Text

/-- The first line of a text that is not blank, without the spaces around it. -/
def firstFilled (t : Text) : Option Text := ((lines t).map trim).find? fun l => l ≠ []

theorem firstFilled_of_not_mem (ht : '\n' ∉ t) :
    firstFilled t = if trim t = [] then none else some (trim t) := by
  by_cases hne : t = []
  · subst hne
    rfl
  · rw [firstFilled, lines_of_not_mem ht hne, List.map_singleton]
    split <;> next h => simp [h]

theorem firstFilled_line (ht : '\n' ∉ t) (below : Text) :
    firstFilled (t ++ '\n' :: below) = if trim t = [] then firstFilled below else some (trim t) := by
  rw [firstFilled, lines_line ht, List.map_cons]
  split <;> next h => simp [firstFilled, h]

theorem infix_of_mem_lines {l : Text} (h : l ∈ lines t) : l <:+: t := by
  induction hn : t.length using Nat.strong_induction_on generalizing t with
  | _ n ih =>
      rcases line_cases t with ht | ⟨line, below, hline, rfl⟩
      · by_cases hne : t = []
        · rw [hne] at h
          cases h
        · rw [lines_of_not_mem ht hne, List.mem_singleton] at h
          exact h ▸ List.infix_rfl
      · rw [lines_line hline] at h
        rcases List.mem_cons.1 h with rfl | h
        · exact (List.prefix_append _ _).isInfix
        · have hsuffix : below <:+ line ++ '\n' :: below := ⟨line ++ ['\n'], by simp⟩
          exact (ih _ (by simp [← hn]; omega) h rfl).trans hsuffix.isInfix

theorem firstFilled_infix {answer : Text} (h : firstFilled t = some answer) : answer <:+: t := by
  obtain ⟨l, hl, rfl⟩ := List.mem_map.1 (List.mem_of_find?_eq_some h)
  exact (infix_trim l).trans (infix_of_mem_lines hl)

end Text

namespace Summary

open Text (firstFilled upTo StandsBefore)

def openings (n : Nat) : Text := (List.replicate n openingTag).flatten

theorem exists_openings (t : Text) :
    (∃ n, t = openings n ++ stripOpening t) ∧ ¬ openingTag <+: stripOpening t := by
  fun_induction stripOpening t with
  | case1 t h => exact ⟨⟨0, rfl⟩, Text.stripPrefix?_eq_none_iff.1 h⟩
  | case2 t rest h _ ih =>
      obtain ⟨⟨n, hn⟩, hrest⟩ := ih
      refine ⟨⟨n + 1, ?_⟩, hrest⟩
      rw [openings, List.replicate_succ, List.flatten_cons, List.append_assoc, ← openings, ← hn]
      exact Text.eq_append_of_stripPrefix? h

theorem firstSaid_of_closed {before rest : Text} (ht : '\n' ∉ t)
    (h : Text.cut? closingTag t = some (before, rest)) (ts : List Text) :
    firstSaid (t :: ts) = firstFilled before := by
  rw [Text.eq_append_of_cut? h, List.append_assoc, List.mem_append, not_or] at ht
  rw [Text.firstFilled_of_not_mem ht.1, firstSaid, h]

/-- Read line by line, a summary is the first filled line of the joined text up to the closing tag. -/
theorem firstSaid_eq (h : ∀ u ∈ t :: ts, '\n' ∉ u) :
    firstSaid (t :: ts) = firstFilled (upTo closingTag (Text.join ['\n'] (t :: ts))) := by
  induction ts generalizing t with
  | nil =>
      have ht := h t (List.mem_cons_self ..)
      have hjoin : Text.join ['\n'] [t] = t := List.intercalate_singleton
      rw [hjoin]
      cases hcut : Text.cut? closingTag t with
      | some p => rw [firstSaid_of_closed ht hcut, Text.upTo_of_cut? hcut]
      | none =>
          rw [Text.upTo_of_not_infix (Text.cut?_eq_none_iff.1 hcut),
            Text.firstFilled_of_not_mem ht, firstSaid, hcut]
          rfl
  | cons u ts ih =>
      rw [List.forall_mem_cons] at h
      rw [Text.join_cons_of_ne_nil (by simp), List.singleton_append]
      cases hcut : Text.cut? closingTag t with
      | some p =>
          rw [firstSaid_of_closed h.1 hcut, Text.upTo_of_cut? (Text.cut?_append hcut _)]
      | none =>
          rw [Text.upTo_line (by decide) (by decide) (Text.cut?_eq_none_iff.1 hcut),
            Text.firstFilled_line h.1, ← ih h.2, firstSaid, hcut]

/-- What the texts of a doc comment hold between the opening tags of the first text that begins with
one and the first closing tag behind them, or the end of the comment. -/
inductive IsRegion : List Text → Text → Prop
  | of (above : List Text) (n : Nat) (t : Text) (below : List Text) (region : Text)
      (habove : ∀ u ∈ above, ¬ openingTag <+: u) (ht : ¬ openingTag <+: t)
      (hregion : StandsBefore closingTag region (Text.join ['\n'] (t :: below))) :
      IsRegion (above ++ (openings (n + 1) ++ t) :: below) region

theorem IsRegion.not_closed {region : Text} (h : IsRegion ts region) :
    ¬ closingTag <:+: region := by
  cases h with
  | of above n t below region habove ht hregion => exact hregion.not_infix (by decide)

theorem exists_isRegion (hls : ∀ l ∈ ls, '\n' ∉ l) (h : ∃ u ∈ ls.map said, openingTag <+: u) :
    ∃ region, IsRegion (ls.map said) region ∧ condense ls = firstFilled region := by
  obtain ⟨u, hu, htag⟩ := h
  have hne : (ls.map said).dropWhile (fun t => !openingTag.isPrefixOf t) ≠ [] := by
    rw [Ne, List.dropWhile_eq_nil_iff]
    exact fun hall => by simpa [List.isPrefixOf_iff_prefix.2 htag] using hall u hu
  obtain ⟨first, below, hdrop⟩ := List.exists_cons_of_ne_nil hne
  have hsplit : (ls.map said).takeWhile (fun t => !openingTag.isPrefixOf t) ++ first :: below =
      ls.map said := by
    rw [← hdrop]
    exact List.takeWhile_append_dropWhile
  have habove : ∀ t ∈ (ls.map said).takeWhile (fun t => !openingTag.isPrefixOf t),
      ¬ openingTag <+: t := by
    intro t ht htag
    simpa [List.isPrefixOf_iff_prefix.2 htag] using List.mem_takeWhile_imp ht
  have hfirst : openingTag <+: first := by
    have := List.head?_dropWhile_not (fun t => !openingTag.isPrefixOf t) (ls.map said)
    rw [hdrop] at this
    simpa [List.isPrefixOf_iff_prefix] using this
  have hlines : ∀ t ∈ stripOpening first :: below, '\n' ∉ t := by
    have hsaid : ∀ t ∈ first :: below, '\n' ∉ t := by
      intro t ht
      rw [← hdrop] at ht
      obtain ⟨l, hl, rfl⟩ := List.mem_map.1 ((List.dropWhile_sublist _).subset ht)
      exact fun hmem => hls l hl ((infix_said l).subset hmem)
    rw [List.forall_mem_cons] at hsaid ⊢
    exact ⟨fun hmem => hsaid.1 ((stripOpening_suffix first).subset hmem), hsaid.2⟩
  obtain ⟨⟨n, hn⟩, hrest⟩ := exists_openings first
  cases n with
  | zero =>
      rw [openings, List.replicate_zero, List.flatten_nil, List.nil_append] at hn
      exact absurd (hn ▸ hfirst) hrest
  | succ n =>
      have hregion := IsRegion.of _ n _ below _ habove hrest
        (Text.standsBefore_upTo closingTag (Text.join ['\n'] (stripOpening first :: below)))
      rw [← hn, hsplit] at hregion
      refine ⟨_, hregion, ?_⟩
      rw [condense, hdrop]
      exact firstSaid_eq hlines

theorem condense_of_untagged (h : ∀ u ∈ ls.map said, ¬ openingTag <+: u) :
    condense ls = (ls.map said).find? fun u => u ≠ [] ∧ u.head? ≠ some '<' := by
  have hdrop : (ls.map said).dropWhile (fun t => !openingTag.isPrefixOf t) = [] := by
    rw [List.dropWhile_eq_nil_iff]
    intro u hu
    rw [Bool.not_eq_true', Bool.eq_false_iff, Ne, List.isPrefixOf_iff_prefix]
    exact h u hu
  rw [condense, hdrop]
  refine congrArg (List.find? · _) (funext fun u => ?_)
  rw [Bool.eq_iff_iff]
  simp [List.isEmpty_eq_false_iff]

/-- A doc comment with an opening tag says the first filled line of the region behind it, any other
one its first text that begins with no tag. What it says stands in one of its lines. -/
theorem condense_region (hls : ∀ l ∈ ls, '\n' ∉ l) :
    ((∃ u ∈ ls.map said, openingTag <+: u) →
      ∃ region, IsRegion (ls.map said) region ∧ condense ls = firstFilled region ∧
        ∀ answer ∈ condense ls, ¬ closingTag <:+: answer) ∧
    ((∀ u ∈ ls.map said, ¬ openingTag <+: u) →
      condense ls = (ls.map said).find? fun u => u ≠ [] ∧ u.head? ≠ some '<') ∧
    ∀ answer ∈ condense ls,
      answer ≠ [] ∧ Text.trim answer = answer ∧ ∃ l ∈ ls, answer <:+: l := by
  refine ⟨fun htagged => ?_, condense_of_untagged, fun answer h => exists_infix_of_condense h⟩
  obtain ⟨region, hregion, hcondense⟩ := exists_isRegion hls htagged
  refine ⟨region, hregion, hcondense, fun answer hanswer hclosed => ?_⟩
  rw [hcondense] at hanswer
  exact hregion.not_closed (hclosed.trans (Text.firstFilled_infix hanswer))

def tornComment : List Text :=
  ["/// <remarks>", "  /// <summary><summary>", "///", "/// Adds up. </summary> Not this.",
    "/// </summary>"].map String.toList

theorem condense_region_tornComment :
    (∀ l ∈ tornComment, '\n' ∉ l) ∧ condense tornComment = some "Adds up.".toList ∧
      (∃ region, IsRegion (tornComment.map said) region ∧
        firstFilled region = some "Adds up.".toList) ∧
      ∃ l ∈ tornComment, "Adds up.".toList <:+: l := by
  have hlines : ∀ l ∈ tornComment, '\n' ∉ l := by decide
  have hanswer : condense tornComment = some "Adds up.".toList := by decide +kernel
  obtain ⟨htagged, -, hstands⟩ := condense_region hlines
  obtain ⟨region, hregion, hcondense, -⟩ := htagged (by decide)
  obtain ⟨-, -, hline⟩ := hstands _ hanswer
  exact ⟨hlines, hanswer, ⟨region, hregion, hcondense.symm.trans hanswer⟩, hline⟩

end Summary

end ApiListing
