import ApiListing.Proofs.Runs

namespace ApiListing

variable {o : ScanOptions} {s : LineStart} {t : Text} {r : Record} {rs : List Record}

namespace Summary

theorem not_mem_trim {c : Char} (h : c ∉ t) : c ∉ Text.trim t :=
  fun hc => h ((Text.infix_trim t).subset hc)

theorem infix_said (line : Text) : said line <:+: line := by
  refine (Text.infix_trim _).trans ?_
  cases h : Text.stripPrefix? marker (Text.trim line) with
  | none => exact Text.infix_trim line
  | some rest =>
      have hsuffix : rest <:+ Text.trim line := ⟨marker, (Text.eq_append_of_stripPrefix? h).symm⟩
      exact hsuffix.isInfix.trans (Text.infix_trim line)

theorem stripOpening_suffix (t : Text) : stripOpening t <:+ t := by
  fun_induction stripOpening t with
  | case1 t h => exact List.suffix_rfl
  | case2 t rest h _ ih =>
      rw [Text.eq_append_of_stripPrefix? h]
      exact ih.trans (List.suffix_append _ _)

theorem exists_infix_of_firstSaid {ts : List Text} {answer : Text}
    (h : firstSaid ts = some answer) :
    answer ≠ [] ∧ Text.trim answer = answer ∧ ∃ t ∈ ts, answer <:+: t := by
  induction ts with
  | nil => cases h
  | cons t ts ih =>
      rw [firstSaid] at h
      split at h
      · next before rest hcut =>
          simp only at h
          split at h
          · cases h
          · next hne =>
              cases h
              have hprefix : before <+: t :=
                ⟨_, (List.append_assoc ..).symm.trans (Text.eq_append_of_cut? hcut).symm⟩
              exact ⟨hne, Text.trim_trim before, t, List.mem_cons_self ..,
                (Text.infix_trim before).trans hprefix.isInfix⟩
      · simp only at h
        split at h
        · obtain ⟨hne, htrim, u, hu, hwithin⟩ := ih h
          exact ⟨hne, htrim, u, List.mem_cons_of_mem _ hu, hwithin⟩
        · next hne =>
            cases h
            exact ⟨hne, Text.trim_trim t, t, List.mem_cons_self .., Text.infix_trim t⟩

/-- A summary stands in one of the doc lines, without spaces around it. -/
theorem exists_infix_of_condense {ls : List Text} {answer : Text}
    (h : condense ls = some answer) :
    answer ≠ [] ∧ Text.trim answer = answer ∧ ∃ l ∈ ls, answer <:+: l := by
  rw [condense] at h
  split at h
  · next t ts hd =>
      have hsub : ∀ u ∈ t :: ts, ∃ l ∈ ls, said l = u := by
        intro u hu
        rw [← hd] at hu
        exact List.mem_map.1 ((List.dropWhile_sublist _).subset hu)
      obtain ⟨hne, htrim, u, hu, hwithin⟩ := exists_infix_of_firstSaid h
      refine ⟨hne, htrim, ?_⟩
      rw [List.forall_mem_cons] at hsub
      rcases List.mem_cons.1 hu with rfl | hu
      · obtain ⟨l, hl, rfl⟩ := hsub.1
        exact ⟨l, hl, hwithin.trans ((stripOpening_suffix _).isInfix.trans (infix_said l))⟩
      · obtain ⟨l, hl, rfl⟩ := hsub.2 u hu
        exact ⟨l, hl, hwithin.trans (infix_said l)⟩
  · obtain ⟨l, hl, rfl⟩ := List.mem_map.1 (List.mem_of_find?_eq_some h)
    have hfilled := List.find?_some h
    simp only [Bool.and_eq_true, Bool.not_eq_true', List.isEmpty_eq_false_iff] at hfilled
    exact ⟨hfilled.1, Text.trim_trim _, l, hl, infix_said l⟩

theorem not_mem_condense {ls : List Text} {answer : Text} (h : ∀ l ∈ ls, '\n' ∉ l)
    (hsaid : condense ls = some answer) : '\n' ∉ answer := by
  obtain ⟨-, -, l, hl, hwithin⟩ := exists_infix_of_condense hsaid
  exact fun hmem => h l hl (hwithin.subset hmem)

end Summary

/-- A record shows a declaration that was read from a line, and a summary on one line. -/
structure Record.Shows (r : Record) (line : Text) (d : Declaration) : Prop where
  oneLine : '\n' ∉ line
  read : ∃ rest, Declaration.read? line = some (d, rest)
  member : d.head.isTypeDefinition = false
  summary : ∀ t ∈ r.summary?, '\n' ∉ t
  visibility : r.visibility = d.visibility
  isStatic : r.isStatic = d.isStatic
  modifiers : r.modifiers = d.modifierWords
  kind : r.kind = d.head.kind
  head : r.head = d.head.shown

theorem LineStart.shows_record {m : Member} (hread : Member.read? o s.above? t = some m)
    (hgap : ∀ l ∈ s.gap, '\n' ∉ l) : (s.record m).Shows (Text.firstLine t) m.declaration := by
  obtain ⟨d, rest, hd, -, hmember, rfl⟩ := Member.read?_eq_some_iff.1 hread
  refine ⟨Text.not_mem_firstLine t, ⟨rest, hd⟩, hmember, fun u hu => ?_, rfl, rfl, rfl, rfl, rfl⟩
  refine Summary.not_mem_condense (fun l hl => hgap l ?_) hu
  exact (List.takeWhile_sublist _).subset (List.mem_reverse.1 hl)

theorem Run.shows (h : Run o s t rs) (hgap : ∀ l ∈ s.gap, '\n' ∉ l) :
    ∀ r ∈ rs, ∃ line d, r.Shows line d := by
  induction h with
  | last s line hline hread => simp
  | lastMember s m line hline hread =>
      intro r hr
      rw [List.mem_singleton.1 hr]
      exact ⟨_, _, LineStart.shows_record hread hgap⟩
  | skip s line below rs hline hread hrun ih =>
      apply ih
      intro l hl
      rcases List.mem_cons.1 hl with rfl | hl
      · exact hline
      · exact hgap l hl
  | take s m line below rs hline hread hrun ih =>
      intro r hr
      rcases List.mem_cons.1 hr with rfl | hr
      · exact ⟨_, _, LineStart.shows_record hread hgap⟩
      · refine ih (fun l hl => ?_) r hr
        rw [List.mem_singleton.1 hl]
        exact hline

end ApiListing
