import ApiListing.Proofs.Lines

namespace ApiListing.Text

variable {mark s t l before rest : Text}

theorem stripPrefix?_eq_none_iff : stripPrefix? s t = none ↔ ¬ s <+: t := by
  fun_induction stripPrefix? s t with
  | case1 t => simp
  | case2 => simp
  | case3 c s t ih => simpa using ih
  | case4 a s c t hne => simp [hne]

theorem cut?_eq_none_iff : cut? mark t = none ↔ ¬ mark <:+: t := by
  induction t with
  | nil => rw [cut?, Option.map_eq_none_iff, stripPrefix?_eq_none_iff, List.prefix_nil, List.infix_nil]
  | cons c t ih =>
      rw [List.infix_cons_iff, not_or, ← stripPrefix?_eq_none_iff, ← ih, cut?]
      cases stripPrefix? mark (c :: t) <;> simp

theorem length_le_of_cut? (h : cut? mark t = some (before, rest)) {x : Text}
    (hx : x ++ mark <+: t) : before.length ≤ x.length := by
  induction t generalizing before x with
  | nil =>
      obtain ⟨_, -, he⟩ := Option.map_eq_some_iff.1 h
      cases he
      exact Nat.zero_le _
  | cons c t ih =>
      rw [cut?] at h
      split at h
      · cases h
        exact Nat.zero_le _
      · next hnone =>
          obtain ⟨⟨b, r⟩, hcut, he⟩ := Option.map_eq_some_iff.1 h
          cases he
          cases x with
          | nil => exact absurd hx (stripPrefix?_eq_none_iff.1 hnone)
          | cons d x =>
              rw [List.cons_append, List.cons_prefix_cons] at hx
              exact Nat.succ_le_succ (ih hcut hx.2)

theorem cut?_eq_some_iff : cut? mark t = some (before, rest) ↔
    t = before ++ mark ++ rest ∧ ∀ x, x ++ mark <+: t → before.length ≤ x.length := by
  constructor
  · exact fun h => ⟨eq_append_of_cut? h, fun x hx => length_le_of_cut? h hx⟩
  · rintro ⟨ht, hfirst⟩
    cases hcut : cut? mark t with
    | none => exact absurd ⟨before, rest, ht.symm⟩ (cut?_eq_none_iff.1 hcut)
    | some p =>
        have hp := eq_append_of_cut? hcut
        have hle := length_le_of_cut? hcut ⟨rest, ht.symm⟩
        have hge := hfirst p.1 ⟨p.2, hp.symm⟩
        rw [ht, List.append_assoc, List.append_assoc] at hp
        obtain ⟨hbefore, hbehind⟩ := List.append_inj hp (Nat.le_antisymm hge hle)
        exact congrArg some (Prod.ext hbefore.symm (List.append_cancel_left hbehind).symm)

/-- What stands in a text before the first place of a mark, or all of the text if the mark is not
there. -/
inductive StandsBefore : Text → Text → Text → Prop
  | first (mark before rest : Text)
      (hfirst : ∀ x, x ++ mark <+: before ++ mark ++ rest → before.length ≤ x.length) :
      StandsBefore mark before (before ++ mark ++ rest)
  | absent (mark t : Text) (h : ¬ mark <:+: t) : StandsBefore mark t t

theorem StandsBefore.not_infix (hmark : mark ≠ []) (h : StandsBefore mark before t) :
    ¬ mark <:+: before := by
  cases h with
  | absent h => exact h
  | first rest hfirst =>
      rintro ⟨x, y, rfl⟩
      have hle := hfirst x ⟨y ++ mark ++ rest, by simp⟩
      have hpos := List.length_pos_iff.2 hmark
      simp only [List.length_append] at hle
      omega

def upTo (mark t : Text) : Text := ((cut? mark t).map Prod.fst).getD t

theorem upTo_of_cut? (h : cut? mark t = some (before, rest)) : upTo mark t = before := by
  rw [upTo, h]
  rfl

theorem upTo_of_not_infix (h : ¬ mark <:+: t) : upTo mark t = t := by
  rw [upTo, cut?_eq_none_iff.2 h]
  rfl

theorem standsBefore_upTo (mark t : Text) : StandsBefore mark (upTo mark t) t := by
  rw [upTo]
  cases h : cut? mark t with
  | none => exact .absent mark t (cut?_eq_none_iff.1 h)
  | some p =>
      obtain ⟨ht, hfirst⟩ := cut?_eq_some_iff.1 h
      rw [ht] at hfirst ⊢
      exact .first mark p.1 p.2 hfirst

theorem cut?_append (h : cut? mark l = some (before, rest)) (t : Text) :
    cut? mark (l ++ t) = some (before, rest ++ t) := by
  obtain ⟨hl, hfirst⟩ := cut?_eq_some_iff.1 h
  refine cut?_eq_some_iff.2 ⟨by rw [hl, List.append_assoc], fun x hx => ?_⟩
  rcases List.prefix_or_prefix_of_prefix hx (List.prefix_append l t) with hwithin | hbeyond
  · exact hfirst x hwithin
  · have hlength := hbeyond.length_le
    simp only [hl, List.length_append] at hlength
    omega

/-- A mark on one line that does not stand on the first line stands on one below. -/
theorem upTo_line (hmark : mark ≠ []) (hline : '\n' ∉ mark) (h : ¬ mark <:+: l) (t : Text) :
    upTo mark (l ++ '\n' :: t) = l ++ '\n' :: upTo mark t := by
  have hcut : cut? mark (l ++ '\n' :: t) = (cut? mark t).map fun p => (l ++ '\n' :: p.1, p.2) := by
    induction l with
    | nil =>
        have hnone : stripPrefix? mark ('\n' :: t) = none := by
          refine stripPrefix?_eq_none_iff.2 fun hprefix => hmark ?_
          exact List.prefix_nil.1 (prefix_of_prefix_append_cons hline hprefix)
        rw [List.nil_append, cut?, hnone]
        rfl
    | cons c l ih =>
        rw [List.infix_cons_iff, not_or] at h
        have hnone : stripPrefix? mark (c :: (l ++ '\n' :: t)) = none :=
          stripPrefix?_eq_none_iff.2 fun hprefix => h.1 (prefix_of_prefix_append_cons hline hprefix)
        rw [List.cons_append, cut?, hnone]
        simp only [ih h.2, Option.map_map]
        rfl
  rw [upTo, hcut, upTo]
  cases cut? mark t <;> rfl

end ApiListing.Text
