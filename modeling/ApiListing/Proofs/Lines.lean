import ApiListing.Text.Basic
import Mathlib.Data.List.Basic
import Mathlib.Data.List.TakeWhile

namespace ApiListing.Text

variable {l t below : Text}

section

variable {α : Type} {l t : List α} {p : α → Bool}

theorem takeWhile_run (hl : ∀ a ∈ l, p a = true) (ht : ∀ c ∈ t.head?, p c = false) :
    (l ++ t).takeWhile p = l := by
  rw [List.takeWhile_append_of_pos hl]
  cases t with
  | nil => simp
  | cons c t => rw [List.takeWhile_cons_of_neg (by simp [ht c rfl]), List.append_nil]

theorem dropWhile_run (hl : ∀ a ∈ l, p a = true) (ht : ∀ c ∈ t.head?, p c = false) :
    (l ++ t).dropWhile p = t := by
  rw [List.dropWhile_append_of_pos hl]
  cases t with
  | nil => rfl
  | cons c t => rw [List.dropWhile_cons_of_neg (by simp [ht c rfl])]

theorem takeWhile_congr {q : α → Bool} (h : ∀ a ∈ t, p a = q a) :
    t.takeWhile p = t.takeWhile q ∧ t.dropWhile p = t.dropWhile q := by
  induction t with
  | nil => exact ⟨rfl, rfl⟩
  | cons a t ih =>
      rw [List.forall_mem_cons] at h
      rw [List.takeWhile_cons, List.takeWhile_cons, List.dropWhile_cons, List.dropWhile_cons, h.1,
        (ih h.2).1, (ih h.2).2]
      exact ⟨rfl, rfl⟩

theorem take_drop_length_takeWhile (p : α → Bool) (t : List α) :
    (t.take (t.takeWhile p).length, t.drop (t.takeWhile p).length) =
      (t.takeWhile p, t.dropWhile p) := by
  have htake : t.take (t.takeWhile p).length = t.takeWhile p :=
    (List.prefix_iff_eq_take.1 (List.takeWhile_prefix p)).symm
  have hsplit := (List.take_append_drop (t.takeWhile p).length t).trans
    (List.takeWhile_append_dropWhile (p := p)).symm
  rw [htake] at hsplit
  rw [htake, List.append_cancel_left hsplit]

end

theorem forall_mem_head?_cons {q : Char → Prop} {c : Char} (h : q c) :
    ∀ a ∈ (c :: t).head?, q a := by
  intro a ha
  cases ha
  exact h

theorem ne_of_not_mem {c : Char} (h : c ∉ l) : ∀ a ∈ l, decide (a ≠ c) = true := by
  intro a ha
  simpa using fun he : a = c => h (he ▸ ha)

theorem not_mem_firstLine (t : Text) : '\n' ∉ firstLine t := by
  intro h
  simpa using List.mem_takeWhile_imp h

theorem firstLine_line (h : '\n' ∉ l) (t : Text) : firstLine (l ++ '\n' :: t) = l :=
  takeWhile_run (ne_of_not_mem h) (by simp)

theorem firstLine_of_not_mem (h : '\n' ∉ l) : firstLine l = l :=
  List.takeWhile_eq_self_iff.2 (ne_of_not_mem h)

theorem afterLine_line (h : '\n' ∉ l) (t : Text) : afterLine (l ++ '\n' :: t) = some t := by
  rw [afterLine, dropWhile_run (ne_of_not_mem h) (by simp)]

theorem afterLine_of_not_mem (h : '\n' ∉ l) : afterLine l = none := by
  have hd := dropWhile_run (t := []) (ne_of_not_mem h) (by simp)
  rw [List.append_nil] at hd
  rw [afterLine, hd]

theorem firstLine_append (h : '\n' ∉ l) (t : Text) : firstLine (l ++ t) = l ++ firstLine t :=
  List.takeWhile_append_of_pos (ne_of_not_mem h)

theorem afterLine_append (h : '\n' ∉ l) (t : Text) : afterLine (l ++ t) = afterLine t := by
  rw [afterLine, afterLine, List.dropWhile_append_of_pos (ne_of_not_mem h)]

theorem line_cases (t : Text) :
    '\n' ∉ t ∨ ∃ l below, '\n' ∉ l ∧ t = l ++ '\n' :: below := by
  by_cases h : '\n' ∈ t
  · obtain ⟨l, below, rfl, hl⟩ := List.eq_append_cons_of_mem h
    exact Or.inr ⟨l, below, hl, rfl⟩
  · exact Or.inl h

theorem firstLine_dropWhile (t : Text) : firstLine (t.dropWhile (· ≠ '\n')) = [] := by
  rcases line_cases t with ht | ⟨l, below, hl, rfl⟩
  · rw [List.dropWhile_eq_nil_iff.2 (ne_of_not_mem ht)]
    rfl
  · rw [dropWhile_run (ne_of_not_mem hl) (by simp)]
    exact firstLine_line (l := []) (by simp) below

theorem eq_of_afterLine (h : afterLine t = some below) : t = firstLine t ++ '\n' :: below := by
  rcases line_cases t with ht | ⟨l, b, hl, rfl⟩
  · simp [afterLine_of_not_mem ht] at h
  · rw [afterLine_line hl] at h
    cases h
    rw [firstLine_line hl]

/-- A place in a text is the end of a line if it is the end of the text or before a newline. -/
def EndsLine (below : Text) : Prop := below = [] ∨ below.head? = some '\n'

theorem endsLine_dropWhile (t : Text) : EndsLine (t.dropWhile (· ≠ '\n')) := by
  rcases line_cases t with ht | ⟨l, below, hl, rfl⟩
  · exact Or.inl (List.dropWhile_eq_nil_iff.2 (ne_of_not_mem ht))
  · rw [dropWhile_run (ne_of_not_mem hl) (by simp)]
    exact Or.inr rfl

theorem EndsLine.firstLine_append {l below : Text} (hl : '\n' ∉ l) (h : EndsLine below) :
    firstLine (l ++ below) = l := by
  refine takeWhile_run (ne_of_not_mem hl) fun c hc => ?_
  rcases h with rfl | h
  · cases hc
  · simp [Option.some.inj (hc.symm.trans h)]

theorem lastLine_of_not_mem (h : '\n' ∉ l) : lastLine l = l := by
  have hr : '\n' ∉ l.reverse := by simpa using h
  rw [lastLine, List.takeWhile_eq_self_iff.2 (ne_of_not_mem hr), List.reverse_reverse]

theorem lines_line (h : '\n' ∉ l) (t : Text) : lines (l ++ '\n' :: t) = l :: lines t := by
  induction l with
  | nil => simp [lines]
  | cons c l ih =>
      simp only [List.mem_cons, not_or] at h
      obtain ⟨hc, hl⟩ := h
      simp [lines, Ne.symm hc, ih hl]

theorem lines_of_not_mem (h : '\n' ∉ l) (hne : l ≠ []) : lines l = [l] := by
  induction l with
  | nil => exact absurd rfl hne
  | cons c l ih =>
      simp only [List.mem_cons, not_or] at h
      obtain ⟨hc, hl⟩ := h
      cases l with
      | nil => simp [lines, Ne.symm hc]
      | cons d l => rw [lines, ih hl (by simp)]; simp [Ne.symm hc]

theorem join_cons_of_ne_nil {ts : List Text} (h : ts ≠ []) (between t : Text) :
    join between (t :: ts) = t ++ (between ++ join between ts) := by
  cases ts with
  | nil => exact absurd rfl h
  | cons u ts => simp [join, List.intercalate]

theorem join_cons (between t : Text) (ts : List Text) :
    join between (t :: ts) = t ++ (ts.map (between ++ ·)).flatten := by
  induction ts generalizing t with
  | nil => simp [join]
  | cons u ts ih =>
      rw [join_cons_of_ne_nil (by simp), ih]
      simp

theorem prefix_of_prefix_append {s x : Text} (hs : ∀ c ∈ s.getLast?, c ∉ x) (h : s <+: l ++ x) :
    s <+: l := by
  rcases List.prefix_or_prefix_of_prefix h (List.prefix_append l x) with hl | ⟨v, rfl⟩
  · exact hl
  · rw [List.prefix_append_right_inj] at h
    by_cases hv : v = []
    · simp [hv]
    · have hlast : v.getLast hv ∈ (l ++ v).getLast? := by
        rw [List.getLast?_append_of_ne_nil _ hv]
        exact List.getLast?_eq_some_getLast hv
      exact absurd (h.subset (List.getLast_mem hv)) (hs _ hlast)

theorem prefix_of_prefix_append_cons {s : Text} {c : Char} (hc : c ∉ s) (h : s <+: l ++ c :: t) :
    s <+: l := by
  rcases List.prefix_or_prefix_of_prefix h (List.prefix_append l (c :: t)) with hl | ⟨v, rfl⟩
  · exact hl
  · cases v with
    | nil => simp
    | cons d v =>
        rw [List.prefix_append_right_inj, List.cons_prefix_cons] at h
        exact absurd (by simp [h.1]) hc

theorem byteSize_pos (h : t ≠ []) : 0 < byteSize t := by
  cases t with
  | nil => exact absurd rfl h
  | cons c t =>
      have := c.utf8Size_pos
      rw [byteSize_cons]
      omega

theorem byteSize_le_of_prefix {s t : Text} (h : s <+: t) : byteSize s ≤ byteSize t := by
  obtain ⟨u, rfl⟩ := h
  rw [byteSize_append]
  omega

theorem byteSize_lt_of_prefix {s t : Text} (h : s <+: t) (hne : s ≠ t) :
    byteSize s < byteSize t := by
  obtain ⟨u, rfl⟩ := h
  have := byteSize_pos (t := u) (by rintro rfl; simp at hne)
  rw [byteSize_append]
  omega

theorem byteSize_newline (t : Text) : byteSize ('\n' :: t) = byteSize t + 1 := by
  have : Char.utf8Size '\n' = 1 := by decide
  rw [byteSize_cons]
  omega

theorem utf8ByteSize_ofList (t : Text) : (String.ofList t).utf8ByteSize = byteSize t := by
  induction t with
  | nil => rfl
  | cons c t ih =>
      rw [← List.singleton_append, String.ofList_append, String.utf8ByteSize_append, ih,
        byteSize_append]
      simp [byteSize]

end ApiListing.Text
