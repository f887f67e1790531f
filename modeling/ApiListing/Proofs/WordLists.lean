import ApiListing.Proofs.Spaces

namespace ApiListing.Text

variable {c d : Char} {t w g : Text}

theorem words_cons (c : Char) (t : Text) : words (c :: t) =
    if isSpace c then words t
    else match t, words t with
      | d :: _, w :: ws => if isSpace d then [c] :: w :: ws else (c :: w) :: ws
      | _, ws => [c] :: ws := rfl

theorem words_space (hc : isSpace c = true) (t : Text) : words (c :: t) = words t := by
  rw [words_cons, if_pos hc]

theorem words_of_head (hc : isSpace c = false) (ht : ∀ a ∈ t.head?, isSpace a = true) :
    words (c :: t) = [c] :: words t := by
  rw [words_cons, if_neg (by simp [hc])]
  split
  · next d u w ws hwords =>
      rw [if_pos (ht d rfl), hwords]
  · rfl

theorem words_of_words (hc : isSpace c = false) (hd : isSpace d = false) {ws : List Text}
    (h : words (d :: t) = w :: ws) : words (c :: d :: t) = (c :: w) :: ws := by
  rw [words_cons, if_neg (by simp [hc]), h]
  exact if_neg (by simp [hd])

theorem words_ne_nil (hc : isSpace c = false) (t : Text) : words (c :: t) ≠ [] := by
  rw [words_cons, if_neg (by simp [hc])]
  split
  · split <;> simp
  · simp

/-- Words before a space are not touched by what follows it. -/
theorem words_append (ht : ∀ a ∈ t.head?, isSpace a = true) (s : Text) :
    words (s ++ t) = words s ++ words t := by
  induction s with
  | nil => rfl
  | cons c s ih =>
      rw [List.cons_append]
      cases hc : isSpace c with
      | true => rw [words_space hc, words_space hc, ih]
      | false =>
          cases s with
          | nil =>
              rw [List.nil_append, words_of_head hc ht, words_of_head hc (by simp)]
              rfl
          | cons d s =>
              rw [List.cons_append] at ih ⊢
              cases hd : isSpace d with
              | true =>
                  have hhead (u : Text) : ∀ a ∈ (d :: u).head?, isSpace a = true :=
                    forall_mem_head?_cons hd
                  rw [words_of_head hc (hhead _), words_of_head hc (hhead _), ih]
                  rfl
              | false =>
                  obtain ⟨w, ws, hws⟩ := List.exists_cons_of_ne_nil (words_ne_nil hd s)
                  rw [hws, List.cons_append] at ih
                  rw [words_of_words hc hd ih, words_of_words hc hd hws]
                  rfl

section

variable {spaces : Text} (hspaces : ∀ c ∈ spaces, isSpace c = true)
include hspaces

theorem words_of_spaces : words spaces = [] := by
  induction spaces with
  | nil => rfl
  | cons c spaces ih =>
      rw [List.forall_mem_cons] at hspaces
      rw [words_space hspaces.1, ih hspaces.2]

theorem words_spaces_append (t : Text) : words (spaces ++ t) = words t := by
  induction spaces with
  | nil => rfl
  | cons c spaces ih =>
      rw [List.forall_mem_cons] at hspaces
      rw [List.cons_append, words_space hspaces.1, ih hspaces.2]

theorem words_append_spaces (t : Text) : words (t ++ spaces) = words t := by
  rw [words_append (fun c hc => hspaces c (List.mem_of_head? hc)), words_of_spaces hspaces,
    List.append_nil]

end

theorem words_trimEnd (t : Text) : words (trimEnd t) = words t := by
  obtain ⟨spaces, ht, hspaces⟩ := trimEnd_append t
  calc words (trimEnd t) = words (trimEnd t ++ spaces) := (words_append_spaces hspaces _).symm
    _ = words t := by rw [← ht]

theorem words_trim (t : Text) : words (trim t) = words t := by
  obtain ⟨spaces, ht, hspaces⟩ := trim_append t
  have hrun : ∀ c ∈ t.takeWhile isSpace, isSpace c = true := fun c hc => List.mem_takeWhile_imp hc
  calc words (trim t) = words (t.takeWhile isSpace ++ trim t ++ spaces) := by
        rw [words_append_spaces hspaces, words_spaces_append hrun]
    _ = words t := by rw [← ht]

structure IsWord (w : Text) : Prop where
  ne_nil : w ≠ []
  solid : ∀ c ∈ w, isSpace c = false

theorem IsWord.words_eq (hw : IsWord w) : words w = [w] := by
  obtain ⟨hne, hsolid⟩ := hw
  induction w with
  | nil => exact absurd rfl hne
  | cons c w ih =>
      rw [List.forall_mem_cons] at hsolid
      cases w with
      | nil => exact words_of_head hsolid.1 (by simp)
      | cons d w =>
          exact words_of_words hsolid.1 (hsolid.2 d (by simp)) (ih (by simp) hsolid.2)

theorem IsWord.words_append (hw : IsWord w) (hne : g ≠ []) (hg : ∀ c ∈ g, isSpace c = true)
    (t : Text) : words (w ++ (g ++ t)) = w :: words t := by
  have hhead : ∀ a ∈ (g ++ t).head?, isSpace a = true := by
    intro a ha
    rw [List.head?_append_of_ne_nil _ hne] at ha
    exact hg a (List.mem_of_head? ha)
  rw [Text.words_append hhead, hw.words_eq, words_spaces_append hg]
  rfl

/-- A text is words with spaces between them and any spaces around them. -/
inductive Parted : Text → List Text → Prop
  | nil {spaces : Text} (hspaces : ∀ c ∈ spaces, isSpace c = true) : Parted spaces []
  | cons {spaces w t : Text} {ws : List Text} (hspaces : ∀ c ∈ spaces, isSpace c = true)
      (hw : IsWord w) (ht : ∀ c ∈ t.head?, isSpace c = true) (tail : Parted t ws) :
      Parted (spaces ++ (w ++ t)) (w :: ws)

namespace Parted

variable {ws : List Text}

theorem words_eq (h : Parted t ws) : words t = ws := by
  induction h with
  | nil hspaces => exact words_of_spaces hspaces
  | cons hspaces hw ht _ ih =>
      rw [words_spaces_append hspaces, words_append ht, hw.words_eq, ih]
      rfl

theorem cons_space (hc : isSpace c = true) (h : Parted t ws) : Parted (c :: t) ws := by
  cases h with
  | nil hspaces => exact .nil (List.forall_mem_cons.2 ⟨hc, hspaces⟩)
  | cons hspaces hw ht tail =>
      exact @Parted.cons (c :: _) _ _ _ (List.forall_mem_cons.2 ⟨hc, hspaces⟩) hw ht tail

theorem cons_char (hc : isSpace c = false) (hd : isSpace d = false)
    (h : Parted (d :: t) (w :: ws)) : Parted (c :: d :: t) ((c :: w) :: ws) := by
  generalize hu : d :: t = u at h
  cases h with
  | @cons spaces _ t' _ hspaces hw ht tail =>
      have hnone : spaces = [] := by
        cases spaces with
        | nil => rfl
        | cons a spaces =>
            obtain rfl := (List.cons.inj hu).1
            exact absurd (hspaces d (List.mem_cons_self ..)) (by simp [hd])
      have hcw : IsWord (c :: w) := ⟨List.cons_ne_nil c w, List.forall_mem_cons.2 ⟨hc, hw.solid⟩⟩
      rw [hnone]
      exact @Parted.cons [] _ _ _ (List.forall_mem_nil _) hcw ht tail

end Parted

theorem parted_words (t : Text) : Parted t (words t) := by
  induction t with
  | nil => exact .nil (List.forall_mem_nil _)
  | cons c t ih =>
      cases hc : isSpace c with
      | true =>
          rw [words_space hc]
          exact ih.cons_space hc
      | false =>
          by_cases ht : ∀ a ∈ t.head?, isSpace a = true
          · have hword : IsWord [c] := ⟨List.cons_ne_nil c [], List.forall_mem_singleton.2 hc⟩
            rw [words_of_head hc ht]
            exact @Parted.cons [] _ _ _ (List.forall_mem_nil _) hword ht ih
          · cases t with
            | nil => exact absurd (by simp) ht
            | cons d t =>
                have hd : isSpace d = false := by simpa using ht
                obtain ⟨w, ws, hws⟩ := List.exists_cons_of_ne_nil (words_ne_nil hd t)
                rw [words_of_words hc hd hws]
                rw [hws] at ih
                exact ih.cons_char hc hd

end ApiListing.Text
