import ApiListing.Proofs.WordLists
import Mathlib.Data.List.Chain

namespace ApiListing.Text

variable {c : Char} {t u w : Text} {ws : List Text}

theorem squeeze_space (hc : isSpace c = true) (t : Text) :
    squeeze (c :: t) = ' ' :: squeeze (trimStart t) := by
  induction t generalizing c with
  | nil => simp [squeeze, trimStart, hc]
  | cons d t ih =>
      rw [squeeze, if_pos hc]
      cases hd : isSpace d with
      | true =>
          rw [if_pos rfl, ih hd, trimStart, trimStart, List.dropWhile_cons_of_pos hd]
      | false =>
          rw [if_neg (by simp), trimStart_of_head (forall_mem_head?_cons hd)]

theorem squeeze_solid (hc : isSpace c = false) (t : Text) :
    squeeze (c :: t) = c :: squeeze t := by
  simp [squeeze, hc]

theorem squeeze_run {run : Text} (hne : run ≠ []) (hrun : ∀ c ∈ run, isSpace c = true) (t : Text) :
    squeeze (run ++ t) = ' ' :: squeeze (trimStart t) := by
  cases run with
  | nil => exact absurd rfl hne
  | cons c run =>
      rw [List.cons_append, squeeze_space (hrun c (List.mem_cons_self ..)),
        trimStart_spaces_append fun d hd => hrun d (List.mem_cons_of_mem _ hd)]

theorem trimStart_squeeze (t : Text) : trimStart (squeeze t) = squeeze (trimStart t) := by
  induction t with
  | nil => rfl
  | cons c t ih =>
      cases hc : isSpace c with
      | true =>
          have ht : trimStart (c :: t) = trimStart t := List.dropWhile_cons_of_pos hc
          rw [squeeze_space hc, ht, ← ih, trimStart, List.dropWhile_cons_of_pos (by decide)]
          exact trimStart_trimStart _
      | false =>
          rw [trimStart_of_head (forall_mem_head?_cons hc), squeeze_solid hc,
            trimStart_of_head (forall_mem_head?_cons hc)]

theorem squeeze_append (hw : ∀ c ∈ w, isSpace c = false) (t : Text) :
    squeeze (w ++ t) = w ++ squeeze t := by
  induction w with
  | nil => rfl
  | cons c w ih =>
      rw [List.forall_mem_cons] at hw
      rw [List.cons_append, squeeze_solid hw.1, ih hw.2, List.cons_append]

theorem collapse_eq (t : Text) : collapse t = trimEnd (squeeze (trimStart t)) := by
  rw [collapse, trim, trimStart_squeeze]

theorem collapse_spaces_append {spaces : Text} (hspaces : ∀ c ∈ spaces, isSpace c = true)
    (t : Text) : collapse (spaces ++ t) = collapse t := by
  rw [collapse_eq, trimStart_spaces_append hspaces, ← collapse_eq]

theorem IsWord.collapse_append (hw : IsWord w) (t : Text) :
    collapse (w ++ t) = w ++ trimEnd (squeeze t) := by
  have hhead : ∀ c ∈ (w ++ t).head?, isSpace c = false := by
    intro c hc
    rw [List.head?_append_of_ne_nil _ hw.ne_nil] at hc
    exact hw.solid c (List.mem_of_head? hc)
  have hlast : ∀ c ∈ w.getLast?, isSpace c = false :=
    fun c hc => hw.solid c (List.mem_of_getLast? hc)
  rw [collapse_eq, trimStart_of_head hhead, squeeze_append hw.solid,
    trimEnd_append_of_getLast hlast]

/-- Behind a word stand one space and the rest collapsed, unless there are only spaces left. -/
theorem trimEnd_squeeze (ht : ∀ c ∈ t.head?, isSpace c = true) :
    trimEnd (squeeze t) = if collapse t = [] then [] else ' ' :: collapse t := by
  cases t with
  | nil => rfl
  | cons c t =>
      have hc : isSpace c = true := ht c rfl
      have hone : ∀ a ∈ [c], isSpace a = true := List.forall_mem_singleton.2 hc
      have htail : collapse (c :: t) = trimEnd (squeeze (trimStart t)) :=
        (collapse_spaces_append hone t).trans (collapse_eq t)
      rw [squeeze_space hc, htail]
      split
      · next hnil =>
          obtain ⟨spaces, hsplit, hspaces⟩ := trimEnd_append (squeeze (trimStart t))
          rw [hnil, List.nil_append] at hsplit
          have hall : ∀ a ∈ ' ' :: spaces, isSpace a = true :=
            List.forall_mem_cons.2 ⟨by decide, hspaces⟩
          rw [hsplit]
          exact trimEnd_append_spaces hall []
      · next hne => exact trimEnd_append_of_ne_nil hne [' ']

theorem parted_join (h : ∀ w ∈ ws, IsWord w) : Parted (join [' '] ws) ws := by
  induction ws with
  | nil => exact .nil (List.forall_mem_nil _)
  | cons w ws ih =>
      rw [List.forall_mem_cons] at h
      cases ws with
      | nil =>
          have hone : join [' '] [w] = [] ++ (w ++ []) := by simp [join]
          rw [hone]
          exact .cons (List.forall_mem_nil _) h.1 (by simp) (.nil (List.forall_mem_nil _))
      | cons v ws =>
          rw [join_cons_of_ne_nil (List.cons_ne_nil v ws)]
          exact @Parted.cons [] _ _ _ (List.forall_mem_nil _) h.1 (by simp [isSpace])
            ((ih h.2).cons_space (by decide))

namespace Parted

theorem isWord (h : Parted t ws) : ∀ w ∈ ws, IsWord w := by
  induction h with
  | nil _ => exact List.forall_mem_nil _
  | cons _ hw _ _ ih => exact List.forall_mem_cons.2 ⟨hw, ih⟩

theorem collapse_eq (h : Parted t ws) : collapse t = Text.join [' '] ws := by
  induction h with
  | @nil spaces hspaces =>
      have hnone := collapse_spaces_append hspaces []
      rwa [List.append_nil] at hnone
  | @cons spaces w t ws hspaces hw ht tail ih =>
      rw [collapse_spaces_append hspaces, hw.collapse_append, trimEnd_squeeze ht, ih]
      cases ws with
      | nil => simp [Text.join]
      | cons v ws =>
          have hne : Text.join [' '] (v :: ws) ≠ [] := by
            rw [join_cons]
            exact List.append_ne_nil_of_left_ne_nil (tail.isWord v (List.mem_cons_self ..)).ne_nil _
          rw [if_neg hne, join_cons_of_ne_nil (List.cons_ne_nil v ws)]
          rfl

end Parted

theorem isWord_of_mem_words : ∀ w ∈ words t, IsWord w := (parted_words t).isWord

/-- A collapsed text is the words of the text, joined by single spaces. -/
theorem collapse_eq_join (t : Text) : collapse t = join [' '] (words t) :=
  (parted_words t).collapse_eq

theorem words_collapse (t : Text) : words (collapse t) = words t := by
  rw [collapse_eq_join, (parted_join isWord_of_mem_words).words_eq]

theorem collapse_eq_iff : collapse t = collapse u ↔ words t = words u := by
  constructor
  · intro h
    rw [← words_collapse t, h, words_collapse]
  · intro h
    rw [collapse_eq_join, h, ← collapse_eq_join]

theorem collapse_collapse (t : Text) : collapse (collapse t) = collapse t :=
  collapse_eq_iff.2 (words_collapse t)

theorem collapse_eq_nil_iff : collapse t = [] ↔ words t = [] := collapse_eq_iff (u := [])

theorem eq_space_of_mem_squeeze (hc : c ∈ squeeze t) (hspace : isSpace c = true) : c = ' ' := by
  fun_induction squeeze t with
  | case1 => cases hc
  | case2 d hd e t he ih => exact ih hc
  | case3 d hd e t he ih => exact (List.mem_cons.1 hc).elim id ih
  | case4 d hd => exact List.mem_singleton.1 hc
  | case5 d t hd ih =>
      rcases List.mem_cons.1 hc with rfl | hc
      · exact absurd hspace hd
      · exact ih hc

theorem not_mem_collapse (t : Text) : '\n' ∉ collapse t := by
  intro h
  have hspace := eq_space_of_mem_squeeze ((infix_trim _).subset h) (by decide)
  exact absurd hspace (by decide)

theorem isChain_squeeze (t : Text) :
    (squeeze t).IsChain fun c d => isSpace c = true → isSpace d = false := by
  fun_induction squeeze t with
  | case1 => exact .nil
  | case2 c hc d t hd ih => exact ih
  | case3 c hc d t hd ih =>
      have hd : isSpace d = false := by simpa using hd
      rw [squeeze_solid hd] at ih ⊢
      exact ih.cons fun a ha _ => Option.mem_some.1 ha ▸ hd
  | case4 c hc => exact .singleton _
  | case5 c t hc ih => exact ih.cons fun a _ hspace => absurd hspace hc

theorem isChain_collapse (t : Text) :
    (collapse t).IsChain fun c d => isSpace c = true → isSpace d = false :=
  List.IsChain.infix (isChain_squeeze t) (infix_trim _)

end ApiListing.Text
