import ApiListing.Text.Blank
import ApiListing.Text.Letter
import ApiListing.Proofs.Lines

namespace ApiListing.Text

variable {t : Text} {c : Char}

theorem isSpace_of_blanks (h : ∀ c ∈ t, isBlank c = true) : ∀ c ∈ t, isSpace c = true :=
  fun c hc => isSpace_of_isBlank (h c hc)

theorem not_mem_of_blanks (h : ∀ c ∈ t, isBlank c = true) : '\n' ∉ t :=
  fun hmem => absurd (h _ hmem) (by decide)

theorem trimEnd_append (t : Text) : ∃ spaces, t = trimEnd t ++ spaces ∧
    ∀ a ∈ spaces, isSpace a = true := by
  refine ⟨(t.reverse.takeWhile isSpace).reverse, ?_, ?_⟩
  · rw [trimEnd, ← List.reverse_append, List.takeWhile_append_dropWhile, List.reverse_reverse]
  · intro a ha
    exact List.mem_takeWhile_imp (List.mem_reverse.1 ha)

theorem trim_append (t : Text) : ∃ spaces, t = t.takeWhile isSpace ++ trim t ++ spaces ∧
    ∀ a ∈ spaces, isSpace a = true := by
  obtain ⟨spaces, hs, hall⟩ := trimEnd_append (trimStart t)
  refine ⟨spaces, ?_, hall⟩
  rw [List.append_assoc, trim, ← hs, trimStart, List.takeWhile_append_dropWhile]

theorem infix_trim (t : Text) : trim t <:+: t := by
  obtain ⟨spaces, ht, -⟩ := trim_append t
  exact ⟨_, _, ht.symm⟩

theorem trimStart_of_head (h : ∀ a ∈ t.head?, isSpace a = false) : trimStart t = t :=
  dropWhile_run (l := []) (by simp) h

theorem trimStart_trimStart (t : Text) : trimStart (trimStart t) = trimStart t := by
  apply trimStart_of_head
  intro a ha
  have hnot := List.head?_dropWhile_not isSpace t
  rw [← trimStart, Option.mem_def.1 ha] at hnot
  simpa using hnot

theorem trimEnd_of_getLast (h : ∀ a ∈ t.getLast?, isSpace a = false) : trimEnd t = t := by
  have := trimStart_of_head (t := t.reverse) (by simpa using h)
  rw [trimEnd, ← trimStart, this, List.reverse_reverse]

theorem isSpace_getLast_trimEnd (t : Text) : ∀ a ∈ (trimEnd t).getLast?, isSpace a = false := by
  intro a ha
  rw [trimEnd, List.getLast?_reverse] at ha
  have := List.head?_dropWhile_not isSpace t.reverse
  rw [Option.mem_def.1 ha] at this
  simpa using this

theorem trim_of_ends (hhead : ∀ a ∈ t.head?, isSpace a = false)
    (hlast : ∀ a ∈ t.getLast?, isSpace a = false) : trim t = t := by
  rw [trim, trimStart_of_head hhead, trimEnd_of_getLast hlast]

theorem isSpace_getLast_of_trim (h : trim t = t) : ∀ a ∈ t.getLast?, isSpace a = false := by
  have := isSpace_getLast_trimEnd (trimStart t)
  rwa [← trim, h] at this

section

variable {run : Text} (hrun : ∀ a ∈ run, isSpace a = true)
include hrun

theorem trimStart_spaces_append (t : Text) : trimStart (run ++ t) = trimStart t :=
  List.dropWhile_append_of_pos hrun

theorem trim_spaces_append (t : Text) : trim (run ++ t) = trim t := by
  rw [trim, trimStart_spaces_append hrun, ← trim]

theorem trimEnd_append_spaces (t : Text) : trimEnd (t ++ run) = trimEnd t := by
  rw [trimEnd, List.reverse_append, List.dropWhile_append_of_pos (by simpa using hrun), ← trimEnd]

theorem trim_append_spaces (t : Text) : trim (t ++ run) = trim t := by
  rw [trim, trimStart, List.dropWhile_append]
  split
  · next hnil =>
      have hnil : trimStart t = [] := List.isEmpty_iff.1 hnil
      rw [trim, hnil, List.dropWhile_eq_nil_iff.2 hrun]
  · rw [trimEnd_append_spaces hrun, trim, trimStart]

end

theorem trimEnd_append_of_getLast {a : Text} (ha : ∀ c ∈ a.getLast?, isSpace c = false)
    (b : Text) :
    trimEnd (a ++ b) = a ++ trimEnd b := by
  have hhead : ∀ c ∈ a.reverse.head?, isSpace c = false := by simpa using ha
  rw [trimEnd, trimEnd, List.reverse_append, List.dropWhile_append]
  split
  · next hnil =>
      have hnil' : b.reverse.dropWhile isSpace = [] := by simpa using hnil
      rw [hnil', ← trimStart, trimStart_of_head hhead, List.reverse_reverse, List.reverse_nil,
        List.append_nil]
  · rw [List.reverse_append, List.reverse_reverse]

theorem trimEnd_append_of_ne_nil {b : Text} (hb : trimEnd b ≠ []) (a : Text) :
    trimEnd (a ++ b) = a ++ trimEnd b := by
  obtain ⟨spaces, hsplit, hspaces⟩ := trimEnd_append b
  have hlast : ∀ c ∈ (a ++ trimEnd b).getLast?, isSpace c = false := by
    rw [List.getLast?_append_of_ne_nil _ hb]
    exact isSpace_getLast_trimEnd b
  calc trimEnd (a ++ b) = trimEnd (a ++ trimEnd b ++ spaces) := by rw [List.append_assoc, ← hsplit]
    _ = a ++ trimEnd b := by rw [trimEnd_append_spaces hspaces, trimEnd_of_getLast hlast]

theorem trim_trim (t : Text) : trim (trim t) = trim t := by
  obtain ⟨spaces, hs, hspaces⟩ := trim_append t
  have hrun : ∀ a ∈ t.takeWhile isSpace, isSpace a = true := fun a ha => List.mem_takeWhile_imp ha
  calc trim (trim t) = trim (t.takeWhile isSpace ++ trim t ++ spaces) := by
        rw [trim_append_spaces hspaces, trim_spaces_append hrun]
    _ = trim t := by rw [← hs]

def spaces : List Nat :=
  [9, 10, 11, 12, 13, 0x20, 0x85, 0xA0, 0x1680, 0x2000, 0x2001, 0x2002, 0x2003, 0x2004, 0x2005,
    0x2006, 0x2007, 0x2008, 0x2009, 0x200A, 0x2028, 0x2029, 0x202F, 0x205F, 0x3000]

theorem toNat_mem_spaces (h : isSpace c = true) : c.toNat ∈ spaces := by
  simp only [isSpace, Bool.or_eq_true, Bool.and_eq_true, decide_eq_true_eq] at h
  simp only [spaces, List.mem_cons, List.not_mem_nil, or_false]
  omega

theorem isWordChar_of_mem_spaces : ∀ n ∈ spaces, isWordChar (Char.ofNat n) = false := by
  decide +kernel

theorem isSpace_of_isWordChar (h : isWordChar c = true) : isSpace c = false := by
  rw [Bool.eq_false_iff]
  intro hs
  have hno := isWordChar_of_mem_spaces c.toNat (toNat_mem_spaces hs)
  rw [Char.ofNat_toNat, h] at hno
  cases hno

theorem isBlank_of_isWordChar (h : isWordChar c = true) : isBlank c = false := by
  rw [Bool.eq_false_iff]
  intro hb
  have := isSpace_of_isBlank hb
  rw [isSpace_of_isWordChar h] at this
  cases this

theorem isWordChar_of_isNameStart (h : isNameStart c = true) : isWordChar c = true := by
  simp only [isNameStart, isLetter, isWordChar, Bool.or_eq_true, decide_eq_true_eq] at h ⊢
  split at h <;> rcases h with h | rfl <;> simp_all [Char.isAlphanum]

end ApiListing.Text
