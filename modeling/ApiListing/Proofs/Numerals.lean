import ApiListing.Json.NumberReader
import ApiListing.Proofs.Readers

namespace ApiListing

variable {n s : Nat} {ds : Text} {rest : Json.Bytes}

namespace Text

theorem isDigit_of_mem_ofNat : ∀ c ∈ ofNat n, c.isDigit = true :=
  fun _ hc => Nat.isDigit_of_mem_toDigits (by decide) (by decide) hc

theorem toNat_lt_of_isDigit {c : Char} (h : c.isDigit = true) : c.toNat < 128 := by
  simp only [Char.isDigit, Bool.and_eq_true, decide_eq_true_eq] at h
  have : c.val.toNat ≤ 57 := h.2
  exact Nat.lt_of_le_of_lt this (by decide)

theorem natValue_ofNat (n : Nat) : natValue (ofNat n) = n := by
  have hfold : natValue (ofNat n) = Nat.ofDigitChars 10 (Nat.toDigits 10 n) 0 := by
    simp only [natValue, ofNat, Nat.ofDigitChars, digitValue, Nat.mul_comm]
  rw [hfold, Nat.ofDigitChars_ten_toDigits]

theorem ofNat_eq_cons (hn : 0 < n) : ∃ c ds, ofNat n = c :: ds ∧ c ≠ '0' := by
  induction n using Nat.strongRecOn with
  | ind n ih =>
      rw [ofNat, Nat.toDigits_eq_if (by decide)]
      split_ifs with hlt
      · refine ⟨n.digitChar, [], rfl, ?_⟩
        have hdigit : ∀ m < 10, 0 < m → m.digitChar ≠ '0' := by decide
        exact hdigit n hlt hn
      · obtain ⟨c, ds, hdigits, hc⟩ := ih (n / 10) (by omega) (by omega)
        rw [ofNat] at hdigits
        rw [hdigits]
        exact ⟨c, _, rfl, hc⟩

end Text

namespace Json

open Text (octets)

def appended (s : Nat) (ds : Text) : Nat := ds.foldl (fun n c => n * 10 + Text.digitValue c) s

theorem le_appended (s : Nat) (ds : Text) : s ≤ appended s ds := by
  induction ds generalizing s with
  | nil => exact Nat.le_refl s
  | cons c ds ih => exact Nat.le_trans (by omega) (ih (s * 10 + Text.digitValue c))

theorem absorb_of_le (h : appended s ds ≤ maxSignificand) :
    absorb s ds = (appended s ds, ds.length) := by
  induction ds generalizing s with
  | nil => rfl
  | cons c ds ih =>
      have hmore : s * 10 + Text.digitValue c ≤ maxSignificand :=
        Nat.le_trans (le_appended _ ds) h
      rw [absorb]
      simp only [if_pos hmore, ih h, List.length_cons]
      rfl

/-- Nothing of a number follows. -/
def EndsNumber (rest : Bytes) : Prop :=
  ∀ b ∈ rest.head?, (charOf b).isDigit = false ∧ charOf b ≠ '.' ∧
    Reader.isExponentLetter (some (charOf b)) = false

namespace Reader

theorem peek_endsNumber (h : EndsNumber rest) :
    ∃ c, peek rest = .ok (c, rest) ∧ c.any Char.isDigit = false ∧ c ≠ some '.' ∧
      isExponentLetter c = false := by
  refine ⟨rest.head?.map charOf, rfl, ?_⟩
  cases rest with
  | nil => simp [isExponentLetter]
  | cons b rest => simpa using h b rfl

theorem afterDigits_of_ends (h : EndsNumber rest) (negative : Bool) (n : Nat) :
    afterDigits negative n 0 rest =
      if !negative then .ok (.int n, rest)
      else if n = 0 || -n < minInteger then floatOf negative n 0 rest
      else .ok (.int (-n), rest) := by
  obtain ⟨c, hpeek, -, hpoint, hexponent⟩ := peek_endsNumber h
  rw [afterDigits, bind_of_ok hpeek, if_neg hpoint]
  simp only [hexponent, Bool.false_eq_true, if_false, ne_eq, not_true_eq_false]
  split_ifs <;> rfl

theorem number_ofNat (hn : n ≤ maxSignificand) (h : EndsNumber rest) (negative : Bool) :
    number negative (octets (Text.ofNat n) ++ rest) = afterDigits negative n 0 rest := by
  rcases Nat.eq_zero_or_pos n with rfl | hpos
  · obtain ⟨c, hpeek, hdigit, -, -⟩ := peek_endsNumber h
    have hzero : Text.ofNat 0 = ['0'] := by decide
    have hnone : peekDigit rest = .ok (false, rest) := by
      rw [peekDigit, bind_of_ok hpeek, hdigit]
      rfl
    rw [hzero, number, bind_of_ok (next_octets (by decide) [] rest)]
    simp only [if_true]
    rw [Text.octets_nil, List.nil_append, bind_of_ok hnone]
    simp
  · obtain ⟨c, ds, hdigits, hc⟩ := Text.ofNat_eq_cons hpos
    have hall : ∀ a ∈ c :: ds, a.isDigit = true := hdigits ▸ Text.isDigit_of_mem_ofNat
    have hascii : ∀ a ∈ c :: ds, a.toNat < 128 := fun a ha => Text.toNat_lt_of_isDigit (hall a ha)
    simp only [List.forall_mem_cons] at hall hascii
    have hrun : takeWhile Char.isDigit (octets ds ++ rest) = .ok (ds, rest) :=
      takeWhile_octets hall.2 hascii.2 fun b hb => (h b hb).1
    have habsorb : absorb 0 (c :: ds) = (n, (c :: ds).length) := by
      have hvalue : appended 0 (c :: ds) = n := hdigits ▸ Text.natValue_ofNat n
      rw [absorb_of_le (hvalue ▸ hn), hvalue]
    rw [hdigits, number, bind_of_ok (next_octets hascii.1 ds rest)]
    simp only [if_neg hc, hall.1, if_true]
    rw [bind_of_ok hrun, habsorb, Nat.sub_self]

/-- A natural number of 64 bits is read back. -/
theorem number_natural (hn : n ≤ maxSignificand) (h : EndsNumber rest) :
    number false (octets (Text.ofNat n) ++ rest) = .ok (.int n, rest) := by
  rw [number_ofNat hn h, afterDigits_of_ends h]
  rfl

theorem number_negative (hn : 0 < n) (hmin : minInteger ≤ -n) (h : EndsNumber rest) :
    number true (octets (Text.ofNat n) ++ rest) = .ok (.int (-n), rest) := by
  have hmax : n ≤ maxSignificand := by
    have : minInteger = -9223372036854775808 := by decide
    have : maxSignificand = 18446744073709551615 := by decide
    omega
  have hfits : (n = 0 || -(n : Int) < minInteger) = false := by
    simp only [Bool.or_eq_false_iff, decide_eq_false_iff_not]
    omega
  rw [number_ofNat hmax h, afterDigits_of_ends h, hfits]
  rfl

end Reader

end Json

end ApiListing
