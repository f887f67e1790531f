import ApiListing.Proofs.Frames
import ApiListing.Proofs.Numerals
import ApiListing.Proofs.Spaces
import Mathlib.Data.Nat.Digits.Defs

namespace ApiListing

variable {ds rest : Text} {n width : Nat} {d : Date}

namespace Text

theorem isSpace_of_isDigit {c : Char} (h : c.isDigit = true) : isSpace c = false := by
  simp only [Char.isDigit, Bool.and_eq_true, decide_eq_true_eq] at h
  have hle : 48 ≤ c.toNat := h.1
  have hge : c.toNat ≤ 57 := h.2
  simp only [isSpace, Bool.or_eq_false_iff, Bool.and_eq_false_iff, decide_eq_false_iff_not]
  omega

theorem natValue_zeros_append (k : Nat) (ds : Text) :
    natValue (List.replicate k '0' ++ ds) = natValue ds := by
  induction k with
  | zero => rfl
  | succ k ih => rw [List.replicate_succ, List.cons_append, ← ih]; rfl

theorem length_ofNat_le (hwidth : 0 < width) (hn : n < 10 ^ width) : (ofNat n).length ≤ width :=
  Nat.toDigits_length 10 n width hwidth hn

theorem ofNat_ne_nil (n : Nat) : ofNat n ≠ [] := Nat.toDigits_ne_nil

end Text

namespace Date

theorem isDigit_of_mem_numberText : ∀ c ∈ numberText width n, c.isDigit = true := by
  intro c hc
  rcases List.mem_append.1 hc with hc | hc
  · rw [List.eq_of_mem_replicate hc]
    decide
  · exact Text.isDigit_of_mem_ofNat c hc

theorem numberText_ne_nil (width n : Nat) : numberText width n ≠ [] := by
  simp [numberText, Text.padded, Text.ofNat_ne_nil]

theorem natValue_numberText (width n : Nat) : Text.natValue (numberText width n) = n := by
  rw [numberText, Text.padded, Text.natValue_zeros_append, Text.natValue_ofNat]

theorem length_numberText (hwidth : 0 < width) (hn : n < 10 ^ width) :
    (numberText width n).length = width := by
  have := Text.length_ofNat_le hwidth hn
  simp only [numberText, Text.padded, List.length_append, List.length_replicate]
  omega

theorem digits?_append (hds : ∀ c ∈ ds, c.isDigit = true) (hne : ds ≠ [])
    (hlength : ds.length ≤ width) (hrest : ∀ c ∈ rest.head?, c.isDigit = false) :
    digits? width (ds ++ rest) = some (Text.natValue ds, rest) := by
  have htake : (ds ++ rest).take width = ds ++ rest.take (width - ds.length) := by
    rw [List.take_append, List.take_of_length_le hlength]
  have hhead : ∀ c ∈ (rest.take (width - ds.length)).head?, c.isDigit = false := by
    intro c hc
    refine hrest c ?_
    rw [List.head?_take] at hc
    split at hc
    · cases hc
    · exact hc
  rw [digits?]
  simp only [htake, Text.takeWhile_run hds hhead, List.drop_left]
  rw [if_neg (by simpa using hne)]

theorem digits?_numberText {width n most : Nat} (hlength : (numberText width n).length ≤ most)
    (hrest : ∀ c ∈ rest.head?, c.isDigit = false) :
    digits? most (numberText width n ++ rest) = some (n, rest) := by
  rw [digits?_append isDigit_of_mem_numberText (numberText_ne_nil width n) hlength hrest,
    natValue_numberText]

theorem head?_numberText_append {c : Char} (hc : c ∈ (numberText width n ++ rest).head?) :
    c.isDigit = true := by
  rw [List.head?_append_of_ne_nil _ (numberText_ne_nil width n)] at hc
  exact isDigit_of_mem_numberText c (List.mem_of_head? hc)

theorem trimStart_numberText (width n : Nat) (rest : Text) :
    Text.trimStart (numberText width n ++ rest) = numberText width n ++ rest :=
  Text.trimStart_of_head fun _ hc => Text.isSpace_of_isDigit (head?_numberText_append hc)

theorem number?_numberText (hwidth : 0 < width) (hn : n < 10 ^ width)
    (hrest : ∀ c ∈ rest.head?, c.isDigit = false) :
    number? width (numberText width n ++ rest) = some (n, rest) := by
  rw [number?, trimStart_numberText, digits?_numberText (length_numberText hwidth hn).le hrest]

/-- A year is read back from its text, with a sign or without. -/
theorem year?_yearText (year : Int) (hrest : ∀ c ∈ rest.head?, c.isDigit = false) :
    year? (yearText year ++ rest) = some (year, rest) := by
  have hsigned : digits? (numberText 4 year.natAbs ++ rest).length
      (numberText 4 year.natAbs ++ rest) = some (year.natAbs, rest) :=
    digits?_numberText (by simp) hrest
  rw [yearText]
  split_ifs with hfour hnegative
  · simp only [Bool.and_eq_true, decide_eq_true_eq] at hfour
    have hlength : (numberText 4 year.natAbs).length ≤ 4 :=
      (length_numberText (by decide) (by omega)).le
    have hhead {c : Char} {t : Text} (h : numberText 4 year.natAbs ++ rest = c :: t) :
        c.isDigit = true := head?_numberText_append (by rw [h]; rfl)
    rw [year?, trimStart_numberText]
    split
    · next h => exact absurd (hhead h) (by decide)
    · next h => exact absurd (hhead h) (by decide)
    · rw [digits?_numberText hlength hrest, Option.map_some]
      exact congrArg some (Prod.ext (Int.natAbs_of_nonneg hfour.1) rfl)
  · have hvalue : -(year.natAbs : Int) = year := by omega
    rw [List.cons_append, year?, Text.trimStart_of_head (by simp +decide)]
    simp only [hsigned, Option.map_some, hvalue]
  · simp only [Bool.and_eq_true, decide_eq_true_eq] at hfour
    have hvalue : (year.natAbs : Int) = year := by omega
    rw [List.cons_append, year?, Text.trimStart_of_head (by simp +decide)]
    simp only [hsigned, Option.map_some, hvalue]

theorem isSpace_of_mem_text : ∀ c ∈ d.text, Text.isSpace c = false := by
  have hnumber {width n : Nat} : ∀ c ∈ numberText width n, Text.isSpace c = false :=
    fun c hc => Text.isSpace_of_isDigit (isDigit_of_mem_numberText c hc)
  have hyear : ∀ c ∈ yearText d.year, Text.isSpace c = false := by
    rw [yearText]
    split_ifs
    · exact hnumber
    · exact List.forall_mem_cons.2 ⟨by decide, hnumber⟩
    · exact List.forall_mem_cons.2 ⟨by decide, hnumber⟩
  rw [text]
  simp only [List.forall_mem_append, List.forall_mem_cons]
  exact ⟨⟨hyear, by decide, hnumber⟩, by decide, hnumber⟩

theorem trim_text (d : Date) : Text.trim d.text = d.text :=
  Text.trim_of_ends (fun c hc => isSpace_of_mem_text c (List.mem_of_head? hc))
    fun c hc => isSpace_of_mem_text c (List.mem_of_getLast? hc)

theorem month_le (h : d.isValid = true) : d.month ≤ 12 ∧ d.day ≤ 31 := by
  have hdays (year : Int) (month : Nat) : daysInMonth year month ≤ 31 := by
    rw [daysInMonth]
    split_ifs <;> omega
  simp only [isValid, Bool.and_eq_true, decide_eq_true_eq] at h
  exact ⟨h.1.1.2, h.2.trans (hdays _ _)⟩

theorem ofText?_text (h : d.isValid = true) : ofText? d.text = some d := by
  obtain ⟨hmonth, hday⟩ := month_le h
  have hhyphen (t : Text) : ∀ c ∈ ('-' :: t).head?, c.isDigit = false :=
    Text.forall_mem_head?_cons (by decide)
  have hlast : number? 2 (numberText 2 d.day ++ []) = some (d.day, []) :=
    number?_numberText (by decide) (by omega) (by simp)
  rw [List.append_nil] at hlast
  rw [ofText?, trim_text, text, List.append_assoc, List.cons_append, year?_yearText _ (hhyphen _)]
  simp only [Option.bind_eq_bind, Option.bind_some, hyphen?, hlast,
    number?_numberText (by decide) (by omega : d.month < 10 ^ 2) (hhyphen _)]
  simp [h]

theorem isValid_of_ofText? {t : Text} (h : ofText? t = some d) : d.isValid = true := by
  obtain ⟨⟨year, behindYear⟩, -, h⟩ := Option.bind_eq_some_iff.1 h
  obtain ⟨afterYear, -, h⟩ := Option.bind_eq_some_iff.1 h
  obtain ⟨⟨month, behindMonth⟩, -, h⟩ := Option.bind_eq_some_iff.1 h
  obtain ⟨afterMonth, -, h⟩ := Option.bind_eq_some_iff.1 h
  obtain ⟨⟨day, rest⟩, -, h⟩ := Option.bind_eq_some_iff.1 h
  obtain ⟨hvalid, hd⟩ := Option.ite_none_right_eq_some.1 h
  cases hd
  exact (Bool.and_eq_true_iff.1 hvalid).2

theorem read_eq_ok_iff {t : Text} : read t = .ok d ↔ ofText? t = some d := by
  rw [read]
  cases ofText? t <;> simp

theorem read_text (h : d.isValid = true) : read d.text = .ok d := read_eq_ok_iff.2 (ofText?_text h)

end Date

theorem Document.metaString?_setMetaString (key text : String) (doc : Document) :
    (doc.setMetaString key text).metaString? key = some text := by
  rw [metaString?, metaValue?_setMetaString, if_pos rfl]
  simp [metaString, Json.get?, Json.str?]

namespace Filter

/-- The stamp of a date is read as that date, so a document stamped with what was read from a text
holds a text for the same date, and stamping that changes nothing. -/
theorem compileDate_reads_back :
    (∀ d : Date, d.isValid = true → Date.read d.text = .ok d) ∧
    ∀ (t : Text) (d : Date) (doc : Document), Date.read t = .ok d →
      d.isValid = true ∧
      ∃ stamp stamped, (compileDate d).apply doc = .ok () stamped ∧
        stamped.metaString? "date" = some stamp ∧ Date.read stamp.toList = .ok d ∧
        ∀ (e : Date) (other : Document), Date.read stamp.toList = .ok e →
          ∃ again, (compileDate e).apply other = .ok () again ∧
            again.metaString? "date" = some stamp := by
  refine ⟨fun d h => Date.read_text h, fun t d doc h => ?_⟩
  have hvalid := Date.isValid_of_ofText? (Date.read_eq_ok_iff.1 h)
  have hstamp : Date.read (String.ofList d.text).toList = .ok d := by
    rw [String.toList_ofList, Date.read_text hvalid]
  refine ⟨hvalid, String.ofList d.text, _, compileDate_apply d doc,
    Document.metaString?_setMetaString .., hstamp, fun e other he => ?_⟩
  obtain rfl : d = e := Except.ok.inj (hstamp.symm.trans he)
  exact ⟨_, compileDate_apply d other, Document.metaString?_setMetaString ..⟩

theorem compileDate_reads_back_leapDay :
    (Date.isValid ⟨-44, 3, 15⟩ = true ∧ Date.read "-0044-03-15".toList = .ok ⟨-44, 3, 15⟩) ∧
    Date.read "\t-0-2- 29 ".toList = .ok ⟨0, 2, 29⟩ ∧
    ∃ stamp stamped, (compileDate ⟨0, 2, 29⟩).apply ⟨[1, 23], [], []⟩ = .ok () stamped ∧
      stamped.metaString? "date" = some stamp ∧ Date.read stamp.toList = .ok ⟨0, 2, 29⟩ := by
  have hday : Date.isValid ⟨-44, 3, 15⟩ = true := by decide
  have hread : Date.read "\t-0-2- 29 ".toList = .ok ⟨0, 2, 29⟩ := by decide
  obtain ⟨-, stamp, stamped, happly, hstamp, hback, -⟩ :=
    compileDate_reads_back.2 _ _ ⟨[1, 23], [], []⟩ hread
  exact ⟨⟨hday, compileDate_reads_back.1 _ hday⟩, hread, stamp, stamped, happly, hstamp, hback⟩

end Filter

end ApiListing
