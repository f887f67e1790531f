import ApiListing.Json.StringReader
import ApiListing.Json.Writer
import ApiListing.Proofs.Lines

namespace ApiListing

variable {c : Char} {rest : Json.Bytes}

namespace Text

def octets (t : Text) : Json.Bytes := t.flatMap String.utf8EncodeChar

@[simp] theorem octets_nil : octets [] = [] := rfl

theorem octets_cons (c : Char) (t : Text) :
    octets (c :: t) = String.utf8EncodeChar c ++ octets t := rfl

@[simp] theorem octets_append (s t : Text) : octets (s ++ t) = octets s ++ octets t :=
  List.flatMap_append

theorem octets_ascii (hc : c.toNat < 128) (t : Text) :
    octets (c :: t) = UInt8.ofNat c.toNat :: octets t := by
  have hv : c.val.toNat ≤ 127 := Nat.le_of_lt_succ hc
  rw [octets_cons, String.utf8EncodeChar, if_pos hv]
  rfl

theorem length_le_octets (t : Text) : t.length ≤ (octets t).length := by
  induction t with
  | nil => exact Nat.zero_le _
  | cons c t ih =>
      have := c.utf8Size_pos
      rw [octets_cons, List.length_append, String.length_utf8EncodeChar, List.length_cons]
      omega

theorem fromUTF8?_octets (t : Text) :
    String.fromUTF8? ⟨(octets t).toArray⟩ = some (String.ofList t) := by
  have hbytes : (⟨(octets t).toArray⟩ : ByteArray) = t.utf8Encode := by
    rw [ByteArray.ext_iff, List.utf8Encode, List.data_toByteArray, octets]
  rw [hbytes, String.fromUTF8?, dif_pos (ByteArray.IsValidUTF8.intro t rfl)]
  rfl

end Text

namespace Json

open Text (octets octets_ascii)

theorem charOf_ofNat (hc : c.toNat < 128) : charOf (UInt8.ofNat c.toNat) = c := by
  have hn : (UInt8.ofNat c.toNat).toNat = c.toNat := by
    rw [UInt8.toNat_ofNat']
    omega
  rw [charOf, hn, Char.ofNat_toNat]

theorem toNat_charOf (b : UInt8) : (charOf b).toNat = b.toNat := by
  have hb := b.toNat_lt
  have hvalid : b.toNat.isValidChar := Or.inl (by omega)
  rw [charOf, Char.ofNat, dif_pos hvalid]
  rfl

def IsVerbatim (b : UInt8) : Prop := charOf b ≠ '"' ∧ charOf b ≠ '\\' ∧ ¬ b < 0x20

theorem le_of_mem_utf8EncodeChar (hc : 128 ≤ c.toNat) :
    ∀ b ∈ String.utf8EncodeChar c, 128 ≤ b.toNat := by
  have hv : ¬ c.val.toNat ≤ 127 := Nat.not_le.2 hc
  have hmax : c.val.toNat < 0x110000 := by
    have := c.valid
    simp only [UInt32.isValidChar, Nat.isValidChar] at this
    omega
  intro b hb
  rw [String.utf8EncodeChar, if_neg hv] at hb
  split_ifs at hb <;> simp only [List.mem_cons, List.not_mem_nil, or_false] at hb
  all_goals
    rcases hb with rfl | rfl | rfl | rfl <;> rw [UInt8.toNat_ofNat'] <;> omega

theorem isVerbatim_of_le {b : UInt8} (hb : 128 ≤ b.toNat) : IsVerbatim b := by
  have hchar := toNat_charOf b
  refine ⟨fun h => ?_, fun h => ?_, fun h => ?_⟩
  · rw [h] at hchar
    have : ('"').toNat = 34 := rfl
    omega
  · rw [h] at hchar
    have : ('\\').toNat = 92 := rfl
    omega
  · have : b.toNat < 32 := h
    omega

theorem isVerbatim_utf8EncodeChar (hquote : c ≠ '"') (hbackslash : c ≠ '\\')
    (hcontrol : 0x20 ≤ c.toNat) : ∀ b ∈ String.utf8EncodeChar c, IsVerbatim b := by
  intro b hb
  by_cases hc : c.toNat < 128
  · have hone : String.utf8EncodeChar c = [UInt8.ofNat c.toNat] := by
      simpa [Text.octets_cons] using octets_ascii hc []
    rw [hone, List.mem_singleton] at hb
    subst hb
    have hb : ¬ UInt8.ofNat c.toNat < 0x20 := by
      rw [UInt8.lt_iff_toNat_lt, UInt8.toNat_ofNat', Nat.not_lt]
      have : (0x20 : UInt8).toNat = 32 := rfl
      omega
    rw [IsVerbatim, charOf_ofNat hc]
    exact ⟨hquote, hbackslash, hb⟩
  · exact isVerbatim_of_le (le_of_mem_utf8EncodeChar (Nat.le_of_not_lt hc) b hb)

theorem stringBytes_verbatim {bs : Bytes} (hbs : ∀ b ∈ bs, IsVerbatim b) (rest : Bytes) :
    stringBytes (bs ++ rest) = (stringBytes rest).map fun r => (bs ++ r.1, r.2) := by
  induction bs with
  | nil => cases h : stringBytes rest <;> simp [h, Except.map]
  | cons b bs ih =>
      obtain ⟨hquote, hbackslash, hcontrol⟩ := hbs b (List.mem_cons_self ..)
      rw [List.cons_append, stringBytes, if_neg hquote, if_neg hbackslash, if_neg hcontrol,
        ih fun a ha => hbs a (List.mem_cons_of_mem _ ha)]
      cases stringBytes rest <;> rfl

/-- The letters of an escape, without its backslash, are read as one character. -/
def Escapes (letters : Text) (c : Char) : Prop :=
  ∀ rest, escape (octets letters ++ rest) = .ok (c, (octets letters).length)

theorem stringBytes_escape {letters : Text} (h : Escapes letters c) (rest : Bytes) :
    stringBytes (octets ('\\' :: letters) ++ rest) =
      (stringBytes rest).map fun r => (String.utf8EncodeChar c ++ r.1, r.2) := by
  have hbackslash : octets ('\\' :: letters) = 0x5c :: octets letters :=
    octets_ascii (by decide) letters
  rw [hbackslash, List.cons_append, stringBytes, if_neg (by decide), if_pos (by decide), h rest]
  simp only [List.drop_left]

theorem escapes_letter {letter : Char} (hascii : letter.toNat < 128)
    (h : simpleEscape? letter = some c) : Escapes [letter] c := by
  intro rest
  rw [octets_ascii hascii, List.cons_append, escape, charOf_ofNat hascii, h]
  rfl

theorem hexNumber_append {s : Bytes} {n : Nat} (h : hexNumber s = .ok n) (rest : Bytes) :
    hexNumber (s ++ rest) = .ok n := by
  unfold hexNumber at h
  split at h
  · next a b c d tail =>
      rw [List.cons_append, List.cons_append, List.cons_append, List.cons_append, hexNumber]
      split at h
      · exact h
      · cases h
  · cases h

theorem hexNumber_padded : ∀ n < 0x20, hexNumber (octets (Text.padded 4 (Text.hex n))) = .ok n ∧
    (octets (Text.padded 4 (Text.hex n))).length = 4 := by
  decide

theorem escapes_number (hc : c.toNat < 0x20) :
    Escapes ('u' :: Text.padded 4 (Text.hex c.toNat)) c := by
  intro rest
  obtain ⟨hnumber, hlength⟩ := hexNumber_padded c.toNat hc
  have hu : octets ('u' :: Text.padded 4 (Text.hex c.toNat)) =
      0x75 :: octets (Text.padded 4 (Text.hex c.toNat)) := octets_ascii (by decide) _
  have htrailing : isTrailingSurrogate c.toNat = false := by
    simp only [isTrailingSurrogate, Bool.and_eq_false_iff, decide_eq_false_iff_not]
    omega
  have hleading : isLeadingSurrogate c.toNat = false := by
    simp only [isLeadingSurrogate, Bool.and_eq_false_iff, decide_eq_false_iff_not]
    omega
  have hunicode : unicodeEscape (octets (Text.padded 4 (Text.hex c.toNat)) ++ rest) =
      .ok (c, 4) := by
    rw [unicodeEscape, hexNumber_append hnumber]
    simp [bind, Except.bind, pure, Except.pure, htrailing, hleading, Char.ofNat_toNat]
  rw [hu, List.cons_append, escape, (by decide : simpleEscape? (charOf 0x75) = none)]
  simp only [(by decide : charOf 0x75 = 'u'), if_true, hunicode, List.length_cons, hlength]
  rfl

/-- A character is written by its escape or stands for itself. -/
theorem charText_cases (c : Char) :
    (∃ letters, charText c = '\\' :: letters ∧ Escapes letters c) ∨
      (charText c = [c] ∧ ∀ b ∈ String.utf8EncodeChar c, IsVerbatim b) := by
  unfold charText
  split_ifs with hquote hbackslash hb hf hn hr ht hcontrol
  · subst hquote
    exact Or.inl ⟨['"'], by decide, escapes_letter (by decide) (by decide)⟩
  · subst hbackslash
    exact Or.inl ⟨['\\'], by decide, escapes_letter (by decide) (by decide)⟩
  · subst hb
    exact Or.inl ⟨['b'], by decide, escapes_letter (by decide) (by decide)⟩
  · subst hf
    exact Or.inl ⟨['f'], by decide, escapes_letter (by decide) (by decide)⟩
  · subst hn
    exact Or.inl ⟨['n'], by decide, escapes_letter (by decide) (by decide)⟩
  · subst hr
    exact Or.inl ⟨['r'], by decide, escapes_letter (by decide) (by decide)⟩
  · subst ht
    exact Or.inl ⟨['t'], by decide, escapes_letter (by decide) (by decide)⟩
  · refine Or.inl ⟨'u' :: Text.padded 4 (Text.hex c.toNat), ?_, escapes_number hcontrol⟩
    rw [numberedEscape, (by decide : "\\u".toList = ['\\', 'u'])]
    rfl
  · exact Or.inr ⟨rfl, isVerbatim_utf8EncodeChar hquote hbackslash (Nat.le_of_not_lt hcontrol)⟩

theorem stringBytes_charText (c : Char) (rest : Bytes) :
    stringBytes (octets (charText c) ++ rest) =
      (stringBytes rest).map fun r => (String.utf8EncodeChar c ++ r.1, r.2) := by
  rcases charText_cases c with ⟨letters, htext, hescape⟩ | ⟨htext, hverbatim⟩
  · rw [htext, stringBytes_escape hescape]
  · rw [htext, Text.octets_cons, Text.octets_nil, List.append_nil, stringBytes_verbatim hverbatim]

theorem stringBytes_chars (t : Text) (rest : Bytes) :
    stringBytes (octets ((t.map charText).flatten ++ ['"']) ++ rest) = .ok (octets t, rest) := by
  have hquote : octets ['"'] = [0x22] := octets_ascii (by decide) []
  rw [Text.octets_append, List.append_assoc, hquote]
  induction t with
  | nil =>
      rw [List.map_nil, List.flatten_nil, Text.octets_nil, List.nil_append, List.singleton_append,
        stringBytes, if_pos (by decide)]
  | cons c t ih =>
      rw [List.map_cons, List.flatten_cons, Text.octets_append, List.append_assoc,
        stringBytes_charText, ih]
      rfl

/-- A string is read back from its written text, without the quote that opens it. -/
theorem string_chars (s : String) (rest : Bytes) :
    Reader.string (octets ((s.toList.map charText).flatten ++ ['"']) ++ rest) = .ok (s, rest) := by
  rw [Reader.string, stringBytes_chars]
  simp only [Text.fromUTF8?_octets, String.ofList_toList]

end Json

end ApiListing
