import ApiListing.Json.ValueReader
import ApiListing.Proofs.Numerals
import ApiListing.Proofs.Values

namespace ApiListing.Json

open Text (octets)

variable {v w : Json} {vs : List Json} {fs : List (String × Json)} {s u rest : Bytes}
  {bound n : Nat}

def itemsTail : List Json → Text
  | [] => []
  | v :: vs => ',' :: (v.text ++ itemsTail vs)

def fieldText (f : String × Json) : Text := stringText f.1 ++ ':' :: f.2.text

def fieldsTail : List (String × Json) → Text
  | [] => []
  | f :: fs => ',' :: (fieldText f ++ fieldsTail fs)

theorem itemsText_cons (v : Json) (vs : List Json) :
    itemsText (v :: vs) = v.text ++ itemsTail vs := by
  induction vs generalizing v with
  | nil => simp [itemsText, itemsTail]
  | cons w vs ih => rw [itemsText, ih, itemsTail]; simp

theorem fieldsText_cons (f : String × Json) (fs : List (String × Json)) :
    fieldsText (f :: fs) = fieldText f ++ fieldsTail fs := by
  induction fs generalizing f with
  | nil => simp [fieldsText, fieldsTail, fieldText]
  | cons g fs ih =>
      rw [fieldsText, ih, fieldsTail]
      · simp [fieldText]
      · simp

theorem length_le_of_mem_itemsTail (h : v ∈ vs) : v.text.length ≤ (itemsTail vs).length := by
  induction vs with
  | nil => cases h
  | cons w vs ih =>
      rw [itemsTail, List.length_cons, List.length_append]
      rcases List.mem_cons.1 h with rfl | h
      · omega
      · have := ih h
        omega

theorem length_le_of_mem_fieldsTail {f : String × Json} (h : f ∈ fs) :
    f.2.text.length ≤ (fieldsTail fs).length := by
  induction fs with
  | nil => cases h
  | cons g fs ih =>
      rw [fieldsTail, List.length_cons, List.length_append]
      rcases List.mem_cons.1 h with rfl | h
      · simp only [fieldText, List.length_append, List.length_cons]
        omega
      · have := ih h
        omega

theorem length_le_itemsTail (vs : List Json) : vs.length ≤ (itemsTail vs).length := by
  induction vs with
  | nil => exact Nat.le_refl 0
  | cons v vs ih => rw [itemsTail, List.length_cons, List.length_cons, List.length_append]; omega

theorem length_le_fieldsTail (fs : List (String × Json)) : fs.length ≤ (fieldsTail fs).length := by
  induction fs with
  | nil => exact Nat.le_refl 0
  | cons f fs ih => rw [fieldsTail, List.length_cons, List.length_cons, List.length_append]; omega

theorem text_arr (vs : List Json) : text (arr vs) = '[' :: (itemsText vs ++ [']']) := by
  rw [text]
  rfl

theorem text_obj (fs : List (String × Json)) :
    text (obj fs) = '\x7b' :: (fieldsText fs ++ ['\x7d']) := by
  rw [text]
  rfl

theorem length_lt_text_arr (vs : List Json) :
    vs.length < (text (arr vs)).length ∧ ∀ v ∈ vs, v.text.length < (text (arr vs)).length := by
  rw [text_arr, List.length_cons, List.length_append, List.length_singleton]
  cases vs with
  | nil => simp
  | cons v vs =>
      have hlength := length_le_itemsTail vs
      rw [itemsText_cons, List.length_append, List.length_cons]
      refine ⟨by omega, List.forall_mem_cons.2 ⟨by omega, fun w hw => ?_⟩⟩
      have := length_le_of_mem_itemsTail hw
      omega

theorem length_lt_text_obj (fs : List (String × Json)) :
    fs.length < (text (obj fs)).length ∧ ∀ f ∈ fs, f.2.text.length < (text (obj fs)).length := by
  rw [text_obj, List.length_cons, List.length_append, List.length_singleton]
  cases fs with
  | nil => simp
  | cons f fs =>
      have hlength := length_le_fieldsTail fs
      have hfield : f.2.text.length ≤ (fieldText f).length := by
        simp only [fieldText, List.length_append, List.length_cons]
        omega
      rw [fieldsText_cons, List.length_append, List.length_cons]
      refine ⟨by omega, List.forall_mem_cons.2 ⟨by omega, fun g hg => ?_⟩⟩
      have := length_le_of_mem_fieldsTail hg
      omega

def IsOpening (c : Char) : Prop :=
  c.toNat < 128 ∧ Reader.isJsonSpace c = false ∧ c ≠ ']'

instance : DecidablePred IsOpening := fun c =>
  inferInstanceAs (Decidable (c.toNat < 128 ∧ Reader.isJsonSpace c = false ∧ c ≠ ']'))

theorem isOpening_of_isDigit {c : Char} (h : c.isDigit = true) : IsOpening c := by
  refine ⟨Text.toNat_lt_of_isDigit h, ?_, ?_⟩
  · rw [Bool.eq_false_iff]
    intro hspace
    simp only [Reader.isJsonSpace, Bool.or_eq_true, decide_eq_true_eq] at hspace
    rcases hspace with ((rfl | rfl) | rfl) | rfl <;> revert h <;> decide
  · rintro rfl
    revert h
    decide

theorem text_eq_cons (h : v.IsPlain) : ∃ c t, v.text = c :: t ∧ IsOpening c := by
  cases h with
  | null => exact ⟨'n', _, by rw [text]; rfl, by decide⟩
  | bool b =>
      cases b
      · exact ⟨'f', _, by rw [text]; rfl, by decide⟩
      · exact ⟨'t', _, by rw [text]; rfl, by decide⟩
  | @int n _ _ =>
      rw [text, intText]
      split_ifs
      · exact ⟨'-', _, rfl, by decide⟩
      · obtain ⟨c, ds, hdigits⟩ := List.exists_cons_of_ne_nil (Nat.toDigits_ne_nil (n := n.natAbs))
        refine ⟨c, ds, hdigits, isOpening_of_isDigit ?_⟩
        exact Text.isDigit_of_mem_ofNat c (hdigits ▸ List.mem_cons_self ..)
  | str s => exact ⟨'"', _, by rw [text]; rfl, by decide⟩
  | arr _ => exact ⟨'[', _, by rw [text]; rfl, by decide⟩
  | obj _ _ => exact ⟨'\x7b', _, by rw [text]; rfl, by decide⟩

theorem endsNumber_octets {c : Char} (hc : c = ',' ∨ c = ']' ∨ c = '\x7d') (t : Text)
    (rest : Bytes) : EndsNumber (octets (c :: t) ++ rest) := by
  have hascii : c.toNat < 128 := by rcases hc with rfl | rfl | rfl <;> decide
  rw [EndsNumber, Text.octets_ascii hascii]
  intro b hb
  cases hb
  rw [charOf_ofNat hascii]
  rcases hc with rfl | rfl | rfl <;> decide

theorem endsNumber_itemsTail (vs : List Json) (rest : Bytes) :
    EndsNumber (octets (itemsTail vs ++ [']']) ++ rest) := by
  cases vs with
  | nil => exact endsNumber_octets (by decide) [] rest
  | cons v vs => exact endsNumber_octets (by decide) _ rest

theorem endsNumber_fieldsTail (fs : List (String × Json)) (rest : Bytes) :
    EndsNumber (octets (fieldsTail fs ++ ['\x7d']) ++ rest) := by
  cases fs with
  | nil => exact endsNumber_octets (by decide) [] rest
  | cons f fs => exact endsNumber_octets (by decide) _ rest

namespace Reader

variable {inner? : Option (Reader Json)} {inner : Reader Json}

theorem word_octets {t : Text} (hascii : t.all fun c => c.toNat < 128) (rest : Bytes) :
    word t (octets t ++ rest) = .ok ((), rest) := by
  induction t with
  | nil => rfl
  | cons c t ih =>
      rw [List.all_cons, Bool.and_eq_true, decide_eq_true_eq] at hascii
      rw [word, bind_of_ok (next_octets hascii.1 t rest)]
      simp only [if_true]
      exact ih hascii.2

theorem node_null (rest : Bytes) :
    node inner? bound (octets (text null) ++ rest) = .ok (null, rest) := by
  have htext : text null = 'n' :: "ull".toList := by rw [text]; rfl
  unfold node
  rw [htext, bind_of_ok (start_octets (by decide) (by decide) _ _)]
  simp only [if_true]
  rw [bind_of_ok (skip_octets (by decide) _ _), bind_of_ok (word_octets (by decide) _)]
  rfl

theorem node_bool (b : Bool) (rest : Bytes) :
    node inner? bound (octets (text (.bool b)) ++ rest) = .ok (.bool b, rest) := by
  unfold node
  cases b with
  | false =>
      have htext : text (.bool false) = 'f' :: "alse".toList := by rw [text]; rfl
      rw [htext, bind_of_ok (start_octets (by decide) (by decide) _ _)]
      simp only [Char.reduceEq, if_false, if_true]
      rw [bind_of_ok (skip_octets (by decide) _ _), bind_of_ok (word_octets (by decide) _)]
      rfl
  | true =>
      have htext : text (.bool true) = 't' :: "rue".toList := by rw [text]; rfl
      rw [htext, bind_of_ok (start_octets (by decide) (by decide) _ _)]
      simp only [Char.reduceEq, if_false, if_true]
      rw [bind_of_ok (skip_octets (by decide) _ _), bind_of_ok (word_octets (by decide) _)]
      rfl

theorem node_int {n : Int} (hmin : minInteger ≤ n) (hmax : n ≤ maxSignificand)
    (hrest : EndsNumber rest) :
    node inner? bound (octets (text (.int n)) ++ rest) = .ok (.int n, rest) := by
  unfold node
  rw [text, intText]
  split_ifs with hn
  · have hvalue : -(n.natAbs : Int) = n := by omega
    rw [bind_of_ok (start_octets (by decide) (by decide) _ _)]
    simp only [Char.reduceEq, if_false, if_true]
    rw [bind_of_ok (skip_octets (by decide) _ _),
      number_negative (by omega) (by omega) hrest, hvalue]
  · have hvalue : (n.natAbs : Int) = n := by omega
    obtain ⟨c, ds, hdigits⟩ :
        ∃ c ds, Text.ofNat n.natAbs = c :: ds := List.exists_cons_of_ne_nil Nat.toDigits_ne_nil
    have hc : c.isDigit = true := Text.isDigit_of_mem_ofNat c (hdigits ▸ List.mem_cons_self ..)
    obtain ⟨hascii, hspace, -⟩ := isOpening_of_isDigit hc
    have hletter : c ≠ 'n' ∧ c ≠ 't' ∧ c ≠ 'f' ∧ c ≠ '-' := by
      refine ⟨?_, ?_, ?_, ?_⟩ <;> rintro rfl <;> revert hc <;> decide
    rw [hdigits, bind_of_ok (start_octets hascii hspace _ _)]
    simp only [hletter, if_false, hc, if_true]
    rw [← hdigits, number_natural (by omega) hrest, hvalue]

theorem node_str (s : String) (rest : Bytes) :
    node inner? bound (octets (text (.str s)) ++ rest) = .ok (.str s, rest) := by
  unfold node
  rw [text, stringText, List.append_assoc, List.singleton_append,
    bind_of_ok (start_octets (by decide) (by decide) _ _)]
  simp only [Char.reduceEq, if_false, if_true, (by decide : ('"').isDigit = false),
    Bool.false_eq_true]
  rw [bind_of_ok (skip_octets (by decide) _ _), bind_of_ok (string_chars s rest)]
  rfl

theorem node_arr (h : list inner bound u = .ok (vs, rest)) :
    node (some inner) bound (octets ['['] ++ u) = .ok (.arr vs, rest) := by
  unfold node
  rw [bind_of_ok (start_octets (by decide) (by decide) _ _)]
  simp only [Char.reduceEq, if_false, if_true, (by decide : '['.isDigit = false),
    Bool.false_eq_true]
  rw [bind_of_ok (skip_octets (by decide) _ _), Text.octets_nil, List.nil_append, bind_of_ok h]
  rfl

theorem node_obj (h : object string inner bound u = .ok (fs, rest)) :
    node (some inner) bound (octets ['\x7b'] ++ u) = .ok (.obj fs, rest) := by
  unfold node
  rw [bind_of_ok (start_octets (by decide) (by decide) _ _)]
  simp only [Char.reduceEq, if_false, if_true, (by decide : ('\x7b').isDigit = false),
    Bool.false_eq_true]
  rw [bind_of_ok (skip_octets (by decide) _ _), Text.octets_nil, List.nil_append, bind_of_ok h]
  rfl

/-- The text of a value is read as that value, unless more of a number follows. -/
def Reads (r : Reader Json) (v : Json) : Prop :=
  ∀ rest, EndsNumber rest → r (octets v.text ++ rest) = .ok (v, rest)

theorem anotherItem_end (first : Bool) (rest : Bytes) :
    anotherItem first (octets [']'] ++ rest) = .ok (false, octets [']'] ++ rest) := by
  rw [anotherItem, bind_of_ok (start_octets (by decide) (by decide) _ _)]
  rfl

theorem anotherItem_first {c : Char} (hc : IsOpening c) (t : Text) (rest : Bytes) :
    anotherItem true (octets (c :: t) ++ rest) = .ok (true, octets (c :: t) ++ rest) := by
  rw [anotherItem, bind_of_ok (start_octets hc.1 hc.2.1 t rest)]
  generalize hx : some c = x
  split
  · cases hx
  · exact absurd (Option.some.inj hx) hc.2.2
  · rfl

theorem anotherItem_comma {c : Char} (hc : IsOpening c) (t : Text) (rest : Bytes) :
    anotherItem false (octets (',' :: c :: t) ++ rest) = .ok (true, octets (c :: t) ++ rest) := by
  rw [anotherItem, bind_of_ok (start_octets (by decide) (by decide) _ _)]
  change (skip >>= _) _ = _
  rw [bind_of_ok (skip_octets (by decide) _ _), bind_of_ok (start_octets hc.1 hc.2.1 t rest)]
  generalize hx : some c = x
  split
  · exact absurd (Option.some.inj hx) hc.2.2
  · rfl
  · cases hx

theorem listEnd_octets (rest : Bytes) : listEnd (octets [']'] ++ rest) = .ok ((), rest) := by
  rw [listEnd, bind_of_ok (start_octets (by decide) (by decide) _ _)]
  exact skip_octets (by decide) [] rest

theorem items_of_another {first : Bool} (h : anotherItem first s = .ok (true, octets v.text ++ u))
    (hreads : Reads inner v) (hu : EndsNumber u)
    (htail : items inner bound false u = .ok (vs, rest)) :
    items inner (bound + 1) first s = .ok (v :: vs, rest) := by
  rw [items, bind_of_ok h]
  simp only [if_true]
  rw [bind_of_ok (hreads u hu), bind_of_ok htail]
  rfl

theorem items_of_end {first : Bool} (rest : Bytes) :
    items inner (bound + 1) first (octets [']'] ++ rest) = .ok ([], octets [']'] ++ rest) := by
  rw [items, bind_of_ok (anotherItem_end first rest)]
  rfl

theorem items_tail (hplain : ∀ v ∈ vs, v.IsPlain) (hreads : ∀ v ∈ vs, Reads inner v)
    (hbound : vs.length < bound) (rest : Bytes) :
    items inner bound false (octets (itemsTail vs ++ [']']) ++ rest) =
      .ok (vs, octets [']'] ++ rest) := by
  induction vs generalizing bound with
  | nil =>
      obtain ⟨bound, rfl⟩ : ∃ b, bound = b + 1 := Nat.exists_eq_succ_of_ne_zero (by omega)
      exact items_of_end rest
  | cons v vs ih =>
      rw [List.forall_mem_cons] at hplain hreads
      obtain ⟨bound, rfl⟩ : ∃ b, bound = b + 1 := Nat.exists_eq_succ_of_ne_zero (by omega)
      obtain ⟨c, t, htext, hc⟩ := text_eq_cons hplain.1
      have hanother : anotherItem false (octets (itemsTail (v :: vs) ++ [']']) ++ rest) =
          .ok (true, octets v.text ++ (octets (itemsTail vs ++ [']']) ++ rest)) := by
        rw [itemsTail, List.cons_append, List.append_assoc, htext, List.cons_append,
          anotherItem_comma hc, ← List.cons_append, Text.octets_append, List.append_assoc]
      exact items_of_another hanother hreads.1 (endsNumber_itemsTail vs rest)
        (ih hplain.2 hreads.2 (by simpa using hbound))

theorem list_itemsText (hplain : ∀ v ∈ vs, v.IsPlain) (hreads : ∀ v ∈ vs, Reads inner v)
    (hbound : vs.length < bound) (rest : Bytes) :
    list inner bound (octets (itemsText vs ++ [']']) ++ rest) = .ok (vs, rest) := by
  have hitems : items inner bound true (octets (itemsText vs ++ [']']) ++ rest) =
      .ok (vs, octets [']'] ++ rest) := by
    obtain ⟨bound, rfl⟩ : ∃ b, bound = b + 1 := Nat.exists_eq_succ_of_ne_zero (by omega)
    cases vs with
    | nil => exact items_of_end rest
    | cons v vs =>
        rw [List.forall_mem_cons] at hplain hreads
        obtain ⟨c, t, htext, hc⟩ := text_eq_cons hplain.1
        have hanother : anotherItem true (octets (itemsText (v :: vs) ++ [']']) ++ rest) =
            .ok (true, octets v.text ++ (octets (itemsTail vs ++ [']']) ++ rest)) := by
          rw [itemsText_cons, List.append_assoc, htext, List.cons_append,
            anotherItem_first hc, ← List.cons_append, Text.octets_append, List.append_assoc]
        exact items_of_another hanother hreads.1 (endsNumber_itemsTail vs rest)
          (items_tail hplain.2 hreads.2 (by simpa using hbound) rest)
  rw [list, bind_of_ok hitems, bind_of_ok (listEnd_octets rest)]
  rfl

theorem fieldText_eq (f : String × Json) :
    fieldText f = '"' :: ((f.1.toList.map charText).flatten ++ ['"'] ++ ':' :: f.2.text) := by
  simp [fieldText, stringText]

theorem anotherField_end (first : Bool) (rest : Bytes) :
    anotherField first (octets ['\x7d'] ++ rest) = .ok (false, octets ['\x7d'] ++ rest) := by
  rw [anotherField, bind_of_ok (start_octets (by decide) (by decide) _ _)]
  rfl

theorem anotherField_first (t : Text) (rest : Bytes) :
    anotherField true (octets ('"' :: t) ++ rest) = .ok (true, octets ('"' :: t) ++ rest) := by
  rw [anotherField, bind_of_ok (start_octets (by decide) (by decide) _ _)]
  rfl

theorem anotherField_comma (t : Text) (rest : Bytes) :
    anotherField false (octets (',' :: '"' :: t) ++ rest) =
      .ok (true, octets ('"' :: t) ++ rest) := by
  rw [anotherField, bind_of_ok (start_octets (by decide) (by decide) _ _)]
  change (skip >>= _) _ = _
  rw [bind_of_ok (skip_octets (by decide) _ _),
    bind_of_ok (start_octets (by decide) (by decide) _ _)]
  rfl

theorem colon_octets (t : Text) (rest : Bytes) :
    colon (octets (':' :: t) ++ rest) = .ok ((), octets t ++ rest) := by
  rw [colon, bind_of_ok (start_octets (by decide) (by decide) _ _)]
  exact skip_octets (by decide) t rest

theorem objectEnd_octets (rest : Bytes) : objectEnd (octets ['\x7d'] ++ rest) = .ok ((), rest) := by
  rw [objectEnd, bind_of_ok (start_octets (by decide) (by decide) _ _)]
  exact skip_octets (by decide) [] rest

theorem fields_of_another {first : Bool} {f : String × Json}
    (h : anotherField first s = .ok (true, octets (fieldText f) ++ u))
    (hreads : Reads inner f.2) (hu : EndsNumber u)
    (htail : fields string inner bound false u = .ok (fs, rest)) :
    fields string inner (bound + 1) first s = .ok (f :: fs, rest) := by
  rw [fields, bind_of_ok h]
  simp only [if_true]
  rw [fieldText_eq, bind_of_ok (skip_octets (by decide) _ _), Text.octets_append, List.append_assoc,
    bind_of_ok (string_chars _ _), bind_of_ok (colon_octets _ _), bind_of_ok (hreads u hu),
    bind_of_ok htail]
  rfl

theorem fields_of_end {first : Bool} (rest : Bytes) :
    fields string inner (bound + 1) first (octets ['\x7d'] ++ rest) =
      .ok ([], octets ['\x7d'] ++ rest) := by
  rw [fields, bind_of_ok (anotherField_end first rest)]
  rfl

theorem fields_tail (hreads : ∀ f ∈ fs, Reads inner f.2) (hbound : fs.length < bound)
    (rest : Bytes) :
    fields string inner bound false (octets (fieldsTail fs ++ ['\x7d']) ++ rest) =
      .ok (fs, octets ['\x7d'] ++ rest) := by
  induction fs generalizing bound with
  | nil =>
      obtain ⟨bound, rfl⟩ : ∃ b, bound = b + 1 := Nat.exists_eq_succ_of_ne_zero (by omega)
      exact fields_of_end rest
  | cons f fs ih =>
      rw [List.forall_mem_cons] at hreads
      obtain ⟨bound, rfl⟩ : ∃ b, bound = b + 1 := Nat.exists_eq_succ_of_ne_zero (by omega)
      have hanother : anotherField false (octets (fieldsTail (f :: fs) ++ ['\x7d']) ++ rest) =
          .ok (true, octets (fieldText f) ++ (octets (fieldsTail fs ++ ['\x7d']) ++ rest)) := by
        rw [fieldsTail, List.cons_append, List.append_assoc, fieldText_eq, List.cons_append,
          anotherField_comma, ← List.cons_append, Text.octets_append, List.append_assoc]
      exact fields_of_another hanother hreads.1 (endsNumber_fieldsTail fs rest)
        (ih hreads.2 (by simpa using hbound))

theorem object_fieldsText (hreads : ∀ f ∈ fs, Reads inner f.2) (hbound : fs.length < bound)
    (rest : Bytes) :
    object string inner bound (octets (fieldsText fs ++ ['\x7d']) ++ rest) = .ok (fs, rest) := by
  have hfields : fields string inner bound true (octets (fieldsText fs ++ ['\x7d']) ++ rest) =
      .ok (fs, octets ['\x7d'] ++ rest) := by
    obtain ⟨bound, rfl⟩ : ∃ b, bound = b + 1 := Nat.exists_eq_succ_of_ne_zero (by omega)
    cases fs with
    | nil => exact fields_of_end rest
    | cons f fs =>
        rw [List.forall_mem_cons] at hreads
        have hanother : anotherField true (octets (fieldsText (f :: fs) ++ ['\x7d']) ++ rest) =
            .ok (true, octets (fieldText f) ++ (octets (fieldsTail fs ++ ['\x7d']) ++ rest)) := by
          rw [fieldsText_cons, List.append_assoc, Text.octets_append, List.append_assoc,
            fieldText_eq, anotherField_first]
        exact fields_of_another hanother hreads.1 (endsNumber_fieldsTail fs rest)
          (fields_tail hreads.2 (by simpa using hbound) rest)
  rw [object, bind_of_ok hfields, bind_of_ok (objectEnd_octets rest)]
  rfl

/-- A plain value is read back from its text. -/
theorem reads_value (hplain : v.IsPlain) (hdepth : v.depth ≤ n) (hbound : v.text.length ≤ bound) :
    Reads (value bound n) v := by
  intro rest hrest
  induction v using Json.induction generalizing n rest with
  | null => cases n <;> exact node_null rest
  | bool b => cases n <;> exact node_bool b rest
  | int k =>
      cases hplain with
      | int hmin hmax => cases n <;> exact node_int hmin hmax hrest
  | float x => cases hplain
  | str t => cases n <;> exact node_str t rest
  | arr vs ih =>
      obtain ⟨n, rfl⟩ : ∃ m, n = m + 1 :=
        Nat.exists_eq_succ_of_ne_zero (by rw [depth] at hdepth; omega)
      rw [depth, Nat.add_le_add_iff_right, depthOfItems_le_iff] at hdepth
      obtain ⟨hlength, hitems⟩ := length_lt_text_arr vs
      have hreads : ∀ v ∈ vs, Reads (value bound n) v := fun v hv rest hrest =>
        ih v hv (hplain.of_mem hv) (hdepth v hv) (by have := hitems v hv; omega) rest hrest
      rw [text_arr, ← List.singleton_append, Text.octets_append, List.append_assoc]
      exact node_arr (list_itemsText (fun v hv => hplain.of_mem hv) hreads (by omega) rest)
  | obj fs ih =>
      obtain ⟨n, rfl⟩ : ∃ m, n = m + 1 :=
        Nat.exists_eq_succ_of_ne_zero (by rw [depth] at hdepth; omega)
      rw [depth, Nat.add_le_add_iff_right, depthOfFields_le_iff] at hdepth
      obtain ⟨hlength, hfields⟩ := length_lt_text_obj fs
      have hreads : ∀ f ∈ fs, Reads (value bound n) f.2 := fun f hf rest hrest =>
        ih f hf (hplain.of_mem_fields hf) (hdepth f hf) (by have := hfields f hf; omega) rest hrest
      rw [text_obj, ← List.singleton_append, Text.octets_append, List.append_assoc]
      exact node_obj (object_fieldsText hreads (by omega) rest)

end Reader

def ofBytes (input : Bytes) : Except Fault Json := do
  let (v, rest) ← Reader.value (input.length + 1) maxNesting input
  discard (Reader.finish rest)
  return v

/-- A plain value is read back from its text, if it is not nested too deep. -/
theorem ofBytes_text (hplain : v.IsPlain) (hdepth : v.depth ≤ maxNesting) :
    ofBytes (octets v.text) = .ok v := by
  have hbound : v.text.length ≤ (octets v.text).length + 1 :=
    Nat.le_succ_of_le (Text.length_le_octets v.text)
  have hread := Reader.reads_value hplain hdepth hbound [] (by simp [EndsNumber])
  rw [List.append_nil] at hread
  rw [ofBytes, hread]
  rfl

end ApiListing.Json
