import ApiListing.Proofs.DeclarationPattern

namespace ApiListing

variable {β : Type} {before t : Text} {k : Hit → Option β} {next : Option Char → Bool} {c : Char}

namespace Hit

def ofSignature (start : Nat) (s : Signature × Text) : Hit := ⟨s.1.text, s.2, s.1.parts start⟩

def ofHead (start : Nat) (h : Head × Text) : Hit := ⟨h.1.text, h.2, h.1.parts start⟩

end Hit

namespace Pattern

theorem noneOf_bracket (ht : '\n' ∉ t) :
    t.takeWhile (noneOf "]\n".toList) = t.takeWhile (· ≠ ']') ∧
      t.dropWhile (noneOf "]\n".toList) = t.dropWhile (· ≠ ']') := by
  refine Text.takeWhile_congr fun c hc => ?_
  have hne : c ≠ '\n' := fun h => ht (h ▸ hc)
  simp [noneOf, hne]

theorem stripPrefix?_bracket (t : Text) :
    Text.stripPrefix? [']'] (t.dropWhile (· ≠ ']')) = match t.dropWhile (· ≠ ']') with
      | [] => none
      | _ :: rest => some rest := by
  cases hd : t.dropWhile (· ≠ ']') with
  | nil => rfl
  | cons d rest =>
      obtain rfl : d = ']' := by
        have := List.head?_dropWhile_not (· ≠ ']') t
        rw [hd] at this
        simpa using this
      rfl

theorem first_indexer (before : Text) (ht : '\n' ∉ t) (k : Hit → Option β) :
    indexer.first before t k = (indexer? t).bind fun r => k (.ofReading r) := by
  rw [indexer, first_seq, first_word, indexer?]
  cases hu : Text.stripPrefix? "this".toList t with
  | none => rfl
  | some u =>
      have hblank : ∀ c, (seq (one (· = '[')) (seq (run (noneOf "]\n".toList))
          (one (· = ']')))).starts (fun _ => true) (some c) = true → Text.isBlank c = false := by
        simp only [starts, Option.any_some, decide_eq_true_eq]
        rintro _ rfl
        decide
      rw [Option.bind_some, first_seq, blanks, first_run ((needs_any _).seq _ _) hblank, first_seq]
      simp only [Text.spanBlanks, Hit.rest_ofReading]
      cases hv : u.dropWhile Text.isBlank with
      | nil => rfl
      | cons c v =>
          rw [first_char]
          by_cases hc : c = '['
          · subst hc
            have hline : '\n' ∉ v := fun h => ht (by
              rw [Text.eq_append_of_stripPrefix? hu, eq_append_of_spanBlanks u, Text.spanBlanks, hv]
              simp [h])
            rw [if_pos rfl, first_run_close (by decide)]
            simp only [Hit.rest_ofReading, noneOf_bracket hline, stripPrefix?_bracket]
            cases v.dropWhile (· ≠ ']') with
            | nil => rfl
            | cons d rest => simp [Hit.ofReading, Hit.after]
          · rw [if_neg hc]
            split
            · next h => cases h; exact absurd rfl hc
            · rfl

/-- Parentheses that are nested are closed by the first one behind them. -/
theorem closeParameters_nested (ht : '\n' ∉ t) :
    closeParameters true t =
      (Text.stripPrefix? [')'] (t.dropWhile noParenthesis)).bind fun rest =>
        (closeParameters false rest).map
          (Reading.extend (t.takeWhile noParenthesis ++ [')'])) := by
  induction t with
  | nil => rfl
  | cons c t ih =>
      rw [closeParameters]
      by_cases hclose : c = ')'
      · subst hclose
        rfl
      · by_cases hopen : c = '('
        · subst hopen
          rfl
        · have hne : c ≠ '\n' := fun h => ht (h ▸ List.mem_cons_self)
          have hc : noParenthesis c = true := by
            simp [noParenthesis, noneOf, hclose, hopen, hne]
          simp only [hclose, hopen, if_false, ih (List.not_mem_of_not_mem_cons ht),
            List.takeWhile_cons_of_pos hc, List.dropWhile_cons_of_pos hc]
          rw [Option.map_bind]
          refine congrArg _ (funext fun rest => ?_)
          rw [Function.comp_apply, Option.map_map]
          rfl

theorem first_innerParameters (before t : Text) (k : Hit → Option β) :
    innerParameters.first before ('(' :: t) k =
      (Text.stripPrefix? [')'] (t.dropWhile noParenthesis)).bind fun rest =>
        k (.ofReading ('(' :: (t.takeWhile noParenthesis ++ [')']), rest)) := by
  rw [innerParameters, first_seq, first_char, if_pos rfl, first_run_close (by decide)]
  rfl

theorem first_innerParameters_eq_none (hc : c ≠ '(') (before t : Text) (k : Hit → Option β) :
    innerParameters.first before (c :: t) k = none := by
  rw [innerParameters, first_seq, first_char, if_neg hc]

theorem first_closing_close (before t : Text) (k : Hit → Option β) :
    closing.first before (')' :: t) k = k (.ofReading ([')'], t)) := by
  rw [closing, first_many_seq, if_pos rfl, first_alt, first_one, if_neg (by decide),
    first_innerParameters_eq_none (by decide), first_char, if_pos rfl]
  rfl

theorem first_closing_open (before t : Text) (k : Hit → Option β) :
    closing.first before ('(' :: t) k =
      (Text.stripPrefix? [')'] (t.dropWhile noParenthesis)).bind fun rest =>
        let inner : Reading := ('(' :: (t.takeWhile noParenthesis ++ [')']), rest)
        closing.first (before ++ inner.1) rest (k ∘ (Hit.ofReading inner).after) := by
  rw [closing, first_many_seq, if_pos rfl, first_alt, first_one, if_neg (by decide),
    Option.none_or, first_innerParameters, first_char, if_neg (by decide), Option.or_none]
  exact congrArg _ (funext fun rest => if_neg (List.cons_ne_nil _ _))

theorem first_closing_other (hc : noParenthesis c = true) (before t : Text) (k : Hit → Option β) :
    closing.first before (c :: t) k =
      closing.first (before ++ [c]) t (k ∘ (Hit.ofReading ([c], t)).after) := by
  have hopen : c ≠ '(' := by
    rintro rfl
    exact absurd hc (by decide)
  have hclose : c ≠ ')' := by
    rintro rfl
    exact absurd hc (by decide)
  rw [closing, first_many_seq, if_pos rfl, first_alt, first_one, if_pos hc,
    first_innerParameters_eq_none hopen, Option.or_none, first_char, if_neg hclose, Option.or_none]
  exact if_neg (List.cons_ne_nil _ _)

theorem suffix_of_stripPrefix?_dropWhile {q : Char → Bool} {start rest : Text}
    (h : Text.stripPrefix? start (t.dropWhile q) = some rest) : rest <:+ t := by
  have hdrop := Text.eq_append_of_stripPrefix? h
  exact (hdrop ▸ List.suffix_append start rest).trans (List.dropWhile_suffix q)

theorem first_closing (before : Text) (ht : '\n' ∉ t) (k : Hit → Option β) :
    closing.first before t k = (closeParameters false t).bind fun r => k (.ofReading r) := by
  induction hn : t.length using Nat.strong_induction_on generalizing before t k with
  | _ n ih =>
      cases t with
      | nil =>
          rw [closing, first_many_seq]
          rfl
      | cons c t =>
          have hline : '\n' ∉ t := List.not_mem_of_not_mem_cons ht
          rw [List.length_cons] at hn
          by_cases hclose : c = ')'
          · subst hclose
            rw [first_closing_close]
            rfl
          · by_cases hopen : c = '('
            · subst hopen
              have hopened : closeParameters false ('(' :: t) =
                  (closeParameters true t).map (Reading.extend ['(']) := rfl
              rw [first_closing_open, hopened, closeParameters_nested hline]
              cases hrest : Text.stripPrefix? [')'] (t.dropWhile noParenthesis) with
              | none => rfl
              | some rest =>
                  have hsuffix := suffix_of_stripPrefix?_dropWhile hrest
                  have hlength := hsuffix.length_le
                  rw [Option.bind_some, ih rest.length (by omega) _
                    (fun h => hline (hsuffix.subset h)) _ rfl, Option.bind_some, Option.map_map,
                    Option.bind_map]
                  rfl
            · have hne : c ≠ '\n' := fun h => ht (h ▸ List.mem_cons_self)
              have hc : noParenthesis c = true := by
                simp [noParenthesis, noneOf, hclose, hopen, hne]
              rw [first_closing_other hc, ih t.length (by omega) _ hline _ rfl, closeParameters,
                if_neg hclose, if_neg hopen, Option.bind_map]
              rfl

theorem first_parameters (before : Text) (ht : '\n' ∉ t) (k : Hit → Option β) :
    parameters.first before ('(' :: t) k =
      (closeParameters false t).bind fun r => k (.ofReading (r.extend ['('])) := by
  rw [parameters, first_seq, first_char, if_pos rfl]
  exact first_closing _ ht _

theorem first_parameters_eq_none (ht : t.head? ≠ some '(') :
    parameters.first before t k = none := by
  rw [parameters, first_seq]
  cases t with
  | nil => rfl
  | cons c t => rw [first_char, if_neg (by simpa using ht)]

theorem noneOf_newline (ht : '\n' ∉ t) :
    t.takeWhile (noneOf ['\n']) = t ∧ t.dropWhile (noneOf ['\n']) = [] := by
  have hall : ∀ c ∈ t, noneOf ['\n'] c = true := by
    intro c hc
    have hne : c ≠ '\n' := fun h => ht (h ▸ hc)
    simp [noneOf, hne]
  exact ⟨List.takeWhile_eq_self_iff.2 hall, List.dropWhile_eq_nil_iff.2 hall⟩

theorem first_signature (hk : Accepts k) (before : Text) (ht : '\n' ∉ t) :
    signature.first before t k =
      (Signature.read? t).bind fun s => k (.ofSignature (Text.byteSize before) s) := by
  rw [signature, first_alt, first_group, first_seq, first_word]
  unfold Signature.read?
  split
  · next t =>
      rw [first_parameters _ (List.not_mem_of_not_mem_cons ht)]
      cases closeParameters false t with
      | none => rfl
      | some r => exact hk.or _ _
  · next t =>
      have hline : '\n' ∉ t := fun h => ht (by simp [h])
      have hstrip : Text.stripPrefix? "=>".toList ('=' :: '>' :: t) = some t := rfl
      have hsize : Text.byteSize "=>".toList = 2 := by decide
      rw [first_parameters_eq_none (by simp), Option.none_or, hstrip, Option.bind_some, first_group,
        first_run_of_accepts ((hk.after _).named _ _), Hit.rest_ofReading, (noneOf_newline hline).1,
        (noneOf_newline hline).2]
      simp only [Function.comp_apply, Hit.ofReading, Hit.named, Hit.after, Hit.ofSignature,
        Text.byteSize_append, hsize]
      rfl
  · next hparen harrow =>
      have hhead : t.head? ≠ some '(' := fun h => by
        obtain ⟨u, rfl⟩ := List.head?_eq_some_iff.1 h
        exact hparen u rfl
      have hstrip : Text.stripPrefix? "=>".toList t = none := by
        rw [Option.eq_none_iff_forall_ne_some]
        intro u hu
        exact harrow u (Text.eq_append_of_stripPrefix? hu)
      rw [first_parameters_eq_none hhead, hstrip]
      rfl

theorem starts_signature (next : Option Char → Bool) (c : Option Char) :
    signature.starts next c = c.any fun c => c = '(' || c = '=' := by
  cases c <;> simp [signature, parameters, starts, word]

theorem first_blanks_signature (hk : Accepts k) (before : Text) (ht : '\n' ∉ t) :
    (seq blanks signature).first before t k =
      (Signature.read? (Text.spanBlanks t).2).bind fun s =>
        k ((Hit.ofReading (Text.spanBlanks t)).after
          (.ofSignature (Text.byteSize (before ++ (Text.spanBlanks t).1)) s)) := by
  have hblank : ∀ c, signature.starts (fun _ => true) (some c) = true →
      Text.isBlank c = false := by
    intro c hc
    rw [starts_signature, Option.any_some, Bool.or_eq_true, decide_eq_true_eq,
      decide_eq_true_eq] at hc
    rcases hc with rfl | rfl <;> decide
  have hrest : '\n' ∉ t.dropWhile Text.isBlank :=
    fun h => ht ((List.dropWhile_sublist _).subset h)
  rw [first_seq, blanks, first_run ((needs_any _).seq _ _) hblank]
  exact first_signature (hk.after _) _ hrest

theorem needs_signature (before : Text) (k : Hit → Option β) :
    Needs atSignature fun x => (seq blanks signature).first (before ++ x.text) x.rest
      (k ∘ x.after) := by
  refine ((needs_any k).seq (seq blanks signature) before).mono fun c hc => ?_
  simp only [blanks, run, starts, starts_signature] at hc
  cases c with
  | none => simp at hc
  | some c => simpa [atSignature, or_assoc] using hc

theorem findSome?_congr_of_mem {α : Type} {f g : α → Option β} {l : List α}
    (h : ∀ a ∈ l, f a = g a) : l.findSome? f = l.findSome? g := by
  induction l with
  | nil => rfl
  | cons a l ih =>
      rw [List.forall_mem_cons] at h
      rw [List.findSome?_cons, List.findSome?_cons, h.1, ih h.2]

/-- The first result of a search is the one with which everything goes on. -/
theorem bind_findSome? {α γ : Type} {f : α → Option γ} {g : γ → Option β} (hg : ∀ c, g c ≠ none)
    (l : List α) : (l.findSome? f).bind g = l.findSome? fun a => (f a).bind g := by
  induction l with
  | nil => rfl
  | cons a l ih =>
      rw [List.findSome?_cons, List.findSome?_cons]
      cases f a with
      | none => exact ih
      | some c =>
          obtain ⟨b, hb⟩ := Option.ne_none_iff_exists'.1 (hg c)
          simp [hb]

theorem first_signed (hk : Accepts k) (before : Text) (ht : '\n' ∉ t) :
    signed.first before t k = (methodNameReadings t).findSome? fun n =>
      (Signature.read? (Text.spanBlanks n.2).2).bind fun s =>
        k (((Hit.ofReading n).named "method_name" (Text.byteSize before)).after
          ((Hit.ofReading (Text.spanBlanks n.2)).after
            (.ofSignature (Text.byteSize (before ++ n.1 ++ (Text.spanBlanks n.2).1)) s))) := by
  rw [signed, first_seq, first_group,
    first_methodName ((needs_signature before k).named _ _) _ ht]
  refine findSome?_congr_of_mem fun n hn => ?_
  have hrest : '\n' ∉ n.2 := fun h => ht (eq_append_of_methodNameReadings hn ▸
    List.mem_append_right _ h)
  exact first_blanks_signature (hk.after _) _ hrest

theorem first_gap_seq {b : Pattern}
    (hb : ∀ c, b.starts (fun _ => true) (some c) = true → Text.isNameStart c = true)
    (before t : Text) (k : Hit → Option β) :
    (seq gap b).first before t k = (gap? t).bind fun g =>
      b.first (before ++ g.1) g.2 (k ∘ (Hit.ofReading g).after) := by
  have hblank : ∀ c, b.starts (fun _ => true) (some c) = true → Text.isBlank c = false :=
    fun c hc => Text.isBlank_of_isWordChar (Text.isWordChar_of_isNameStart (hb c hc))
  rw [first_seq, first_gap ((needs_any _).seq _ _) hblank]
  rfl

theorem first_typed {b : Pattern} (kind role : String)
    (hb : ∀ c, b.starts (fun _ => true) (some c) = true → Text.isNameStart c = true)
    (before : Text) (ht : '\n' ∉ t) (k : Hit → Option β) :
    (group kind (seq (group role typeName) (seq gap b))).first before t k =
      (typeReadings t).findSome? fun type => (gap? type.2).bind fun g =>
        b.first (before ++ type.1 ++ g.1) g.2 (((k ∘ .named kind (Text.byteSize before)) ∘
          ((Hit.ofReading type).named role (Text.byteSize before)).after) ∘
            (Hit.ofReading g).after) := by
  have hgap : Needs atBlank fun x => (seq gap b).first (before ++ x.text) x.rest
      ((k ∘ .named kind (Text.byteSize before)) ∘ x.after) := (needs_any _).seq (seq gap b) before
  rw [first_group, first_seq, first_group, first_typeName (hgap.named _ _) _ ht]
  refine congrArg (List.findSome? · _) (funext fun type => ?_)
  rw [Function.comp_apply, first_gap_seq hb]
  rfl

theorem not_mem_of_typed {type g : Reading} (ht : '\n' ∉ t) (htype : type ∈ typeReadings t)
    (hg : gap? type.2 = some g) : '\n' ∉ g.2 := fun h => ht (by
  rw [eq_append_of_typeReadings htype, eq_append_of_gap? hg]
  simp [h])

theorem isNameStart_of_starts_signed (c : Char) (h : signed.starts next (some c) = true) :
    Text.isNameStart c = true := by
  have hoperator (next) : operator.starts next (some c) = decide (c = 'o') := rfl
  have hcases : c = 'o' ∨ Text.isNameStart c = true := by
    simpa [signed, methodName, name, starts, hoperator] using h
  rcases hcases with rfl | h
  · decide
  · exact h

theorem first_method (hk : Accepts k) (before : Text) (ht : '\n' ∉ t) :
    method.first before t k =
      (Head.method? t).bind fun h => k (.ofHead (Text.byteSize before) h) := by
  rw [method, first_typed _ _ isNameStart_of_starts_signed _ ht, Head.method?_eq,
    bind_findSome? fun h => hk _]
  refine findSome?_congr_of_mem fun type htype => ?_
  rw [Head.typed?, Option.bind_assoc]
  refine Option.bind_congr fun g hg => ?_
  rw [first_signed (((hk.named _ _).after _).after _) _ (not_mem_of_typed ht htype hg), Head.named?,
    bind_findSome? fun h => hk _]
  refine findSome?_congr_of_mem fun n _ => ?_
  rw [Option.bind_map]
  refine Option.bind_congr fun s _ => congrArg k ?_
  simp [Hit.named, Hit.after, Hit.ofReading, Hit.ofSignature, Hit.ofHead, Head.text, Head.parts,
    Nat.add_assoc]

theorem first_enum (hk : Accepts k) (before t : Text) :
    enum.first before t k = (Head.enum? t).bind fun h => k (.ofHead (Text.byteSize before) h) := by
  rw [enum, first_group, first_seq, first_word, Head.enum?_eq, Option.bind_assoc]
  refine Option.bind_congr fun u _ => ?_
  rw [Hit.rest_ofReading, first_gap_seq (b := group "enum_name" name) (fun _ h => h),
    Option.bind_assoc]
  refine Option.bind_congr fun g _ => ?_
  have hname : Accepts (((k ∘ Hit.named "enum" (Text.byteSize before)) ∘
      (Hit.ofReading ("enum".toList, u)).after) ∘ (Hit.ofReading g).after) :=
    ((hk.named _ _).after _).after _
  rw [first_group, first_name fun x => first_run_of_accepts ((hname.named _ _).after x) _,
    Option.bind_map]
  refine Option.bind_congr fun n _ => congrArg k ?_
  simp [Hit.named, Hit.after, Hit.ofReading, Hit.ofHead, Head.text, Head.parts]

theorem first_propertyName (hk : Accepts k) (before : Text) (ht : '\n' ∉ t) :
    (alt indexer name).first before t k =
      (propertyName? t).bind fun r => k (.ofReading r) := by
  rw [first_alt, first_indexer _ ht, first_name fun x => first_run_of_accepts (hk.after x) _,
    propertyName?]
  cases indexer? t with
  | none => rfl
  | some r => exact hk.or _ _

theorem isNameStart_of_starts_propertyName (c : Char)
    (h : (group "attribute_name" (alt indexer name)).starts next (some c) = true) :
    Text.isNameStart c = true := by
  have hindexer (next) : indexer.starts next (some c) = decide (c = 't') := rfl
  have hcases : c = 't' ∨ Text.isNameStart c = true := by
    simpa [name, starts, hindexer] using h
  rcases hcases with rfl | h
  · decide
  · exact h

theorem first_property (hk : Accepts k) (before : Text) (ht : '\n' ∉ t) :
    property.first before t k =
      (Head.property? t).bind fun h => k (.ofHead (Text.byteSize before) h) := by
  rw [property, first_typed _ _ isNameStart_of_starts_propertyName _ ht, Head.property?_eq,
    bind_findSome? fun h => hk _]
  refine findSome?_congr_of_mem fun type htype => ?_
  rw [Head.owned?, Option.bind_assoc]
  refine Option.bind_congr fun g hg => ?_
  rw [first_group, first_propertyName ((((hk.named _ _).after _).after _).named _ _) _
    (not_mem_of_typed ht htype hg), Option.bind_map]
  refine Option.bind_congr fun n _ => congrArg k ?_
  simp [Hit.named, Hit.after, Hit.ofReading, Hit.ofHead, Head.text, Head.parts]

theorem first_head (hk : Accepts k) (before : Text) (ht : '\n' ∉ t) :
    head.first before t k = (Head.read? t).bind fun h => k (.ofHead (Text.byteSize before) h) := by
  rw [head, first_alt, first_alt, first_method hk _ ht, first_enum hk, first_property hk _ ht,
    Head.read?]
  cases Head.method? t with
  | some h => exact hk.or _ _
  | none =>
      cases Head.enum? t with
      | some h => exact hk.or _ _
      | none => rfl

end Pattern

end ApiListing
