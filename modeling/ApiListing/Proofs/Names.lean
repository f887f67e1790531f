import ApiListing.Proofs.Words

namespace ApiListing

variable {t w type name : Text}

namespace Text

def IsName (w : Text) : Prop := name? w = some (w, [])

instance : DecidablePred IsName := fun w => inferInstanceAs (Decidable (name? w = some (w, [])))

theorem isName_iff : IsName w ↔
    ∃ c u, w = c :: u ∧ isNameStart c = true ∧ ∀ a ∈ u, isWordChar a = true := by
  rw [IsName]
  cases w with
  | nil => simp [name?]
  | cons c u =>
      simp only [name?]
      constructor
      · intro h
        split at h
        · next hc =>
            simp only [Option.some.injEq, Prod.mk.injEq, List.cons.injEq, true_and] at h
            exact ⟨c, u, rfl, hc, List.takeWhile_eq_self_iff.1 h.1⟩
        · simp at h
      · rintro ⟨_, _, he, hc, hu⟩
        cases he
        have hd := dropWhile_run (t := []) hu (by simp)
        rw [List.append_nil] at hd
        rw [if_pos hc, List.takeWhile_eq_self_iff.2 hu, hd]

theorem IsName.isWordChar (h : IsName w) : ∀ c ∈ w, isWordChar c = true := by
  obtain ⟨c, u, rfl, hc, hu⟩ := isName_iff.1 h
  intro a ha
  rcases List.mem_cons.1 ha with rfl | ha
  · exact isWordChar_of_isNameStart hc
  · exact hu a ha

theorem IsName.ne_nil (h : IsName w) : w ≠ [] := by
  obtain ⟨c, u, rfl, -, -⟩ := isName_iff.1 h
  simp

theorem IsName.isBlank_head? (h : IsName w) : ∀ c ∈ (w ++ t).head?, isBlank c = false := by
  intro c hc
  rw [List.head?_append_of_ne_nil _ h.ne_nil] at hc
  exact isBlank_of_isWordChar (h.isWordChar c (List.mem_of_head? hc))

theorem IsName.name?_append (h : IsName w) (ht : ∀ c ∈ t.head?, Text.isWordChar c = false) :
    name? (w ++ t) = some (w, t) := by
  obtain ⟨c, u, rfl, hc, hu⟩ := isName_iff.1 h
  rw [List.cons_append, name?, if_pos hc, takeWhile_run hu ht, dropWhile_run hu ht]

theorem eq_append_of_stripPrefix?_append {s u : Text} {c : Char} (hc : c ∉ s)
    (h : stripPrefix? s (w ++ c :: t) = some u) : ∃ v, w = s ++ v ∧ u = v ++ c :: t := by
  obtain ⟨v, rfl⟩ := prefix_of_prefix_append_cons hc ⟨u, (eq_append_of_stripPrefix? h).symm⟩
  refine ⟨v, rfl, ?_⟩
  rw [List.append_assoc, stripPrefix?_append_self] at h
  exact (Option.some.inj h).symm

end Text

theorem isTypeChar_of_isWordChar {c : Char} (h : Text.isWordChar c = true) :
    isTypeChar c = true := by
  simp [isTypeChar, h]

theorem typeReadings_name (h : Text.IsName type) (t : Text) :
    typeReadings (type ++ ' ' :: t) = [(type, ' ' :: t)] := by
  obtain ⟨c, u, rfl, hc, hu⟩ := Text.isName_iff.1 h
  have hu' : ∀ a ∈ u, isTypeChar a = true := fun a ha => isTypeChar_of_isWordChar (hu a ha)
  have hhead : ∀ a ∈ (' ' :: t).head?, isTypeChar a = false :=
    Text.forall_mem_head?_cons (by decide)
  have hranks : ranks (' ' :: t) = ([], ' ' :: t) := by
    rw [ranks]
    split
    · rfl
    · next r hr => simp [rank?] at hr
  rw [List.cons_append, typeReadings, if_pos hc]
  simp only [Text.takeWhile_run hu' hhead, Text.dropWhile_run hu' hhead]
  simp [Reading.angles, hranks, nullableMark]

theorem isOperatorChar_of_isWordChar {c : Char} (h : Text.isWordChar c = true) :
    isOperatorChar c = true := by
  have hparen : c ≠ '(' := by rintro rfl; revert h; decide
  simp [isOperatorChar, Text.isSpace_of_isWordChar h, hparen]

theorem operatorReadings_name (h : ∀ c ∈ name, Text.isWordChar c = true) (t : Text) :
    operatorReadings (name ++ '(' :: t) = [] ∨
      ∃ rs, operatorReadings (name ++ '(' :: t) = (name, '(' :: t) :: rs := by
  rw [operatorReadings]
  cases hs : Text.stripPrefix? "operator".toList (name ++ '(' :: t) with
  | none => exact Or.inl rfl
  | some u =>
      obtain ⟨symbol, rfl, rfl⟩ := Text.eq_append_of_stripPrefix?_append (by decide) hs
      have hsymbol : ∀ c ∈ symbol, Text.isWordChar c = true :=
        fun c hc => h c (List.mem_append_right _ hc)
      have hblank : ∀ c ∈ (symbol ++ '(' :: t).head?, Text.isBlank c = false := by
        cases symbol with
        | nil => exact Text.forall_mem_head?_cons (by decide)
        | cons d symbol =>
            exact Text.forall_mem_head?_cons (Text.isBlank_of_isWordChar (hsymbol d (by simp)))
      have hrun : (symbol ++ '(' :: t).takeWhile isOperatorChar = symbol :=
        Text.takeWhile_run (fun c hc => isOperatorChar_of_isWordChar (hsymbol c hc))
          (Text.forall_mem_head?_cons (by decide))
      simp only [spanBlanks_of_head hblank, hrun, List.append_nil]
      rcases List.eq_nil_or_concat symbol with rfl | ⟨init, last, rfl⟩
      · exact Or.inl rfl
      · right
        have hlen : (init.concat last).length = init.length + 1 := by simp
        rw [hlen, List.range_succ, List.reverse_append, List.reverse_singleton,
          List.singleton_append, List.map_cons, ← hlen, List.take_left, List.drop_left]
        exact ⟨_, rfl⟩

theorem methodNameReadings_name (h : Text.IsName name) (t : Text) :
    ∃ rs, methodNameReadings (name ++ '(' :: t) = (name, '(' :: t) :: rs := by
  rw [methodNameReadings]
  rcases operatorReadings_name h.isWordChar t with ho | ⟨rs, ho⟩
  · have hparen : ∀ c ∈ ('(' :: t).head?, Text.isWordChar c = false :=
      Text.forall_mem_head?_cons (by decide)
    rw [ho, h.name?_append hparen]
    exact ⟨[], by simp [Reading.angles, Reading.extend]⟩
  · exact ⟨_, by rw [ho, List.cons_append]⟩

theorem indexer?_eq_none (h : '[' ∉ t) : indexer? t = none := by
  rw [indexer?]
  cases hs : Text.stripPrefix? "this".toList t with
  | none => rfl
  | some u =>
      simp only
      split
      · next v hv =>
          refine absurd ?_ h
          rw [Text.eq_append_of_stripPrefix? hs, eq_append_of_spanBlanks u, hv]
          simp
      · rfl

theorem Signature.read?_eq_none (h : ∀ c ∈ t.head?, c ≠ '(' ∧ c ≠ '=') :
    Signature.read? t = none := by
  unfold Signature.read?
  split
  · exact absurd rfl (h '(' rfl).1
  · exact absurd rfl (h '=' rfl).2
  · rfl

namespace Head

theorem named?_eq_none {gap : Text} (hopen : '(' ∉ t) (harrow : '=' ∉ t) :
    named? type gap t = none := by
  rw [named?, List.findSome?_eq_none_iff]
  intro n hn
  rw [Signature.read?_eq_none, Option.map_none]
  intro c hc
  have hmem : c ∈ t := by
    rw [eq_append_of_methodNameReadings hn, eq_append_of_spanBlanks n.2]
    exact List.mem_append_right _ (List.mem_append_right _ (List.mem_of_head? hc))
  constructor <;> rintro rfl
  · exact hopen hmem
  · exact harrow hmem

theorem read?_method {params : Text} (htype : Text.IsName type) (hname : Text.IsName name)
    (hparams : closeParameters false params = some (params, [])) :
    read? (type ++ ' ' :: (name ++ '(' :: params)) =
      some (method type [' '] name [] (.parameters ('(' :: params)), []) := by
  obtain ⟨rs, hrs⟩ := methodNameReadings_name hname params
  have hsignature : Signature.read? ('(' :: params) = some (.parameters ('(' :: params), []) := by
    rw [Signature.read?, hparams]
    rfl
  have hnamed : named? type [' '] (name ++ '(' :: params) =
      some (method type [' '] name [] (.parameters ('(' :: params)), []) := by
    rw [named?, hrs, List.findSome?_cons,
      spanBlanks_of_head (Text.forall_mem_head?_cons (by decide)), hsignature]
    rfl
  have hmethod : method? (type ++ ' ' :: (name ++ '(' :: params)) =
      some (method type [' '] name [] (.parameters ('(' :: params)), []) := by
    rw [method?_eq, typeReadings_name htype, List.findSome?_cons, typed?,
      ← List.singleton_append (x := ' '), gap?_append isGap_space hname.isBlank_head?,
      Option.bind_some, hnamed]
  rw [read?, hmethod]
  rfl

theorem enum?_eq_none (htype : Text.IsName type) (henum : type ≠ "enum".toList) (t : Text) :
    enum? (type ++ ' ' :: t) = none := by
  rw [enum?_eq]
  cases hs : Text.stripPrefix? "enum".toList (type ++ ' ' :: t) with
  | none => rfl
  | some u =>
      obtain ⟨v, rfl, rfl⟩ := Text.eq_append_of_stripPrefix?_append (by decide) hs
      cases v with
      | nil => exact absurd (List.append_nil _) henum
      | cons c v =>
          have hc : Text.isBlank c = false :=
            Text.isBlank_of_isWordChar (htype.isWordChar c (by simp))
          rw [Option.bind_some, List.cons_append, gap?_of_head (Text.forall_mem_head?_cons hc),
            Option.bind_none]

/-- A character that begins the parameters or the value of a member, or the brackets of an indexer. -/
def opensSignature (c : Char) : Bool := c = '(' || c = '=' || c = '['

theorem opensSignature_of_isWordChar {c : Char} (h : Text.isWordChar c = true) :
    opensSignature c = false := by
  have hparen : c ≠ '(' := by rintro rfl; revert h; decide
  have harrow : c ≠ '=' := by rintro rfl; revert h; decide
  have hbracket : c ≠ '[' := by rintro rfl; revert h; decide
  simp [opensSignature, hparen, harrow, hbracket]

theorem not_mem_name_append (hname : Text.IsName name) (ht : ∀ c ∈ t, opensSignature c = false)
    {c : Char} (hc : opensSignature c = true) : c ∉ name ++ t := by
  intro hmem
  have hclosed : opensSignature c = false := (List.mem_append.1 hmem).elim
    (fun h => opensSignature_of_isWordChar (hname.isWordChar c h)) (ht c)
  rw [hc] at hclosed
  cases hclosed

theorem method?_eq_none (htype : Text.IsName type) (hname : Text.IsName name)
    (ht : ∀ c ∈ t, opensSignature c = false) : method? (type ++ ' ' :: (name ++ t)) = none := by
  have hgap : gap? (' ' :: (name ++ t)) = some ([' '], name ++ t) :=
    gap?_append isGap_space hname.isBlank_head?
  rw [method?_eq, typeReadings_name htype, List.findSome?_cons, typed?, hgap, Option.bind_some,
    named?_eq_none (not_mem_name_append hname ht rfl) (not_mem_name_append hname ht rfl)]
  rfl

theorem read?_property_append (htype : Text.IsName type) (henum : type ≠ "enum".toList)
    (hname : Text.IsName name) (hend : ∀ c ∈ t.head?, Text.isWordChar c = false)
    (ht : ∀ c ∈ t, opensSignature c = false) :
    read? (type ++ ' ' :: (name ++ t)) = some (property type [' '] name, t) := by
  have hgap : gap? (' ' :: (name ++ t)) = some ([' '], name ++ t) :=
    gap?_append isGap_space hname.isBlank_head?
  have hproperty : property? (type ++ ' ' :: (name ++ t)) = some (property type [' '] name, t) := by
    rw [property?_eq, typeReadings_name htype, List.findSome?_cons, owned?, hgap, Option.bind_some,
      propertyName?, indexer?_eq_none (not_mem_name_append hname ht rfl), hname.name?_append hend]
    rfl
  rw [read?, method?_eq_none htype hname ht, enum?_eq_none htype henum, hproperty]
  rfl

/-- An enum is read as one where nothing is opened behind its name, though `enum` could be a type. -/
theorem read?_enum_append (hname : Text.IsName name)
    (hend : ∀ c ∈ t.head?, Text.isWordChar c = false) (ht : ∀ c ∈ t, opensSignature c = false) :
    read? ("enum".toList ++ ' ' :: (name ++ t)) = some (enum [' '] name, t) := by
  have hgap : gap? (' ' :: (name ++ t)) = some ([' '], name ++ t) :=
    gap?_append isGap_space hname.isBlank_head?
  rw [read?, method?_eq_none (by decide) hname ht, enum?_eq, Text.stripPrefix?_append_self,
    Option.bind_some, hgap, Option.bind_some, hname.name?_append hend]
  rfl

theorem read?_property (htype : Text.IsName type) (henum : type ≠ "enum".toList)
    (hname : Text.IsName name) :
    read? (type ++ ' ' :: name) = some (property type [' '] name, []) := by
  have h := read?_property_append (t := []) htype henum hname (by simp) (by simp)
  rwa [List.append_nil] at h

end Head

end ApiListing
