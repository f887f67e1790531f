import ApiListing.Proofs.Closed
import ApiListing.Proofs.Spaces

namespace ApiListing

variable {t e : Text}

namespace Text

theorem trimEnd_trimEnd (t : Text) : trimEnd (trimEnd t) = trimEnd t :=
  trimEnd_of_getLast (isSpace_getLast_trimEnd t)

theorem prefix_trimEnd (t : Text) : trimEnd t <+: t := by
  obtain ⟨spaces, hs, -⟩ := trimEnd_append t
  exact ⟨spaces, hs.symm⟩

end Text

namespace Signature

def value (e : Text) : Text :=
  if (Text.trimEnd e).getLast? = some ';' then Text.trimEnd (Text.trimEnd e).dropLast
  else Text.trimEnd e

theorem trimEnd_value (e : Text) : Text.trimEnd (value e) = value e := by
  rw [value]
  split <;> exact Text.trimEnd_trimEnd _

theorem prefix_value (e : Text) : value e <+: e := by
  rw [value]
  split
  · exact (Text.prefix_trimEnd _).trans (( List.dropLast_prefix _).trans (Text.prefix_trimEnd e))
  · exact Text.prefix_trimEnd e

theorem value_semicolon (e : Text) : value (value e ++ [';']) = value e := by
  have hlast : ∀ c ∈ (value e ++ [';']).getLast?, Text.isSpace c = false := by
    simp [Text.isSpace]
  have htrim := Text.trimEnd_of_getLast hlast
  rw [value, htrim, List.getLast?_concat, if_pos rfl, List.dropLast_concat, trimEnd_value]

end Signature

namespace Head

variable {type gap name trail : Text}

theorem shown_expression (type gap name trail e : Text) :
    shown (method type gap name trail (.expression e)) =
      type ++ (gap ++ (name ++ (trail ++ '=' :: '>' :: Signature.value e))) := by
  have harrow : "=>".toList = ['=', '>'] := by decide
  obtain ⟨arrow, harrow'⟩ : ∃ arrow, arrow = type ++ gap ++ name ++ trail ++ ['='] ++ ['>'] :=
    ⟨_, rfl⟩
  have hlast : arrow.getLast? = some '>' := by rw [harrow', List.getLast?_concat]
  have htext : Head.text (method type gap name trail (.expression e)) = arrow ++ e := by
    simp [Head.text, Signature.text, harrow, harrow']
  have htrim (t : Text) : Text.trimEnd (arrow ++ t) = arrow ++ Text.trimEnd t :=
    Text.trimEnd_append_of_getLast (by simp [hlast, Text.isSpace]) t
  have hvalue :
      shown (method type gap name trail (.expression e)) = arrow ++ Signature.value e := by
    simp only [shown, htext, htrim, Signature.value]
    by_cases he : Text.trimEnd e = []
    · simp [he, hlast]
    · rw [List.getLast?_append_of_ne_nil _ he, List.dropLast_append_of_ne_nil he, htrim]
      split <;> rfl
  rw [hvalue, harrow']
  simp

theorem shown_parameters {p : Text} (hp : p.getLast? = some ')') :
    shown (method type gap name trail (.parameters p)) =
      type ++ (gap ++ (name ++ (trail ++ p))) := by
  have hne : p ≠ [] := by rintro rfl; cases hp
  have htext : Head.text (method type gap name trail (.parameters p)) =
      type ++ (gap ++ (name ++ (trail ++ p))) := by simp [Head.text, Signature.text]
  have hlast : (type ++ (gap ++ (name ++ (trail ++ p)))).getLast? = some ')' := by
    simp only [← List.append_assoc]
    rw [List.getLast?_append_of_ne_nil _ hne, hp]
  rw [← htext] at hlast ⊢
  exact Text.trimEnd_of_getLast (by simp [hlast, Text.isSpace])

theorem prefix_shown (h : Head) : h.shown <+: h.text := by
  have htrim := Text.prefix_trimEnd h.text
  unfold shown
  simp only
  split
  · split
    · exact (Text.prefix_trimEnd _).trans (( List.dropLast_prefix _).trans htrim)
    · exact htrim
  · exact htrim

theorem signature_of_method? {sig : Signature} {rest : Text}
    (h : method? t = some (method type gap name trail sig, rest)) :
    ∃ u, Signature.read? u = some (sig, rest) := by
  rw [method?_eq] at h
  obtain ⟨r, -, h⟩ := List.exists_of_findSome?_eq_some h
  obtain ⟨g, -, h⟩ := Option.bind_eq_some_iff.1 h
  obtain ⟨n, -, s, hs, he⟩ := named?_eq_some h
  simp only [Prod.mk.injEq, method.injEq] at he
  obtain ⟨⟨-, -, -, -, rfl⟩, rfl⟩ := he
  exact ⟨_, hs⟩

/-- What is shown of a method ends behind its signature, and with a semicolon behind it a method
that is shown the same can be read. -/
theorem exists_cut (type gap name trail : Text) {s : Signature × Text} {u : Text}
    (hs : Signature.read? u = some s) :
    ∃ v kept x s', Cut type gap name trail kept s s' v x ∧
      shown (method type gap name trail s.1) = v ∧ shown (method type gap name trail s'.1) = v ∧
      (s'.2 = [';'] ∨ s'.2 = []) := by
  rcases Signature.read?_cases hs with ⟨v, r, rfl, hr, rfl⟩ | ⟨e, rfl, rfl⟩
  · have hlast : ('(' :: r.1).getLast? = some ')' := by
      simp [List.getLast?_cons, getLast?_of_closeParameters hr]
    have hread := Signature.read?_parameters hr r.2
    exact ⟨_, '(' :: r.1, r.2, _, ⟨.parameters _ _, hread, rfl⟩, shown_parameters hlast,
      shown_parameters hlast, Or.inl rfl⟩
  · obtain ⟨x, hx⟩ := Signature.prefix_value e
    have hcut := Signature.Cut.expression (Signature.value e) x
    rw [hx] at hcut
    refine ⟨_, _, x, _, ⟨hcut, ?_, rfl⟩, shown_expression .., ?_, Or.inr rfl⟩
    · rw [List.cons_append, List.cons_append, hx]
      rfl
    · rw [shown_expression, Signature.value_semicolon]

end Head

namespace Declaration

def listed (d : Declaration) (head : Head) : Declaration where
  indent := []
  visibility := d.visibility
  gap := [' ']
  static? := d.static?.map fun _ => Modifier.ofWord "static".toList
  modifiers := d.modifierWords.map Modifier.ofWord
  head := head

theorem isStatic_listed (d : Declaration) (head : Head) :
    (d.listed head).isStatic = d.isStatic := by
  simp [listed, isStatic]

theorem modifierWords_listed (d : Declaration) (head : Head) :
    (d.listed head).modifierWords = d.modifierWords := by
  simp [listed, modifierWords, Modifier.ofWord, Function.comp_def]

/-- The line of a listing for a method reads as a method with the same words that is shown the same,
and nothing but the semicolon can be left of the line. -/
theorem read?_listed {line rest : Text} {d : Declaration} (h : read? line = some (d, rest))
    (hmethod : d.head.kind = .method) (htype : d.head.isTypeDefinition = false) :
    ∃ head rest', read? (d.visibility.word ++ ([' '] ++ (wordsText d.isStatic d.modifierWords ++
        (d.head.shown ++ [';'])))) = some (d.listed head, rest') ∧
      head.kind = .method ∧ head.isTypeDefinition = false ∧ head.shown = d.head.shown ∧
      (rest' = [';'] ∨ rest' = []) := by
  obtain ⟨t, -, -, ht⟩ := read?_eq_some h
  cases hhead : d.head with
  | enum => rw [hhead] at hmethod; cases hmethod
  | property => rw [hhead] at hmethod; cases hmethod
  | method type gap name trail sig =>
      rw [hhead] at ht htype
      obtain ⟨b, hb⟩ := exists_head?_of_modified? ht
      obtain ⟨u, hu⟩ := Head.signature_of_method?
        (Head.method?_of_read? (Modifier.read?_of_head? hb) rfl)
      obtain ⟨v, kept, x, s', hcut, hshown, hshown', hrest⟩ :=
        Head.exists_cut type gap name trail hu
      refine ⟨.method type gap name trail s'.1, s'.2, ?_, rfl, htype, hshown'.trans hshown.symm,
        hrest⟩
      rw [hshown]
      obtain ⟨hblank, hmodified⟩ := modified?_cut hcut ht
      have hindent : ∀ c ∈ ([] : Text), Text.isBlank c = true := by simp
      exact read?_words hindent hblank hmodified

end Declaration

end ApiListing
