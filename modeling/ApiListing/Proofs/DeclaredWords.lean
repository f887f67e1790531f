import ApiListing.Proofs.Places
import ApiListing.Proofs.Shown
import ApiListing.Proofs.WordLists

namespace ApiListing

variable {o : ScanOptions} {source line rest : Text} {d : Declaration} {r : Record} {m : Modifier}

namespace Text

/-- A text without the spaces around it and a semicolon at its end. -/
def withoutSemicolon (t : Text) : Text :=
  if (trim t).getLast? = some ';' then trim (trim t).dropLast else trim t

theorem isWord_of_wordChars {w : Text} (hne : w ≠ []) (hw : ∀ c ∈ w, isWordChar c = true) :
    IsWord w :=
  ⟨hne, fun c hc => isSpace_of_isWordChar (hw c hc)⟩

end Text

namespace Modifier

structure IsParted (m : Modifier) : Prop where
  word : Text.IsWord m.word
  gap : IsGap m.gap

theorem IsParted.words_append (h : m.IsParted) (t : Text) :
    Text.words (m.text ++ t) = m.word :: Text.words t := by
  rw [Modifier.text, List.append_assoc]
  exact h.word.words_append h.gap.ne_nil (Text.isSpace_of_blanks h.gap.isBlank) t

theorem words_append {ms : List Modifier} (h : ∀ m ∈ ms, m.IsParted) (t : Text) :
    Text.words ((ms.map Modifier.text).flatten ++ t) = ms.map word ++ Text.words t := by
  induction ms with
  | nil => rfl
  | cons m ms ih =>
      rw [List.forall_mem_cons] at h
      rw [List.map_cons, List.flatten_cons, List.append_assoc, h.1.words_append, ih h.2]
      rfl

theorem words_spaced {ws : List Text} (h : ∀ w ∈ ws, Text.IsWord w) (t : Text) :
    Text.words (spaced ws ++ t) = ws ++ Text.words t := by
  have hparted : ∀ m ∈ ws.map ofWord, m.IsParted := by
    rw [List.forall_mem_map]
    exact fun w hw => ⟨h w hw, isGap_space⟩
  have hspaced : spaced ws = ((ws.map ofWord).map Modifier.text).flatten := by
    rw [spaced, List.map_map]
    rfl
  have hwords : (ws.map ofWord).map word = ws := by
    rw [List.map_map]
    exact List.map_id ws
  rw [hspaced, words_append hparted, hwords]

theorem isParted_of_known (hword : m.word ∈ knownWords) (hgap : IsGap m.gap) : m.IsParted where
  word := Text.isWord_of_wordChars (ne_nil_of_knownWords _ hword) (isWordChar_of_knownWords hword)
  gap := hgap

end Modifier

namespace Head

def isExpression : Head → Bool
  | method _ _ _ _ (.expression _) => true
  | _ => false

theorem shown_of_isExpression {h : Head} (he : h.isExpression = true) :
    h.shown = if (Text.trimEnd h.text).getLast? = some ';' then
      Text.trimEnd (Text.trimEnd h.text).dropLast else Text.trimEnd h.text := by
  unfold isExpression at he
  split at he
  · rfl
  · cases he

theorem shown_of_not_isExpression {h : Head} (he : h.isExpression = false) :
    h.shown = Text.trimEnd h.text := by
  unfold shown
  split
  · cases he
  · rfl

theorem trimEnd_text_ne_nil {h : Head} (he : h.isExpression = true) : Text.trimEnd h.text ≠ [] := by
  have harrow : '>' ∈ h.text := by
    unfold isExpression at he
    split at he
    · simp [Head.text, Signature.text]
    · cases he
  intro hnil
  obtain ⟨spaces, hsplit, hspaces⟩ := Text.trimEnd_append h.text
  rw [hnil, List.nil_append] at hsplit
  have hspace := hspaces '>' (hsplit ▸ harrow)
  exact absurd hspace (by decide)

end Head

theorem Visibility.isWord_word (v : Visibility) : Text.IsWord v.word := by
  apply Text.isWord_of_wordChars
  · cases v <;> decide
  · apply List.all_eq_true.1
    cases v <;> decide

namespace Declaration

/-- The words before the head, the visibility first, each with the blanks behind it. -/
def leading (d : Declaration) : List Modifier :=
  ⟨d.visibility.word, d.gap⟩ :: (d.static?.toList ++ d.modifiers)

def outdented (d : Declaration) : Text := d.text.drop d.indent.length

theorem text_eq_outdented (d : Declaration) : d.text = d.indent ++ d.outdented := by
  simp [outdented, Declaration.text]

theorem outdented_eq (d : Declaration) :
    d.outdented = (d.leading.map Modifier.text).flatten ++ d.head.text := by
  cases hstatic : d.static? <;>
    simp [outdented, Declaration.text, leading, modifiersText, Modifier.text, hstatic]

theorem isParted_leading (h : read? line = some (d, rest)) :
    (∀ m ∈ d.leading, m.IsParted) ∧ ∀ m ∈ d.static?, m.word = "static".toList := by
  obtain ⟨t, -, hgap, ht⟩ := read?_eq_some h
  have hvisibility : Modifier.IsParted ⟨d.visibility.word, d.gap⟩ :=
    ⟨d.visibility.isWord_word, (isGap_of_gap? hgap).1⟩
  have hknown {ms : List Modifier} {u : Text} {r : Head × Text}
      (hhead : Modifier.head? u = some (ms, r)) : ∀ m ∈ ms, m.IsParted := fun m hm =>
    have hm := (Modifier.head?_split hhead).1 m hm
    Modifier.isParted_of_known hm.1 hm.2
  rw [leading, List.forall_mem_cons, List.forall_mem_append]
  rcases modified?_cases ht with ⟨s, hs, hstatic, hhead⟩ | ⟨hstatic, hhead, -⟩
  · obtain ⟨hread, hword⟩ := Option.filter_eq_some_iff.1 hs
    have hword : s.1.word = "static".toList := of_decide_eq_true hword
    have hparted : s.1.IsParted := by
      refine ⟨?_, (Modifier.eq_some_of_read? hread).2.1⟩
      rw [hword]
      exact Text.isWord_of_wordChars (by simp) Modifier.isWordChar_static
    rw [hstatic]
    exact ⟨⟨hvisibility, by simpa using hparted, hknown hhead⟩, by simpa using hword⟩
  · rw [hstatic]
    exact ⟨⟨hvisibility, by simp, hknown hhead⟩, by simp⟩

theorem trim_outdented (hne : Text.trimEnd d.head.text ≠ []) :
    Text.trim d.outdented =
      (d.leading.map Modifier.text).flatten ++ Text.trimEnd d.head.text := by
  have hword := d.visibility.isWord_word
  have hhead : ∀ c ∈ ((d.leading.map Modifier.text).flatten ++ d.head.text).head?,
      Text.isSpace c = false := by
    intro c hc
    simp only [leading, List.map_cons, List.flatten_cons, Modifier.text, List.append_assoc] at hc
    rw [List.head?_append_of_ne_nil _ hword.ne_nil] at hc
    exact hword.solid c (List.mem_of_head? hc)
  rw [outdented_eq, Text.trim, Text.trimStart_of_head hhead, Text.trimEnd_append_of_ne_nil hne]

theorem words_shown (h : ∀ m ∈ d.leading, m.IsParted) :
    Text.words (Modifier.spaced (d.leading.map Modifier.word) ++ d.head.shown) =
      Text.words (if d.head.isExpression then Text.withoutSemicolon d.outdented
        else d.outdented) := by
  have hwords : ∀ w ∈ d.leading.map Modifier.word, Text.IsWord w := by
    rw [List.forall_mem_map]
    exact fun m hm => (h m hm).word
  rw [Modifier.words_spaced hwords]
  cases he : d.head.isExpression with
  | false =>
      rw [Head.shown_of_not_isExpression he, Text.words_trimEnd, if_neg Bool.false_ne_true,
        outdented_eq, Modifier.words_append h]
  | true =>
      have hne := Head.trimEnd_text_ne_nil he
      rw [Head.shown_of_isExpression he, if_pos rfl, Text.withoutSemicolon, trim_outdented hne,
        List.getLast?_append_of_ne_nil _ hne]
      split
      · rw [Text.words_trim, List.dropLast_append_of_ne_nil hne, Modifier.words_append h,
          Text.words_trimEnd]
      · rw [Modifier.words_append h]

end Declaration

theorem LineStart.declaration_record (s : LineStart) {m : Member}
    (hstatic : ∀ w ∈ m.declaration.static?, w.word = "static".toList) :
    (s.record m).declaration =
      Modifier.spaced (m.declaration.leading.map Modifier.word) ++ m.declaration.head.shown := by
  have hword : (if m.declaration.isStatic then "static ".toList else []) =
      Modifier.spaced (m.declaration.static?.toList.map Modifier.word) := by
    have hspace : "static ".toList = "static".toList ++ [' '] := by decide
    unfold Declaration.isStatic
    cases hs : m.declaration.static? with
    | none => rfl
    | some w => simp [Modifier.spaced, hspace, hstatic w hs]
  have hdeclaration : (s.record m).declaration = m.declaration.visibility.word ++ [' '] ++
      (if m.declaration.isStatic then "static ".toList else []) ++
        Modifier.spaced m.declaration.modifierWords ++ m.declaration.head.shown := rfl
  rw [hdeclaration, hword]
  simp [Modifier.spaced, Declaration.leading, Declaration.modifierWords]

/-- The words of a declaration as a listing shows it are those of the source, from the visibility
to the end of the head, but for a semicolon that closes an expression. -/
theorem words_declaration (hr : r ∈ scan o source) :
    ∃ before d behind, source = before ++ (d.indent ++ (d.outdented ++ behind)) ∧
      r.start = Text.byteSize before ∧ r.declared? source = some (d, behind) ∧
      Text.words r.declaration =
        Text.words (if d.head.isExpression then Text.withoutSemicolon d.outdented
          else d.outdented) := by
  obtain ⟨before, t, s, m, rfl, hs, hread, rfl⟩ :=
    (run_scanFrom o .first source).exists_read LineStart.behind_first r hr
  obtain ⟨behind, rfl, hdeclares⟩ := hs.declares hread
  obtain ⟨d, rest, hd, -, -, hm⟩ := Member.read?_eq_some_iff.1 hread
  obtain rfl : m.declaration = d := congrArg Member.declaration hm
  obtain ⟨hparted, hstatic⟩ := Declaration.isParted_leading hd
  refine ⟨before, m.declaration, behind, ?_, hs.offset, hdeclares.declared, ?_⟩
  · rw [← List.append_assoc m.declaration.indent, ← Declaration.text_eq_outdented]
  · rw [s.declaration_record hstatic]
    exact Declaration.words_shown hparted

def spacedWords : Text :=
  ("\tpublic   static\treadonly  Map<int,  string>  Names ;\n" ++
    "private\tnew int Size  =>  size ;  ;\n").toList

theorem words_declaration_spacedWords :
    ∃ r ∈ scan {} spacedWords, r.start = 54 ∧
      r.declaration = "private new int Size  =>  size ;".toList ∧
      ∃ before d behind, spacedWords = before ++ (d.indent ++ (d.outdented ++ behind)) ∧
        r.start = Text.byteSize before ∧ r.declared? spacedWords = some (d, behind) ∧
        Text.words r.declaration =
          Text.words (if d.head.isExpression then Text.withoutSemicolon d.outdented
            else d.outdented) := by
  have hscan : (scan {} spacedWords).map (fun r => (r.start, r.declaration)) =
      [(0, "public static readonly Map<int,  string>  Names".toList),
        (54, "private new int Size  =>  size ;".toList)] := by decide +kernel
  have hmem : (54, "private new int Size  =>  size ;".toList) ∈
      (scan {} spacedWords).map fun r => (r.start, r.declaration) := by
    rw [hscan]
    exact List.mem_cons_of_mem _ (List.mem_cons_self ..)
  obtain ⟨r, hr, he⟩ := List.mem_map.1 hmem
  obtain ⟨hstart, hdeclaration⟩ := Prod.mk.inj he
  exact ⟨r, hr, hstart, hdeclaration, words_declaration hr⟩

end ApiListing
