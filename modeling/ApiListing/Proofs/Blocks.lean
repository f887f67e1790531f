import ApiListing.Member
import ApiListing.Proofs.Declarations
import ApiListing.Proofs.Openings

namespace ApiListing

variable {t line indent content : Text} {boundary : Boundary} {b : Braces}

theorem eq_append_of_closeAtIndent (h : closeAtIndent indent t = some content) :
    ∃ rest, t = content ++ '}' :: rest := by
  induction t generalizing content with
  | nil => simp [closeAtIndent] at h
  | cons c t ih =>
      simp only [closeAtIndent] at h
      split at h
      · next hc =>
          cases h
          simp only [Bool.and_eq_true, decide_eq_true_eq, List.isPrefixOf_iff_prefix] at hc
          obtain ⟨rfl, rest, rfl⟩ := hc
          exact ⟨rest, by simp⟩
      · obtain ⟨s, hs, rfl⟩ := Option.map_eq_some_iff.1 h
        obtain ⟨rest, rfl⟩ := ih hs
        exact ⟨rest, rfl⟩

theorem closeAtIndent_line {l : Text} (hl : '\n' ∉ l) (t : Text) :
    closeAtIndent indent (l ++ t) = (closeAtIndent indent t).map (l ++ ·) := by
  induction l with
  | nil => simp
  | cons c l ih =>
      simp only [List.mem_cons, not_or] at hl
      rw [List.cons_append, closeAtIndent, ih hl.2]
      simp [Ne.symm hl.1, Function.comp_def]

theorem closeAtIndent_newline (indent t : Text) :
    closeAtIndent indent ('\n' :: t) =
      if indent ++ ['}'] <+: t then some ('\n' :: indent)
      else (closeAtIndent indent t).map ('\n' :: ·) := by
  simp [closeAtIndent]

theorem eq_append_of_closeAtDepth {reader : Lexeme} {depth : Nat}
    (h : closeAtDepth reader depth t = some content) : ∃ rest, t = content ++ '}' :: rest := by
  induction t generalizing reader depth content with
  | nil => simp [closeAtDepth] at h
  | cons c t ih =>
      have honwards : ∀ reader depth, (closeAtDepth reader depth t).map (c :: ·) = some content →
          ∃ rest, c :: t = content ++ '}' :: rest := by
        intro reader depth hmap
        obtain ⟨s, hs, rfl⟩ := Option.map_eq_some_iff.1 hmap
        obtain ⟨rest, rfl⟩ := ih hs
        exact ⟨rest, rfl⟩
      simp only [closeAtDepth] at h
      split at h
      · next hc =>
          cases depth with
          | zero =>
              cases h
              simp only [Bool.and_eq_true, decide_eq_true_eq] at hc
              exact ⟨t, by rw [hc.2]; rfl⟩
          | succ depth => exact honwards _ _ h
      · split at h
        · exact honwards _ _ h
        · exact honwards _ _ h

theorem Boundary.eq_append_of_close (h : boundary.close indent t = some content) :
    ∃ rest, t = content ++ '}' :: rest := by
  cases boundary with
  | indentation => exact eq_append_of_closeAtIndent h
  | braceDepth => exact eq_append_of_closeAtDepth h

namespace Braces

theorem eq_append_of_onLine? (h : onLine? line = some b) : ∃ rest, line = b.text ++ rest := by
  obtain ⟨rest, hline, -⟩ := exists_of_onLine? h
  exact ⟨rest, hline⟩

theorem eq_append_of_after? (h : after? boundary indent t = some b) :
    ∃ rest, t = b.text ++ rest := by
  cases ho : opening? indent t with
  | none =>
      obtain ⟨behind, hline⟩ := onOneLine_of_after? ho h
      exact ⟨behind, hline.eq⟩
  | some o =>
      obtain ⟨behind, hopens⟩ := opens_of_opening? ho
      rw [after?_of_opening? ho, hopens.open?] at h
      obtain ⟨content, hclose, rfl⟩ := Option.map_eq_some_iff.1 h
      obtain ⟨rest, rfl⟩ := Boundary.eq_append_of_close hclose
      exact ⟨rest, by simp [hopens.eq, Braces.text]⟩

end Braces

namespace Member

variable {o : ScanOptions} {above? : Option Text} {m : Member}

/-- A member is a declaration on the first line that no marker hides and that defines no type. -/
theorem read?_eq_some_iff :
    read? o above? t = some m ↔
      ∃ d rest, Declaration.read? (Text.firstLine t) = some (d, rest) ∧
        above?.any o.isMarker = false ∧ d.head.isTypeDefinition = false ∧
        m = ⟨d, Braces.after? o.boundary d.indent (t.drop d.text.length)⟩ := by
  rw [read?]
  cases hd : Declaration.read? (Text.firstLine t) with
  | none => simp
  | some r =>
      obtain ⟨d, rest⟩ := r
      simp only [Option.bind_eq_bind, Option.bind_some]
      constructor
      · intro h
        split at h
        · simp at h
        · next hno =>
            simp only [Bool.or_eq_true, not_or, Bool.not_eq_true] at hno
            exact ⟨d, rest, rfl, hno.1, hno.2, (Option.some.inj h).symm⟩
      · rintro ⟨d', rest', he, habove, htype, rfl⟩
        cases he
        simp [habove, htype]

/-- A member is a piece of the source: its declaration on the first line, then its block. -/
theorem eq_append_of_read? (h : read? o above? t = some m) :
    ∃ rest line, t = m.text ++ rest ∧ Text.firstLine t = m.declaration.text ++ line := by
  obtain ⟨d, line, hd, -, -, rfl⟩ := read?_eq_some_iff.1 h
  have hline := Declaration.eq_append_of_read? hd
  have ht := Text.firstLine_append_dropWhile t
  rw [hline, List.append_assoc] at ht
  obtain ⟨behind, hbehind⟩ : ∃ behind, t = d.text ++ behind := ⟨_, ht.symm⟩
  refine (?_ : ∃ rest, t = _ ++ rest).imp fun _ ht => ⟨line, ht, hline⟩
  have hdrop : t.drop d.text.length = behind := by simp [hbehind]
  simp only [Member.text, hdrop]
  cases hb : Braces.after? o.boundary d.indent behind with
  | none => exact ⟨behind, by simpa using hbehind⟩
  | some b =>
      obtain ⟨rest, hrest⟩ := Braces.eq_append_of_after? hb
      exact ⟨rest, by simp [hbehind, ← hrest]⟩

theorem text_ne_nil (m : Member) : m.text ≠ [] := by
  simp [Member.text, Declaration.text_ne_nil]

/-- A member ends before the newline of its last line. -/
theorem getLast?_text_ne_newline (h : read? o above? t = some m) : m.text.getLast? ≠ some '\n' := by
  obtain ⟨-, line, -, hline⟩ := eq_append_of_read? h
  cases hb : m.braces? with
  | none =>
      intro hlast
      have hmem := List.mem_of_getLast? hlast
      rw [Member.text, hb, Option.map_none, Option.getD_none, List.append_nil] at hmem
      exact Text.not_mem_firstLine t (hline ▸ List.mem_append_left _ hmem)
  | some b =>
      have htext : m.text = m.declaration.text ++ b.lead ++ '{' :: b.content ++ ['}'] := by
        simp [Member.text, hb, Braces.text]
      rw [htext, List.getLast?_concat]
      decide

end Member

end ApiListing
