import ApiListing.Proofs.Respelling
import ApiListing.Proofs.Returns
import ApiListing.Proofs.Runs

namespace ApiListing

open Text

variable {w e x t u v l indent : Text} {closed : Bool} {boundary : Boundary}

namespace Declaration

def indentedBy (w : Text) (r : Declaration × Text) : Declaration × Text :=
  ({ r.1 with indent := w ++ r.1.indent }, r.2)

theorem read?_blanks_append (hw : ∀ c ∈ w, isBlank c = true) (line : Text) :
    read? (w ++ line) = (read? line).map (indentedBy w) := by
  rw [read?_eq, read?_eq, spanBlanks_blanks_append hw]
  cases Visibility.read? (spanBlanks line).2 with
  | none => rfl
  | some v =>
      simp only [Option.bind_some]
      cases gap? v.2 with
      | none => rfl
      | some g =>
          simp only [Option.bind_some, Option.map_map]
          rfl

structure Alike (d d' : Declaration) : Prop where
  visibility : d'.visibility = d.visibility
  isStatic : d'.isStatic = d.isStatic
  modifierWords : d'.modifierWords = d.modifierWords
  kind : d'.head.kind = d.head.kind
  isTypeDefinition : d'.head.isTypeDefinition = d.head.isTypeDefinition
  shown : d'.head.shown = d.head.shown

theorem alike_indentedBy_endingIn (hx : Returns x) (w : Text) (d : Declaration) (rest : Text) :
    d.Alike (indentedBy w (endingIn x (d, rest))).1 where
  visibility := rfl
  isStatic := rfl
  modifierWords := rfl
  kind := Head.kind_endingIn x d.head rest
  isTypeDefinition := Head.isTypeDefinition_endingIn x d.head rest
  shown := Head.shown_endingIn hx d.head rest

theorem read?_margins (hw : ∀ c ∈ w, isBlank c = true) (hx : Returns x) (line : Text) :
    read? (w ++ (line ++ x)) = (read? line).map (indentedBy w ∘ endingIn x) := by
  rw [read?_blanks_append hw, read?_returns hx, Option.map_map]

theorem exists_alike {line rest : Text} {d : Declaration} (hw : ∀ c ∈ w, isBlank c = true)
    (hx : Returns x) (h : read? line = some (d, rest)) :
    ∃ d' rest', read? (w ++ (line ++ x)) = some (d', rest') ∧ d.Alike d' ∧
      d'.indent = w ++ d.indent ∧ (rest' = rest ++ x ∨ rest' = rest) :=
  ⟨_, _, by rw [read?_margins hw hx, h]; rfl, alike_indentedBy_endingIn hx w d rest, rfl,
    Head.rest_endingIn x d.head rest⟩

end Declaration

namespace Braces

theorem onLine?_returns (hx : Returns x) (l : Text) : onLine? (l ++ x) = onLine? l := by
  rw [onLine?, onLine?, spanBlanks_followedBy (Or.inr hx), Reading.followedBy]
  generalize spanBlanks l = r
  obtain ⟨blanks, rest⟩ := r
  cases rest with
  | nil =>
      cases x with
      | nil => rfl
      | cons c x =>
          obtain rfl : c = '\r' := hx c (List.mem_cons_self ..)
          rfl
  | cons c rest =>
      by_cases hc : c = '{'
      · subst hc
        have hdrop : (rest ++ x).reverse.dropWhile (· ≠ '}') = rest.reverse.dropWhile (· ≠ '}') := by
          rw [List.reverse_append]
          apply List.dropWhile_append_of_pos
          intro c hc
          rw [hx c (List.mem_reverse.1 hc)]
          decide
        simp only [List.cons_append, hdrop]
      · simp [hc]

theorem onLine?_blanks_append (hw : ∀ c ∈ w, isBlank c = true) (l : Text) :
    onLine? (w ++ l) = (onLine? l).map fun b => { b with lead := w ++ b.lead } := by
  rw [onLine?, onLine?, spanBlanks_blanks_append hw]
  generalize spanBlanks l = r
  obtain ⟨blanks, rest⟩ := r
  cases rest with
  | nil => rfl
  | cons c rest =>
      by_cases hc : c = '{'
      · subst hc
        simp only
        split <;> rfl
      · simp [hc]

theorem prefix_trimStart_returns {s : Text} (hs : '\r' ∉ s) (hx : Returns x)
    (l : Text) : s <+: trimStart (l ++ x) ↔ s <+: trimStart l := by
  rw [trimStart, List.dropWhile_append]
  split
  · next hnil =>
      have hnil : trimStart l = [] := List.isEmpty_iff.1 hnil
      rw [List.dropWhile_eq_nil_iff.2 hx.isSpace, hnil]
  · have hlast : ∀ c ∈ s.getLast?, c ∉ x := fun c hc hmem => hs (hx c hmem ▸ List.mem_of_getLast? hc)
    exact ⟨prefix_of_prefix_append hlast, fun h => h.trans (List.prefix_append ..)⟩

/-- Carriage returns belong to a clause that reaches up to the end of its line, and to what is left
of the line otherwise. -/
theorem clause_returns (hx : Returns x) (l : Text) :
    clause (l ++ x) = clause l ∨ clause l = l ∧ clause (l ++ x) = l ++ x := by
  have hcolon : [':'] <+: trimStart (l ++ x) ↔ [':'] <+: trimStart l :=
    prefix_trimStart_returns (by decide) hx l
  have hwhere : "where ".toList <+: trimStart (l ++ x) ↔ "where ".toList <+: trimStart l :=
    prefix_trimStart_returns (by decide) hx l
  simp only [clause, Bool.or_eq_true, List.isPrefixOf_iff_prefix, hcolon, hwhere]
  split
  · by_cases hl : ∃ c ∈ l, decide (c ≠ '{') = false
    · exact Or.inl (takeWhile_append_of_mem hl x)
    · have hl : ∀ c ∈ l, decide (c ≠ '{') = true := by
        simpa only [not_exists, not_and, Bool.not_eq_false] using hl
      exact Or.inr ⟨List.takeWhile_eq_self_iff.2 hl,
        List.takeWhile_eq_self_iff.2 (hx.forall_mem_append hl (by decide))⟩
  · exact Or.inl rfl

structure Alike (w e : Text) (closed : Bool) (t u : Text) (b b' : Braces) : Prop where
  lead : Respelled w e false b.lead b'.lead
  content : Respelled w e false b.content b'.content
  rest : ∃ y z, t = b.text ++ y ∧ u = b'.text ++ z ∧ Respelled w e closed y z

theorem Alike.text {b b' : Braces} (h : Alike w e closed t u b b') :
    Respelled w e false b.text b'.text := by
  have hclose : Respelled w e false ['}'] ['}'] := .refl (by decide)
  simpa [Braces.text] using h.lead.append (.char '{' (by decide) (h.content.append hclose))

theorem alike_of_onLine? {p q line : Text} {b : Braces} (hline : '\n' ∉ line)
    (hb : onLine? line = some b)
    (hlead : ∀ s, '\n' ∉ s → Respelled w e false (p ++ s) (q ++ s)) (h : Respelled w e closed t u) :
    Alike w e closed (p ++ (line ++ t)) (q ++ (line ++ u)) { b with lead := p ++ b.lead }
      { b with lead := q ++ b.lead } := by
  obtain ⟨behind, rfl⟩ := eq_append_of_onLine? hb
  simp only [Braces.text, List.mem_append, List.mem_cons, not_or] at hline
  obtain ⟨⟨⟨hblead, -, hcontent⟩, -⟩, hbehind⟩ := hline
  exact ⟨hlead b.lead hblead, .refl hcontent, behind ++ t, behind ++ u, by simp [Braces.text],
    by simp [Braces.text], h.prepend hbehind⟩

/-- Margins around a line of nothing but a brace make its indentation deeper. -/
theorem exists_indent_of_trim_eq (hw : ∀ c ∈ w, isSpace c = true) {line : Text}
    (h : trim line = ['{']) (y : Text) :
    ∃ indent spaces, line = indent ++ '{' :: spaces ∧ line.takeWhile isSpace = indent ∧
      (w ++ (line ++ y)).takeWhile isSpace = w ++ indent := by
  obtain ⟨spaces, hs, -⟩ := trim_append line
  rw [h] at hs
  have hbrace : ∃ c ∈ line, isSpace c = false := ⟨'{', by rw [hs]; simp, by decide⟩
  refine ⟨_, spaces, by simpa using hs, rfl, ?_⟩
  rw [List.takeWhile_append_of_pos hw, takeWhile_append_of_mem hbrace]

theorem respelled_line (hl : '\n' ∉ l) (hx : x = e ∨ x = []) {lead : Text} (hlead : '\n' ∉ lead) :
    Respelled w e false (l ++ '\n' :: lead) (l ++ x ++ '\n' :: (w ++ lead)) := by
  rw [List.append_assoc]
  exact .prepend hl (.newline x hx (.refl hlead))

section

variable (hm : Margins w e) (he : boundary = .braceDepth → e = [])
include hm he

theorem open?_respelled (hindent : '\n' ∉ indent) {lead lead' y z : Text}
    (hlead : Respelled w e false lead lead') (ht : t = lead ++ '{' :: y) (hu : u = lead' ++ '{' :: z)
    (h : Respelled w e closed y z) :
    Option.Rel (Alike w e closed t u) (open? boundary indent lead t)
      (open? boundary (w ++ indent) lead' u) := by
  subst ht hu
  have hy : (lead ++ '{' :: y).drop (lead.length + 1) = y := by simp
  have hz : (lead' ++ '{' :: z).drop (lead'.length + 1) = z := by simp
  rw [open?, open?, hy, hz]
  refine rel_map (Boundary.close_respelled hm he hindent h) ?_
  rintro c d ⟨hcontent, y, z, rfl, rfl, hrest⟩
  exact ⟨hlead, hcontent, y, z, by simp [Braces.text], by simp [Braces.text], hrest⟩

/-- A brace alone on the line below opens its block in both texts. -/
theorem openBelow_respelled (hl : '\n' ∉ l) (hx : x = e ∨ x = []) {next y : Text}
    (hnext : '\n' ∉ next) (hopen : trim next = ['{']) (h : Unlined w e closed y t u) :
    Option.Rel
      (Alike w e closed (l ++ '\n' :: (next ++ t)) (l ++ x ++ '\n' :: (w ++ (next ++ (y ++ u)))))
      (open? boundary (next.takeWhile isSpace) (l ++ '\n' :: next.takeWhile isSpace)
        (l ++ '\n' :: (next ++ t)))
      (open? boundary ((w ++ (next ++ y)).takeWhile isSpace)
        (l ++ x ++ '\n' :: (w ++ (next ++ y)).takeWhile isSpace)
        (l ++ x ++ '\n' :: (w ++ (next ++ (y ++ u))))) := by
  obtain ⟨indent, spaces, rfl, hindent, hindent'⟩ :=
    exists_indent_of_trim_eq hm.isSpace_left hopen y
  rw [hindent, hindent']
  simp only [List.mem_append, List.mem_cons, not_or] at hnext
  have hspaces := h.respelled_append.prepend hnext.2.2
  refine open?_respelled hm he hnext.1 (respelled_line hl hx hnext.1) ?_ ?_ hspaces <;> simp

theorem below?_respelled (hl : '\n' ∉ l) (h : Unlined w e closed x t u) :
    Option.Rel (Alike w e closed (l ++ t) (l ++ (x ++ u))) (below? boundary l (l ++ t))
      (below? boundary (l ++ x) (l ++ (x ++ u))) := by
  have hreturns := h.returns hm
  have hl' : '\n' ∉ l ++ x := by simp [hl, hreturns.not_mem]
  cases h with
  | last hx =>
      subst hx
      simp only [below?, List.append_nil, afterLine_of_not_mem hl]
      exact .none
  | @below t v hx hbelow =>
      rw [below?, below?, ← List.append_assoc, afterLine_line hl, afterLine_line hl']
      cases hbelow with
      | nil hclosed => exact .none
      | @line t u hline =>
          obtain ⟨next, y, t, u, hnext, rfl, rfl, hrest⟩ := hline.exists_unlined
          have hy := hrest.returns hm
          have hnext' : '\n' ∉ w ++ (next ++ y) := by simp [hnext, hm.not_mem_left, hy.not_mem]
          have hfirst : firstLine (w ++ (next ++ (y ++ u))) = w ++ (next ++ y) := by
            rw [← hrest.firstLine_right hnext']
            simp
          have htrim : trim (w ++ (next ++ y)) = trim next := by
            rw [trim_spaces_append hm.isSpace_left, trim_append_spaces hy.isSpace]
          simp only [hrest.firstLine_left hnext, hfirst, htrim]
          split
          · next hopen => exact openBelow_respelled hm he hl hx hnext hopen hrest
          · split
            · rw [onLine?_blanks_append hm.blanks, onLine?_returns hy, Option.map_map]
              cases hb : onLine? next with
              | none => exact .none
              | some b =>
                  have halike := alike_of_onLine? (p := l ++ ['\n']) (q := l ++ x ++ '\n' :: w) hnext
                    hb (fun s hs => by simpa using respelled_line hl hx hs) hrest.respelled_append
                  exact .some (by simpa using halike)
            · exact .none

/-- A brace at the end of the line opens its block in both texts. -/
theorem openAtEnd_respelled (hindent : '\n' ∉ indent) {clause behind : Text}
    (hline : '\n' ∉ clause ++ behind) (hlast : (trimEnd behind).getLast? = some '{')
    (h : Unlined w e closed x t u) :
    Option.Rel (Alike w e closed (clause ++ behind ++ t) (clause ++ behind ++ (x ++ u)))
      (open? boundary indent (clause ++ (trimEnd behind).dropLast) (clause ++ behind ++ t))
      (open? boundary (w ++ indent) (clause ++ (trimEnd behind).dropLast)
        (clause ++ behind ++ (x ++ u))) := by
  obtain ⟨spaces, hs, -⟩ := trimEnd_append behind
  rw [← List.dropLast_append_getLast? _ hlast] at hs
  generalize (trimEnd behind).dropLast = lead at hs ⊢
  subst hs
  simp only [List.mem_append, not_or] at hline
  have hspaces := h.respelled_append.prepend hline.2.2
  refine open?_respelled hm he hindent (.refl (by simp [hline.1, hline.2.1.1])) ?_ ?_ hspaces <;>
    simp

theorem after?_respelled (hindent : '\n' ∉ indent) (h : Respelled w e closed t u) :
    Option.Rel (Alike w e closed t u) (after? boundary indent t)
      (after? boundary (w ++ indent) u) := by
  obtain ⟨l, x, t, u, hl, rfl, rfl, hrest⟩ := h.exists_unlined
  have hx := hrest.returns hm
  have hl' : '\n' ∉ l ++ x := by simp [hl, hx.not_mem]
  have hfirst : firstLine (l ++ (x ++ u)) = l ++ x := by
    rw [← List.append_assoc, hrest.firstLine_right hl']
  have hbelow := below?_respelled hm he hl hrest
  rcases clause_returns hx l with hclause | ⟨hall, hall'⟩
  · obtain ⟨behind, hbehind⟩ : ∃ behind, l = clause l ++ behind := ⟨_, (clause_append_drop l).symm⟩
    have hdrop : (clause l ++ behind).drop (clause l).length = behind := List.drop_left
    have hdrop' : (clause l ++ (behind ++ x)).drop (clause l).length = behind ++ x := List.drop_left
    rw [← hbehind] at hdrop
    rw [← List.append_assoc, ← hbehind] at hdrop'
    simp only [after?, hrest.firstLine_left hl, hfirst, hclause, hdrop, hdrop', onLine?_returns hx,
      trimEnd_append_spaces hx.isSpace]
    generalize clause l = clause at hbehind ⊢
    subst hbehind
    split
    · next b hb =>
        simp only [List.mem_append, not_or] at hl
        have halike := alike_of_onLine? (p := clause) (q := clause) hl.2 hb
          (fun s hs => .refl (by simp [hl.1, hs])) hrest.respelled_append
        exact .some (by simpa using halike)
    · split
      · next hlast => exact openAtEnd_respelled hm he hindent hl hlast hrest
      · split
        · exact hbelow
        · exact .none
  · simp only [after?, hrest.firstLine_left hl, hfirst, hall, hall', List.drop_length]
    exact hbelow

end

end Braces

namespace Text

theorem lastLine_append_of_mem (ht : '\n' ∈ t) (s : Text) : lastLine (s ++ t) = lastLine t := by
  have hstop : ∃ c ∈ t.reverse, decide (c ≠ '\n') = false := ⟨'\n', by simpa using ht, by decide⟩
  rw [lastLine, List.reverse_append, takeWhile_append_of_mem hstop, ← lastLine]

theorem lastLine_line (s t : Text) : lastLine (s ++ '\n' :: t) = lastLine t := by
  rw [← List.singleton_append, ← List.append_assoc, lastLine_append (beginsLine_append_newline s)]

theorem lastLine_append_of_not_mem (hl : '\n' ∉ l) (s : Text) :
    lastLine (s ++ l) = lastLine s ++ l := by
  have hrun : ∀ c ∈ l.reverse, decide (c ≠ '\n') = true := ne_of_not_mem (by simpa using hl)
  rw [lastLine, List.reverse_append, List.takeWhile_append_of_pos hrun, List.reverse_append,
    List.reverse_reverse, ← lastLine]

namespace Respelled

theorem eq_of_not_mem (h : Respelled w e closed t u) (ht : '\n' ∉ t) : u = t := by
  obtain ⟨l, x, t, u, hl, rfl, rfl, hrest⟩ := h.exists_unlined
  cases hrest with
  | last hx => simp [hx]
  | below hx hbelow => simp at ht

theorem firstLine (hm : Margins w e) (h : Respelled w e closed t u) :
    ∃ x, Returns x ∧ firstLine u = firstLine t ++ x := by
  obtain ⟨l, x, t, u, hl, rfl, rfl, hrest⟩ := h.exists_unlined
  have hx := hrest.returns hm
  refine ⟨x, hx, ?_⟩
  rw [hrest.firstLine_left hl, ← List.append_assoc,
    hrest.firstLine_right (by simp [hl, hx.not_mem])]

theorem trim_firstLine (hm : Margins w e) (h : Respelled w e closed t u) :
    trim (Text.firstLine u) = trim (Text.firstLine t) := by
  obtain ⟨x, hx, hline⟩ := h.firstLine hm
  rw [hline, trim_append_spaces hx.isSpace]

theorem afterLine (hm : Margins w e) (h : Respelled w e closed t u) :
    Option.Rel (Relined w e closed) (afterLine t) (afterLine u) := by
  obtain ⟨l, x, t, u, hl, rfl, rfl, hrest⟩ := h.exists_unlined
  rw [← List.append_assoc]
  exact hrest.afterLine hl (by simp [hl, (hrest.returns hm).not_mem])

theorem lastLine (hm : Margins w e) (h : Respelled w e false t u) (ht : '\n' ∈ t) :
    '\n' ∈ u ∧ lastLine u = w ++ lastLine t := by
  induction h with
  | nil => cases ht
  | @char t u c hc h ih =>
      have ht : '\n' ∈ t := by simpa [Ne.symm hc] using ht
      obtain ⟨hu, hlast⟩ := ih ht
      refine ⟨List.mem_cons_of_mem c hu, ?_⟩
      rw [← List.singleton_append, lastLine_append_of_mem hu, ← List.singleton_append (l := t),
        lastLine_append_of_mem ht, hlast]
  | @newline t u x hx h ih =>
      refine ⟨by simp, ?_⟩
      rw [lastLine_line, ← List.nil_append ('\n' :: t), lastLine_line]
      by_cases ht : '\n' ∈ t
      · obtain ⟨hu, hlast⟩ := ih ht
        rw [lastLine_append_of_mem hu, hlast]
      · obtain rfl := h.eq_of_not_mem ht
        rw [lastLine_of_not_mem ht, lastLine_of_not_mem (by simp [ht, hm.not_mem_left])]
  | close x hx hclosed => cases hclosed

end Respelled

theorem trim_lastLine_respelled (hm : Margins w e) {p p' q q' y z : Text} (hp : '\n' ∉ p)
    (hp' : '\n' ∉ p') (hq : Respelled w e false q q') (hrest : Respelled w e closed y z)
    (hfirst : trim (firstLine (p' ++ (q' ++ z))) = trim (firstLine (p ++ (q ++ y)))) :
    trim (lastLine (p' ++ (q' ++ firstLine z))) = trim (lastLine (p ++ (q ++ firstLine y))) := by
  by_cases hmem : '\n' ∈ q
  · obtain ⟨x, hx, hz⟩ := hrest.firstLine hm
    obtain ⟨hmem', hlast⟩ := (hq.append (.refl (not_mem_firstLine y))).lastLine hm
      (List.mem_append_left _ hmem)
    have hsplit : p' ++ (q' ++ firstLine z) = p' ++ (q' ++ firstLine y) ++ x := by rw [hz]; simp
    rw [hsplit, lastLine_append_of_not_mem hx.not_mem, lastLine_append_of_mem hmem', hlast,
      trim_append_spaces hx.isSpace, trim_spaces_append hm.isSpace_left,
      lastLine_append_of_mem (List.mem_append_left _ hmem)]
  · obtain rfl := hq.eq_of_not_mem hmem
    have hpq : '\n' ∉ p ++ q' := by simp [hp, hmem]
    have hpq' : '\n' ∉ p' ++ q' := by simp [hp', hmem]
    rw [← List.append_assoc, ← List.append_assoc, firstLine_append hpq, firstLine_append hpq'] at hfirst
    rw [← List.append_assoc, ← List.append_assoc, lastLine_of_not_mem, lastLine_of_not_mem, hfirst]
    · simp [hp, hmem, not_mem_firstLine]
    · simp [hp', hmem, not_mem_firstLine]

end Text

namespace Member

variable {o : ScanOptions} {above? above'? : Option Text}

/-- Members with the same words and the same content, behind which the texts go on alike. -/
structure Alike (w e : Text) (closed : Bool) (t v : Text) (m m' : Member) : Prop where
  declaration : m.declaration.Alike m'.declaration
  braces? : Option.Rel (fun b b' => Respelled w e false b.content b'.content) m.braces? m'.braces?
  rest : ∃ y z, t = m.text ++ y ∧ v = m'.text ++ z ∧ Respelled w e closed y z ∧
    trim (lastLine (m'.text ++ firstLine z)) = trim (lastLine (m.text ++ firstLine y))

theorem alike_of_declaration (hm : Margins w e) (he : boundary = .braceDepth → e = [])
    {d d' : Declaration} {rest rest' : Text} (halike : d.Alike d')
    (hindent : d'.indent = w ++ d.indent) (hl : '\n' ∉ l) (hline : l = d.text ++ rest)
    (hline' : w ++ (l ++ x) = d'.text ++ rest') (hbehind : rest' = rest ++ x ∨ rest' = rest)
    (hrest : Unlined w e closed x t u) :
    Alike w e closed (l ++ t) (w ++ (l ++ (x ++ u)))
      ⟨d, Braces.after? boundary d.indent ((l ++ t).drop d.text.length)⟩
      ⟨d', Braces.after? boundary d'.indent ((w ++ (l ++ (x ++ u))).drop d'.text.length)⟩ := by
  have hx := hrest.returns hm
  have hl' : '\n' ∉ w ++ (l ++ x) := by simp [hl, hx.not_mem, hm.not_mem_left]
  have hsplit : w ++ (l ++ (x ++ u)) = w ++ (l ++ x) ++ u := by simp
  have hfirst : trim (firstLine (w ++ (l ++ x) ++ u)) = trim (firstLine (l ++ t)) := by
    rw [hrest.firstLine_left hl, hrest.firstLine_right hl', trim_spaces_append hm.isSpace_left,
      trim_append_spaces hx.isSpace]
  rw [hsplit, hline']
  rw [hline'] at hl' hfirst
  subst hline
  simp only [List.mem_append, not_or] at hl hl'
  have hbehind : Respelled w e closed (rest ++ t) (rest' ++ u) := by
    rcases hbehind with rfl | rfl
    · rw [List.append_assoc]
      exact hrest.respelled_append.prepend hl.2
    · exact hrest.respelled.prepend hl.2
  have hnindent : '\n' ∉ d.indent := fun h => hl.1 (by simp [Declaration.text, h])
  have hafter := Braces.after?_respelled hm he hnindent hbehind
  rw [List.append_assoc, List.append_assoc] at hfirst ⊢
  rw [List.drop_left, List.drop_left, hindent]
  generalize Braces.after? boundary d.indent (rest ++ t) = b? at hafter ⊢
  generalize Braces.after? boundary (w ++ d.indent) (rest' ++ u) = b'? at hafter ⊢
  cases hafter with
  | none =>
      have hnil : Respelled w e false [] [] := .nil
      refine ⟨halike, .none, rest ++ t, rest' ++ u, by simp [Member.text], by simp [Member.text],
        hbehind, ?_⟩
      simpa [Member.text] using trim_lastLine_respelled hm hl.1 hl'.1 hnil hbehind hfirst
  | @some b b' hb =>
      obtain ⟨y, z, hy, hz, hyz⟩ := hb.rest
      rw [hy, hz] at hfirst
      refine ⟨halike, .some hb.content, y, z, by simp [Member.text, hy], by simp [Member.text, hz],
        hyz, ?_⟩
      simpa [Member.text] using trim_lastLine_respelled hm hl.1 hl'.1 hb.text hyz hfirst

theorem read?_respelled (hm : Margins w e) (he : o.boundary = .braceDepth → e = [])
    (hmarker : above'?.any o.isMarker = above?.any o.isMarker) (h : Respelled w e closed t u) :
    Option.Rel (Alike w e closed t (w ++ u)) (read? o above? t) (read? o above'? (w ++ u)) := by
  obtain ⟨l, x, t, u, hl, rfl, rfl, hrest⟩ := h.exists_unlined
  have hx := hrest.returns hm
  have hfirst : firstLine (w ++ (l ++ (x ++ u))) = w ++ (l ++ x) := by
    rw [← hrest.firstLine_right (l := w ++ (l ++ x)) (by simp [hl, hx.not_mem, hm.not_mem_left])]
    simp
  have htrim : trim (w ++ (l ++ x)) = trim l := by
    rw [trim_spaces_append hm.isSpace_left, trim_append_spaces hx.isSpace]
  rw [Member.read?, Member.read?, hfirst, hrest.firstLine_left hl]
  cases hd : Declaration.read? l with
  | none =>
      rw [Declaration.read?_margins hm.blanks hx, hd]
      exact .none
  | some r =>
      obtain ⟨d, rest⟩ := r
      obtain ⟨d', rest', hd', halike, hindent, hbehind⟩ := Declaration.exists_alike hm.blanks hx hd
      simp only [hd', Option.bind_eq_bind, Option.bind_some]
      rw [hmarker, halike.isTypeDefinition]
      split
      · exact .none
      · exact .some (alike_of_declaration hm he halike hindent hl
          (Declaration.eq_append_of_read? hd) (Declaration.eq_append_of_read? hd') hbehind hrest)

end Member

end ApiListing
