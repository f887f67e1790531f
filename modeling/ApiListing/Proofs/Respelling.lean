import ApiListing.Listing
import ApiListing.Proofs.Blocks
import ApiListing.Proofs.Collapsing
import ApiListing.Proofs.Stops

namespace ApiListing

namespace Text

/-- Blanks that may stand in front of lines, and carriage returns that may stand behind them. -/
structure Margins (w e : Text) : Prop where
  blanks : ∀ c ∈ w, isBlank c = true
  returns : Returns e

/-- The rest of two texts from the same place in a line on. In the second one `w` stands in front of
each later line, and `e` or nothing in front of a newline. If `closed`, it may end as the first one
does behind a newline, without `w`. -/
inductive Respelled (w e : Text) (closed : Bool) : Text → Text → Prop
  | nil : Respelled w e closed [] []
  | char {t u : Text} (c : Char) (hc : c ≠ '\n') (h : Respelled w e closed t u) :
      Respelled w e closed (c :: t) (c :: u)
  | newline {t u : Text} (x : Text) (hx : x = e ∨ x = []) (h : Respelled w e closed t u) :
      Respelled w e closed ('\n' :: t) (x ++ '\n' :: (w ++ u))
  | close (x : Text) (hx : x = e ∨ x = []) (hclosed : closed = true) :
      Respelled w e closed ['\n'] (x ++ ['\n'])

/-- The rest of two such texts from the start of a line on. -/
inductive Relined (w e : Text) (closed : Bool) : Text → Text → Prop
  | nil (hclosed : closed = true) : Relined w e closed [] []
  | line {t u : Text} (h : Respelled w e closed t u) : Relined w e closed t (w ++ u)

/-- The rest of two such texts from the end of a line on, behind which `x` stands. -/
inductive Unlined (w e : Text) (closed : Bool) (x : Text) : Text → Text → Prop
  | last (hx : x = []) : Unlined w e closed x [] []
  | below {t v : Text} (hx : x = e ∨ x = []) (h : Relined w e closed t v) :
      Unlined w e closed x ('\n' :: t) ('\n' :: v)

variable {w e x t u v l : Text} {closed : Bool}

namespace Margins

variable (hm : Margins w e)
include hm

theorem not_mem_left : '\n' ∉ w := not_mem_of_blanks hm.blanks

theorem isSpace_left : ∀ c ∈ w, isSpace c = true := isSpace_of_blanks hm.blanks

theorem returns_right (hx : x = e ∨ x = []) : Returns x := by
  rcases hx with rfl | rfl
  · exact hm.returns
  · intro c hc
    cases hc

end Margins

theorem Returns.not_mem (h : Returns x) : '\n' ∉ x := fun hmem => absurd (h _ hmem) (by decide)

theorem Returns.isSpace (h : Returns x) : ∀ c ∈ x, isSpace c = true := by
  intro c hc
  rw [h c hc]
  decide

namespace Respelled

theorem newline_of_relined (hx : x = e ∨ x = []) (h : Relined w e closed t v) :
    Respelled w e closed ('\n' :: t) (x ++ '\n' :: v) := by
  cases h with
  | nil hclosed => exact .close x hx hclosed
  | line h => exact .newline x hx h

theorem prepend (hl : '\n' ∉ l) (h : Respelled w e closed t u) :
    Respelled w e closed (l ++ t) (l ++ u) := by
  induction l with
  | nil => exact h
  | cons c l ih =>
      simp only [List.mem_cons, not_or] at hl
      exact .char c (Ne.symm hl.1) (ih hl.2)

theorem refl (hl : '\n' ∉ l) : Respelled w e closed l l := by
  have hnil : Respelled w e closed [] [] := .nil
  simpa using prepend hl hnil

theorem append {a b : Text} (h : Respelled w e false a b) (hrest : Respelled w e closed t u) :
    Respelled w e closed (a ++ t) (b ++ u) := by
  induction h with
  | nil => exact hrest
  | char c hc h ih => exact .char c hc ih
  | newline x hx h ih => simpa using Respelled.newline x hx ih
  | close x hx hclosed => cases hclosed

theorem of_char {c : Char} (hc : c ≠ '\n') (h : Respelled w e closed (c :: t) v) :
    ∃ u, v = c :: u ∧ Respelled w e closed t u := by
  cases h with
  | char c _ h => exact ⟨_, rfl, h⟩
  | newline x hx h => exact absurd rfl hc
  | close x hx hclosed => exact absurd rfl hc

theorem behind (hl : '\n' ∉ l) (h : Respelled w e closed (l ++ t) v) :
    ∃ u, v = l ++ u ∧ Respelled w e closed t u := by
  induction l generalizing v with
  | nil => exact ⟨v, rfl, h⟩
  | cons c l ih =>
      simp only [List.mem_cons, not_or] at hl
      obtain ⟨v, rfl, hv⟩ := of_char (Ne.symm hl.1) h
      obtain ⟨u, rfl, hu⟩ := ih hl.2 hv
      exact ⟨u, rfl, hu⟩

theorem exists_unlined (h : Respelled w e closed t u) :
    ∃ l x t₁ u₁, '\n' ∉ l ∧ t = l ++ t₁ ∧ u = l ++ (x ++ u₁) ∧ Unlined w e closed x t₁ u₁ := by
  induction h with
  | nil => exact ⟨[], [], [], [], by simp, rfl, rfl, .last rfl⟩
  | char c hc h ih =>
      obtain ⟨l, x, t₁, u₁, hl, rfl, rfl, hrest⟩ := ih
      exact ⟨c :: l, x, t₁, u₁, by simp [hl, Ne.symm hc], rfl, rfl, hrest⟩
  | newline x hx h => exact ⟨[], x, _, _, by simp, rfl, rfl, .below hx (.line h)⟩
  | close x hx hclosed => exact ⟨[], x, _, _, by simp, rfl, rfl, .below hx (.nil hclosed)⟩

end Respelled

namespace Unlined

theorem respelled (h : Unlined w e closed x t u) : Respelled w e closed t u := by
  cases h with
  | last hx => exact .nil
  | below hx h => exact .newline_of_relined (x := []) (Or.inr rfl) h

theorem respelled_append (h : Unlined w e closed x t u) : Respelled w e closed t (x ++ u) := by
  cases h with
  | last hx =>
      subst hx
      exact .nil
  | below hx h => exact .newline_of_relined hx h

theorem firstLine_left (h : Unlined w e closed x t u) (hl : '\n' ∉ l) : firstLine (l ++ t) = l := by
  cases h with
  | last hx => rw [List.append_nil, firstLine_of_not_mem hl]
  | below hx h => exact firstLine_line hl _

theorem firstLine_right (h : Unlined w e closed x t u) (hl : '\n' ∉ l) :
    firstLine (l ++ u) = l := by
  cases h with
  | last hx => rw [List.append_nil, firstLine_of_not_mem hl]
  | below hx h => exact firstLine_line hl _

theorem afterLine {l' : Text} (h : Unlined w e closed x t u) (hl : '\n' ∉ l) (hl' : '\n' ∉ l') :
    Option.Rel (Relined w e closed) (afterLine (l ++ t)) (afterLine (l' ++ u)) := by
  cases h with
  | last hx =>
      rw [List.append_nil, List.append_nil, afterLine_of_not_mem hl, afterLine_of_not_mem hl']
      exact .none
  | below hx h =>
      rw [afterLine_line hl, afterLine_line hl']
      exact .some h

theorem returns (h : Unlined w e closed x t u) (hm : Margins w e) : Returns x := by
  cases h with
  | last hx => exact hm.returns_right (Or.inr hx)
  | below hx h => exact hm.returns_right hx

end Unlined

theorem Respelled.squeeze (hm : Margins w e) (h : Respelled w e closed t u) :
    Text.squeeze u = Text.squeeze t := by
  induction h with
  | nil => rfl
  | char c hc h ih =>
      cases hspace : isSpace c with
      | true =>
          rw [squeeze_space hspace, squeeze_space hspace, ← trimStart_squeeze, ih,
            trimStart_squeeze]
      | false => rw [squeeze_solid hspace, squeeze_solid hspace, ih]
  | @newline t u x hx h ih =>
      have hspace := (hm.returns_right hx).isSpace
      have hrun : ∀ c ∈ x ++ '\n' :: w, isSpace c = true := by
        simpa [or_imp, forall_and] using ⟨hspace, by decide, hm.isSpace_left⟩
      have hsplit : x ++ '\n' :: (w ++ u) = (x ++ '\n' :: w) ++ u := by simp
      rw [hsplit, squeeze_run (by simp) hrun, squeeze_space (by decide), ← trimStart_squeeze, ih,
        trimStart_squeeze]
  | close x hx hclosed =>
      have hspace := (hm.returns_right hx).isSpace
      have hrun : ∀ c ∈ x ++ ['\n'], isSpace c = true := by
        simpa [or_imp, forall_and] using ⟨hspace, by decide⟩
      rw [← List.append_nil (x ++ ['\n']), squeeze_run (by simp) hrun]
      rfl

end Text

open Text

namespace Record

theorem constants_of_not_mem (hl : '\n' ∉ l) : constants l = if trim l = [] then [] else [trim l] := by
  by_cases hnil : l = []
  · subst hnil
    rfl
  · rw [constants, lines_of_not_mem hl hnil]
    by_cases htrim : trim l = [] <;> simp [htrim]

theorem constants_line (hl : '\n' ∉ l) (t : Text) :
    constants (l ++ '\n' :: t) = constants l ++ constants t := by
  rw [constants_of_not_mem hl, constants, lines_line hl, constants]
  by_cases htrim : trim l = [] <;> simp [htrim]

theorem constants_congr {l' : Text} (hl : '\n' ∉ l) (hl' : '\n' ∉ l') (h : trim l = trim l') :
    constants l = constants l' := by
  rw [constants_of_not_mem hl, constants_of_not_mem hl', h]

theorem constants_blanks_append (hw : ∀ c ∈ w, isBlank c = true) (t : Text) :
    constants (w ++ t) = constants t := by
  have hfirst : ∀ l : Text, '\n' ∉ l → constants (w ++ l) = constants l := fun l hl =>
    constants_congr (by simp [hl, not_mem_of_blanks hw]) hl
      (trim_spaces_append (isSpace_of_blanks hw) l)
  rcases line_cases t with ht | ⟨l, below, hl, rfl⟩
  · exact hfirst t ht
  · rw [← List.append_assoc, constants_line (by simp [hl, not_mem_of_blanks hw]), hfirst l hl,
      constants_line hl]

end Record

theorem Text.Respelled.constants (hm : Margins w e) (h : Respelled w e closed t u) :
    Record.constants u = Record.constants t := by
  induction hn : t.length using Nat.strong_induction_on generalizing t u with
  | _ n ih =>
      obtain ⟨l, x, t, u, hl, rfl, rfl, hrest⟩ := h.exists_unlined
      cases hrest with
      | last hx => simp [hx]
      | @below t v hx hbelow =>
          have hreturns := hm.returns_right hx
          have hfirst : Record.constants (l ++ x) = Record.constants l :=
            Record.constants_congr (by simp [hl, hreturns.not_mem]) hl
              (trim_append_spaces hreturns.isSpace l)
          rw [← List.append_assoc, Record.constants_line (by simp [hl, hreturns.not_mem]), hfirst,
            Record.constants_line hl]
          cases hbelow with
          | nil hclosed => rfl
          | line hline =>
              rw [Record.constants_blanks_append hm.blanks, ih _ (by simp [← hn]; omega) hline rfl]

/-- The texts are cut at the same brace, into `c` and `d` and what stands behind it. -/
structure Text.CutAlike (w e : Text) (closed : Bool) (t u c d : Text) : Prop where
  content : Respelled w e false c d
  rest : ∃ x y, t = c ++ '}' :: x ∧ u = d ++ '}' :: y ∧ Respelled w e closed x y

namespace Text.CutAlike

variable {c d : Text}

theorem char {a : Char} (ha : a ≠ '\n') (h : CutAlike w e closed t u c d) :
    CutAlike w e closed (a :: t) (a :: u) (a :: c) (a :: d) := by
  obtain ⟨hcontent, x, y, rfl, rfl, hrest⟩ := h
  exact ⟨.char a ha hcontent, x, y, rfl, rfl, hrest⟩

theorem newline (hx : x = e ∨ x = []) (h : CutAlike w e closed t u c d) :
    CutAlike w e closed ('\n' :: t) (x ++ '\n' :: (w ++ u)) ('\n' :: c)
      (x ++ '\n' :: (w ++ d)) := by
  obtain ⟨hcontent, y, z, rfl, rfl, hrest⟩ := h
  exact ⟨.newline x hx hcontent, y, z, rfl, by simp, hrest⟩

end Text.CutAlike

theorem rel_map {α β γ δ : Type} {R : α → β → Prop} {S : γ → δ → Prop} {f : α → γ} {g : β → δ}
    {a : Option α} {b : Option β} (h : Option.Rel R a b) (hfg : ∀ x y, R x y → S (f x) (g y)) :
    Option.Rel S (a.map f) (b.map g) := by
  cases h with
  | none => exact .none
  | some h => exact .some (hfg _ _ h)

theorem map_eq_of_rel {α β γ : Type} {R : α → β → Prop} {f : α → γ} {g : β → γ} {a : Option α}
    {b : Option β} (h : Option.Rel R a b) (hfg : ∀ x y, R x y → g y = f x) :
    b.map g = a.map f := by
  cases h with
  | none => rfl
  | some h => exact congrArg some (hfg _ _ h)

theorem closeAtIndent_char {c : Char} (hc : c ≠ '\n') (indent t : Text) :
    closeAtIndent indent (c :: t) = (closeAtIndent indent t).map (c :: ·) := by
  rw [closeAtIndent, if_neg (by simp [hc])]

theorem closeAtDepth_of_ne {c : Char} (hopen : c ≠ '{') (hclose : c ≠ '}') (reader : Lexeme)
    (depth : Nat) (t : Text) : closeAtDepth reader depth (c :: t) =
      (closeAtDepth (reader.next c) depth t).map (c :: ·) := by
  simp [closeAtDepth, hopen, hclose]

theorem Lexeme.next_blank (reader : Lexeme) {c : Char} (hc : isBlank c = true) :
    (reader.next '\n').next c = reader.next '\n' := by
  simp only [isBlank, Bool.or_eq_true, decide_eq_true_eq] at hc
  rcases hc with rfl | rfl <;> cases reader <;> rfl

theorem closeAtDepth_blanks_append (hw : ∀ c ∈ w, isBlank c = true) (reader : Lexeme) (depth : Nat)
    (t : Text) : closeAtDepth (reader.next '\n') depth (w ++ t) =
      (closeAtDepth (reader.next '\n') depth t).map (w ++ ·) := by
  induction w with
  | nil => simp
  | cons c w ih =>
      have hc := hw c (List.mem_cons_self ..)
      have hopen : c ≠ '{' := by rintro rfl; simp [isBlank] at hc
      have hclose : c ≠ '}' := by rintro rfl; simp [isBlank] at hc
      rw [List.cons_append, closeAtDepth_of_ne hopen hclose, Lexeme.next_blank reader hc,
        ih fun d hd => hw d (List.mem_cons_of_mem _ hd)]
      simp [Function.comp_def]

section

variable (hm : Margins w e) {indent : Text}
include hm

theorem prefix_brace_iff (hindent : '\n' ∉ indent) (h : Respelled w e closed t u) :
    indent ++ ['}'] <+: u ↔ indent ++ ['}'] <+: t := by
  have hs : '\n' ∉ indent ++ ['}'] := by simpa using hindent
  constructor
  · intro hu
    obtain ⟨l, x, t, u, hl, rfl, rfl, hrest⟩ := h.exists_unlined
    have hfirst : indent ++ ['}'] <+: l ++ x := by
      cases hrest with
      | last hx => simpa using hu
      | below hx hbelow =>
          rw [← List.append_assoc] at hu
          exact prefix_of_prefix_append_cons hs hu
    have hlast : ∀ c ∈ (indent ++ ['}']).getLast?, c ∉ x := by
      intro c hc hx
      rw [List.getLast?_concat, Option.mem_some_iff] at hc
      exact absurd (hc.trans (hrest.returns hm c hx)) (by decide)
    exact (prefix_of_prefix_append hlast hfirst).trans (List.prefix_append l t)
  · rintro ⟨t, rfl⟩
    obtain ⟨u, rfl, -⟩ := h.behind hs
    exact ⟨u, rfl⟩

theorem closeAtIndent_respelled (hindent : '\n' ∉ indent) (h : Respelled w e closed t u) :
    Option.Rel (CutAlike w e closed t u) (closeAtIndent indent t)
      (closeAtIndent (w ++ indent) u) := by
  induction h with
  | nil => exact .none
  | char c hc h ih =>
      rw [closeAtIndent_char hc, closeAtIndent_char hc]
      exact rel_map ih fun _ _ hcut => hcut.char hc
  | @newline t u x hx h ih =>
      have hpu : w ++ indent ++ ['}'] <+: w ++ u ↔ indent ++ ['}'] <+: t := by
        rw [List.append_assoc, List.prefix_append_right_inj, prefix_brace_iff hm hindent h]
      rw [closeAtIndent_line (hm.returns_right hx).not_mem, closeAtIndent_newline,
        closeAtIndent_newline]
      by_cases hp : indent ++ ['}'] <+: t
      · rw [if_pos hp, if_pos (hpu.2 hp)]
        obtain ⟨t, rfl⟩ := hp
        obtain ⟨u, rfl, hu⟩ := h.behind (by simpa using hindent)
        exact .some ⟨.newline x hx (.refl hindent), t, u, by simp, by simp, hu⟩
      · rw [if_neg hp, if_neg (mt hpu.1 hp), closeAtIndent_line hm.not_mem_left, Option.map_map,
          Option.map_map]
        exact rel_map ih fun _ _ hcut => hcut.newline hx
  | close x hx hclosed =>
      rw [closeAtIndent_line (hm.returns_right hx).not_mem, closeAtIndent_newline,
        closeAtIndent_newline, if_neg (by simp), if_neg (by simp)]
      exact .none

theorem closeAtDepth_respelled (he : e = []) (h : Respelled w e closed t u) (reader : Lexeme)
    (depth : Nat) : Option.Rel (CutAlike w e closed t u) (closeAtDepth reader depth t)
      (closeAtDepth reader depth u) := by
  subst he
  induction h generalizing reader depth with
  | nil => exact .none
  | @char t u c hc h ih =>
      have hstep (reader : Lexeme) (depth : Nat) :
          Option.Rel (CutAlike w [] closed (c :: t) (c :: u))
            ((closeAtDepth reader depth t).map (c :: ·))
            ((closeAtDepth reader depth u).map (c :: ·)) :=
        rel_map (ih reader depth) fun _ _ hcut => hcut.char hc
      simp only [closeAtDepth]
      split
      · next hclose =>
          cases depth with
          | zero =>
              simp only [Bool.and_eq_true, decide_eq_true_eq] at hclose
              exact .some ⟨.nil, t, u, by rw [hclose.2]; rfl, by rw [hclose.2]; rfl, h⟩
          | succ depth => exact hstep _ depth
      · split
        · exact hstep _ (depth + 1)
        · exact hstep _ depth
  | newline x hx h ih =>
      obtain rfl : x = [] := by simpa using hx
      rw [List.nil_append, closeAtDepth_of_ne (by decide) (by decide),
        closeAtDepth_of_ne (by decide) (by decide), closeAtDepth_blanks_append hm.blanks,
        Option.map_map]
      exact rel_map (ih _ depth) fun _ _ hcut => hcut.newline hx
  | close x hx hclosed =>
      obtain rfl : x = [] := by simpa using hx
      rw [List.nil_append, closeAtDepth_of_ne (by decide) (by decide)]
      exact .none

/-- A block closes at the same brace if the blanks in front of its first line are counted in. -/
theorem Boundary.close_respelled {boundary : Boundary} (he : boundary = .braceDepth → e = [])
    (hindent : '\n' ∉ indent) (h : Respelled w e closed t u) :
    Option.Rel (CutAlike w e closed t u) (boundary.close indent t)
      (boundary.close (w ++ indent) u) := by
  cases boundary with
  | indentation => exact closeAtIndent_respelled hm hindent h
  | braceDepth => exact closeAtDepth_respelled hm (he rfl) h .code 0

end

end ApiListing
