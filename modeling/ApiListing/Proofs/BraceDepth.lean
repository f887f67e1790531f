import ApiListing.Proofs.Blocks

namespace ApiListing

variable {reader : Lexeme} {depth : Nat} {c : Char} {t content : Text}

namespace Lexeme

def behind (reader : Lexeme) (t : Text) : Lexeme := t.foldl next reader

/-- The braces of a text that are code. -/
def braces (reader : Lexeme) : Text → Text
  | [] => []
  | c :: t =>
    if reader.isCode && (c = '{' || c = '}') then c :: (reader.next c).braces t
    else (reader.next c).braces t

def SeesBrace (reader : Lexeme) (c : Char) : Prop := reader.isCode = true ∧ (c = '{' ∨ c = '}')

theorem next_open (h : reader.isCode = true) : reader.next '{' = .code := by
  cases reader with
  | code | slash | atSign | verbatimQuote => rfl
  | _ => cases h

theorem next_close (h : reader.isCode = true) : reader.next '}' = .code := by
  cases reader with
  | code | slash | atSign | verbatimQuote => rfl
  | _ => cases h

theorem braces_of_not_seesBrace (h : ¬ reader.SeesBrace c) (t : Text) :
    reader.braces (c :: t) = (reader.next c).braces t := by
  rw [braces, if_neg (by simpa [SeesBrace] using h)]

theorem braces_of_seesBrace (h : reader.SeesBrace c) (t : Text) :
    reader.braces (c :: t) = c :: (reader.next c).braces t := by
  rw [braces, if_pos (by simpa [SeesBrace] using h)]

end Lexeme

open Lexeme (SeesBrace)

theorem closeAtDepth_of_not_seesBrace (h : ¬ reader.SeesBrace c) (depth : Nat) (t : Text) :
    closeAtDepth reader depth (c :: t) = (closeAtDepth (reader.next c) depth t).map (c :: ·) := by
  simp only [SeesBrace, not_and, not_or] at h
  have hclose : ¬ (reader.isCode && c = '}') = true := by simpa using fun hcode => (h hcode).2
  have hopen : ¬ (reader.isCode && c = '{') = true := by simpa using fun hcode => (h hcode).1
  simp only [closeAtDepth, if_neg hclose, if_neg hopen]

section

variable (hcode : reader.isCode = true)
include hcode

theorem closeAtDepth_open (depth : Nat) (t : Text) :
    closeAtDepth reader depth ('{' :: t) = (closeAtDepth .code (depth + 1) t).map ('{' :: ·) := by
  simp [closeAtDepth, hcode, Lexeme.next_open hcode]

theorem closeAtDepth_close (depth : Nat) (t : Text) :
    closeAtDepth reader (depth + 1) ('}' :: t) = (closeAtDepth .code depth t).map ('}' :: ·) := by
  simp [closeAtDepth, hcode, Lexeme.next_close hcode]

theorem closeAtDepth_last (t : Text) : closeAtDepth reader 0 ('}' :: t) = some [] := by
  simp [closeAtDepth, hcode]

end

namespace Text

/-- Nowhere in these braces do more blocks close than are open, `depth` before them. -/
def StaysOpen (depth : Nat) (bs : Text) : Prop := ∀ p, p <+: bs → p.count '}' ≤ depth + p.count '{'

theorem staysOpen_nil (depth : Nat) : StaysOpen depth [] := by
  intro p hp
  simp [List.prefix_nil.1 hp]

theorem not_staysOpen_close (bs : Text) : ¬ StaysOpen 0 ('}' :: bs) := by
  intro h
  have := h ['}'] (by simp)
  simp at this

theorem staysOpen_cons_iff {bs : Text} {below : Nat}
    (h : ∀ p : Text, (c :: p).count '}' ≤ depth + (c :: p).count '{' ↔
      p.count '}' ≤ below + p.count '{') :
    StaysOpen depth (c :: bs) ↔ StaysOpen below bs := by
  constructor
  · intro hopen p hp
    exact (h p).1 (hopen (c :: p) (List.cons_prefix_cons.2 ⟨rfl, hp⟩))
  · intro hopen p hp
    rcases List.prefix_cons_iff.1 hp with rfl | ⟨q, rfl, hq⟩
    · simp
    · exact (h q).2 (hopen q hq)

theorem staysOpen_open_iff {bs : Text} :
    StaysOpen depth ('{' :: bs) ↔ StaysOpen (depth + 1) bs :=
  staysOpen_cons_iff fun p => by simp; omega

theorem staysOpen_close_iff {bs : Text} :
    StaysOpen (depth + 1) ('}' :: bs) ↔ StaysOpen depth bs :=
  staysOpen_cons_iff fun p => by simp; omega

end Text

/-- What stands between a brace and the brace that matches it, when a reader begins at `reader` and
`depth` blocks more are to be closed. -/
structure Lexeme.Matched (reader : Lexeme) (depth : Nat) (content : Text) : Prop where
  staysOpen : Text.StaysOpen depth (reader.braces content)
  settled : (reader.braces content).count '}' = depth + (reader.braces content).count '{'
  code : (reader.behind content).isCode = true

namespace Lexeme

theorem matched_nil_iff : reader.Matched depth [] ↔ depth = 0 ∧ reader.isCode = true := by
  constructor
  · intro h
    exact ⟨by simpa [braces] using h.settled.symm, h.code⟩
  · rintro ⟨rfl, hcode⟩
    exact ⟨Text.staysOpen_nil 0, rfl, hcode⟩

theorem matched_of_not_seesBrace_iff (h : ¬ reader.SeesBrace c) :
    reader.Matched depth (c :: t) ↔ (reader.next c).Matched depth t := by
  constructor
  · rintro ⟨hopen, hsettled, hcode⟩
    rw [braces_of_not_seesBrace h] at hopen hsettled
    exact ⟨hopen, hsettled, hcode⟩
  · rintro ⟨hopen, hsettled, hcode⟩
    rw [← braces_of_not_seesBrace h] at hopen hsettled
    exact ⟨hopen, hsettled, hcode⟩

theorem matched_of_seesBrace_iff {below : Nat} (h : reader.SeesBrace c)
    (hnext : reader.next c = .code)
    (hopen : ∀ bs, Text.StaysOpen depth (c :: bs) ↔ Text.StaysOpen below bs)
    (hsettled : ∀ bs : Text, (c :: bs).count '}' = depth + (c :: bs).count '{' ↔
      bs.count '}' = below + bs.count '{') :
    reader.Matched depth (c :: t) ↔ Lexeme.code.Matched below t := by
  have hbraces := braces_of_seesBrace h t
  have hbehind : reader.behind (c :: t) = Lexeme.code.behind t := by
    rw [behind, List.foldl_cons, hnext, behind]
  rw [hnext] at hbraces
  constructor
  · rintro ⟨hstays, hcount, hcode⟩
    rw [hbraces] at hstays hcount
    exact ⟨(hopen _).1 hstays, (hsettled _).1 hcount, hbehind ▸ hcode⟩
  · rintro ⟨hstays, hcount, hcode⟩
    rw [← hopen, ← hbraces] at hstays
    rw [← hsettled, ← hbraces] at hcount
    exact ⟨hstays, hcount, hbehind ▸ hcode⟩

theorem matched_open_iff (hcode : reader.isCode = true) :
    reader.Matched depth ('{' :: t) ↔ Lexeme.code.Matched (depth + 1) t :=
  matched_of_seesBrace_iff ⟨hcode, Or.inl rfl⟩ (next_open hcode)
    (fun _ => Text.staysOpen_open_iff) fun bs => by simp; omega

theorem matched_close_iff (hcode : reader.isCode = true) :
    reader.Matched (depth + 1) ('}' :: t) ↔ Lexeme.code.Matched depth t :=
  matched_of_seesBrace_iff ⟨hcode, Or.inr rfl⟩ (next_close hcode)
    (fun _ => Text.staysOpen_close_iff) fun bs => by simp; omega

theorem not_matched_close (hcode : reader.isCode = true) : ¬ reader.Matched 0 ('}' :: t) := by
  intro h
  have hopen := h.staysOpen
  rw [braces_of_seesBrace ⟨hcode, Or.inr rfl⟩] at hopen
  exact Text.not_staysOpen_close _ hopen

end Lexeme

theorem map_cons_eq_some_iff {reader' : Lexeme} {depth' : Nat}
    (hnil : ¬ (reader.Matched depth [] ∧ c = '}'))
    (hmatched : ∀ x, reader.Matched depth (c :: x) ↔ reader'.Matched depth' x)
    (ih : ∀ x, closeAtDepth reader' depth' t = some x ↔
      reader'.Matched depth' x ∧ ∃ rest, t = x ++ '}' :: rest) :
    (closeAtDepth reader' depth' t).map (c :: ·) = some content ↔
      reader.Matched depth content ∧ ∃ rest, c :: t = content ++ '}' :: rest := by
  cases content with
  | nil =>
      simp only [Option.map_eq_some_iff, List.cons_ne_nil, and_false, exists_false, false_iff]
      rintro ⟨hempty, rest, hrest⟩
      exact hnil ⟨hempty, (List.cons.inj hrest).1⟩
  | cons a x =>
      simp only [Option.map_eq_some_iff, List.cons_append, List.cons.injEq, exists_and_left]
      constructor
      · rintro ⟨x, hx, rfl, rfl⟩
        obtain ⟨hx, hrest⟩ := (ih x).1 hx
        exact ⟨(hmatched x).2 hx, rfl, hrest⟩
      · rintro ⟨hx, rfl, hrest⟩
        exact ⟨x, (ih x).2 ⟨(hmatched x).1 hx, hrest⟩, rfl, rfl⟩

/-- Counting depths finds the matching brace, and there is but one. -/
theorem closeAtDepth_eq_some_iff :
    closeAtDepth reader depth t = some content ↔
      reader.Matched depth content ∧ ∃ rest, t = content ++ '}' :: rest := by
  induction t generalizing reader depth content with
  | nil => simp [closeAtDepth]
  | cons c t ih =>
      by_cases hsees : reader.SeesBrace c
      · obtain ⟨hcode, rfl | rfl⟩ := hsees
        · rw [closeAtDepth_open hcode]
          exact map_cons_eq_some_iff (by simp) (fun _ => Lexeme.matched_open_iff hcode)
            fun _ => ih
        · cases depth with
          | zero =>
              rw [closeAtDepth_last hcode, Option.some.injEq]
              constructor
              · rintro rfl
                exact ⟨Lexeme.matched_nil_iff.2 ⟨rfl, hcode⟩, t, rfl⟩
              · rintro ⟨hmatched, rest, hrest⟩
                cases content with
                | nil => rfl
                | cons a x =>
                    obtain rfl : '}' = a := (List.cons.inj hrest).1
                    exact absurd hmatched (Lexeme.not_matched_close hcode)
          | succ depth =>
              rw [closeAtDepth_close hcode]
              exact map_cons_eq_some_iff (fun h => by simpa using (Lexeme.matched_nil_iff.1 h.1).1)
                (fun _ => Lexeme.matched_close_iff hcode) fun _ => ih
      · rw [closeAtDepth_of_not_seesBrace hsees]
        refine map_cons_eq_some_iff ?_ (fun _ => Lexeme.matched_of_not_seesBrace_iff hsees)
          fun _ => ih
        rintro ⟨hempty, rfl⟩
        exact hsees ⟨(Lexeme.matched_nil_iff.1 hempty).2, Or.inr rfl⟩

end ApiListing
