import ApiListing.Proofs.LiteralOffsets
import ApiListing.Proofs.Words

namespace ApiListing

open Text (octet octet? find byteSize)
open Lexeme (Skips lookback)

variable {t x r indent : Text} {c : Char} {depth i : Nat} {boundary : Boundary}

def indentRound (t indent : Text) (i : Nat) (_ : Unit) : Checked (Round Unit (Option Nat)) := do
  let line ← t.sliceFrom i
  if (Text.stripPrefix? indent line).any fun rest => rest.head? = some '}' then
    return .leave (some (i + byteSize indent))
  else
    match find '\n' line with
    | some n => return .goOn (i + n + 1) ()
    | none => return .leave none

/-- The offset of the brace that closes a block by its indentation, from that of the opening one. -/
def closeByIndentation (t : Text) (opening : Nat) (indent : Text) : Checked (Option Nat) := do
  match find '\n' (← t.sliceFrom opening) with
  | none => return none
  | some n => loop (byteSize t) (indentRound t indent) (fun _ => none) (opening + n + 1) ()

def depthRound (t : Text) (i depth : Nat) : Checked (Round Nat (Option Nat)) := do
  let c ← t.octet i
  if c = '{' then return .goOn (i + 1) (depth + 1)
  else if c = '}' then
    let depth ← minus depth 1
    return if depth = 0 then .leave (some i) else .goOn (i + 1) depth
  else if c = '/' && octet? t (i + 1) = some '/' then return .goOn (← t.lineEnd i) depth
  else if c = '/' && octet? t (i + 1) = some '*' then return .goOn (← skipBlockComment t i) depth
  else if c = '"' then return .goOn (← skipString t (i + 1) (← isVerbatim t i)) depth
  else if c = '\'' then return .goOn (← skipLiteral t '\'' (i + 1)) depth
  else return .goOn (i + 1) depth

/-- The offset of the brace that closes a block by the depth of the braces. -/
def closeByDepth (t : Text) (opening : Nat) : Checked (Option Nat) :=
  loop (byteSize t) (depthRound t) (fun _ => none) opening 0

def closeFrom (boundary : Boundary) (t : Text) (opening : Nat) (indent : Text) :
    Checked (Option Nat) :=
  match boundary with
  | .indentation => closeByIndentation t opening indent
  | .braceDepth => closeByDepth t opening

namespace Text

theorem any_stripPrefix?_iff {s : Text} :
    ((stripPrefix? s t).any fun rest => rest.head? = some c) = true ↔ s ++ [c] <+: t := by
  rw [Option.any_eq_true]
  constructor
  · rintro ⟨rest, hrest, hhead⟩
    obtain ⟨u, rfl⟩ := List.head?_eq_some_iff.1 (of_decide_eq_true hhead)
    exact ⟨u, by simp [eq_append_of_stripPrefix? hrest]⟩
  · rintro ⟨u, rfl⟩
    exact ⟨c :: u, by rw [List.append_assoc, stripPrefix?_append_self]; rfl, by simp⟩

end Text

theorem closeAtIndent_of_not_mem (h : '\n' ∉ r) : closeAtIndent indent r = none := by
  have hline : closeAtIndent indent (r ++ []) = none := closeAtIndent_line h []
  rwa [List.append_nil] at hline

theorem indentRound_append (x r indent : Text) :
    indentRound (x ++ '\n' :: r) indent (byteSize x + 1) () =
      if indent ++ ['}'] <+: r then .ok (.leave (some (byteSize x + 1 + byteSize indent)))
      else match find '\n' r with
        | some n => .ok (.goOn (byteSize x + 1 + n + 1) ())
        | none => .ok (.leave none) := by
  have hplace : byteSize (x ++ ['\n']) = byteSize x + 1 := by
    rw [Text.byteSize_append, Text.byteSize_newline]
    rfl
  have hcut : (x ++ '\n' :: r).sliceFrom (byteSize x + 1) = .ok r := by
    rw [← hplace, ← Text.sliceFrom_append, List.append_assoc]
    rfl
  rw [indentRound, Checked.bind_ok hcut]
  simp only [Text.any_stripPrefix?_iff]
  split
  · rfl
  · cases find '\n' r <;> rfl

/-- From the start of a line on the loop finds the line that closes the block. -/
theorem loop_indentRound (indent : Text) (ht : t = x ++ '\n' :: r) :
    loop (byteSize t) (indentRound t indent) (fun _ => none) (byteSize x + 1) () =
      .ok ((closeAtIndent indent ('\n' :: r)).map fun content => byteSize (x ++ content)) := by
  induction hn : r.length using Nat.strong_induction_on generalizing x r with
  | _ n ih =>
      have hsize : byteSize t = byteSize x + 1 + byteSize r := by
        rw [ht, Text.byteSize_append, Text.byteSize_newline]
        omega
      have hround := indentRound_append x r indent
      rw [← ht] at hround
      rw [closeAtIndent_newline]
      by_cases hr : r = []
      · subst hr
        rw [loop_of_end (by simp [hsize])]
        simp [closeAtIndent]
      have hlt : byteSize x + 1 < byteSize t := by
        have := Text.byteSize_pos hr
        omega
      by_cases hclose : indent ++ ['}'] <+: r
      · rw [if_pos hclose] at hround ⊢
        rw [loop_of_leave hlt hround]
        simp [Text.byteSize_newline]
        omega
      · rw [if_neg hclose] at hround ⊢
        rcases Text.line_cases r with hline | ⟨l, below, hl, rfl⟩
        · rw [Text.find_of_not_mem hline] at hround
          rw [loop_of_leave hlt hround, closeAtIndent_of_not_mem hline]
          rfl
        · rw [Text.find_append hl] at hround
          have hnext : byteSize x + 1 + byteSize l + 1 = byteSize (x ++ '\n' :: l) + 1 := by
            rw [Text.byteSize_append, Text.byteSize_newline]
            omega
          rw [loop_of_goOn hlt hround (by omega), hnext,
            ih below.length (by simp [← hn]; omega) (by simp [ht]) rfl, closeAtIndent_line hl]
          simp [Option.map_map, Function.comp_def]

theorem closeByIndentation_append (x r indent : Text) :
    closeByIndentation (x ++ r) (byteSize x) indent =
      .ok ((closeAtIndent indent r).map fun content => byteSize (x ++ content)) := by
  rw [closeByIndentation, Checked.bind_ok (Text.sliceFrom_append x r)]
  rcases Text.line_cases r with hline | ⟨l, below, hl, rfl⟩
  · rw [Text.find_of_not_mem hline, closeAtIndent_of_not_mem hline]
    rfl
  · rw [Text.find_append hl, closeAtIndent_line hl]
    have h := loop_indentRound (t := x ++ (l ++ '\n' :: below)) (x := x ++ l) (r := below) indent
      (by simp)
    rw [Text.byteSize_append x l] at h
    simp only
    rw [h]
    simp [Option.map_map, Function.comp_def]

/-- The loop at a place in code, with as many blocks open as are still to be closed. -/
def Counts (t x r : Text) (depth : Nat) : Prop :=
  loop (byteSize t) (depthRound t) (fun _ => none) (byteSize x) (depth + 1) =
    .ok ((closeAtDepth (lookback x) depth r).map fun content => byteSize (x ++ content))

theorem counts_skips {stop : Nat} (hc : c ≠ '{' ∧ c ≠ '}')
    (ih : ∀ y u, t = y ++ u → u.length ≤ r.length → Counts t y u depth) (ht : t = x ++ c :: r)
    (hloop : loop (byteSize t) (depthRound t) (fun _ => none) (byteSize x) (depth + 1) =
      loop (byteSize t) (depthRound t) (fun _ => none) stop (depth + 1))
    (hskips : Skips ((lookback x).next c) (x ++ [c]) r stop) : Counts t x (c :: r) depth := by
  obtain ⟨skipped, rest, rfl, rfl, hclose⟩ := hskips
  have h := ih (x ++ [c] ++ skipped) rest (by simp [ht]) (by simp)
  rw [Counts] at h
  rw [Counts, hloop, h, closeAtDepth_of_not_seesBrace (by simp [Lexeme.SeesBrace, hc]), hclose]
  simp [Option.map_map, Function.comp_def]

def IsPlain (c : Char) : Prop := c ≠ '{' ∧ c ≠ '}' ∧ c ≠ '/' ∧ c ≠ '"' ∧ c ≠ '\''

theorem isPlain_of_beyond {b : Char} (hb : 128 ≤ b.toNat) : IsPlain b := by
  refine ⟨?_, ?_, ?_, ?_, ?_⟩ <;> exact ne_of_beyond (by decide) hb

theorem depthRound_plain (h : t.octet i = .ok c) (hc : IsPlain c) (depth : Nat) :
    depthRound t i depth = .ok (.goOn (i + 1) depth) := by
  obtain ⟨hopen, hclose, hslash, hquote, hcharacter⟩ := hc
  rw [depthRound, Checked.bind_ok h, if_neg hopen, if_neg hclose, if_neg (by simp [hslash]),
    if_neg (by simp [hslash]), if_neg hquote, if_neg hcharacter]
  rfl

theorem depthRound_open (h : t.octet i = .ok '{') (depth : Nat) :
    depthRound t i depth = .ok (.goOn (i + 1) (depth + 1)) := by
  rw [depthRound, Checked.bind_ok h, if_pos rfl]
  rfl

theorem depthRound_close (h : t.octet i = .ok '}') (depth : Nat) :
    depthRound t i (depth + 1) =
      .ok (if depth = 0 then .leave (some i) else .goOn (i + 1) depth) := by
  have hminus : minus (depth + 1) 1 = .ok depth := if_pos (Nat.succ_le_succ (Nat.zero_le depth))
  rw [depthRound, Checked.bind_ok h, if_neg (by decide), if_pos rfl, Checked.bind_ok hminus]
  rfl

theorem depthRound_slash (ht : t = x ++ '/' :: r) (depth : Nat) :
    depthRound t (byteSize x) depth =
      if r.head? = some '/' then do return .goOn (← t.lineEnd (byteSize x)) depth
      else if r.head? = some '*' then do return .goOn (← skipBlockComment t (byteSize x)) depth
      else .ok (.goOn (byteSize x + 1) depth) := by
  have hoctet : t.octet (byteSize x) = .ok '/' := ht ▸ Text.octet_append (by decide) x r
  rw [depthRound, Checked.bind_ok hoctet, if_neg (by decide), if_neg (by decide)]
  simp only [octet?_next (a := '/') (by decide) (by decide) ht,
    octet?_next (a := '*') (by decide) (by decide) ht, decide_true, Bool.true_and,
    decide_eq_true_eq]
  rfl

theorem depthRound_quote (ht : t = x ++ '"' :: r) (depth : Nat) :
    ∃ stop, depthRound t (byteSize x) depth = .ok (.goOn stop depth) ∧
      Skips ((lookback x).next '"') (x ++ ['"']) r stop := by
  obtain ⟨stop, hstop, hskips⟩ := skipString_skips ht
  refine ⟨stop, ?_, hskips⟩
  rw [depthRound, Checked.bind_ok (ht ▸ Text.octet_append (by decide) x r), if_neg (by decide),
    if_neg (by decide), if_neg (by simp), if_neg (by simp), if_pos rfl,
    Checked.bind_ok (ht ▸ isVerbatim_append x ('"' :: r)), Checked.bind_ok hstop]
  rfl

theorem depthRound_character (ht : t = x ++ '\'' :: r) (depth : Nat) :
    ∃ stop, depthRound t (byteSize x) depth = .ok (.goOn stop depth) ∧
      Skips ((lookback x).next '\'') (x ++ ['\'']) r stop := by
  obtain ⟨stop, hstop, hskips⟩ := skipLiteral_skips (x := x ++ ['\'']) (r := r)
    Lexeme.isLiteralReader_character (by simpa using ht)
  rw [byteSize_concat_ascii (by decide)] at hstop
  rw [Lexeme.next_lookback (by decide)]
  refine ⟨stop, ?_, hskips⟩
  rw [depthRound, Checked.bind_ok (ht ▸ Text.octet_append (by decide) x r), if_neg (by decide),
    if_neg (by decide), if_neg (by simp), if_neg (by simp), if_neg (by decide), if_pos rfl,
    Checked.bind_ok hstop]
  rfl

theorem depthRound_slash_skips (ht : t = x ++ '/' :: r) (depth : Nat) :
    ∃ stop, depthRound t (byteSize x) depth = .ok (.goOn stop depth) ∧
      Skips ((lookback x).next '/') (x ++ ['/']) r stop := by
  have hslash : (lookback x).next '/' = .slash := Lexeme.next_lookback (by decide) x
  rw [depthRound_slash ht]
  split_ifs with hline hblock
  · obtain ⟨r, rfl⟩ := List.head?_eq_some_iff.1 hline
    obtain ⟨stop, hstop, hskips⟩ := lineEnd_skips ht
    exact ⟨stop, by rw [hstop]; rfl, hslash ▸ hskips⟩
  · obtain ⟨r, rfl⟩ := List.head?_eq_some_iff.1 hblock
    obtain ⟨stop, hstop, hskips⟩ := skipBlockComment_skips ht
    exact ⟨stop, by rw [hstop]; rfl, hslash ▸ hskips⟩
  · refine ⟨byteSize x + 1, rfl, ?_⟩
    rw [← byteSize_concat_ascii (c := '/') (by decide)]
    refine skips_plain (by decide) fun _ d hd => ⟨?_, ?_⟩
    · rintro rfl
      exact hline hd
    · rintro rfl
      exact hblock hd

theorem exists_skips (ht : t = x ++ c :: r) (hc : c ≠ '{' ∧ c ≠ '}') (depth : Nat) :
    ∃ stop, loop (byteSize t) (depthRound t) (fun _ => none) (byteSize x) depth =
        loop (byteSize t) (depthRound t) (fun _ => none) stop depth ∧
      Skips ((lookback x).next c) (x ++ [c]) r stop := by
  have hround (h : ∃ stop, depthRound t (byteSize x) depth = .ok (.goOn stop depth) ∧
      Skips ((lookback x).next c) (x ++ [c]) r stop) :
      ∃ stop, loop (byteSize t) (depthRound t) (fun _ => none) (byteSize x) depth =
          loop (byteSize t) (depthRound t) (fun _ => none) stop depth ∧
        Skips ((lookback x).next c) (x ++ [c]) r stop := by
    obtain ⟨stop, hstop, hskips⟩ := h
    have hlt : byteSize x < stop := by
      have := hskips.le
      have := Text.byteSize_lt_of_prefix (List.prefix_append x [c]) (by simp)
      omega
    exact ⟨stop, loop_of_goOn (byteSize_lt_append ht) hstop hlt, hskips⟩
  by_cases hslash : c = '/'
  · subst hslash
    exact hround (depthRound_slash_skips ht depth)
  by_cases hquote : c = '"'
  · subst hquote
    exact hround (depthRound_quote ht depth)
  by_cases hcharacter : c = '\''
  · subst hcharacter
    exact hround (depthRound_character ht depth)
  · refine ⟨byteSize (x ++ [c]), ?_, skips_plain ⟨hquote, hcharacter⟩ fun h => absurd h hslash⟩
    exact loop_octets (k := 0) (fun _ => isPlain_of_beyond)
      (fun _ _ hoctet hplain => depthRound_plain hoctet hplain depth) ht (Nat.zero_le _)
      fun _ => ⟨hc.1, hc.2, hslash, hquote, hcharacter⟩

theorem counts_open (ht : t = x ++ '{' :: r) (h : Counts t (x ++ ['{']) r (depth + 1)) :
    Counts t x ('{' :: r) depth := by
  have hround := depthRound_open (ht ▸ Text.octet_append (by decide) x r) (depth + 1)
  rw [Counts, byteSize_concat_ascii (by decide), Lexeme.lookback_concat (by decide)] at h
  rw [Counts, loop_of_goOn (byteSize_lt_append ht) hround (by omega), h,
    closeAtDepth_open (Lexeme.isCode_lookback x)]
  simp [Option.map_map, Function.comp_def]

theorem counts_close (ht : t = x ++ '}' :: r) (h : Counts t (x ++ ['}']) r depth) :
    Counts t x ('}' :: r) (depth + 1) := by
  have hround := depthRound_close (ht ▸ Text.octet_append (by decide) x r) (depth + 1)
  rw [if_neg (Nat.succ_ne_zero depth)] at hround
  rw [Counts, byteSize_concat_ascii (by decide), Lexeme.lookback_concat (by decide)] at h
  rw [Counts, loop_of_goOn (byteSize_lt_append ht) hround (by omega), h,
    closeAtDepth_close (Lexeme.isCode_lookback x)]
  simp [Option.map_map, Function.comp_def]

theorem counts_last (ht : t = x ++ '}' :: r) : Counts t x ('}' :: r) 0 := by
  have hround := depthRound_close (ht ▸ Text.octet_append (by decide) x r) 0
  rw [if_pos rfl] at hround
  rw [Counts, loop_of_leave (byteSize_lt_append ht) hround,
    closeAtDepth_last (Lexeme.isCode_lookback x)]
  simp

/-- From a place in code on the loop finds the brace that a reader of texts finds. -/
theorem loop_depthRound (ht : t = x ++ r) (depth : Nat) : Counts t x r depth := by
  induction hn : r.length using Nat.strong_induction_on generalizing x r depth with
  | _ n ih =>
      cases r with
      | nil =>
          rw [List.append_nil] at ht
          rw [Counts, ht, loop_of_end (Nat.le_refl _)]
          rfl
      | cons c r =>
          have hlength : r.length < n := by simp [← hn]
          have hrest (depth : Nat) (y u : Text) (hu : t = y ++ u) (hle : u.length ≤ r.length) :
              Counts t y u depth := ih u.length (Nat.lt_of_le_of_lt hle hlength) hu depth rfl
          have hnext (depth : Nat) : Counts t (x ++ [c]) r depth :=
            hrest depth (x ++ [c]) r (by simp [ht]) (Nat.le_refl _)
          by_cases hopen : c = '{'
          · subst hopen
            exact counts_open ht (hnext (depth + 1))
          by_cases hclose : c = '}'
          · subst hclose
            cases depth with
            | zero => exact counts_last ht
            | succ depth => exact counts_close ht (hnext depth)
          · obtain ⟨stop, hloop, hskips⟩ := exists_skips ht ⟨hopen, hclose⟩ (depth + 1)
            exact counts_skips ⟨hopen, hclose⟩ (hrest depth) ht hloop hskips

theorem closeByDepth_append (x r : Text) :
    closeByDepth (x ++ '{' :: r) (byteSize x) =
      .ok ((closeAtDepth .code 0 r).map fun content => byteSize (x ++ '{' :: content)) := by
  have hround := depthRound_open (Text.octet_append (c := '{') (by decide) x r) 0
  have h := loop_depthRound (t := x ++ '{' :: r) (x := x ++ ['{']) (r := r) (by simp) 0
  rw [Counts, byteSize_concat_ascii (by decide), Lexeme.lookback_concat (by decide)] at h
  rw [closeByDepth, loop_of_goOn (byteSize_lt_append rfl) hround (by omega), h]
  simp

theorem closeFrom_append (boundary : Boundary) (x r indent : Text) :
    closeFrom boundary (x ++ '{' :: r) (byteSize x) indent =
      .ok ((boundary.close indent r).map fun content => byteSize (x ++ '{' :: content)) := by
  cases boundary with
  | indentation =>
      have hopen : closeAtIndent indent ('{' :: r) = (closeAtIndent indent r).map ('{' :: ·) := by
        simp [closeAtIndent]
      rw [closeFrom, closeByIndentation_append, hopen, Option.map_map]
      rfl
  | braceDepth => exact closeByDepth_append x r

end ApiListing
