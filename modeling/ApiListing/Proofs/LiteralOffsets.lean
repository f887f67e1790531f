import ApiListing.Proofs.CodeBlocks
import ApiListing.Proofs.Marks
import ApiListing.Proofs.Offsets

namespace ApiListing

open Text (octet octet? lineEnd byteSize)

variable {t x r rest p : Text} {c quote : Char} {i stop : Nat}
  {reader reader' inside escaped : Lexeme}

def literalRound (t : Text) (quote : Char) (i : Nat) (_ : Unit) : Checked (Round Unit Nat) := do
  let c ← t.octet i
  if c = '\\' then return .goOn (i + 2) ()
  else if c = quote then return .leave (i + 1)
  else if c = '\n' then return .leave i
  else return .goOn (i + 1) ()

def verbatimRound (t : Text) (i : Nat) (_ : Unit) : Checked (Round Unit Nat) := do
  let c ← t.octet i
  if c = '"' then
    if octet? t (i + 1) = some '"' then return .goOn (i + 2) () else return .leave (i + 1)
  else return .goOn (i + 1) ()

def skipLiteral (t : Text) (quote : Char) (i : Nat) : Checked Nat :=
  loop (byteSize t) (literalRound t quote) (fun _ => byteSize t) i ()

def skipVerbatim (t : Text) (i : Nat) : Checked Nat :=
  loop (byteSize t) (verbatimRound t) (fun _ => byteSize t) i ()

def skipString (t : Text) (i : Nat) (verbatim : Bool) : Checked Nat :=
  if verbatim then skipVerbatim t i else skipLiteral t '"' i

def isVerbatim (t : Text) (i : Nat) : Checked Bool := do
  if 0 < i then return (← t.octet (i - 1)) = '@' else return false

def skipBlockComment (t : Text) (i : Nat) : Checked Nat := do
  let rest ← t.sliceFrom (i + 2)
  return match Text.cut? "*/".toList rest with
    | some (comment, _) => i + 2 + byteSize comment + 2
    | none => byteSize t

theorem byteSize_lt_append (ht : t = x ++ c :: r) : byteSize x < byteSize t := by
  have := Text.byteSize_pos (t := c :: r) (by simp)
  rw [ht, Text.byteSize_append]
  omega

theorem byteSize_concat_ascii (hc : c.toNat < 128) (x : Text) :
    byteSize (x ++ [c]) = byteSize x + 1 := by
  rw [Text.byteSize_append, Text.byteSize_cons_ascii hc]
  rfl

theorem ne_of_beyond {a b : Char} (ha : a.toNat < 128) (hb : 128 ≤ b.toNat) : b ≠ a := by
  rintro rfl
  omega

theorem closeAtDepth_newline (h : reader.next '\n' = .code) (depth : Nat) (r : Text) :
    closeAtDepth reader depth ('\n' :: r) = (closeAtDepth .code depth r).map ('\n' :: ·) := by
  rw [closeAtDepth_of_not_seesBrace (by simp [Lexeme.SeesBrace]), h]

namespace Lexeme

/-- Where a reader of code stands behind a text: only an at sign bears on what follows. -/
def lookback (x : Text) : Lexeme := if x.getLast? = some '@' then .atSign else .code

theorem isCode_lookback (x : Text) : (lookback x).isCode = true := by
  unfold lookback
  split <;> rfl

theorem lookback_concat (hc : c ≠ '@') (x : Text) : lookback (x ++ [c]) = .code := by
  rw [lookback, List.getLast?_concat, if_neg (by simpa using hc)]

theorem next_lookback (hc : c ≠ '"') (x : Text) : (lookback x).next c = start c := by
  unfold lookback
  split
  · rw [next, if_neg hc]
  · rfl

/-- What a loop passes in a literal or a comment: behind it, at `stop`, the source goes on as code,
and no brace before that counts. -/
def Skips (reader : Lexeme) (x r : Text) (stop : Nat) : Prop :=
  ∃ skipped rest, r = skipped ++ rest ∧ stop = byteSize (x ++ skipped) ∧ ∀ depth,
    closeAtDepth reader depth r =
      (closeAtDepth (lookback (x ++ skipped)) depth rest).map (skipped ++ ·)

theorem Skips.le (h : Skips reader x r stop) : byteSize x ≤ stop := by
  obtain ⟨skipped, rest, -, rfl, -⟩ := h
  exact Text.byteSize_le_of_prefix (List.prefix_append x skipped)

theorem Skips.passes (hp : Passes reader p reader') (h : Skips reader' (x ++ p) r stop) :
    Skips reader x (p ++ r) stop := by
  obtain ⟨skipped, rest, rfl, rfl, hclose⟩ := h
  refine ⟨p ++ skipped, rest, by simp, by simp, fun depth => ?_⟩
  rw [closeAtDepth_passes hp, hclose, Option.map_map, List.append_assoc]
  simp [Function.comp_def]

theorem Skips.char (hcode : reader.isCode = false) (h : Skips (reader.next c) (x ++ [c]) r stop) :
    Skips reader x (c :: r) stop :=
  .passes (p := [c]) (.skip hcode (.nil _)) h

theorem Skips.here (h : ∀ depth, closeAtDepth reader depth r = closeAtDepth (lookback x) depth r) :
    Skips reader x r (byteSize x) :=
  ⟨[], r, rfl, by simp, fun depth => by simpa using h depth⟩

theorem Skips.at_end : Skips reader x [] (byteSize x) := .here fun _ => rfl

theorem Skips.at_line (h : reader.next '\n' = .code) :
    Skips reader x ('\n' :: r) (byteSize x) := by
  refine .here fun depth => ?_
  rw [closeAtDepth_newline h, closeAtDepth_newline (next_lookback (by decide) x)]

/-- The readers in a literal with a quote, and behind a backslash in it. -/
structure IsLiteralReader (quote : Char) (inside escaped : Lexeme) : Prop where
  quote_ascii : quote.toNat < 128
  quote_ne : quote ≠ '\\' ∧ quote ≠ '\n' ∧ quote ≠ '@'
  inside_code : inside.isCode = false
  escaped_code : escaped.isCode = false
  escape : inside.next '\\' = escaped
  back : ∀ c, escaped.next c = inside
  plain : ∀ c, c ≠ quote → c ≠ '\\' → c ≠ '\n' → inside.next c = inside
  quote_next : inside.next quote = .code
  line_next : inside.next '\n' = .code

theorem isLiteralReader_string : IsLiteralReader '"' .string .stringEscape where
  quote_ascii := by decide
  quote_ne := by decide
  inside_code := rfl
  escaped_code := rfl
  escape := rfl
  back _ := rfl
  plain c hquote hescape hline := by simp [next, hquote, hescape, hline]
  quote_next := rfl
  line_next := rfl

theorem isLiteralReader_character : IsLiteralReader '\'' .character .characterEscape where
  quote_ascii := by decide
  quote_ne := by decide
  inside_code := rfl
  escaped_code := rfl
  escape := rfl
  back _ := rfl
  plain c hquote hescape hline := by simp [next, hquote, hescape, hline]
  quote_next := rfl
  line_next := rfl

end Lexeme

open Lexeme (Skips lookback IsLiteralReader)

theorem literalRound_ok (quote : Char) (h : t.octet i = .ok c) : literalRound t quote i () =
    .ok (if c = '\\' then .goOn (i + 2) () else if c = quote then .leave (i + 1)
      else if c = '\n' then .leave i else .goOn (i + 1) ()) := by
  rw [literalRound, Checked.bind_ok h]
  split_ifs <;> rfl

def IsInside (quote c : Char) : Prop := c ≠ '\\' ∧ c ≠ quote ∧ c ≠ '\n'

theorem isInside_of_beyond (hquote : quote.toNat < 128) (hc : 128 ≤ c.toNat) : IsInside quote c :=
  ⟨ne_of_beyond (by decide) hc, ne_of_beyond hquote hc, ne_of_beyond (by decide) hc⟩

theorem skipLiteral_char {k : Nat} (hquote : quote.toNat < 128) (ht : t = x ++ c :: r)
    (hk : k ≤ c.utf8Size) (hc : k = 0 → IsInside quote c) :
    skipLiteral t quote (byteSize x + k) = skipLiteral t quote (byteSize (x ++ [c])) := by
  refine loop_octets (fun _ => isInside_of_beyond hquote) (fun i b hoctet hb => ?_) ht hk hc
  rw [literalRound_ok quote hoctet, if_neg hb.1, if_neg hb.2.1, if_neg hb.2.2]

/-- Behind a backslash a literal passes whatever stands there, if only from its second octet on. -/
theorem skipLiteral_escape {e : Char} (hquote : quote.toNat < 128)
    (ht : t = x ++ '\\' :: e :: r) :
    skipLiteral t quote (byteSize x) = skipLiteral t quote (byteSize (x ++ ['\\'] ++ [e])) := by
  have hround := literalRound_ok quote
    (ht ▸ Text.octet_append (by decide) x (e :: r) : t.octet (byteSize x) = .ok '\\')
  have hchar := skipLiteral_char (x := x ++ ['\\']) (k := 1) hquote (by simpa using ht)
    e.utf8Size_pos (by simp)
  rw [byteSize_concat_ascii (by decide)] at hchar
  rw [if_pos rfl] at hround
  rw [← hchar, skipLiteral, loop_of_goOn (byteSize_lt_append ht) hround (by omega)]
  rfl

theorem skipLiteral_last (ht : t = x ++ ['\\']) :
    skipLiteral t quote (byteSize x) = .ok (byteSize t) := by
  have hround := literalRound_ok quote
    (ht ▸ Text.octet_append (by decide) x [] : t.octet (byteSize x) = .ok '\\')
  have hsize : byteSize t = byteSize x + 1 := ht ▸ byteSize_concat_ascii (by decide) x
  rw [if_pos rfl] at hround
  rw [skipLiteral, loop_of_goOn (byteSize_lt_append ht) hround (by omega), loop_of_end (by omega)]

theorem skipLiteral_quote (hreader : IsLiteralReader quote inside escaped)
    (ht : t = x ++ quote :: r) :
    skipLiteral t quote (byteSize x) = .ok (byteSize (x ++ [quote])) := by
  have hround := literalRound_ok quote
    (ht ▸ Text.octet_append hreader.quote_ascii x r : t.octet (byteSize x) = .ok quote)
  rw [if_neg hreader.quote_ne.1, if_pos rfl] at hround
  rw [skipLiteral, loop_of_leave (byteSize_lt_append ht) hround,
    byteSize_concat_ascii hreader.quote_ascii]

theorem skipLiteral_line (hquote : quote ≠ '\n') (ht : t = x ++ '\n' :: r) :
    skipLiteral t quote (byteSize x) = .ok (byteSize x) := by
  have hround := literalRound_ok quote
    (ht ▸ Text.octet_append (by decide) x r : t.octet (byteSize x) = .ok '\n')
  rw [if_neg (by decide), if_neg hquote.symm, if_pos rfl] at hround
  rw [skipLiteral, loop_of_leave (byteSize_lt_append ht) hround]

/-- A literal is passed up to its quote, or to the end of its line or of the source. -/
theorem skipLiteral_skips (hreader : IsLiteralReader quote inside escaped) (ht : t = x ++ r) :
    ∃ stop, skipLiteral t quote (byteSize x) = .ok stop ∧ Skips inside x r stop := by
  induction hn : r.length using Nat.strong_induction_on generalizing x r with
  | _ n ih =>
      obtain ⟨hescape, hline, hat⟩ := hreader.quote_ne
      have hascii := hreader.quote_ascii
      cases r with
      | nil =>
          rw [List.append_nil] at ht
          exact ⟨byteSize x, by rw [skipLiteral, ht, loop_of_end (Nat.le_refl _)], .at_end⟩
      | cons c r =>
          by_cases hbackslash : c = '\\'
          · subst hbackslash
            cases r with
            | nil =>
                refine ⟨byteSize t, skipLiteral_last ht, .char hreader.inside_code ?_⟩
                exact ht ▸ .at_end
            | cons e r =>
                have hlength : r.length < n := by
                  rw [← hn, List.length_cons, List.length_cons]
                  omega
                obtain ⟨stop, hstop, hskips⟩ := ih r.length hlength
                  (x := x ++ ['\\'] ++ [e]) (by simp [ht]) rfl
                refine ⟨stop, (skipLiteral_escape hascii ht).trans hstop, ?_⟩
                refine .char hreader.inside_code (hreader.escape.symm ▸ ?_)
                exact .char hreader.escaped_code ((hreader.back e).symm ▸ hskips)
          by_cases hquote : c = quote
          · subst hquote
            refine ⟨_, skipLiteral_quote hreader ht, .char hreader.inside_code ?_⟩
            refine .here fun depth => ?_
            rw [hreader.quote_next, Lexeme.lookback_concat hat]
          by_cases hnewline : c = '\n'
          · subst hnewline
            exact ⟨_, skipLiteral_line hline ht, .at_line hreader.line_next⟩
          · obtain ⟨stop, hstop, hskips⟩ := ih r.length (by simp [← hn]) (x := x ++ [c])
              (by simp [ht]) rfl
            have hchar := skipLiteral_char (k := 0) hascii ht (Nat.zero_le _)
              fun _ => ⟨hbackslash, hquote, hnewline⟩
            refine ⟨stop, hchar.trans hstop, .char hreader.inside_code ?_⟩
            exact (hreader.plain c hquote hbackslash hnewline).symm ▸ hskips

theorem skipVerbatim_char (ht : t = x ++ c :: r) (hc : c ≠ '"') :
    skipVerbatim t (byteSize x) = skipVerbatim t (byteSize (x ++ [c])) := by
  refine loop_octets (P := (· ≠ '"')) (k := 0) (fun _ hb => ne_of_beyond (by decide) hb)
    (fun i b hoctet hb => ?_) ht (Nat.zero_le _) fun _ => hc
  rw [verbatimRound, Checked.bind_ok hoctet, if_neg hb]
  rfl

/-- The octet behind a character of ASCII is one of ASCII if and only if the next character is. -/
theorem octet?_next {a : Char} (hc : c.toNat < 128) (ha : a.toNat < 128) (ht : t = x ++ c :: r) :
    octet? t (byteSize x + 1) = some a ↔ r.head? = some a := by
  rw [← byteSize_concat_ascii hc x, ht, ← List.singleton_append, ← List.append_assoc]
  exact Text.octet?_eq_some_iff ha _ r

theorem verbatimRound_quote (ht : t = x ++ '"' :: r) : verbatimRound t (byteSize x) () =
    .ok (if r.head? = some '"' then .goOn (byteSize x + 2) () else .leave (byteSize x + 1)) := by
  have hoctet : t.octet (byteSize x) = .ok '"' := ht ▸ Text.octet_append (by decide) x r
  rw [verbatimRound, Checked.bind_ok hoctet, if_pos rfl]
  simp only [octet?_next (a := '"') (by decide) (by decide) ht]
  split_ifs <;> rfl

theorem skipVerbatim_pair (ht : t = x ++ '"' :: '"' :: r) :
    skipVerbatim t (byteSize x) = skipVerbatim t (byteSize (x ++ ['"'] ++ ['"'])) := by
  have hround := verbatimRound_quote ht
  rw [List.head?_cons, if_pos rfl] at hround
  rw [byteSize_concat_ascii (by decide), byteSize_concat_ascii (by decide), skipVerbatim,
    loop_of_goOn (byteSize_lt_append ht) hround (by omega)]
  rfl

theorem skipVerbatim_quote (ht : t = x ++ '"' :: r) (hr : r.head? ≠ some '"') :
    skipVerbatim t (byteSize x) = .ok (byteSize (x ++ ['"'])) := by
  have hround := verbatimRound_quote ht
  rw [if_neg hr] at hround
  rw [skipVerbatim, loop_of_leave (byteSize_lt_append ht) hround,
    byteSize_concat_ascii (by decide)]

theorem skipVerbatim_skips (ht : t = x ++ r) :
    ∃ stop, skipVerbatim t (byteSize x) = .ok stop ∧ Skips .verbatim x r stop := by
  induction hn : r.length using Nat.strong_induction_on generalizing x r with
  | _ n ih =>
      cases r with
      | nil =>
          rw [List.append_nil] at ht
          exact ⟨byteSize x, by rw [skipVerbatim, ht, loop_of_end (Nat.le_refl _)], .at_end⟩
      | cons c r =>
          by_cases hc : c = '"'
          swap
          · obtain ⟨stop, hstop, hskips⟩ := ih r.length (by simp [← hn]) (x := x ++ [c])
              (by simp [ht]) rfl
            have hnext : Lexeme.verbatim.next c = .verbatim := if_neg hc
            exact ⟨stop, (skipVerbatim_char ht hc).trans hstop, .char rfl (hnext.symm ▸ hskips)⟩
          subst hc
          by_cases hhead : r.head? = some '"'
          · obtain ⟨r, rfl⟩ := List.head?_eq_some_iff.1 hhead
            have hlength : r.length < n := by
              rw [← hn, List.length_cons, List.length_cons]
              omega
            obtain ⟨stop, hstop, hskips⟩ := ih r.length hlength
              (x := x ++ ['"'] ++ ['"']) (by simp [ht]) rfl
            have hpair : Lexeme.Passes .verbatimQuote ['"'] .verbatim :=
              .cons (by simp [Lexeme.SeesBrace]) (.nil _)
            exact ⟨stop, (skipVerbatim_pair ht).trans hstop, .char rfl (.passes hpair hskips)⟩
          · refine ⟨_, skipVerbatim_quote ht hhead, .char rfl (.here fun depth => ?_)⟩
            have hafresh : ∀ c ∈ r.head?, Lexeme.verbatimQuote.next c = Lexeme.start c := by
              intro c hc
              have hne : c ≠ '"' := by
                rintro rfl
                exact hhead hc
              exact if_neg hne
            rw [Lexeme.lookback_concat (by decide)]
            exact closeAtDepth_start rfl hafresh depth

namespace Lexeme

theorem passes_line (h : '\n' ∉ t) : Passes .lineComment t .lineComment := by
  induction t with
  | nil => exact .nil _
  | cons c t ih =>
      simp only [List.mem_cons, not_or] at h
      have hnext : lineComment.next c = lineComment := if_neg (Ne.symm h.1)
      exact .skip rfl (hnext.symm ▸ ih h.2)

theorem passes_unclosed (h : ¬ ['*', '/'] <:+: t) :
    (∃ reader, Passes .blockComment t reader) ∧
      (t.head? ≠ some '/' → ∃ reader, Passes .star t reader) := by
  induction t with
  | nil => exact ⟨⟨_, .nil _⟩, fun _ => ⟨_, .nil _⟩⟩
  | cons c t ih =>
      obtain ⟨hcomment, hstar⟩ := ih fun hwithin => h (hwithin.trans (List.suffix_cons c t).isInfix)
      by_cases hc : c = '*'
      · subst hc
        have hhead : t.head? ≠ some '/' := by
          intro hslash
          obtain ⟨u, rfl⟩ := List.head?_eq_some_iff.1 hslash
          exact h (List.prefix_append ['*', '/'] u).isInfix
        obtain ⟨reader, hreader⟩ := hstar hhead
        exact ⟨⟨reader, .skip rfl hreader⟩, fun _ => ⟨reader, .skip rfl hreader⟩⟩
      · obtain ⟨reader, hreader⟩ := hcomment
        have hnext : blockComment.next c = blockComment := if_neg hc
        refine ⟨⟨reader, .skip rfl (hnext.symm ▸ hreader)⟩, fun hslash => ?_⟩
        have hnext : star.next c = blockComment := by simp_all [next]
        exact ⟨reader, .skip rfl (hnext.symm ▸ hreader)⟩

theorem passes_slash (hc : c = '/' ∨ c = '*') (h : Passes (slash.next c) t reader) :
    Passes slash (c :: t) reader := by
  refine .cons ?_ h
  rcases hc with rfl | rfl <;> simp [SeesBrace]

end Lexeme

theorem lineEnd_skips (ht : t = x ++ '/' :: '/' :: r) :
    ∃ stop, t.lineEnd (byteSize x) = .ok stop ∧ Skips .slash (x ++ ['/']) ('/' :: r) stop := by
  have hline : Text.firstLine ('/' :: '/' :: r) = '/' :: '/' :: Text.firstLine r := by
    simp [Text.firstLine]
  have hend : t.lineEnd (byteSize x) = .ok (byteSize (x ++ ['/'] ++ '/' :: Text.firstLine r)) := by
    rw [ht, Text.lineEnd_append, hline]
    simp
  have hpass := Lexeme.passes_slash (Or.inl rfl) (Lexeme.passes_line (Text.not_mem_firstLine r))
  have hskips : Skips .lineComment (x ++ ['/'] ++ '/' :: Text.firstLine r)
      (r.dropWhile (· ≠ '\n')) (byteSize (x ++ ['/'] ++ '/' :: Text.firstLine r)) := by
    rcases Text.line_cases r with hr | ⟨l, below, hl, rfl⟩
    · rw [List.dropWhile_eq_nil_iff.2 (Text.ne_of_not_mem hr)]
      exact .at_end
    · rw [Text.dropWhile_run (Text.ne_of_not_mem hl) (by simp)]
      exact .at_line rfl
  have hskips := Skips.passes hpass hskips
  rw [List.cons_append, Text.firstLine_append_dropWhile] at hskips
  exact ⟨_, hend, hskips⟩

theorem not_infix_of_cut? {before : Text} (h : Text.cut? ['*', '/'] t = some (before, rest)) :
    ¬ ['*', '/'] <:+: before ++ ['*'] := by
  rintro ⟨u, v, huv⟩
  obtain ⟨ht, hfirst⟩ := Text.cut?_eq_some_iff.1 h
  have hlength := congrArg List.length huv
  have hle := hfirst u ⟨v ++ '/' :: rest, by
    rw [← List.append_assoc, huv, ht]
    simp⟩
  simp only [List.length_append, List.length_cons, List.length_nil] at hlength
  omega

theorem skipBlockComment_skips (ht : t = x ++ '/' :: '*' :: r) :
    ∃ stop, skipBlockComment t (byteSize x) = .ok stop ∧
      Skips .slash (x ++ ['/']) ('*' :: r) stop := by
  have hmark : "*/".toList = ['*', '/'] := by decide
  have hplace : byteSize (x ++ ['/'] ++ ['*']) = byteSize x + 2 := by
    rw [byteSize_concat_ascii (by decide), byteSize_concat_ascii (by decide)]
  have hcut : t.sliceFrom (byteSize x + 2) = .ok r := by
    have := Text.sliceFrom_append (x ++ ['/'] ++ ['*']) r
    rwa [hplace, List.append_assoc, List.append_assoc, List.singleton_append,
      List.singleton_append, ← ht] at this
  rw [skipBlockComment, Checked.bind_ok hcut, hmark]
  cases hends : Text.cut? ['*', '/'] r with
  | none =>
      obtain ⟨reader, hreader⟩ := (Lexeme.passes_unclosed (Text.cut?_eq_none_iff.1 hends)).1
      have hskips := Skips.passes (x := x ++ ['/']) (r := [])
        (Lexeme.passes_slash (Or.inr rfl) hreader) .at_end
      rw [List.append_nil, List.append_assoc, List.singleton_append, ← ht] at hskips
      exact ⟨byteSize t, rfl, hskips⟩
  | some p =>
      obtain ⟨comment, rest⟩ := p
      obtain ⟨hr, -⟩ := Text.cut?_eq_some_iff.1 hends
      have hpass := Lexeme.passes_slash (Or.inr rfl)
        (Lexeme.passes_blockComment (not_infix_of_cut? hends)).1
      have hsplit : x ++ ['/'] ++ '*' :: (comment ++ ['*', '/']) =
          x ++ ['/'] ++ ['*'] ++ comment ++ ['*'] ++ ['/'] := by simp
      have hstop : byteSize (x ++ ['/'] ++ '*' :: (comment ++ ['*', '/'])) =
          byteSize x + 2 + byteSize comment + 2 := by
        rw [hsplit, byteSize_concat_ascii (by decide), byteSize_concat_ascii (by decide),
          Text.byteSize_append, hplace]
      have hskips := Skips.passes (x := x ++ ['/']) hpass (.here (r := rest) fun depth => by
        rw [hsplit, Lexeme.lookback_concat (by decide)])
      rw [hstop, List.cons_append, ← hr] at hskips
      exact ⟨_, rfl, hskips⟩

theorem isVerbatim_append (x r : Text) :
    isVerbatim (x ++ r) (byteSize x) = .ok (decide (x.getLast? = some '@')) := by
  rw [isVerbatim]
  by_cases hx : x = []
  · subst hx
    rfl
  · obtain ⟨b, hoctet, hb⟩ := Text.octet_behind (a := '@') (by decide) x r (Text.byteSize_pos hx)
    rw [if_pos (Text.byteSize_pos hx), Checked.bind_ok hoctet]
    simp only [hb]
    rfl

theorem skipString_skips (ht : t = x ++ '"' :: r) :
    ∃ stop, skipString t (byteSize x + 1) (x.getLast? = some '@') = .ok stop ∧
      Skips ((lookback x).next '"') (x ++ ['"']) r stop := by
  have ht' : t = x ++ ['"'] ++ r := by simpa using ht
  rw [← byteSize_concat_ascii (c := '"') (by decide) x]
  by_cases hlast : x.getLast? = some '@'
  · rw [lookback, if_pos hlast, decide_eq_true hlast]
    exact skipVerbatim_skips ht'
  · rw [lookback, if_neg hlast, decide_eq_false hlast]
    exact skipLiteral_skips Lexeme.isLiteralReader_string ht'

theorem skips_plain (hquote : c ≠ '"' ∧ c ≠ '\'')
    (hslash : c = '/' → ∀ d ∈ r.head?, d ≠ '/' ∧ d ≠ '*') :
    Skips ((lookback x).next c) (x ++ [c]) r (byteSize (x ++ [c])) := by
  refine .here fun depth => ?_
  rw [Lexeme.next_lookback hquote.1, Lexeme.start]
  by_cases hc : c = '/'
  · subst hc
    rw [if_pos rfl, Lexeme.lookback_concat (by decide)]
    refine closeAtDepth_start rfl (fun d hd => ?_) depth
    obtain ⟨hline, hblock⟩ := hslash rfl d hd
    rw [Lexeme.next, if_neg hline, if_neg hblock]
  · rw [if_neg hc]
    by_cases hat : c = '@'
    · subst hat
      rw [if_pos rfl, lookback, List.getLast?_concat, if_pos rfl]
    · rw [if_neg hat, if_neg hquote.1, if_neg hquote.2, Lexeme.lookback_concat hat]

end ApiListing
