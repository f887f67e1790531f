import ApiListing.Proofs.BraceDepth
import ApiListing.Proofs.Places

namespace ApiListing

/-- The inside of a literal on one line: a backslash takes the next character with it, and a quote
or a newline stands only behind a backslash. -/
inductive IsLiteral (quote : Char) : Text → Prop
  | nil : IsLiteral quote []
  | plain {t} (c) (hquote : c ≠ quote) (hescape : c ≠ '\\') (hline : c ≠ '\n')
      (h : IsLiteral quote t) : IsLiteral quote (c :: t)
  | escape {t} (c) (h : IsLiteral quote t) : IsLiteral quote ('\\' :: c :: t)

def Text.doubled (t : Text) : Text := t.flatMap fun c => if c = '"' then ['"', '"'] else [c]

/-- What stands between the braces of a block. -/
inductive IsBody : Text → Prop
  | nil : IsBody []
  | block {body t} (hbody : IsBody body) (h : IsBody t) : IsBody ('{' :: (body ++ '}' :: t))
  | lineComment {t} (comment) (hline : '\n' ∉ comment) (h : IsBody t) :
      IsBody ('/' :: '/' :: (comment ++ '\n' :: t))
  | blockComment {t} (comment) (hends : ¬ ['*', '/'] <:+: comment ++ ['*']) (h : IsBody t) :
      IsBody ('/' :: '*' :: (comment ++ '*' :: '/' :: t))
  | string {literal t} (hliteral : IsLiteral '"' literal) (h : IsBody t) :
      IsBody ('"' :: (literal ++ '"' :: t))
  | verbatim {t} (literal : Text) (hends : ∀ c ∈ t.head?, c ≠ '"') (h : IsBody t) :
      IsBody ('@' :: '"' :: (literal.doubled ++ '"' :: t))
  | character {literal t} (hliteral : IsLiteral '\'' literal) (h : IsBody t) :
      IsBody ('\'' :: (literal ++ '\'' :: t))
  | plain {t} (c) (hc : c ∉ ['{', '}', '"', '\''])
      (hslash : c = '/' → ∀ d ∈ t.head?, d ≠ '/' ∧ d ≠ '*')
      (hat : c = '@' → ∀ d ∈ t.head?, d ≠ '"') (h : IsBody t) : IsBody (c :: t)

/-- A reader comes over a text in which it sees no brace. -/
inductive Lexeme.Passes : Lexeme → Text → Lexeme → Prop
  | nil (reader) : Passes reader [] reader
  | cons {reader c t reader'} (hsees : ¬ reader.SeesBrace c) (h : Passes (reader.next c) t reader') :
      Passes reader (c :: t) reader'

variable {reader reader' inside escaped : Lexeme} {depth : Nat} {p t : Text} {quote : Char}

open Lexeme (Passes)

theorem closeAtDepth_passes (h : Passes reader p reader') (depth : Nat) (t : Text) :
    closeAtDepth reader depth (p ++ t) = (closeAtDepth reader' depth t).map (p ++ ·) := by
  induction h with
  | nil => simp
  | cons hsees h ih =>
      rw [List.cons_append, closeAtDepth_of_not_seesBrace hsees, ih, Option.map_map]
      rfl

namespace Lexeme

theorem not_seesBrace_of_not_isCode (h : reader.isCode = false) (c : Char) :
    ¬ reader.SeesBrace c := by
  simp [SeesBrace, h]

theorem Passes.skip {c : Char} (hcode : reader.isCode = false)
    (h : Passes (reader.next c) t reader') : Passes reader (c :: t) reader' :=
  .cons (not_seesBrace_of_not_isCode hcode c) h

theorem passes_literal (hinside : inside.isCode = false) (hescaped : escaped.isCode = false)
    (hescape : inside.next '\\' = escaped) (hback : ∀ c, escaped.next c = inside)
    (hplain : ∀ c, c ≠ quote → c ≠ '\\' → c ≠ '\n' → inside.next c = inside)
    (hend : inside.next quote = .code) (h : IsLiteral quote t) :
    Passes inside (t ++ [quote]) .code := by
  induction h with
  | nil => exact .skip hinside (hend ▸ .nil _)
  | plain c hquote hescape hline h ih =>
      exact .skip hinside ((hplain c hquote hescape hline).symm ▸ ih)
  | escape c h ih => exact .skip hinside (hescape.symm ▸ .skip hescaped ((hback c).symm ▸ ih))

theorem passes_string (h : IsLiteral '"' t) : Passes .string (t ++ ['"']) .code :=
  passes_literal rfl rfl rfl (fun _ => rfl)
    (fun c hquote hescape hline => by simp [next, hquote, hescape, hline]) rfl h

theorem passes_character (h : IsLiteral '\'' t) : Passes .character (t ++ ['\'']) .code :=
  passes_literal rfl rfl rfl (fun _ => rfl)
    (fun c hquote hescape hline => by simp [next, hquote, hescape, hline]) rfl h

theorem passes_verbatim (t : Text) : Passes .verbatim (t.doubled ++ ['"']) .verbatimQuote := by
  induction t with
  | nil => exact .skip rfl (.nil _)
  | cons c t ih =>
      rw [Text.doubled, List.flatMap_cons, ← Text.doubled, List.append_assoc]
      split
      · refine .skip rfl (.cons ?_ ih)
        simp [SeesBrace]
      · next hc =>
          have hnext : verbatim.next c = verbatim := by simp [next, hc]
          exact .skip rfl (hnext.symm ▸ ih)

theorem passes_lineComment (h : '\n' ∉ t) : Passes .lineComment (t ++ ['\n']) .code := by
  induction t with
  | nil => exact .skip rfl (.nil _)
  | cons c t ih =>
      simp only [List.mem_cons, not_or] at h
      have hnext : lineComment.next c = lineComment := by simp [next, Ne.symm h.1]
      exact .skip rfl (hnext.symm ▸ ih h.2)

/-- The reader goes on in a comment until a star and a slash, also behind a star. -/
theorem passes_blockComment (h : ¬ ['*', '/'] <:+: t ++ ['*']) :
    Passes .blockComment (t ++ ['*', '/']) .code ∧
      (t.head? ≠ some '/' → Passes .star (t ++ ['*', '/']) .code) := by
  induction t with
  | nil => exact ⟨.skip rfl (.skip rfl (.nil _)), fun _ => .skip rfl (.skip rfl (.nil _))⟩
  | cons c t ih =>
      have htail := ih fun hwithin => h (hwithin.trans (List.suffix_cons c _).isInfix)
      by_cases hc : c = '*'
      · subst hc
        have hhead : t.head? ≠ some '/' := by
          intro hslash
          obtain ⟨u, rfl⟩ := List.head?_eq_some_iff.1 hslash
          exact h (List.prefix_append ['*', '/'] (u ++ ['*'])).isInfix
        exact ⟨.skip rfl (htail.2 hhead), fun _ => .skip rfl (htail.2 hhead)⟩
      · have hnext : blockComment.next c = blockComment := by simp [next, hc]
        refine ⟨.skip rfl (hnext.symm ▸ htail.1), fun hslash => ?_⟩
        have hnext : star.next c = blockComment := by simp_all [next]
        exact .skip rfl (hnext.symm ▸ htail.1)

end Lexeme

/-- Where the next character begins code afresh, it does not matter what was read before. -/
theorem closeAtDepth_start (hcode : reader.isCode = true)
    (h : ∀ c ∈ t.head?, reader.next c = Lexeme.start c) (depth : Nat) :
    closeAtDepth reader depth t = closeAtDepth .code depth t := by
  cases t with
  | nil => rfl
  | cons c t =>
      have hcode' : Lexeme.code.isCode = true := rfl
      have hnext' : Lexeme.code.next c = Lexeme.start c := rfl
      simp only [closeAtDepth, hcode, hcode', h c rfl, hnext']

theorem closeAtDepth_afresh (hcode : reader.isCode = true)
    (h : ∀ c ∈ t.head?, reader.next c = Lexeme.start c) (depth : Nat) (rest : Text) :
    closeAtDepth reader depth (t ++ '}' :: rest) = closeAtDepth .code depth (t ++ '}' :: rest) := by
  apply closeAtDepth_start hcode
  cases t with
  | nil => exact Text.forall_mem_head?_cons (Lexeme.next_close hcode)
  | cons c t => exact h

theorem closeAtDepth_piece (hp : Passes .code p reader) (hcode : reader.isCode = true)
    (hafresh : ∀ c ∈ t.head?, reader.next c = Lexeme.start c) {rest : Text}
    (ht : closeAtDepth .code depth (t ++ '}' :: rest) =
      (closeAtDepth .code depth ('}' :: rest)).map (t ++ ·)) :
    closeAtDepth .code depth (p ++ t ++ '}' :: rest) =
      (closeAtDepth .code depth ('}' :: rest)).map (p ++ t ++ ·) := by
  rw [List.append_assoc, closeAtDepth_passes hp, closeAtDepth_afresh hcode hafresh, ht,
    Option.map_map]
  simp [Function.comp_def]

theorem IsBody.closeAtDepth_append (h : IsBody t) (depth : Nat) (rest : Text) :
    closeAtDepth .code depth (t ++ '}' :: rest) =
      (closeAtDepth .code depth ('}' :: rest)).map (t ++ ·) := by
  induction h generalizing depth rest with
  | nil => simp
  | block hbody h ihbody ih =>
      rw [List.cons_append, List.append_assoc, List.cons_append, closeAtDepth_open rfl, ihbody,
        closeAtDepth_close rfl, ih]
      simp [Function.comp_def]
  | lineComment comment hline h ih =>
      have hp : Passes .code ('/' :: '/' :: (comment ++ ['\n'])) .code :=
        .cons (by simp [Lexeme.SeesBrace])
          (.cons (by simp [Lexeme.SeesBrace]) (Lexeme.passes_lineComment hline))
      simpa using closeAtDepth_piece hp rfl (fun _ _ => rfl) (ih depth rest)
  | blockComment comment hends h ih =>
      have hp : Passes .code ('/' :: '*' :: (comment ++ ['*', '/'])) .code :=
        .cons (by simp [Lexeme.SeesBrace])
          (.cons (by simp [Lexeme.SeesBrace]) (Lexeme.passes_blockComment hends).1)
      simpa using closeAtDepth_piece hp rfl (fun _ _ => rfl) (ih depth rest)
  | @string literal t hliteral h ih =>
      have hp : Passes .code ('"' :: (literal ++ ['"'])) .code :=
        .cons (by simp [Lexeme.SeesBrace]) (Lexeme.passes_string hliteral)
      simpa using closeAtDepth_piece hp rfl (fun _ _ => rfl) (ih depth rest)
  | verbatim literal hends h ih =>
      have hp : Passes .code ('@' :: '"' :: (literal.doubled ++ ['"'])) .verbatimQuote :=
        .cons (by simp [Lexeme.SeesBrace])
          (.cons (by simp [Lexeme.SeesBrace]) (Lexeme.passes_verbatim literal))
      have hafresh : ∀ c ∈ _, Lexeme.verbatimQuote.next c = Lexeme.start c :=
        fun c hc => if_neg (hends c hc)
      simpa using closeAtDepth_piece hp rfl hafresh (ih depth rest)
  | @character literal t hliteral h ih =>
      have hp : Passes .code ('\'' :: (literal ++ ['\''])) .code :=
        .cons (by simp [Lexeme.SeesBrace]) (Lexeme.passes_character hliteral)
      simpa using closeAtDepth_piece hp rfl (fun _ _ => rfl) (ih depth rest)
  | @plain t c hc hslash hat h ih =>
      simp only [List.mem_cons, List.not_mem_nil, or_false, not_or] at hc
      obtain ⟨hopen, hclose, hquote, happostrophe⟩ := hc
      have hp : Passes .code [c] (Lexeme.start c) :=
        .cons (by simp [Lexeme.SeesBrace, hopen, hclose]) (.nil _)
      refine closeAtDepth_piece hp ?_ ?_ (ih depth rest)
      · rw [Lexeme.start]
        split_ifs <;> rfl
      · intro d hd
        by_cases hc : c = '/'
        · have := hslash hc d hd
          simp [hc, Lexeme.start, Lexeme.next, this]
        · by_cases hc' : c = '@'
          · simp [hc', Lexeme.start, Lexeme.next, hat hc' d hd]
          · simp [Lexeme.start, Lexeme.next, hc, hc', hquote, happostrophe]

namespace Boundary

/-- The byte of the brace that closes the one at a byte of the source. -/
def closing? (b : Boundary) (indent source : Text) (opening : Nat) : Option Nat :=
  (b.close indent (Text.splitBytes (opening + 1) source).2).map fun content =>
    opening + 1 + Text.byteSize content

theorem closing?_append (b : Boundary) (indent before rest : Text) :
    b.closing? indent (before ++ '{' :: rest) (Text.byteSize before) =
      (b.close indent rest).map fun content => Text.byteSize (before ++ '{' :: content) := by
  have hopening : Text.byteSize before + 1 = Text.byteSize (before ++ ['{']) := by
    rw [Text.byteSize_append]
    rfl
  have hsplit : before ++ '{' :: rest = before ++ ['{'] ++ rest := by simp
  rw [closing?, hopening, hsplit, Text.splitBytes_append]
  refine congrArg (Option.map · _) (funext fun content => ?_)
  rw [← Text.byteSize_append, List.append_assoc, List.singleton_append]

/-- Through comments, literals and nested blocks the depth of braces leads from the first brace of a
block to its last one, wherever the block stands. -/
theorem closing?_body (h : IsBody t) (indent before after : Text) :
    braceDepth.closing? indent (before ++ '{' :: (t ++ '}' :: after)) (Text.byteSize before) =
      some (Text.byteSize (before ++ '{' :: t)) := by
  rw [closing?_append, close, h.closeAtDepth_append, closeAtDepth_last rfl]
  simp

def literals : Text :=
  "\"\\é\x7d\"'\\''//\x7d\n/*\x7d*/@\"\"\"\x7d\"\x7b/\x7d".toList

theorem isBody_literals : IsBody literals := by
  have hblock : IsBody ['{', '/', '}'] :=
    .block (.plain '/' (by decide) (by simp) (by simp) .nil) .nil
  have hverbatim := IsBody.verbatim ['"', '}'] (by simp) hblock
  have hcomments := IsBody.lineComment ['}'] (by decide)
    (.blockComment ['}'] (by decide) hverbatim)
  have hcharacter := IsBody.character (.escape '\'' .nil) hcomments
  have hliteral : IsLiteral '"' ['\\', 'é', '}'] :=
    .escape 'é' (.plain '}' (by decide) (by decide) (by decide) .nil)
  exact .string hliteral hcharacter

theorem closing?_body_literals :
    IsBody literals ∧
    braceDepth.closing? [] ("get ".toList ++ '{' :: (literals ++ '}' :: " set;".toList)) 4 =
      some 33 :=
  ⟨isBody_literals, (closing?_body isBody_literals [] "get ".toList " set;".toList).trans
    (by decide)⟩

end Boundary

end ApiListing
