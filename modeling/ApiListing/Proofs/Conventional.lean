import ApiListing.Proofs.Names
import ApiListing.Proofs.Skipping

namespace ApiListing

/-- A summary that fits on one doc line. -/
structure Summary.IsPlain (s : Text) : Prop where
  ne_nil : s ≠ []
  trimmed : Text.trim s = s
  line : '\n' ∉ s
  unclosed : ¬ Summary.closingTag <:+: s

/-- A member in the conventional layout. A hidden one has a marker above its declaration, and a
property has no parameters. -/
structure Conventional where
  indent : Text
  doc? : Option Text
  visibility : Visibility
  isStatic : Bool
  modifiers : List Text
  type : Text
  name : Text
  parameters? : Option Text
  body : List Text
  hidden : Bool
  indent_blank : ∀ c ∈ indent, Text.isBlank c = true
  doc_plain : ∀ s ∈ doc?, Summary.IsPlain s
  modifiers_known : ∀ w ∈ modifiers, w ∈ Modifier.knownWords
  type_name : Text.IsName type
  type_not_modifier : type ∉ Modifier.knownWords
  type_not_static : type ≠ "static".toList
  type_not_enum : type ≠ "enum".toList
  type_not_definition : type ∉ Head.typeDefinitionWords
  name_name : Text.IsName name
  parameters_plain : ∀ p ∈ parameters?, '(' ∉ p ∧ ')' ∉ p ∧ '\n' ∉ p
  body_lines : ∀ l ∈ body, '\n' ∉ l
  body_open : ∀ l ∈ body, ¬ indent ++ ['}'] <+: l
  body_hidden : hidden = true → ∀ l ∈ body, Declaration.read? l = none

instance : Inhabited Conventional where
  default :=
    { indent := [' ']
      doc? := some "Adds up.".toList
      visibility := .everyone
      isStatic := true
      modifiers := ["async".toList]
      type := "long".toList
      name := "Sum".toList
      parameters? := some "long a, long b".toList
      body := ["  return a + b;".toList]
      hidden := false
      indent_blank := by simp [Text.isBlank]
      doc_plain := by
        intro s hs
        cases hs
        have hangle : '<' ∈ Summary.closingTag := by decide
        exact ⟨by decide, by decide, by decide, fun h => absurd (h.subset hangle) (by decide)⟩
      modifiers_known := by decide
      type_name := by decide
      type_not_modifier := by decide
      type_not_static := by decide
      type_not_enum := by decide
      type_not_definition := by decide
      name_name := by decide
      parameters_plain := by
        intro p hp
        cases hp
        exact ⟨by decide, by decide, by decide⟩
      body_lines := by decide
      body_open := by decide
      body_hidden := nofun }

namespace Conventional

def parametersText (c : Conventional) : Text :=
  match c.parameters? with
  | some p => '(' :: (p ++ [')'])
  | none => []

def headText (c : Conventional) : Text := c.type ++ ' ' :: (c.name ++ c.parametersText)

def docLine (c : Conventional) (s : Text) : Text := c.indent ++ (Summary.marker ++ ' ' :: s)

def docLines (c : Conventional) : List Text :=
  match c.doc? with
  | some s => [c.docLine Summary.openingTag, c.docLine s, c.docLine Summary.closingTag]
  | none => []

def markerLines (c : Conventional) : List Text :=
  if c.hidden then [c.indent ++ "[MoonSharpVisible(false)]".toList] else []

def staticText (c : Conventional) : Text := if c.isStatic then "static ".toList else []

def declarationLine (c : Conventional) : Text :=
  c.indent ++ (c.visibility.word ++ ([' '] ++
    (c.staticText ++ (Modifier.spaced c.modifiers ++ c.headText))))

def closingLine (c : Conventional) : Text := c.indent ++ ['}']

def blockLines (c : Conventional) : List Text := (c.indent ++ ['{']) :: c.body ++ [c.closingLine]

def text (c : Conventional) : Text :=
  Text.ofLines (c.docLines ++ c.markerLines ++ c.declarationLine :: c.blockLines)

def block (c : Conventional) : Text := '\n' :: Text.ofLines c.body ++ c.indent

def record (c : Conventional) (before : Text) : Record where
  summary? := c.doc?
  visibility := c.visibility
  isStatic := c.isStatic
  modifiers := c.modifiers
  kind := if c.parameters?.isSome then .method else .property
  head := c.headText
  block? := some c.block
  start := Text.byteSize before
  stop := Text.byteSize
    (before ++ c.declarationLine ++ '\n' :: c.indent ++ '{' :: c.block ++ ['}'])
  line := before.count '\n' + 1

/-- The records of the members that are not hidden, when `before` stands before the first one. -/
def records (before : Text) : List Conventional → List Record
  | [] => []
  | c :: cs =>
    (if c.hidden then [] else [c.record (before ++ Text.ofLines c.docLines)])
      ++ records (before ++ c.text) cs

variable {c : Conventional}

def head (c : Conventional) : Head :=
  match c.parameters? with
  | some p => .method c.type [' '] c.name [] (.parameters ('(' :: (p ++ [')'])))
  | none => .property c.type [' '] c.name

def declaration (c : Conventional) : Declaration where
  indent := c.indent
  visibility := c.visibility
  gap := [' ']
  static? := if c.isStatic then some (Modifier.ofWord "static".toList) else none
  modifiers := c.modifiers.map Modifier.ofWord
  head := c.head

theorem closeParameters_plain {p : Text} (hopen : '(' ∉ p) (hclose : ')' ∉ p) :
    closeParameters false (p ++ [')']) = some (p ++ [')'], []) := by
  induction p with
  | nil => rfl
  | cons a p ih =>
      simp only [List.mem_cons, not_or] at hopen hclose
      rw [List.cons_append, closeParameters]
      simp only [if_neg (Ne.symm hopen.1), if_neg (Ne.symm hclose.1), ih hopen.2 hclose.2]
      rfl

theorem read?_headText (c : Conventional) : Head.read? c.headText = some (c.head, []) := by
  rw [headText, parametersText, head]
  cases hp : c.parameters? with
  | none =>
      simp only [List.append_nil]
      exact Head.read?_property c.type_name c.type_not_enum c.name_name
  | some p =>
      obtain ⟨hopen, hclose, -⟩ := c.parameters_plain p hp
      exact Head.read?_method c.type_name c.name_name (closeParameters_plain hopen hclose)

theorem isBlank_head?_headText (c : Conventional) :
    ∀ a ∈ c.headText.head?, Text.isBlank a = false := c.type_name.isBlank_head?

theorem modifierHead?_headText (c : Conventional) :
    Modifier.head? c.headText = some ([], c.head, []) := by
  have hblank : ∀ a ∈ c.type, Text.isBlank a = false :=
    isBlank_of_mem_wordChars c.type_name.isWordChar
  have hname : ∀ a ∈ (c.name ++ c.parametersText).head?, Text.isBlank a = false :=
    c.name_name.isBlank_head?
  have hknown : Modifier.known? c.headText = none :=
    Modifier.known?_append_eq_none c.type_not_modifier hblank isGap_space hname
  rw [Modifier.head?_of_known?_eq_none hknown, c.read?_headText]
  rfl

theorem modifierHead?_spaced (c : Conventional) :
    Modifier.head? (Modifier.spaced c.modifiers ++ c.headText) =
      some (c.modifiers.map Modifier.ofWord, c.head, []) := by
  rw [Modifier.head?_spaced c.modifiers_known c.isBlank_head?_headText c.modifierHead?_headText,
    List.append_nil]

theorem static?_spaced (c : Conventional) :
    Modifier.static? (Modifier.spaced c.modifiers ++ c.headText) = none := by
  have hknown := c.modifiers_known
  have htype : Modifier.static? (c.type ++ ([' '] ++ (c.name ++ c.parametersText))) = none :=
    Modifier.static?_append_eq_none c.type_not_static
      (isBlank_of_mem_wordChars c.type_name.isWordChar) isGap_space c.name_name.isBlank_head?
  cases hm : c.modifiers with
  | nil => exact htype
  | cons w ws =>
      rw [hm] at hknown
      exact Modifier.static?_spaced hknown c.isBlank_head?_headText

theorem read?_declarationLine (c : Conventional) :
    Declaration.read? c.declarationLine = some (c.declaration, []) := by
  have hspaced := Modifier.isBlank_head?_spaced c.modifiers_known c.isBlank_head?_headText
  have hmodified : Declaration.modified?
      (c.staticText ++ (Modifier.spaced c.modifiers ++ c.headText)) =
        some (c.declaration.static?, c.declaration.modifiers, c.head, []) := by
    rw [staticText, declaration]
    cases hstatic : c.isStatic with
    | false =>
        simp only [Bool.false_eq_true, if_false, List.nil_append]
        refine Declaration.modified?_of_head? c.modifierHead?_spaced fun m hm => ?_
        rw [c.static?_spaced] at hm
        cases hm
    | true =>
        have hword : "static ".toList = "static".toList ++ [' '] := by decide
        simp only [if_true, hword, List.append_assoc]
        exact Declaration.modified?_of_static?
          (Modifier.static?_append rfl isGap_space hspaced) c.modifierHead?_spaced
  refine Declaration.read?_words c.indent_blank ?_ hmodified
  rw [staticText]
  cases c.isStatic with
  | false => exact hspaced
  | true =>
      have hletters : "static ".toList = 's' :: "tatic ".toList := by decide
      rw [if_pos rfl, hletters]
      exact Text.forall_mem_head?_cons (by decide)

theorem text_declaration (c : Conventional) : c.declaration.text = c.declarationLine := by
  simpa using (Declaration.eq_append_of_read? c.read?_declarationLine).symm

theorem shown_head (c : Conventional) : c.head.shown = c.headText := by
  have htext : c.head.text = c.headText := by
    simpa using (Head.eq_append_of_read? c.read?_headText).symm
  have hlast : ∀ a ∈ c.headText.getLast?, Text.isSpace a = false := by
    intro a ha
    rw [headText, ← List.singleton_append, ← List.append_assoc, ← List.append_assoc] at ha
    rw [parametersText] at ha
    split at ha
    · next p _ =>
        rw [← List.cons_append, ← List.append_assoc, List.getLast?_concat] at ha
        cases ha
        decide
    · rw [List.append_nil, List.getLast?_append_of_ne_nil _ c.name_name.ne_nil] at ha
      exact Text.isSpace_of_isWordChar (c.name_name.isWordChar a (List.mem_of_getLast? ha))
  have htrim : Text.trimEnd c.head.text = c.headText := by
    rw [htext, Text.trimEnd_of_getLast hlast]
  rw [← htrim]
  rw [head]
  cases c.parameters? <;> rfl

theorem isTypeDefinition_head (c : Conventional) : c.head.isTypeDefinition = false := by
  have htype : Head.isTypeDefinitionWord c.type = false := by
    simpa [Head.isTypeDefinitionWord] using c.type_not_definition
  rw [head]
  cases c.parameters? <;> exact htype

theorem kind_head (c : Conventional) :
    c.head.kind = if c.parameters?.isSome then .method else .property := by
  rw [head]
  cases c.parameters? <;> rfl

end Conventional

end ApiListing
