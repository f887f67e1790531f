import ApiListing.Proofs.Names
import ApiListing.Proofs.Skipping

namespace ApiListing

variable {o : ScanOptions} {t line rest w : Text} {ws : List Text} {d : Declaration}

/-- The line of a field: plain names behind modifiers in any order. -/
structure FieldLine where
  indent : Text
  visibility : Visibility
  words : List Text
  type : Text
  name : Text
  indent_blank : ∀ c ∈ indent, Text.isBlank c = true
  words_modifier : ∀ w ∈ words, w = "static".toList ∨ w ∈ Modifier.knownWords
  words_nodup : words.Nodup
  type_name : Text.IsName type
  type_not_modifier : type ∉ Modifier.knownWords
  type_not_static : type ≠ "static".toList
  type_not_enum : type ≠ "enum".toList
  name_name : Text.IsName name

instance : Inhabited FieldLine where
  default :=
    { indent := []
      visibility := .everyone
      words := ["static".toList, "readonly".toList]
      type := "int".toList
      name := "X".toList
      indent_blank := by simp
      words_modifier := by decide
      words_nodup := by decide
      type_name := by decide
      type_not_modifier := by decide
      type_not_static := by decide
      type_not_enum := by decide
      name_name := by decide }

namespace FieldLine

def headText (f : FieldLine) : Text := f.type ++ ' ' :: f.name

def declarationText (f : FieldLine) : Text :=
  f.indent ++ (f.visibility.word ++ ([' '] ++ (Modifier.spaced f.words ++ f.headText)))

def text (f : FieldLine) : Text := f.declarationText ++ [';']

def record (f : FieldLine) : Record where
  summary? := none
  visibility := f.visibility
  isStatic := "static".toList ∈ f.words
  modifiers := f.words.filter (· ≠ "static".toList)
  kind := .property
  head := f.headText
  block? := none
  start := 0
  stop := Text.byteSize f.declarationText
  line := 1

/-- What is to be listed for the line: the field, unless a type is defined there. -/
def listed (f : FieldLine) : List Record :=
  if f.type ∈ Head.typeDefinitionWords then [] else [f.record]

end FieldLine

theorem Braces.after?_of_not_mem {boundary : Boundary} {indent : Text} (hline : '\n' ∉ t)
    (hbrace : '{' ∉ t) : Braces.after? boundary indent t = none := by
  have hrest (n : Nat) : '{' ∉ t.drop n := fun hmem => hbrace (List.mem_of_mem_drop hmem)
  have honLine (n : Nat) : onLine? (t.drop n) = none := by
    rw [onLine?]
    split
    · next blanks u h =>
        refine absurd ?_ (hrest n)
        rw [eq_append_of_spanBlanks (t.drop n), h]
        simp
    · rfl
  have hlast (n : Nat) : (Text.trimEnd (t.drop n)).getLast? ≠ some '{' := by
    intro h
    obtain ⟨spaces, hspaces, -⟩ := Text.trimEnd_append (t.drop n)
    apply hrest n
    rw [hspaces]
    exact List.mem_append_left _ (List.mem_of_getLast? h)
  rw [Braces.after?, Text.firstLine_of_not_mem hline]
  simp only [honLine, if_neg (hlast _), below?, Text.afterLine_of_not_mem hline, ite_self]

theorem scan_of_read? (hline : '\n' ∉ line) (hbrace : '{' ∉ line)
    (h : Declaration.read? line = some (d, rest)) (o : ScanOptions) :
    scan o line = if d.head.isTypeDefinition then [] else [LineStart.first.record ⟨d, none⟩] := by
  have hsplit := Declaration.eq_append_of_read? h
  have hrest : '\n' ∉ rest ∧ '{' ∉ rest := by
    rw [hsplit, List.mem_append, not_or] at hline hbrace
    exact ⟨hline.2, hbrace.2⟩
  have hafter : Braces.after? o.boundary d.indent (line.drop d.text.length) = none := by
    rw [hsplit, List.drop_left]
    exact Braces.after?_of_not_mem hrest.1 hrest.2
  have hmember : Member.read? o LineStart.first.above? line =
      if d.head.isTypeDefinition then none else some ⟨d, none⟩ := by
    simp [Member.read?, Text.firstLine_of_not_mem hline, h, hafter, LineStart.first]
  rw [scan]
  by_cases htype : d.head.isTypeDefinition
  · rw [if_pos htype] at hmember ⊢
    rw [scanFrom_of_none hmember, Text.afterLine_of_not_mem hline]
  · rw [if_neg htype] at hmember ⊢
    have htext : line = (⟨d, none⟩ : Member).text ++ rest := by simpa [Member.text] using hsplit
    rw [scanFrom_of_some htext hmember, Text.afterLine_of_not_mem hrest.1]

theorem LineStart.record_first (d : Declaration) :
    LineStart.first.record ⟨d, none⟩ =
      { summary? := none, visibility := d.visibility, isStatic := d.isStatic,
        modifiers := d.modifierWords, kind := d.head.kind, head := d.head.shown, block? := none,
        start := 0, stop := Text.byteSize d.text, line := 1 } := by
  have htext : (⟨d, none⟩ : Member).text = d.text := List.append_nil _
  rw [LineStart.record, LineStart.clear_first.summary?, htext, LineStart.first, Nat.zero_add]
  rfl

theorem Head.shown_property {type gap name : Text} (hname : Text.IsName name) :
    (Head.property type gap name).shown = type ++ gap ++ name := by
  refine Text.trimEnd_of_getLast fun c hc => ?_
  rw [Head.text, List.getLast?_append_of_ne_nil _ hname.ne_nil] at hc
  exact Text.isSpace_of_isWordChar (hname.isWordChar c (List.mem_of_getLast? hc))

theorem Visibility.isName_word (v : Visibility) : Text.IsName v.word := by
  cases v <;> decide +kernel

namespace Modifier

theorem isName_of_knownWords : ∀ w ∈ knownWords, Text.IsName w := by decide +kernel

theorem isName_static : Text.IsName "static".toList := by decide +kernel

theorem spaced_append (ws vs : List Text) : spaced (ws ++ vs) = spaced ws ++ spaced vs := by
  simp [spaced]

theorem map_word_ofWord (ws : List Text) : (ws.map ofWord).map word = ws := by
  simp [ofWord, Function.comp_def]

theorem mem_spaced {c : Char} (hws : ∀ w ∈ ws, Text.IsName w) (hc : c ∈ spaced ws) :
    Text.isWordChar c = true ∨ c = ' ' := by
  simp only [spaced, List.mem_flatten, List.mem_map] at hc
  obtain ⟨_, ⟨w, hw, rfl⟩, hmem⟩ := hc
  rcases List.mem_append.1 hmem with hmem | hmem
  · exact Or.inl ((hws w hw).isWordChar c hmem)
  · exact Or.inr (List.mem_singleton.1 hmem)

theorem head?_static (hname : Text.IsName w) (hend : ∀ c ∈ t.head?, Text.isWordChar c = false)
    (ht : ∀ c ∈ t, Head.opensSignature c = false) :
    head? ("static".toList ++ ' ' :: (w ++ t)) =
      some ([], .property "static".toList [' '] w, t) := by
  have hknown : known? ("static".toList ++ ([' '] ++ (w ++ t))) = none :=
    known?_append_eq_none static_not_mem_knownWords
      (isBlank_of_mem_wordChars isWordChar_static) isGap_space hname.isBlank_head?
  rw [← List.singleton_append (x := ' '), head?_of_known?_eq_none hknown, List.singleton_append,
    Head.read?_property_append isName_static (by decide) hname hend ht]
  rfl

end Modifier

namespace FieldLine

def head (f : FieldLine) : Head := .property f.type [' '] f.name

def ending (f : FieldLine) : Text := f.headText ++ [';']

theorem text_eq (f : FieldLine) :
    f.text =
      f.indent ++ (f.visibility.word ++ ([' '] ++ (Modifier.spaced f.words ++ f.ending))) := by
  simp [text, declarationText, ending]

theorem isName_of_mem_words (f : FieldLine) : ∀ w ∈ f.words, Text.IsName w := by
  intro w hw
  rcases f.words_modifier w hw with rfl | hw
  · exact Modifier.isName_static
  · exact Modifier.isName_of_knownWords w hw

theorem mem_text {c : Char} (f : FieldLine) (hc : c ∈ f.text) :
    Text.isWordChar c = true ∨ Text.isBlank c = true ∨ c = ';' := by
  simp only [text_eq, ending, headText, List.mem_append, List.mem_cons, List.not_mem_nil,
    or_false] at hc
  rcases hc with hc | hc | rfl | hc | (hc | rfl | hc) | rfl
  · exact Or.inr (Or.inl (f.indent_blank c hc))
  · exact Or.inl ((Visibility.isName_word f.visibility).isWordChar c hc)
  · exact Or.inr (Or.inl (by decide))
  · rcases Modifier.mem_spaced f.isName_of_mem_words hc with hc | rfl
    · exact Or.inl hc
    · exact Or.inr (Or.inl (by decide))
  · exact Or.inl (f.type_name.isWordChar c hc)
  · exact Or.inr (Or.inl (by decide))
  · exact Or.inl (f.name_name.isWordChar c hc)
  · exact Or.inr (Or.inr rfl)

theorem opensSignature_of_mem_text {c : Char} (f : FieldLine) (hc : c ∈ f.text) :
    Head.opensSignature c = false := by
  rcases f.mem_text hc with hword | hblank | rfl
  · exact Head.opensSignature_of_isWordChar hword
  · have hspaces : c = ' ' ∨ c = '\t' := by simpa [Text.isBlank] using hblank
    rcases hspaces with rfl | rfl <;> decide
  · decide

theorem isBlank_head?_ending (f : FieldLine) : ∀ c ∈ f.ending.head?, Text.isBlank c = false := by
  rw [ending, headText, List.append_assoc]
  exact f.type_name.isBlank_head?

theorem modifierHead?_ending (f : FieldLine) :
    Modifier.head? f.ending = some ([], f.head, [';']) := by
  have hknown : Modifier.known? (f.type ++ ([' '] ++ (f.name ++ [';']))) = none :=
    Modifier.known?_append_eq_none f.type_not_modifier
      (isBlank_of_mem_wordChars f.type_name.isWordChar) isGap_space f.name_name.isBlank_head?
  have hending : f.ending = f.type ++ ([' '] ++ (f.name ++ [';'])) := by simp [ending, headText]
  rw [hending, Modifier.head?_of_known?_eq_none hknown, List.singleton_append,
    Head.read?_property_append f.type_name f.type_not_enum f.name_name
      (Text.forall_mem_head?_cons (by decide)) (by simp [Head.opensSignature])]
  rfl

theorem static?_spaced (f : FieldLine) (hws : ∀ w ∈ ws, w ∈ Modifier.knownWords) :
    Modifier.static? (Modifier.spaced ws ++ f.ending) = none := by
  cases ws with
  | nil =>
      have htype : Modifier.static? (f.type ++ ([' '] ++ (f.name ++ [';']))) = none :=
        Modifier.static?_append_eq_none f.type_not_static
          (isBlank_of_mem_wordChars f.type_name.isWordChar) isGap_space f.name_name.isBlank_head?
      simpa [Modifier.spaced, ending, headText] using htype
  | cons w ws => exact Modifier.static?_spaced hws f.isBlank_head?_ending

theorem modifierHead?_spaced (f : FieldLine) (hws : ∀ w ∈ ws, w ∈ Modifier.knownWords) :
    Modifier.head? (Modifier.spaced ws ++ f.ending) =
      some (ws.map Modifier.ofWord, f.head, [';']) := by
  rw [Modifier.head?_spaced hws f.isBlank_head?_ending f.modifierHead?_ending, List.append_nil]

theorem modified?_of_known (f : FieldLine) (hws : ∀ w ∈ ws, w ∈ Modifier.knownWords) :
    Declaration.modified? (Modifier.spaced ws ++ f.ending) =
      some (none, ws.map Modifier.ofWord, f.head, [';']) := by
  refine Declaration.modified?_of_head? (f.modifierHead?_spaced hws) fun m hm => ?_
  rw [f.static?_spaced hws] at hm
  cases hm

theorem modified?_of_static (f : FieldLine) (hws : ∀ w ∈ ws, w ∈ Modifier.knownWords) :
    Declaration.modified? (Modifier.spaced ("static".toList :: ws) ++ f.ending) =
      some (some (Modifier.ofWord "static".toList), ws.map Modifier.ofWord, f.head, [';']) := by
  rw [Modifier.spaced_cons, List.append_assoc, List.append_assoc]
  exact Declaration.modified?_of_static? (Modifier.static?_append rfl isGap_space
    (Modifier.isBlank_head?_spaced hws f.isBlank_head?_ending)) (f.modifierHead?_spaced hws)

def declaration (f : FieldLine) : Declaration where
  indent := f.indent
  visibility := f.visibility
  gap := [' ']
  static? := if "static".toList ∈ f.words then some (Modifier.ofWord "static".toList) else none
  modifiers := (f.words.filter (· ≠ "static".toList)).map Modifier.ofWord
  head := f.head

theorem filter_of_known (hws : ∀ w ∈ ws, w ∈ Modifier.knownWords) :
    "static".toList ∉ ws ∧ ws.filter (· ≠ "static".toList) = ws := by
  have hstatic : "static".toList ∉ ws :=
    fun hmem => Modifier.static_not_mem_knownWords (hws _ hmem)
  refine ⟨hstatic, List.filter_eq_self.2 fun w hw => ?_⟩
  rw [decide_eq_true_eq]
  rintro rfl
  exact hstatic hw

theorem modified?_of_not_mem_tail (f : FieldLine) (h : "static".toList ∉ f.words.tail) :
    Declaration.modified? (Modifier.spaced f.words ++ f.ending) =
      some (f.declaration.static?, f.declaration.modifiers, f.head, [';']) := by
  have hmodifier := f.words_modifier
  rw [declaration]
  generalize f.words = words at h hmodifier
  have hknown : ∀ w ∈ words.tail, w ∈ Modifier.knownWords := by
    intro w hw
    refine (hmodifier w (List.mem_of_mem_tail hw)).resolve_left ?_
    rintro rfl
    exact h hw
  cases words with
  | nil => exact f.modified?_of_known hknown
  | cons w ws =>
      rw [List.tail_cons] at hknown
      rcases hmodifier w (List.mem_cons_self ..) with rfl | hw
      · rw [f.modified?_of_static hknown, if_pos (List.mem_cons_self ..),
          List.filter_cons_of_neg (by simp), (filter_of_known hknown).2]
      · have hall : ∀ v ∈ w :: ws, v ∈ Modifier.knownWords := List.forall_mem_cons.2 ⟨hw, hknown⟩
        obtain ⟨hstatic, hfilter⟩ := filter_of_known hall
        rw [f.modified?_of_known hall, if_neg hstatic, hfilter]

theorem isBlank_head?_spaced (f : FieldLine) :
    ∀ c ∈ (Modifier.spaced f.words ++ f.ending).head?, Text.isBlank c = false := by
  have hwords := f.isName_of_mem_words
  cases hcases : f.words with
  | nil => exact f.isBlank_head?_ending
  | cons w ws =>
      rw [Modifier.spaced_cons, List.append_assoc]
      exact (hwords w (hcases ▸ List.mem_cons_self ..)).isBlank_head?

theorem read?_text {r : Option Modifier × List Modifier × Head × Text} (f : FieldLine)
    (h : Declaration.modified? (Modifier.spaced f.words ++ f.ending) = some r) :
    Declaration.read? f.text =
      some (⟨f.indent, f.visibility, [' '], r.1, r.2.1, r.2.2.1⟩, r.2.2.2) := by
  rw [f.text_eq]
  exact Declaration.read?_words f.indent_blank f.isBlank_head?_spaced h

theorem scan_text (f : FieldLine) (h : Declaration.read? f.text = some (d, rest))
    (o : ScanOptions) :
    scan o f.text =
      if d.head.isTypeDefinition then [] else [LineStart.first.record ⟨d, none⟩] := by
  have hline : '\n' ∉ f.text := fun hmem => absurd (f.mem_text hmem) (by decide)
  have hbrace : '{' ∉ f.text := fun hmem => absurd (f.mem_text hmem) (by decide)
  exact scan_of_read? hline hbrace h o

theorem record_declaration (f : FieldLine)
    (h : Declaration.read? f.text = some (f.declaration, [';'])) :
    LineStart.first.record ⟨f.declaration, none⟩ = f.record := by
  have htext : f.declaration.text = f.declarationText :=
    List.append_cancel_right (Declaration.eq_append_of_read? h).symm
  have hstatic : f.declaration.isStatic = decide ("static".toList ∈ f.words) := by
    rw [Declaration.isStatic, declaration]
    by_cases hmem : "static".toList ∈ f.words
    · rw [if_pos hmem, decide_eq_true hmem]
      rfl
    · rw [if_neg hmem, decide_eq_false hmem]
      rfl
  have hwords : f.declaration.modifierWords = f.words.filter (· ≠ "static".toList) :=
    Modifier.map_word_ofWord _
  have hshown : f.declaration.head.shown = f.headText := by
    rw [declaration, head, Head.shown_property f.name_name, headText, List.append_assoc,
      List.singleton_append]
  rw [LineStart.record_first, hstatic, hwords, hshown, htext]
  rfl

theorem scan_of_not_mem_tail (f : FieldLine) (h : "static".toList ∉ f.words.tail)
    (o : ScanOptions) : scan o f.text = f.listed := by
  have hread : Declaration.read? f.text = some (f.declaration, [';']) :=
    f.read?_text (f.modified?_of_not_mem_tail h)
  have hdefinition :
      f.declaration.head.isTypeDefinition = decide (f.type ∈ Head.typeDefinitionWords) := by
    simp only [declaration, head, Head.isTypeDefinition, Head.isTypeDefinitionWord,
      List.contains_eq_mem]
  rw [f.scan_text hread, hdefinition, f.record_declaration hread, listed]
  simp only [decide_eq_true_eq]

theorem spaced_append_ending {before behind : List Text} (f : FieldLine)
    (hwords : f.words = before ++ "static".toList :: behind)
    (hnext : behind ++ [f.type] = w :: ws) :
    Modifier.spaced f.words ++ f.ending = Modifier.spaced before ++
      ("static".toList ++ ' ' :: (w ++ ' ' :: (Modifier.spaced ws ++ (f.name ++ [';'])))) := by
  have hending : f.ending = Modifier.spaced [f.type] ++ (f.name ++ [';']) := by
    simp [ending, headText, Modifier.spaced]
  rw [hwords, hending, ← List.append_assoc, ← Modifier.spaced_append, List.append_assoc,
    List.cons_append, hnext, Modifier.spaced_append, Modifier.spaced_cons, Modifier.spaced_cons]
  simp only [List.append_assoc, List.cons_append, List.nil_append]

theorem modified?_of_misplaced {before behind : List Text} (f : FieldLine)
    (hwords : f.words = before ++ "static".toList :: behind) (hne : before ≠ [])
    (hbefore : ∀ v ∈ before, v ∈ Modifier.knownWords) (hnext : behind ++ [f.type] = w :: ws)
    (hnames : ∀ v ∈ w :: ws, Text.IsName v) :
    Declaration.modified? (Modifier.spaced f.words ++ f.ending) =
      some (none, before.map Modifier.ofWord, .property "static".toList [' '] w,
        ' ' :: (Modifier.spaced ws ++ (f.name ++ [';']))) := by
  have hsplit := f.spaced_append_ending hwords hnext
  have hplain : ∀ c ∈ ' ' :: (Modifier.spaced ws ++ (f.name ++ [';'])),
      Head.opensSignature c = false := by
    intro c hc
    apply f.opensSignature_of_mem_text
    rw [f.text_eq, hsplit]
    simp only [List.mem_append, List.mem_cons] at hc ⊢
    tauto
  have hstatic := Modifier.head?_static (hnames w (List.mem_cons_self ..))
    (Text.forall_mem_head?_cons (by decide)) hplain
  have hblank : ∀ c ∈ ("static".toList ++ ' ' :: (w ++ ' ' :: (Modifier.spaced ws ++
      (f.name ++ [';'])))).head?, Text.isBlank c = false := Modifier.isName_static.isBlank_head?
  have hhead := Modifier.head?_spaced hbefore hblank hstatic
  rw [List.append_nil] at hhead
  rw [hsplit]
  refine Declaration.modified?_of_head? hhead fun m hm => ?_
  cases before with
  | nil => exact absurd rfl hne
  | cons v vs =>
      rw [Modifier.static?_spaced hbefore hblank] at hm
      cases hm

/-- What is listed where `static` stands behind the modifiers `before`: the word itself and the one
that follows it. -/
def misread (f : FieldLine) (before : List Text) (next : Text) : Record :=
  { f.record with
    isStatic := false
    modifiers := before
    head := "static".toList ++ ' ' :: next
    stop := Text.byteSize (f.indent ++ (f.visibility.word ++ ([' '] ++
      (Modifier.spaced before ++ ("static".toList ++ ' ' :: next))))) }

theorem scan_of_misplaced {before behind : List Text} (f : FieldLine)
    (hwords : f.words = before ++ "static".toList :: behind) (hne : before ≠ [])
    (hnext : behind ++ [f.type] = w :: ws) (o : ScanOptions) :
    scan o f.text = [f.misread before w] := by
  have hbefore : ∀ v ∈ before, v ∈ Modifier.knownWords := by
    intro v hv
    refine (f.words_modifier v (by simp [hwords, hv])).resolve_left ?_
    rintro rfl
    have hnodup := f.words_nodup
    rw [hwords, List.nodup_append] at hnodup
    exact hnodup.2.2 _ hv _ (List.mem_cons_self ..) rfl
  have hnames : ∀ v ∈ w :: ws, Text.IsName v := by
    intro v hv
    rw [← hnext, List.mem_append, List.mem_singleton] at hv
    rcases hv with hv | rfl
    · exact f.isName_of_mem_words v (by simp [hwords, hv])
    · exact f.type_name
  have hread := f.read?_text (f.modified?_of_misplaced hwords hne hbefore hnext hnames)
  have hdefinition : (Head.property "static".toList [' '] w).isTypeDefinition = false := by
    rw [Head.isTypeDefinition]
    decide
  have htext : (⟨f.indent, f.visibility, [' '], none, before.map Modifier.ofWord,
      .property "static".toList [' '] w⟩ : Declaration).text = f.indent ++ (f.visibility.word ++
        ([' '] ++ (Modifier.spaced before ++ ("static".toList ++ ' ' :: w)))) := by
    simp only [Declaration.text, Declaration.modifiersText, List.map_map, Modifier.spaced]
    simp [Modifier.text, Modifier.ofWord, Function.comp_def, Head.text]
  have hshown : (Head.property "static".toList [' '] w).shown = "static".toList ++ [' '] ++ w :=
    Head.shown_property (hnames w (List.mem_cons_self ..))
  rw [f.scan_text hread, hdefinition, if_neg Bool.false_ne_true, LineStart.record_first, htext,
    hshown, List.append_assoc, List.singleton_append]
  simp only [Declaration.modifierWords, Modifier.map_word_ofWord]
  rfl

/-- The order of the modifiers makes no difference as long as `static` is the first one. -/
theorem scan_eq_listed_iff (f : FieldLine) (o : ScanOptions) :
    scan o f.text = f.listed ↔ "static".toList ∉ f.words.tail := by
  refine ⟨fun h hmem => ?_, fun h => f.scan_of_not_mem_tail h o⟩
  obtain ⟨before, behind, hsplit, hne⟩ :
      ∃ before behind, f.words = before ++ "static".toList :: behind ∧ before ≠ [] := by
    cases hwords : f.words with
    | nil => simp [hwords] at hmem
    | cons w ws =>
        rw [hwords, List.tail_cons] at hmem
        obtain ⟨before, behind, rfl⟩ := List.append_of_mem hmem
        exact ⟨w :: before, behind, rfl, by simp⟩
  obtain ⟨w, ws, hnext⟩ : ∃ w ws, behind ++ [f.type] = w :: ws :=
    List.exists_cons_of_ne_nil (by simp)
  rw [f.scan_of_misplaced hsplit hne hnext, listed] at h
  split at h
  · cases h
  · have hstatic : false = decide ("static".toList ∈ f.words) :=
      congrArg Record.isStatic (List.singleton_inj.1 h)
    rw [decide_eq_true (List.mem_of_mem_tail hmem)] at hstatic
    cases hstatic

theorem scan_static_readonly :
    (default : FieldLine).text = "public static readonly int X;".toList ∧
    scan {} (default : FieldLine).text =
      [{ summary? := none, visibility := .everyone, isStatic := true,
         modifiers := ["readonly".toList], kind := .property, head := "int X".toList,
         block? := none, start := 0, stop := 28, line := 1 }] := by
  refine ⟨by decide, ?_⟩
  rw [(scan_eq_listed_iff default {}).2 (by decide)]
  decide

def readonlyStatic : FieldLine :=
  { (default : FieldLine) with
    words := ["readonly".toList, "static".toList]
    words_modifier := by decide
    words_nodup := by decide }

theorem scan_readonly_static :
    readonlyStatic.text = "public readonly static int X;".toList ∧
    scan {} readonlyStatic.text =
      [{ summary? := none, visibility := .everyone, isStatic := false,
         modifiers := ["readonly".toList], kind := .property, head := "static int".toList,
         block? := none, start := 0, stop := 26, line := 1 }] ∧
    scan {} readonlyStatic.text ≠ readonlyStatic.listed := by
  have hwords : readonlyStatic.words = ["readonly".toList] ++ "static".toList :: [] := rfl
  have hnext : [] ++ [readonlyStatic.type] = "int".toList :: [] := rfl
  rw [readonlyStatic.scan_of_misplaced hwords (by simp) hnext {}]
  decide

end FieldLine

end ApiListing
