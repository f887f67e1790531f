import ApiListing.Proofs.Declarations
import ApiListing.Proofs.Spaces

namespace ApiListing

variable {t w g : Text}

theorem Text.stripPrefix?_append_self (s t : Text) : Text.stripPrefix? s (s ++ t) = some t := by
  induction s with
  | nil => rfl
  | cons c s ih => rw [List.cons_append, Text.stripPrefix?, if_pos rfl, ih]

theorem isBlank_of_mem_wordChars (hw : ∀ c ∈ w, Text.isWordChar c = true) :
    ∀ c ∈ w, Text.isBlank c = false :=
  fun c hc => Text.isBlank_of_isWordChar (hw c hc)

theorem spanBlanks_append (hg : ∀ c ∈ g, Text.isBlank c = true)
    (ht : ∀ c ∈ t.head?, Text.isBlank c = false) : Text.spanBlanks (g ++ t) = (g, t) := by
  rw [Text.spanBlanks, Text.takeWhile_run hg ht, Text.dropWhile_run hg ht]

theorem spanBlanks_of_head (ht : ∀ c ∈ t.head?, Text.isBlank c = false) :
    Text.spanBlanks t = ([], t) :=
  spanBlanks_append (g := []) (by simp) ht

theorem spanBlanks_blanks_append (hw : ∀ c ∈ w, Text.isBlank c = true) (t : Text) :
    Text.spanBlanks (w ++ t) = (w ++ (Text.spanBlanks t).1, (Text.spanBlanks t).2) := by
  rw [Text.spanBlanks, List.takeWhile_append_of_pos hw, List.dropWhile_append_of_pos hw]
  rfl

structure IsGap (g : Text) : Prop where
  ne_nil : g ≠ []
  isBlank : ∀ c ∈ g, Text.isBlank c = true

theorem isGap_space : IsGap [' '] where
  ne_nil := by simp
  isBlank := by simp [Text.isBlank]

theorem gap?_append (hg : IsGap g) (ht : ∀ c ∈ t.head?, Text.isBlank c = false) :
    gap? (g ++ t) = some (g, t) := by
  rw [gap?, spanBlanks_append hg.isBlank ht]
  cases g with
  | nil => exact absurd rfl hg.ne_nil
  | cons c g => rfl

theorem gap?_of_head (ht : ∀ c ∈ t.head?, Text.isBlank c = false) : gap? t = none := by
  rw [gap?, spanBlanks_of_head ht]

theorem isGap_of_gap? {r : Reading} (h : gap? t = some r) :
    IsGap r.1 ∧ ∀ c ∈ r.2.head?, Text.isBlank c = false := by
  rw [gap?] at h
  split at h
  · simp at h
  · next hne =>
      cases h
      refine ⟨⟨fun hnil => hne _ (Prod.ext hnil rfl), fun c hc => List.mem_takeWhile_imp hc⟩, ?_⟩
      intro c hc
      have hc' : (t.dropWhile Text.isBlank).head? = some c := hc
      have := List.head?_dropWhile_not Text.isBlank t
      rw [hc'] at this
      simpa using this

theorem Visibility.word_eq : word = fun
    | everyone => ['p', 'u', 'b', 'l', 'i', 'c']
    | owner => ['p', 'r', 'i', 'v', 'a', 't', 'e']
    | heirs => ['p', 'r', 'o', 't', 'e', 'c', 't', 'e', 'd'] := by
  funext v
  cases v <;> decide

theorem Visibility.read?_append (v : Visibility) (t : Text) :
    Visibility.read? (v.word ++ t) = some (v, t) := by
  cases v <;> simp [Visibility.read?, all, word_eq, Text.stripPrefix?]

theorem Visibility.read?_eq_none (h : t.head? ≠ some 'p') : Visibility.read? t = none := by
  cases t with
  | nil => simp [Visibility.read?, all, word_eq, Text.stripPrefix?]
  | cons c t =>
      have hc : 'p' ≠ c := by simpa [eq_comm] using h
      simp [Visibility.read?, all, word_eq, Text.stripPrefix?, hc]

theorem Declaration.read?_eq_none {line : Text} (h : (Text.spanBlanks line).2.head? ≠ some 'p') :
    Declaration.read? line = none := by
  rw [Declaration.read?_eq, Visibility.read?_eq_none h]
  rfl

namespace Modifier

theorem read?_append (hw : ∀ c ∈ w, Text.isBlank c = false) (hg : IsGap g)
    (ht : ∀ c ∈ t.head?, Text.isBlank c = false) :
    Modifier.read? (w ++ (g ++ t)) = some (⟨w, g⟩, t) := by
  have hw' : ∀ c ∈ w, (!Text.isBlank c) = true := by simpa using hw
  have hhead : ∀ c ∈ (g ++ t).head?, (!Text.isBlank c) = false := by
    intro c hc
    rw [List.head?_append_of_ne_nil _ hg.ne_nil] at hc
    simpa using hg.isBlank c (List.mem_of_head? hc)
  rw [Modifier.read?, Text.takeWhile_run hw' hhead, Text.dropWhile_run hw' hhead,
    gap?_append hg ht]
  rfl

theorem eq_some_of_read? {r : Modifier × Text} (h : Modifier.read? t = some r) :
    (∀ c ∈ r.1.word, Text.isBlank c = false) ∧ IsGap r.1.gap ∧
      ∀ c ∈ r.2.head?, Text.isBlank c = false := by
  obtain ⟨g, hg, rfl⟩ := Option.map_eq_some_iff.1 h
  refine ⟨fun c hc => ?_, isGap_of_gap? hg⟩
  simpa using List.mem_takeWhile_imp hc

theorem isWordChar_of_knownWords (hw : w ∈ knownWords) : ∀ c ∈ w, Text.isWordChar c = true := by
  have hall : (knownWords.all fun w => w.all Text.isWordChar) = true := by decide
  exact List.all_eq_true.1 (List.all_eq_true.1 hall w hw)

theorem isWordChar_static : ∀ c ∈ "static".toList, Text.isWordChar c = true :=
  List.all_eq_true.1 (by decide)

theorem isBlank_of_knownWords (hw : w ∈ knownWords) : ∀ c ∈ w, Text.isBlank c = false :=
  isBlank_of_mem_wordChars (isWordChar_of_knownWords hw)

theorem ne_nil_of_knownWords : ∀ w ∈ knownWords, w ≠ [] := by decide

theorem static_not_mem_knownWords : "static".toList ∉ knownWords := by decide

theorem known?_append (hw : w ∈ knownWords) (hg : IsGap g)
    (ht : ∀ c ∈ t.head?, Text.isBlank c = false) : known? (w ++ (g ++ t)) = some (⟨w, g⟩, t) := by
  rw [known?, read?_append (isBlank_of_knownWords hw) hg ht, Option.filter_some,
    if_pos (by simpa using hw)]

theorem known?_append_eq_none (hw : w ∉ knownWords) (hblank : ∀ c ∈ w, Text.isBlank c = false)
    (hg : IsGap g) (ht : ∀ c ∈ t.head?, Text.isBlank c = false) :
    known? (w ++ (g ++ t)) = none := by
  rw [known?, read?_append hblank hg ht, Option.filter_some, if_neg (by simpa using hw)]

theorem static?_append (hw : w = "static".toList) (hg : IsGap g)
    (ht : ∀ c ∈ t.head?, Text.isBlank c = false) :
    static? (w ++ (g ++ t)) = some (⟨w, g⟩, t) := by
  have hblank : ∀ c ∈ w, Text.isBlank c = false :=
    isBlank_of_mem_wordChars (hw ▸ isWordChar_static)
  rw [static?, read?_append hblank hg ht, Option.filter_some, if_pos (decide_eq_true hw)]

theorem static?_append_eq_none (hw : w ≠ "static".toList) (hblank : ∀ c ∈ w, Text.isBlank c = false)
    (hg : IsGap g) (ht : ∀ c ∈ t.head?, Text.isBlank c = false) :
    static? (w ++ (g ++ t)) = none := by
  rw [static?, read?_append hblank hg ht, Option.filter_some, if_neg (mt of_decide_eq_true hw)]

def ofWord (w : Text) : Modifier := ⟨w, [' ']⟩

def spaced (ws : List Text) : Text := (ws.map (· ++ [' '])).flatten

theorem spaced_cons (w : Text) (ws : List Text) :
    spaced (w :: ws) = w ++ ([' '] ++ spaced ws) := by
  simp [spaced]

theorem isBlank_head?_spaced {ws : List Text} (hws : ∀ w ∈ ws, w ∈ knownWords)
    (ht : ∀ c ∈ t.head?, Text.isBlank c = false) :
    ∀ c ∈ (spaced ws ++ t).head?, Text.isBlank c = false := by
  cases ws with
  | nil => exact ht
  | cons w ws =>
      intro c hc
      have hw := hws w (List.mem_cons_self ..)
      rw [spaced_cons, List.append_assoc,
        List.head?_append_of_ne_nil _ (ne_nil_of_knownWords w hw)] at hc
      exact isBlank_of_knownWords hw c (List.mem_of_head? hc)

theorem static?_spaced {w : Text} {ws : List Text} (hws : ∀ v ∈ w :: ws, v ∈ knownWords)
    (ht : ∀ c ∈ t.head?, Text.isBlank c = false) : static? (spaced (w :: ws) ++ t) = none := by
  have hw := hws w (List.mem_cons_self ..)
  have hstatic : w ≠ "static".toList := by
    rintro rfl
    exact static_not_mem_knownWords hw
  rw [spaced_cons, List.append_assoc, List.append_assoc]
  exact static?_append_eq_none hstatic (isBlank_of_knownWords hw) isGap_space
    (isBlank_head?_spaced (fun v hv => hws v (List.mem_cons_of_mem _ hv)) ht)

theorem head?_spaced {ws : List Text} {r : List Modifier × Head × Text}
    (hws : ∀ w ∈ ws, w ∈ knownWords) (ht : ∀ c ∈ t.head?, Text.isBlank c = false)
    (h : head? t = some r) : head? (spaced ws ++ t) = some (ws.map ofWord ++ r.1, r.2) := by
  induction ws with
  | nil => exact h
  | cons w ws ih =>
      have hws' : ∀ v ∈ ws, v ∈ knownWords := fun v hv => hws v (List.mem_cons_of_mem _ hv)
      have hw := hws w (List.mem_cons_self ..)
      have hknown : known? (spaced (w :: ws) ++ t) = some (ofWord w, spaced ws ++ t) := by
        rw [spaced_cons, List.append_assoc, List.append_assoc]
        exact known?_append hw isGap_space (isBlank_head?_spaced hws' ht)
      rw [head?_of_known? hknown, ih hws']
      rfl

end Modifier

namespace Declaration

theorem modified?_of_static? {m : Modifier × Text} {r : List Modifier × Head × Text}
    (hm : Modifier.static? t = some m) (h : Modifier.head? m.2 = some r) :
    modified? t = some (some m.1, r) := by
  rw [modified?, starts, hm]
  simp [h]

theorem modified?_of_head? {r : List Modifier × Head × Text} (h : Modifier.head? t = some r)
    (hfail : ∀ m, Modifier.static? t = some m → Modifier.head? m.2 = none) :
    modified? t = some (none, r) := by
  rw [modified?, starts]
  cases hm : Modifier.static? t with
  | none => simp [h]
  | some m => simp [h, hfail m hm]

/-- A declaration is read from its parts. -/
theorem read?_words {indent : Text} {v : Visibility}
    {r : Option Modifier × List Modifier × Head × Text}
    (hindent : ∀ c ∈ indent, Text.isBlank c = true) (ht : ∀ c ∈ t.head?, Text.isBlank c = false)
    (h : modified? t = some r) :
    read? (indent ++ (v.word ++ ([' '] ++ t))) =
      some (⟨indent, v, [' '], r.1, r.2.1, r.2.2.1⟩, r.2.2.2) := by
  have hword : ∀ c ∈ (v.word ++ ([' '] ++ t)).head?, Text.isBlank c = false := by
    cases v <;> simp [Visibility.word_eq, Text.isBlank]
  rw [read?_eq, spanBlanks_append hindent hword, Visibility.read?_append, Option.bind_some,
    gap?_append isGap_space ht, Option.bind_some, h]
  rfl

end Declaration

end ApiListing
