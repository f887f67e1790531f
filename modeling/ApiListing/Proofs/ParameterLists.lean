import ApiListing.Proofs.Places

namespace ApiListing

variable {o : ScanOptions} {source t inner rest : Text} {r : Record}

def Text.NoParens (t : Text) : Prop := '(' ∉ t ∧ ')' ∉ t

namespace Signature

/-- What may stand in a parameter list: pairs of parentheses that hold no others. -/
inductive IsParameters : Text → Prop
  | plain {t : Text} (ht : t.NoParens) : IsParameters t
  | pair {before inner t : Text} (hbefore : before.NoParens) (hinner : inner.NoParens)
      (h : IsParameters t) : IsParameters (before ++ '(' :: (inner ++ ')' :: t))

/-- What stands behind an opening parenthesis up to the end of the line, if it closes no parameter
list: the list goes on behind the line, or a pair inside it holds another one. -/
inductive Unclosed : Text → Prop
  | wraps {t : Text} (h : IsParameters t) : Unclosed t
  | wrapsInPair {t inner : Text} (h : IsParameters t) (hinner : inner.NoParens) :
      Unclosed (t ++ '(' :: inner)
  | nests {t inner : Text} (h : IsParameters t) (hinner : inner.NoParens) (more : Text) :
      Unclosed (t ++ '(' :: (inner ++ '(' :: more))

theorem Unclosed.pair {before : Text} (hbefore : before.NoParens) (hinner : inner.NoParens)
    (h : Unclosed t) : Unclosed (before ++ '(' :: (inner ++ ')' :: t)) := by
  cases h with
  | wraps h => exact .wraps (.pair hbefore hinner h)
  | wrapsInPair h hlast =>
      simpa using Unclosed.wrapsInPair (.pair hbefore hinner h) hlast
  | nests h hlast more =>
      simpa using Unclosed.nests (.pair hbefore hinner h) hlast more

end Signature

open Signature (IsParameters Unclosed)

theorem Text.noParens_or_paren (t : Text) :
    t.NoParens ∨ (∃ before rest, before.NoParens ∧ t = before ++ '(' :: rest) ∨
      ∃ before rest, before.NoParens ∧ t = before ++ ')' :: rest := by
  induction t with
  | nil => exact Or.inl ⟨by simp, by simp⟩
  | cons c t ih =>
      by_cases hopen : c = '('
      · exact Or.inr (Or.inl ⟨[], t, ⟨by simp, by simp⟩, by simp [hopen]⟩)
      by_cases hclose : c = ')'
      · exact Or.inr (Or.inr ⟨[], t, ⟨by simp, by simp⟩, by simp [hclose]⟩)
      have hcons : ∀ {u : Text}, u.NoParens → NoParens (c :: u) := fun hu =>
        ⟨by simp [Ne.symm hopen, hu.1], by simp [Ne.symm hclose, hu.2]⟩
      rcases ih with ht | ⟨before, rest, hbefore, rfl⟩ | ⟨before, rest, hbefore, rfl⟩
      · exact Or.inl (hcons ht)
      · exact Or.inr (Or.inl ⟨c :: before, rest, hcons hbefore, rfl⟩)
      · exact Or.inr (Or.inr ⟨c :: before, rest, hcons hbefore, rfl⟩)

theorem closeParameters_open_eq_none_iff :
    closeParameters false ('(' :: t) = none ↔ closeParameters true t = none := by
  simp [closeParameters]

theorem closeParameters_close_eq_none_iff :
    closeParameters true (')' :: t) = none ↔ closeParameters false t = none := by
  simp [closeParameters]

theorem closeParameters_append_eq_none_iff (h : inner.NoParens) (nested : Bool) :
    closeParameters nested (inner ++ t) = none ↔ closeParameters nested t = none := by
  induction inner with
  | nil => rfl
  | cons c inner ih =>
      obtain ⟨hopen, hclose⟩ := h
      simp only [List.mem_cons, not_or] at hopen hclose
      rw [List.cons_append, closeParameters]
      simp only [if_neg (Ne.symm hopen.1), if_neg (Ne.symm hclose.1), Option.map_eq_none_iff]
      exact ih ⟨hopen.2, hclose.2⟩

theorem closeParameters_parameters_eq_none_iff {p : Text} (h : IsParameters p) (t : Text) :
    closeParameters false (p ++ t) = none ↔ closeParameters false t = none := by
  induction h with
  | plain hplain => exact closeParameters_append_eq_none_iff hplain false
  | pair hbefore hinner h ih =>
      rw [List.append_assoc, List.cons_append, closeParameters_append_eq_none_iff hbefore,
        closeParameters_open_eq_none_iff, List.append_assoc, List.cons_append,
        closeParameters_append_eq_none_iff hinner, closeParameters_close_eq_none_iff, ih]

/-- No parameter list is read exactly if it wraps or nests. -/
theorem closeParameters_eq_none_iff : closeParameters false t = none ↔ Unclosed t := by
  constructor
  · intro h
    induction hn : t.length using Nat.strong_induction_on generalizing t with
    | _ n ih =>
        rcases Text.noParens_or_paren t with ht | ⟨before, u, hbefore, rfl⟩ | ⟨before, u, hbefore, rfl⟩
        · exact .wraps (.plain ht)
        · rw [closeParameters_append_eq_none_iff hbefore, closeParameters_open_eq_none_iff] at h
          rcases Text.noParens_or_paren u with hu | ⟨inner, v, hinner, rfl⟩ | ⟨inner, v, hinner, rfl⟩
          · exact .wrapsInPair (.plain hbefore) hu
          · exact .nests (.plain hbefore) hinner v
          · rw [closeParameters_append_eq_none_iff hinner, closeParameters_close_eq_none_iff] at h
            exact (ih _ (by simp [← hn]; omega) h rfl).pair hbefore hinner
        · rw [closeParameters_append_eq_none_iff hbefore] at h
          simp [closeParameters] at h
  · intro h
    cases h with
    | wraps h =>
        rw [← List.append_nil t, closeParameters_parameters_eq_none_iff h]
        rfl
    | wrapsInPair h hinner =>
        rw [closeParameters_parameters_eq_none_iff h, closeParameters_open_eq_none_iff]
        simpa using (closeParameters_append_eq_none_iff hinner true (t := [])).2 rfl
    | nests h hinner more =>
        rw [closeParameters_parameters_eq_none_iff h, closeParameters_open_eq_none_iff,
          closeParameters_append_eq_none_iff hinner]
        simp [closeParameters]

namespace Head

def IsIndexer (h : Head) : Prop :=
  ∃ type gap blanks parameters,
    h = property type gap ("this".toList ++ blanks ++ '[' :: parameters ++ [']'])

theorem read?_of_modified? {static? : Option Modifier} {modifiers : List Modifier} {h : Head}
    (hread : Declaration.modified? t = some (static?, modifiers, h, rest)) :
    ∃ u, Head.read? u = some (h, rest) := by
  obtain ⟨start, -, hread⟩ := List.exists_of_findSome?_eq_some hread
  obtain ⟨s, hs, he⟩ := Option.map_eq_some_iff.1 hread
  cases he
  obtain ⟨run, -, hs⟩ := List.exists_of_findSome?_eq_some hs
  obtain ⟨r, hr, he⟩ := Option.map_eq_some_iff.1 hs
  cases he
  exact ⟨run.2, hr⟩

theorem isIndexer_of_indexer? {type gap : Text} {n : Reading} (h : indexer? t = some n) :
    (property type gap n.1).IsIndexer := by
  rw [indexer?] at h
  split at h
  · cases h
  · simp only at h
    split at h
    · split at h
      · cases h
      · cases h
        exact ⟨type, gap, _, _, rfl⟩
    · cases h

theorem name_mem_methodNameReadings {n : Reading} (h : Text.name? t = some n) :
    n ∈ methodNameReadings t := by
  rw [methodNameReadings, h]
  simp [Reading.extend]

/-- Behind the name of a property stands no parameter list that can be read, unless it is an
indexer. -/
theorem unclosed_of_property {h : Head} {u : Text} (hread : Head.read? t = some (h, rest))
    (hkind : h.kind = .property) (hrest : rest.dropWhile Text.isBlank = '(' :: u) :
    h.IsIndexer ∨ Unclosed u := by
  rcases read?_cases hread with hread | ⟨-, hread⟩ | ⟨hmethod, -, hread⟩
  · rw [method?_eq] at hread
    obtain ⟨type, -, hread⟩ := List.exists_of_findSome?_eq_some hread
    obtain ⟨gap, -, hread⟩ := Option.bind_eq_some_iff.1 hread
    obtain ⟨name, -, s, -, he⟩ := named?_eq_some hread
    cases he
    cases hkind
  · rw [enum?_eq] at hread
    obtain ⟨v, -, hread⟩ := Option.bind_eq_some_iff.1 hread
    obtain ⟨gap, -, hread⟩ := Option.bind_eq_some_iff.1 hread
    obtain ⟨name, -, he⟩ := Option.map_eq_some_iff.1 hread
    cases he
    cases hkind
  · rw [method?_eq, List.findSome?_eq_none_iff] at hmethod
    rw [property?_eq] at hread
    obtain ⟨type, htype, hread⟩ := List.exists_of_findSome?_eq_some hread
    obtain ⟨gap, hgap, hread⟩ := Option.bind_eq_some_iff.1 hread
    obtain ⟨name, hname, he⟩ := Option.map_eq_some_iff.1 hread
    cases he
    rw [propertyName?] at hname
    cases hindexer : indexer? gap.2 with
    | some n =>
        rw [hindexer] at hname
        exact Or.inl (isIndexer_of_indexer? (hindexer.trans hname))
    | none =>
        rw [hindexer] at hname
        -- The method of this type and name was tried first, and its parameters were not read.
        have hnamed : named? type.1 gap.1 gap.2 = none := by
          have htyped := hmethod type htype
          rwa [typed?, hgap, Option.bind_some] at htyped
        have hsignature :=
          List.findSome?_eq_none_iff.1 hnamed name (name_mem_methodNameReadings hname)
        rw [Option.map_eq_none_iff, Text.spanBlanks, hrest, Signature.read?,
          Option.map_eq_none_iff] at hsignature
        exact Or.inr (closeParameters_eq_none_iff.1 hsignature)

end Head

theorem Declaration.firstLine_behind {d : Declaration} {behind : Text}
    (h : read? (Text.firstLine (d.text ++ behind)) = some (d, rest)) :
    rest = Text.firstLine behind := by
  have hline := eq_append_of_read? h
  have hnot : '\n' ∉ d.text := by
    have := Text.not_mem_firstLine (d.text ++ behind)
    rw [hline, List.mem_append, not_or] at this
    exact this.1
  rw [Text.firstLine_append hnot] at hline
  exact (List.append_cancel_left hline).symm

/-- Where a property is listed and a parenthesis stands behind its head, the property is an indexer,
or the parenthesis opens a parameter list that wraps onto the next line or nests pairs in pairs. -/
theorem scan_property_paren (hr : r ∈ scan o source) (hkind : r.kind = .property) :
    ∃ d behind, r.declared? source = some (d, behind) ∧ d.head.kind = .property ∧
      r.head = d.head.shown ∧
      ∀ u, (Text.firstLine behind).dropWhile Text.isBlank = '(' :: u →
        d.head.IsIndexer ∨ Unclosed u := by
  obtain ⟨before, t, s, m, rfl, hs, hread, rfl⟩ :=
    (run_scanFrom o .first source).exists_read LineStart.behind_first r hr
  obtain ⟨behind, rfl, hdeclares⟩ := hs.declares hread
  refine ⟨m.declaration, behind, hdeclares.declared, hkind, rfl, fun u hu => ?_⟩
  obtain ⟨d, rest, hd, -, -, hm⟩ := Member.read?_eq_some_iff.1 hread
  obtain rfl : m.declaration = d := congrArg Member.declaration hm
  obtain ⟨v, -, -, hmodified⟩ := Declaration.read?_eq_some hd
  obtain ⟨w, hhead⟩ := Head.read?_of_modified? hmodified
  rw [← Declaration.firstLine_behind hd] at hu
  exact Head.unclosed_of_property hhead hkind hu

def unclosedMethods : Text :=
  ("public void Load(string path,\n    int depth);\n" ++
    "public void Log(int level = Level(Parse(1)));\n").toList

/-- Both methods are listed as properties, with their parameter lists behind them. -/
theorem scan_unclosedMethods :
    (scan {} unclosedMethods).map (fun r => (r.kind, r.head)) =
      [(.property, "void Load".toList), (.property, "void Log".toList)] ∧
    (scan {} unclosedMethods).map (fun r =>
        (r.declared? unclosedMethods).map fun p => Text.firstLine p.2) =
      [some "(string path,".toList, some "(int level = Level(Parse(1)));".toList] := by
  decide +kernel

theorem scan_property_paren_unclosedMethods :
    ∃ r ∈ scan {} unclosedMethods, r.kind = .property ∧
      ∃ d behind, r.declared? unclosedMethods = some (d, behind) ∧ d.head.kind = .property ∧
        r.head = d.head.shown ∧
        ∀ u, (Text.firstLine behind).dropWhile Text.isBlank = '(' :: u →
          d.head.IsIndexer ∨ Unclosed u := by
  obtain ⟨r, hr, hkind⟩ : ∃ r ∈ scan {} unclosedMethods, r.kind = .property := by decide +kernel
  exact ⟨r, hr, hkind, scan_property_paren hr hkind⟩

end ApiListing
