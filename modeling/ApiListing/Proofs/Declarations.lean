import ApiListing.Proofs.Readings

namespace ApiListing

variable {t line : Text}

namespace Head

def named? (type gap t : Text) : Option (Head × Text) :=
  (methodNameReadings t).findSome? fun n =>
    (Signature.read? (Text.spanBlanks n.2).2).map fun s =>
      (method type gap n.1 (Text.spanBlanks n.2).1 s.1, s.2)

def typed? (r : Reading) : Option (Head × Text) :=
  (gap? r.2).bind fun g => named? r.1 g.1 g.2

def owned? (r : Reading) : Option (Head × Text) :=
  (gap? r.2).bind fun g => (propertyName? g.2).map fun n => (property r.1 g.1 n.1, n.2)

theorem method?_eq (t : Text) : method? t = (typeReadings t).findSome? typed? := by
  unfold method? typed? named?
  simp only [Option.bind_eq_bind, Option.map_eq_bind]
  rfl

theorem property?_eq (t : Text) : property? t = (typeReadings t).findSome? owned? := by
  unfold property? owned?
  simp only [Option.bind_eq_bind, Option.map_eq_bind]
  rfl

theorem enum?_eq (t : Text) :
    enum? t = (Text.stripPrefix? "enum".toList t).bind fun t =>
      (gap? t).bind fun g => (Text.name? g.2).map fun n => (enum g.1 n.1, n.2) := by
  simp only [enum?, Option.bind_eq_bind, Option.map_eq_bind]
  rfl

theorem named?_eq_some {type gap : Text} {r : Head × Text} (h : named? type gap t = some r) :
    ∃ n ∈ methodNameReadings t, ∃ s, Signature.read? (Text.spanBlanks n.2).2 = some s ∧
      r = (method type gap n.1 (Text.spanBlanks n.2).1 s.1, s.2) := by
  obtain ⟨n, hn, h⟩ := List.exists_of_findSome?_eq_some h
  obtain ⟨s, hs, rfl⟩ := Option.map_eq_some_iff.1 h
  exact ⟨n, hn, s, hs, rfl⟩

theorem eq_append_of_method? {r : Head × Text} (h : method? t = some r) :
    t = r.1.text ++ r.2 := by
  rw [method?_eq] at h
  obtain ⟨type, htype, h⟩ := List.exists_of_findSome?_eq_some h
  obtain ⟨gap, hgap, h⟩ := Option.bind_eq_some_iff.1 h
  obtain ⟨name, hname, s, hs, rfl⟩ := named?_eq_some h
  calc t = type.1 ++ type.2 := eq_append_of_typeReadings htype
    _ = type.1 ++ (gap.1 ++ gap.2) := by rw [← eq_append_of_gap? hgap]
    _ = type.1 ++ (gap.1 ++ (name.1 ++ name.2)) := by
      rw [← eq_append_of_methodNameReadings hname]
    _ = type.1 ++ (gap.1 ++ (name.1 ++ ((Text.spanBlanks name.2).1 ++ (s.1.text ++ s.2)))) := by
      rw [← Signature.eq_append_of_read? hs, ← eq_append_of_spanBlanks]
    _ = _ := by simp [Head.text]

theorem eq_append_of_enum? {r : Head × Text} (h : enum? t = some r) : t = r.1.text ++ r.2 := by
  rw [enum?_eq] at h
  obtain ⟨u, hu, h⟩ := Option.bind_eq_some_iff.1 h
  obtain ⟨gap, hgap, h⟩ := Option.bind_eq_some_iff.1 h
  obtain ⟨name, hname, rfl⟩ := Option.map_eq_some_iff.1 h
  rw [Text.eq_append_of_stripPrefix? hu, eq_append_of_gap? hgap, eq_append_of_name? hname]
  simp [Head.text]

theorem eq_append_of_property? {r : Head × Text} (h : property? t = some r) :
    t = r.1.text ++ r.2 := by
  rw [property?_eq] at h
  obtain ⟨type, htype, h⟩ := List.exists_of_findSome?_eq_some h
  obtain ⟨gap, hgap, h⟩ := Option.bind_eq_some_iff.1 h
  obtain ⟨name, hname, rfl⟩ := Option.map_eq_some_iff.1 h
  rw [eq_append_of_typeReadings htype, eq_append_of_gap? hgap, eq_append_of_propertyName? hname]
  simp [Head.text]

theorem read?_cases {r : Head × Text} (h : read? t = some r) :
    method? t = some r ∨ (method? t = none ∧ enum? t = some r) ∨
      (method? t = none ∧ enum? t = none ∧ property? t = some r) := by
  rw [read?] at h
  cases hm : method? t with
  | some s => rw [hm] at h; exact Or.inl h
  | none =>
      cases he : enum? t with
      | some s => rw [hm, he] at h; exact Or.inr (Or.inl ⟨rfl, h⟩)
      | none => rw [hm, he] at h; exact Or.inr (Or.inr ⟨rfl, rfl, h⟩)

theorem eq_append_of_read? {r : Head × Text} (h : read? t = some r) : t = r.1.text ++ r.2 := by
  rcases read?_cases h with h | ⟨-, h⟩ | ⟨-, -, h⟩
  · exact eq_append_of_method? h
  · exact eq_append_of_enum? h
  · exact eq_append_of_property? h

end Head

theorem Visibility.eq_append_of_read? {r : Visibility × Text} (h : Visibility.read? t = some r) :
    t = r.1.word ++ r.2 := by
  obtain ⟨v, -, h⟩ := List.exists_of_findSome?_eq_some h
  obtain ⟨u, hu, rfl⟩ := Option.map_eq_some_iff.1 h
  exact Text.eq_append_of_stripPrefix? hu

namespace Modifier

theorem eq_append_of_read? {r : Modifier × Text} (h : Modifier.read? t = some r) :
    t = r.1.text ++ r.2 := by
  obtain ⟨g, hg, rfl⟩ := Option.map_eq_some_iff.1 h
  have ht := List.takeWhile_append_dropWhile (p := fun c => !Text.isBlank c) (l := t)
  rw [eq_append_of_gap? hg] at ht
  simp [Modifier.text, ht]

theorem eq_append_of_known? {r : Modifier × Text} (h : known? t = some r) :
    t = r.1.text ++ r.2 :=
  eq_append_of_read? (Option.filter_eq_some_iff.1 h).1

theorem eq_append_of_static? {r : Modifier × Text} (h : static? t = some r) :
    t = r.1.text ++ r.2 :=
  eq_append_of_read? (Option.filter_eq_some_iff.1 h).1

def head? (t : Text) : Option (List Modifier × Head × Text) :=
  (runs t).findSome? fun r => (Head.read? r.2).map fun h => (r.1, h)

theorem head?_of_known? {r : Modifier × Text} (h : known? t = some r) :
    head? t = ((head? r.2).map fun s => (r.1 :: s.1, s.2)).or
      ((Head.read? t).map fun s => ([], s)) := by
  unfold head?
  rw [runs]
  split
  · next hn => simp [hn] at h
  · next m rest hk =>
      obtain rfl : (m, rest) = r := Option.some.inj (hk.symm.trans h)
      simp [List.findSome?_append, List.findSome?_map, Function.comp_def, List.map_findSome?]

theorem head?_of_known?_eq_none (h : known? t = none) :
    head? t = (Head.read? t).map fun s => ([], s) := by
  rw [head?]
  rw [runs]
  split
  · simp
  · next m rest hk => simp [hk] at h

theorem eq_append_of_head? {r : List Modifier × Head × Text} (h : head? t = some r) :
    t = (r.1.map Modifier.text).flatten ++ r.2.1.text ++ r.2.2 := by
  induction hn : t.length using Nat.strong_induction_on generalizing t r with
  | _ n ih =>
      cases hk : known? t with
      | none =>
          rw [head?_of_known?_eq_none hk] at h
          obtain ⟨s, hs, rfl⟩ := Option.map_eq_some_iff.1 h
          simpa using Head.eq_append_of_read? hs
      | some m =>
          rw [head?_of_known? hk, Option.or_eq_some_iff] at h
          rcases h with h | ⟨-, h⟩
          · obtain ⟨s, hs, rfl⟩ := Option.map_eq_some_iff.1 h
            have hrest := ih m.2.length (hn ▸ length_lt_of_known? hk) hs rfl
            rw [eq_append_of_known? hk, hrest]
            simp
          · obtain ⟨s, hs, rfl⟩ := Option.map_eq_some_iff.1 h
            simpa using Head.eq_append_of_read? hs

end Modifier

namespace Declaration

/-- The ways to go on behind the visibility: behind `static`, else with it still to be read. -/
def starts (t : Text) : List (Option Modifier × Text) :=
  match Modifier.static? t with
  | some m => [(some m.1, m.2), (none, t)]
  | none => [(none, t)]

def modified? (t : Text) : Option (Option Modifier × List Modifier × Head × Text) :=
  (starts t).findSome? fun s => (Modifier.head? s.2).map fun r => (s.1, r)

theorem read?_eq (line : Text) :
    read? line = (Visibility.read? (Text.spanBlanks line).2).bind fun v => (gap? v.2).bind fun g =>
      (modified? g.2).map fun r =>
        (⟨(Text.spanBlanks line).1, v.1, g.1, r.1, r.2.1, r.2.2.1⟩, r.2.2.2) := by
  unfold read? modified? starts Modifier.head?
  simp only [Option.bind_eq_bind, List.map_findSome?, Option.map_map, Function.comp_def]
  refine congrArg _ (funext fun v => congrArg _ (funext fun g => ?_))
  cases Modifier.static? g.2 <;> rfl

theorem eq_append_of_modified? {r : Option Modifier × List Modifier × Head × Text}
    (h : modified? t = some r) :
    t = (r.1.map Modifier.text).getD [] ++ (r.2.1.map Modifier.text).flatten ++ r.2.2.1.text
      ++ r.2.2.2 := by
  obtain ⟨s, hs, h⟩ := List.exists_of_findSome?_eq_some h
  obtain ⟨r, hr, rfl⟩ := Option.map_eq_some_iff.1 h
  have ht := Modifier.eq_append_of_head? hr
  rw [starts] at hs
  split at hs
  · next m hm =>
      simp only [List.mem_cons, List.not_mem_nil, or_false] at hs
      rcases hs with rfl | rfl
      · rw [Modifier.eq_append_of_static? hm, ht]
        simp
      · simpa using ht
  · rw [List.mem_singleton.1 hs] at ht ⊢
    simpa using ht

theorem read?_eq_some {d : Declaration} {rest : Text} (h : read? line = some (d, rest)) :
    ∃ t, line = d.indent ++ d.visibility.word ++ d.gap ++ t ∧ gap? (d.gap ++ t) = some (d.gap, t) ∧
      modified? t = some (d.static?, d.modifiers, d.head, rest) := by
  rw [read?_eq] at h
  obtain ⟨v, hv, h⟩ := Option.bind_eq_some_iff.1 h
  obtain ⟨g, hg, h⟩ := Option.bind_eq_some_iff.1 h
  obtain ⟨r, hr, h⟩ := Option.map_eq_some_iff.1 h
  cases h
  refine ⟨g.2, ?_, ?_, hr⟩
  · have hline := eq_append_of_spanBlanks line
    rw [Visibility.eq_append_of_read? hv, eq_append_of_gap? hg] at hline
    simpa using hline
  · rw [← eq_append_of_gap? hg]
    exact hg

/-- A declaration keeps every character of its line up to the end of its head. -/
theorem eq_append_of_read? {d : Declaration} {rest : Text} (h : read? line = some (d, rest)) :
    line = d.text ++ rest := by
  obtain ⟨t, hline, -, ht⟩ := read?_eq_some h
  rw [hline, eq_append_of_modified? ht]
  simp [Declaration.text, Declaration.modifiersText]

theorem text_ne_nil (d : Declaration) : d.text ≠ [] := by
  have hv : d.visibility.word ≠ [] := by cases d.visibility <;> decide
  simp [Declaration.text, hv]

end Declaration

end ApiListing
