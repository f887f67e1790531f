import ApiListing.Proofs.Cuts

namespace ApiListing

variable {v x t u : Text} {s s' : Signature × Text} {type gap name trail kept : Text}

open Text Reading

theorem isNameStart_of_typeReadings {r : Reading} (h : r ∈ typeReadings t) :
    ∀ c ∈ t.head?, isNameStart c = true := by
  cases t with
  | nil => simp
  | cons c t =>
      intro a ha
      cases ha
      by_contra hc
      rw [typeReadings, if_neg hc] at h
      cases h

namespace Head

def signed? (type gap : Text) (n : Reading) : Option (Head × Text) :=
  (Signature.read? (spanBlanks n.2).2).map fun s =>
    (method type gap n.1 (spanBlanks n.2).1 s.1, s.2)

theorem named?_eq (type gap t : Text) :
    named? type gap t = (methodNameReadings t).findSome? (signed? type gap) := rfl

theorem isSome_signed?_followedBy {n : Reading} (x : Text)
    (h : (signed? type gap (followedBy [';'] n)).isSome) :
    (signed? type gap (followedBy x n)).isSome := by
  simp only [signed?, Option.isSome_map] at h ⊢
  exact Signature.isSome_read?_append x h

theorem leaves_of_isSome_signed? {n : Reading} (hn : n ∈ methodNameReadings (u ++ [';']))
    (h : (signed? type gap n).isSome) : leaves [';'].length n = true := by
  have hsplit := eq_append_of_methodNameReadings hn
  by_contra hshort
  simp only [leaves, decide_eq_true_eq, List.length_singleton, Nat.not_lt] at hshort
  have hrest : n.2 = [] ∨ n.2 = [';'] := by
    rcases List.suffix_concat_iff.1 (⟨n.1, hsplit.symm⟩ : n.2 <:+ u ++ [';']) with hnil | ⟨w, hw, -⟩
    · exact Or.inl hnil
    · rw [hw, List.length_append, List.length_singleton] at hshort
      have : w = [] := List.length_eq_zero_iff.1 (by omega)
      exact Or.inr (by simpa [this] using hw)
  rcases hrest with hrest | hrest <;>
    simp [signed?, hrest, spanBlanks, isBlank, Signature.read?] at h

theorem named?_semicolon (hu : Stops u) :
    named? type gap (u ++ [';']) = ((methodNameReadings u).filter (leaves 0)).findSome?
      (signed? type gap ∘ followedBy [';']) := by
  rw [named?_eq, ← findSome?_filter fun n hn => leaves_of_isSome_signed? hn,
    methodNameReadings_within hu, List.findSome?_map]

theorem isSome_named? (hu : Stops u) (x : Text) (h : (named? type gap (u ++ [';'])).isSome) :
    (named? type gap (u ++ x)).isSome := by
  rw [named?_semicolon hu, List.findSome?_isSome_iff] at h
  obtain ⟨n, hn, hsigned⟩ := h
  have hmem : followedBy x n ∈ methodNameReadings (u ++ x) := by
    refine (List.mem_filter (p := leaves x.length)).1 ?_ |>.1
    rw [methodNameReadings_within hu]
    exact List.mem_map_of_mem hn
  rw [named?_eq, List.findSome?_isSome_iff]
  exact ⟨_, hmem, isSome_signed?_followedBy x hsigned⟩

/-- A signature that is kept is found behind the same name. -/
theorem named?_cut (hs : Signature.Cut s kept x s') (hread : Signature.read? (kept ++ x) = some s)
    (hu : Stops u) (hsplit : u = name ++ (trail ++ kept))
    (h : named? type gap (u ++ x) = some (method type gap name trail s.1, s.2)) :
    named? type gap (u ++ [';']) = some (method type gap name trail s'.1, s'.2) := by
  obtain ⟨c, w, hkept, hstop⟩ := hs.begins hread
  have hwin (n : Reading) (hn : u ++ x = n.1 ++ n.2)
      (hsigned : signed? type gap n = some (method type gap name trail s.1, s.2)) :
      n = (name, trail ++ (kept ++ x)) ∧ ∀ a ∈ trail, isBlank a = true := by
    obtain ⟨s₀, hs₀, he⟩ := Option.map_eq_some_iff.1 hsigned
    simp only [Prod.mk.injEq, method.injEq, true_and] at he
    obtain ⟨⟨hname, htrail, -⟩, -⟩ := he
    refine ⟨Prod.ext hname ?_, ?_⟩
    · rw [hsplit, hname, List.append_assoc, List.append_cancel_left_eq, List.append_assoc] at hn
      exact hn.symm
    · rw [← htrail]
      intro a ha
      exact List.mem_takeWhile_imp ha
  have hfound := findSome?_filter_of_eq (p := leaves x.length) h (by
    intro n hn hsigned
    rw [(hwin n (eq_append_of_methodNameReadings hn) hsigned).1, hkept]
    simp only [leaves, List.length_append, List.length_cons, decide_eq_true_eq]
    omega)
  rw [methodNameReadings_within hu, List.findSome?_map] at hfound
  rw [named?_semicolon hu]
  refine findSome?_transfer hfound (fun n _ hn => isSome_signed?_followedBy x hn) ?_
  intro n hn hsigned
  have hn' := eq_append_of_methodNameReadings (List.mem_filter.1 hn).1
  have happend : u ++ x = n.1 ++ (n.2 ++ x) := by rw [← List.append_assoc, ← hn']
  obtain ⟨he, hblank⟩ := hwin (followedBy x n) happend hsigned
  have hname : n.1 = name := congrArg Prod.fst he
  have hrest : n.2 = trail ++ kept := by
    have := congrArg Prod.snd he
    simpa [followedBy, ← List.append_assoc] using this
  have hspan : spanBlanks (n.2 ++ [';']) = (trail, kept ++ [';']) := by
    rw [hrest, List.append_assoc]
    apply spanBlanks_append hblank
    rw [hkept]
    exact forall_mem_head?_cons (noStops_isBlank c hstop)
  simp only [Function.comp_apply, followedBy, signed?, hspan, hs.read? hread, hname,
    Option.map_some]

theorem typed?_followedBy {r : Reading} (h : Apart r.2 x) :
    typed? (followedBy x r) = (gap? r.2).bind fun g => named? r.1 g.1 (g.2 ++ x) := by
  rw [typed?, followedBy, gap?_followedBy h]
  cases gap? r.2 <;> rfl

theorem method?_followedBy (h : Apart v x) :
    method? (v ++ x) = (typeReadings v).findSome? (typed? ∘ followedBy x) := by
  rw [method?_eq, typeReadings_followedBy h, List.findSome?_map]

theorem isSome_typed? {r : Reading} (hr : Stops r.2) (x : Text)
    (h : (typed? (followedBy [';'] r)).isSome) : (typed? (followedBy x r)).isSome := by
  rw [typed?_followedBy (hr.apart _)] at h ⊢
  cases hg : gap? r.2 with
  | none => simp [hg] at h
  | some g =>
      rw [hg, Option.bind_some] at h
      rw [Option.bind_some]
      exact isSome_named? (stops_of_gap? hr hg) x h

theorem isSome_method? (hv : Stops v) (x : Text) (h : (method? (v ++ [';'])).isSome) :
    (method? (v ++ x)).isSome := by
  rw [method?_followedBy (hv.apart _), List.findSome?_isSome_iff] at h ⊢
  obtain ⟨r, hr, htyped⟩ := h
  exact ⟨r, hr, isSome_typed? (stops_of_typeReadings hv hr) x htyped⟩

/-- The text `v` of a method, cut where its signature is cut behind `kept`, so that `x` is gone. -/
structure Cut (type gap name trail kept : Text) (s s' : Signature × Text) (v x : Text) : Prop where
  signature : Signature.Cut s kept x s'
  read : Signature.read? (kept ++ x) = some s
  text : v = type ++ (gap ++ (name ++ (trail ++ kept)))

theorem Cut.stops (hc : Cut type gap name trail kept s s' v x) : Stops v := by
  obtain ⟨c, w, hkept, hstop⟩ := hc.signature.begins hc.read
  rw [hc.text, hkept]
  exact ⟨c, by simp, hstop⟩

theorem method?_cut (hc : Cut type gap name trail kept s s' v x)
    (h : method? (v ++ x) = some (method type gap name trail s.1, s.2)) :
    method? (v ++ [';']) = some (method type gap name trail s'.1, s'.2) := by
  have hstops := hc.stops
  rw [method?_followedBy (hstops.apart _)] at h ⊢
  -- A type reading that fails in front of `x` fails in front of the semicolon, so none overtakes.
  refine findSome?_transfer h
    (fun r hr hsome => isSome_typed? (stops_of_typeReadings hstops hr) x hsome) ?_
  intro r hr htyped
  have hr' := stops_of_typeReadings hstops hr
  rw [Function.comp_apply, typed?_followedBy (hr'.apart _), Option.bind_eq_some_iff] at htyped
  obtain ⟨g, hg, hnamed⟩ := htyped
  obtain ⟨n, -, s₀, -, he⟩ := named?_eq_some hnamed
  simp only [Prod.mk.injEq, method.injEq] at he
  obtain ⟨⟨rfl, rfl, -⟩, -⟩ := he
  have hsplit : g.2 = name ++ (trail ++ kept) := by
    have hall := eq_append_of_typeReadings hr
    rw [hc.text, eq_append_of_gap? hg, List.append_cancel_left_eq,
      List.append_cancel_left_eq] at hall
    exact hall.symm
  rw [Function.comp_apply, typed?_followedBy (hr'.apart _), hg, Option.bind_some]
  exact named?_cut hc.signature hc.read (stops_of_gap? hr' hg) hsplit hnamed

theorem isSome_enum?_append (hv : Stops v) (x : Text) :
    (enum? (v ++ x)).isSome = (enum? v).isSome := by
  have hword : ∀ c ∈ "enum".toList, isStop c = false := by simp [isStop]
  rw [enum?_eq, enum?_eq, stripPrefix?_followedBy (hv.apart x) hword (by decide)]
  cases hu : stripPrefix? "enum".toList v with
  | none => rfl
  | some u =>
      have hstops := stops_of_stripPrefix? hv hword hu
      simp only [Option.map_some, Option.bind_some]
      rw [gap?_followedBy (hstops.apart x)]
      cases hg : gap? u with
      | none => rfl
      | some g =>
          simp only [Option.map_some, Option.bind_some, Option.isSome_map, followedBy]
          rw [name?_followedBy ((stops_of_gap? hstops hg).apart x), Option.isSome_map]

theorem isSome_propertyName? (t : Text) : (propertyName? t).isSome = (name? t).isSome := by
  rw [propertyName?]
  cases hi : indexer? t with
  | none => rfl
  | some r =>
      rw [indexer?] at hi
      split at hi
      · cases hi
      · next u hu =>
          have hthis : "this".toList = 't' :: "his".toList := by decide
          rw [eq_append_of_stripPrefix? hu, hthis, List.cons_append, name?,
            if_pos (by decide +kernel)]
          rfl

theorem isSome_property?_append (hv : Stops v) (x : Text) :
    (property? (v ++ x)).isSome = (property? v).isSome := by
  have howned : ∀ r ∈ typeReadings v, (owned? (followedBy x r)).isSome = (owned? r).isSome := by
    intro r hr
    have hr' := stops_of_typeReadings hv hr
    rw [owned?, owned?, followedBy, gap?_followedBy (hr'.apart x)]
    cases hg : gap? r.2 with
    | none => rfl
    | some g =>
        simp only [Option.map_some, Option.bind_some, Option.isSome_map, followedBy,
          isSome_propertyName?]
        rw [name?_followedBy ((stops_of_gap? hr' hg).apart x), Option.isSome_map]
  rw [property?_eq, property?_eq, typeReadings_followedBy (hv.apart x), List.findSome?_map, Bool.eq_iff_iff,
    List.findSome?_isSome_iff, List.findSome?_isSome_iff]
  exact exists_congr fun r => and_congr_right fun hr => by rw [Function.comp_apply, howned r hr]

theorem isSome_read?_append (hv : Stops v) (x : Text) (h : (Head.read? (v ++ [';'])).isSome) :
    (Head.read? (v ++ x)).isSome := by
  have hor (t : Text) : (Head.read? t).isSome =
      ((method? t).isSome || ((enum? t).isSome || (property? t).isSome)) := by
    rw [Head.read?]
    cases method? t <;> cases enum? t <;> cases property? t <;> rfl
  rw [hor, isSome_enum?_append hv, isSome_property?_append hv, Bool.or_eq_true] at h ⊢
  exact h.imp_left (isSome_method? hv x)

theorem method?_of_read? {r : Head × Text} (h : Head.read? t = some r) (hr : r.1.kind = .method) :
    method? t = some r := by
  rcases read?_cases h with h | ⟨-, h⟩ | ⟨-, -, h⟩
  · exact h
  · rw [enum?_eq] at h
    obtain ⟨u, -, h⟩ := Option.bind_eq_some_iff.1 h
    obtain ⟨g, -, h⟩ := Option.bind_eq_some_iff.1 h
    obtain ⟨n, -, rfl⟩ := Option.map_eq_some_iff.1 h
    cases hr
  · rw [property?_eq] at h
    obtain ⟨type, -, h⟩ := List.exists_of_findSome?_eq_some h
    obtain ⟨g, -, h⟩ := Option.bind_eq_some_iff.1 h
    obtain ⟨n, -, rfl⟩ := Option.map_eq_some_iff.1 h
    cases hr

theorem isBlank_head?_of_method? {r : Head × Text} (h : method? t = some r) :
    ∀ c ∈ t.head?, isBlank c = false := by
  rw [method?_eq] at h
  obtain ⟨type, htype, -⟩ := List.exists_of_findSome?_eq_some h
  intro c hc
  exact isBlank_of_isWordChar (isWordChar_of_isNameStart (isNameStart_of_typeReadings htype c hc))

theorem read?_cut (hc : Cut type gap name trail kept s s' v x)
    (h : Head.read? (v ++ x) = some (method type gap name trail s.1, s.2)) :
    Head.read? (v ++ [';']) = some (method type gap name trail s'.1, s'.2) := by
  rw [Head.read?, method?_cut hc (method?_of_read? h rfl)]
  rfl

end Head

namespace Modifier

variable {p : Text → Bool}

theorem isStop_text_of_read? {r : Modifier × Text} (h : Modifier.read? t = some r)
    (hword : ∀ c ∈ r.1.word, isStop c = false) : ∀ c ∈ r.1.text, isStop c = false := by
  intro c hc
  rcases List.mem_append.1 hc with hc | hc
  · exact hword c hc
  · rw [Bool.eq_false_iff]
    intro hstop
    have := (eq_some_of_read? h).2.1.isBlank c hc
    simp [noStops_isBlank c hstop] at this

theorem stops_of_read? {r : Modifier × Text} (hv : Stops v) (h : Modifier.read? v = some r)
    (hword : ∀ c ∈ r.1.word, isStop c = false) : Stops r.2 := by
  rw [eq_append_of_read? h] at hv
  exact hv.of_append (isStop_text_of_read? h hword)

theorem read?_append_of_stops {m : Modifier} {b y : Text} (hb : Stops b)
    (h : Modifier.read? (m.text ++ (b ++ y)) = some (m, b ++ y)) (z : Text) :
    Modifier.read? (m.text ++ (b ++ z)) = some (m, b ++ z) := by
  obtain ⟨hword, hgap, hhead⟩ := eq_some_of_read? h
  rw [Modifier.text, List.append_assoc]
  refine read?_append hword hgap ?_
  rw [List.head?_append_of_ne_nil _ hb.ne_nil] at hhead ⊢
  exact hhead

theorem filter_read?_followedBy (hp : ∀ w, p w = true → ∀ c ∈ w, isStop c = false) (hv : Stops v)
    (x : Text) :
    ((Modifier.read? (v ++ x)).filter fun r => p r.1.word) =
      ((Modifier.read? v).filter fun r => p r.1.word).map fun r => (r.1, r.2 ++ x) := by
  cases hm : (Modifier.read? v).filter fun r => p r.1.word with
  | some m =>
      obtain ⟨hm', hword⟩ := Option.filter_eq_some_iff.1 hm
      have hb := stops_of_read? hv hm' (hp _ hword)
      have hsplit := eq_append_of_read? hm'
      have hvx : Modifier.read? (v ++ x) = some (m.1, m.2 ++ x) := by
        rw [hsplit, List.append_assoc]
        refine read?_append_of_stops (y := []) hb ?_ x
        rw [List.append_nil, ← hsplit]
        exact hm'
      rw [hvx, Option.filter_some, if_pos hword]
      rfl
  | none =>
      cases hmx : (Modifier.read? (v ++ x)).filter fun r => p r.1.word with
      | none => rfl
      | some m =>
          obtain ⟨hm', hword⟩ := Option.filter_eq_some_iff.1 hmx
          obtain ⟨b, rfl, hb⟩ := hv.exists_append (isStop_text_of_read? hm' (hp _ hword))
            ⟨m.2, (eq_append_of_read? hm').symm⟩
          have hrest : m.2 = b ++ x := by
            have := eq_append_of_read? hm'
            rw [List.append_assoc, List.append_cancel_left_eq] at this
            exact this.symm
          have hvm : Modifier.read? (m.1.text ++ b) = some (m.1, b) := by
            have := read?_append_of_stops (y := x) hb (by rw [← List.append_assoc, hm', ← hrest]) []
            simpa using this
          rw [hvm, Option.filter_some, if_pos hword] at hm
          cases hm

theorem isStop_of_knownWords {w : Text} (hw : w ∈ knownWords) : ∀ c ∈ w, isStop c = false :=
  fun c hc => isStop_of_isWordChar (isWordChar_of_knownWords hw c hc)

theorem known?_followedBy (hv : Stops v) (x : Text) :
    known? (v ++ x) = (known? v).map fun r => (r.1, r.2 ++ x) := by
  exact filter_read?_followedBy (p := fun w => knownWords.contains w)
    (fun w hw => isStop_of_knownWords (by simpa using hw)) hv x

theorem mem_knownWords_of_known? {r : Modifier × Text} (h : known? t = some r) :
    r.1.word ∈ knownWords := by
  simpa using (Option.filter_eq_some_iff.1 h).2

theorem stops_of_known? {r : Modifier × Text} (hv : Stops v) (h : known? v = some r) :
    Stops r.2 :=
  stops_of_read? hv (Option.filter_eq_some_iff.1 h).1
    (isStop_of_knownWords (mem_knownWords_of_known? h))

theorem isStop_static : ∀ c ∈ "static".toList, isStop c = false :=
  fun c hc => isStop_of_isWordChar (isWordChar_static c hc)

theorem static?_followedBy (hv : Stops v) (x : Text) :
    static? (v ++ x) = (static? v).map fun r => (r.1, r.2 ++ x) := by
  refine filter_read?_followedBy (p := fun w => w = "static".toList) ?_ hv x
  intro w hw
  rw [of_decide_eq_true hw]
  exact isStop_static

theorem stops_of_static? {r : Modifier × Text} (hv : Stops v) (h : static? v = some r) :
    Stops r.2 := by
  obtain ⟨hread, hword⟩ := Option.filter_eq_some_iff.1 h
  apply stops_of_read? hv hread
  rw [of_decide_eq_true hword]
  exact isStop_static

theorem isSome_head? (hv : Stops v) (x : Text) (h : (head? (v ++ [';'])).isSome) :
    (head? (v ++ x)).isSome := by
  induction hn : v.length using Nat.strong_induction_on generalizing v with
  | _ n ih =>
      cases hk : known? v with
      | none =>
          have hnone (y : Text) : known? (v ++ y) = none := by rw [known?_followedBy hv, hk]; rfl
          rw [head?_of_known?_eq_none (hnone _), Option.isSome_map] at h ⊢
          exact Head.isSome_read?_append hv x h
      | some r =>
          have hsome (y : Text) : known? (v ++ y) = some (r.1, r.2 ++ y) := by
            rw [known?_followedBy hv, hk]; rfl
          rw [head?_of_known? (hsome _), Option.isSome_or, Option.isSome_map, Option.isSome_map,
            Bool.or_eq_true] at h ⊢
          exact h.imp
            (fun hrest => ih _ (hn ▸ length_lt_of_known? hk) (stops_of_known? hv hk) hrest rfl)
            (Head.isSome_read?_append hv x)

theorem head?_eq_none_of_append (hv : Stops v) (h : head? (v ++ x) = none) :
    head? (v ++ [';']) = none := by
  by_contra hsome
  have := isSome_head? hv x (Option.isSome_iff_ne_none.2 hsome)
  rw [h] at this
  cases this

theorem head?_split {ms : List Modifier} {h : Head × Text} (hhead : head? t = some (ms, h)) :
    (∀ m ∈ ms, m.word ∈ knownWords ∧ IsGap m.gap) ∧
      ∃ b, t = (ms.map Modifier.text).flatten ++ b ∧ head? b = some ([], h) := by
  induction ms generalizing t with
  | nil => exact ⟨by simp, t, rfl, hhead⟩
  | cons m ms ih =>
      cases hk : known? t with
      | none =>
          rw [head?_of_known?_eq_none hk] at hhead
          obtain ⟨s, -, he⟩ := Option.map_eq_some_iff.1 hhead
          cases he
      | some r =>
          rw [head?_of_known? hk, Option.or_eq_some_iff] at hhead
          rcases hhead with hhead | ⟨-, hhead⟩
          · obtain ⟨s, hs, he⟩ := Option.map_eq_some_iff.1 hhead
            cases he
            obtain ⟨hwords, b, hb, hrest⟩ := ih hs
            refine ⟨?_, b, ?_, hrest⟩
            · rw [List.forall_mem_cons]
              have hgap := (eq_some_of_read? (Option.filter_eq_some_iff.1 hk).1).2.1
              exact ⟨⟨mem_knownWords_of_known? hk, hgap⟩, hwords⟩
            · rw [eq_append_of_known? hk, hb]
              simp
          · obtain ⟨s, -, he⟩ := Option.map_eq_some_iff.1 hhead
            cases he

theorem read?_of_head? {r : Head × Text} (h : head? t = some ([], r)) : Head.read? t = some r := by
  cases hk : known? t with
  | none =>
      rw [head?_of_known?_eq_none hk] at h
      obtain ⟨s, hs, he⟩ := Option.map_eq_some_iff.1 h
      cases he
      exact hs
  | some m =>
      rw [head?_of_known? hk, Option.or_eq_some_iff] at h
      rcases h with h | ⟨-, h⟩
      · obtain ⟨s, -, he⟩ := Option.map_eq_some_iff.1 h
        cases he
      · obtain ⟨s, hs, he⟩ := Option.map_eq_some_iff.1 h
        cases he
        exact hs

/-- Without modifiers a head is read as before: what was no modifier in front of it is none. -/
theorem head?_cut (hc : Head.Cut type gap name trail kept s s' v x)
    (h : head? (v ++ x) = some ([], .method type gap name trail s.1, s.2)) :
    head? (v ++ [';']) = some ([], .method type gap name trail s'.1, s'.2) := by
  have hstops := hc.stops
  have hcut := Head.read?_cut hc (read?_of_head? h)
  cases hk : known? v with
  | none =>
      have hnone : known? (v ++ [';']) = none := by rw [known?_followedBy hstops, hk]; rfl
      rw [head?_of_known?_eq_none hnone, hcut]
      rfl
  | some m =>
      have hsome (y : Text) : known? (v ++ y) = some (m.1, m.2 ++ y) := by
        rw [known?_followedBy hstops, hk]; rfl
      have hfail : head? (m.2 ++ x) = none := by
        rw [head?_of_known? (hsome x), Option.or_eq_some_iff] at h
        rcases h with h | ⟨hnone, -⟩
        · obtain ⟨r, -, he⟩ := Option.map_eq_some_iff.1 h
          cases he
        · exact Option.map_eq_none_iff.1 hnone
      rw [head?_of_known? (hsome _), hcut,
        head?_eq_none_of_append (stops_of_known? hstops hk) hfail]
      rfl

theorem head?_words {ms : List Modifier} (hc : Head.Cut type gap name trail kept s s' v x)
    (h : head? t = some (ms, .method type gap name trail s.1, s.2)) :
    (∀ w ∈ ms.map word, w ∈ knownWords) ∧ t = (ms.map Modifier.text).flatten ++ (v ++ x) ∧
      (∀ c ∈ (v ++ [';']).head?, isBlank c = false) ∧
      head? (spaced (ms.map word) ++ (v ++ [';'])) =
        some ((ms.map word).map ofWord, .method type gap name trail s'.1, s'.2) := by
  obtain ⟨hwords, b, hsplit, hb⟩ := head?_split h
  have hbv : b = v ++ x := by
    rw [eq_append_of_head? hb, hc.text]
    simp [Head.text, hc.signature.text]
  have hne : v ≠ [] := hc.stops.ne_nil
  subst hbv
  have hblank := Head.isBlank_head?_of_method? (Head.method?_of_read? (read?_of_head? hb) rfl)
  rw [List.head?_append_of_ne_nil _ hne] at hblank
  have hblank' : ∀ c ∈ (v ++ [';']).head?, isBlank c = false := by
    rwa [List.head?_append_of_ne_nil _ hne]
  have hwords' : ∀ w ∈ ms.map word, w ∈ knownWords := by simpa using fun m hm => (hwords m hm).1
  refine ⟨hwords', hsplit, hblank', ?_⟩
  rw [head?_spaced hwords' hblank' (head?_cut hc hb), List.append_nil]

end Modifier

namespace Declaration

theorem modified?_cases {st : Option Modifier} {r : List Modifier × Head × Text}
    (h : modified? t = some (st, r)) :
    (∃ m, Modifier.static? t = some m ∧ st = some m.1 ∧ Modifier.head? m.2 = some r) ∨
      (st = none ∧ Modifier.head? t = some r ∧
        ∀ m, Modifier.static? t = some m → Modifier.head? m.2 = none) := by
  rw [modified?, starts] at h
  cases hm : Modifier.static? t with
  | none =>
      rw [hm, List.findSome?_singleton] at h
      obtain ⟨r', hr, he⟩ := Option.map_eq_some_iff.1 h
      cases he
      exact Or.inr ⟨rfl, hr, fun m hm' => by cases hm'⟩
  | some m =>
      rw [hm, List.findSome?_cons] at h
      cases hhead : Modifier.head? m.2 with
      | some r' =>
          rw [hhead] at h
          cases h
          exact Or.inl ⟨m, rfl, rfl, hhead⟩
      | none =>
          rw [hhead, Option.map_none, List.findSome?_singleton] at h
          obtain ⟨r', hr, he⟩ := Option.map_eq_some_iff.1 h
          cases he
          refine Or.inr ⟨rfl, hr, fun m' hm' => ?_⟩
          cases hm'
          exact hhead

theorem exists_head?_of_modified? {st : Option Modifier} {ms : List Modifier} {r : Head × Text}
    (h : modified? t = some (st, ms, r)) : ∃ b, Modifier.head? b = some ([], r) := by
  rcases modified?_cases h with ⟨m, -, -, hhead⟩ | ⟨-, hhead, -⟩
  · exact (Modifier.head?_split hhead).2.imp fun b hb => hb.2
  · exact (Modifier.head?_split hhead).2.imp fun b hb => hb.2

def wordsText (isStatic : Bool) (words : List Text) : Text :=
  (if isStatic then "static ".toList else []) ++ Modifier.spaced words

theorem modified?_cut {st : Option Modifier} {ms : List Modifier}
    (hc : Head.Cut type gap name trail kept s s' v x)
    (h : modified? t = some (st, ms, .method type gap name trail s.1, s.2)) :
    (∀ c ∈ (wordsText st.isSome (ms.map Modifier.word) ++ (v ++ [';'])).head?, isBlank c = false) ∧
      modified? (wordsText st.isSome (ms.map Modifier.word) ++ (v ++ [';'])) =
        some (st.map fun _ => Modifier.ofWord "static".toList,
          (ms.map Modifier.word).map Modifier.ofWord, .method type gap name trail s'.1, s'.2) := by
  have hstops := hc.stops
  rcases modified?_cases h with ⟨m, -, rfl, hhead⟩ | ⟨rfl, hhead, hfail⟩
  · obtain ⟨hwords, -, hblank, hcut⟩ := Modifier.head?_words hc hhead
    have hword : "static ".toList = "static".toList ++ [' '] := by decide
    have hletters : "static".toList = 's' :: "tatic".toList := by decide
    simp only [wordsText, Option.isSome_some, if_true, hword, List.append_assoc]
    refine ⟨?_, modified?_of_static? (Modifier.static?_append rfl isGap_space
      (Modifier.isBlank_head?_spaced hwords hblank)) hcut⟩
    rw [hletters]
    exact forall_mem_head?_cons (by decide)
  · obtain ⟨hwords, hsplit, hblank, hcut⟩ := Modifier.head?_words hc hhead
    simp only [wordsText, Option.isSome_none, Bool.false_eq_true, if_false, List.nil_append]
    refine ⟨Modifier.isBlank_head?_spaced hwords hblank, modified?_of_head? hcut fun m hm => ?_⟩
    cases ms with
    | cons w ws =>
        rw [List.map_cons] at hm hwords
        rw [Modifier.static?_spaced hwords hblank] at hm
        cases hm
    | nil =>
        rw [List.map_nil, List.flatten_nil, List.nil_append] at hsplit
        have hm' : Modifier.static? (v ++ [';']) = some m := hm
        rw [Modifier.static?_followedBy hstops] at hm'
        obtain ⟨m', hstatic, rfl⟩ := Option.map_eq_some_iff.1 hm'
        have hstops' := Modifier.stops_of_static? hstops hstatic
        refine Modifier.head?_eq_none_of_append hstops' (hfail (m'.1, m'.2 ++ x) ?_)
        rw [hsplit, Modifier.static?_followedBy hstops, hstatic]
        rfl

end Declaration

end ApiListing
