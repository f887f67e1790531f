import ApiListing.Proofs.MethodNames

namespace ApiListing

variable {v x t u : Text} {r : Reading} {nested : Bool} {α β γ : Type}

open Text Reading

/-- The first success of `f` is where `g` first succeeds, if `g` fails wherever `f` does. -/
theorem findSome?_transfer {f : α → Option β} {g : α → Option γ} {l : List α} {b : β} {c : γ}
    (h : l.findSome? f = some b) (hfail : ∀ a ∈ l, (g a).isSome → (f a).isSome)
    (hwin : ∀ a ∈ l, f a = some b → g a = some c) : l.findSome? g = some c := by
  induction l with
  | nil => simp at h
  | cons a l ih =>
      rw [List.findSome?_cons] at h ⊢
      cases hf : f a with
      | some b' =>
          rw [hf] at h
          rw [hwin a (List.mem_cons_self ..) (hf.trans h)]
      | none =>
          rw [hf] at h
          have hg : g a = none := by
            have := hfail a (List.mem_cons_self ..)
            simpa [hf] using this
          rw [hg]
          exact ih h (fun d hd => hfail d (List.mem_cons_of_mem _ hd))
            fun d hd => hwin d (List.mem_cons_of_mem _ hd)

theorem findSome?_filter {f : α → Option β} {p : α → Bool} {l : List α}
    (h : ∀ a ∈ l, (f a).isSome → p a = true) : (l.filter p).findSome? f = l.findSome? f := by
  induction l with
  | nil => rfl
  | cons a l ih =>
      have hrest := ih fun d hd => h d (List.mem_cons_of_mem _ hd)
      cases hp : p a with
      | true => rw [List.filter_cons_of_pos hp, List.findSome?_cons, List.findSome?_cons, hrest]
      | false =>
          have hf : f a = none := by
            have := h a (List.mem_cons_self ..)
            simpa [hp] using this
          rw [List.filter_cons_of_neg (by simp [hp]), List.findSome?_cons, hf, hrest]

theorem findSome?_filter_of_eq {f : α → Option β} {p : α → Bool} {l : List α} {b : β}
    (h : l.findSome? f = some b) (hp : ∀ a ∈ l, f a = some b → p a = true) :
    (l.filter p).findSome? f = some b := by
  induction l with
  | nil => simp at h
  | cons a l ih =>
      rw [List.findSome?_cons] at h
      cases hf : f a with
      | some b' =>
          rw [hf] at h
          rw [List.filter_cons_of_pos (hp a (List.mem_cons_self ..) (hf.trans h)),
            List.findSome?_cons, hf]
          exact h
      | none =>
          rw [hf] at h
          have hrest := ih h fun d hd => hp d (List.mem_cons_of_mem _ hd)
          rw [List.filter_cons]
          split
          · rw [List.findSome?_cons, hf]
            exact hrest
          · exact hrest

theorem closeParameters_append (h : closeParameters nested t = some r) (y : Text) :
    closeParameters nested (r.1 ++ y) = some (r.1, y) := by
  induction t generalizing nested r with
  | nil => simp [closeParameters] at h
  | cons c t ih =>
      have honwards (n : Bool) (hn : (closeParameters n t).map (extend [c]) = some r) :
          ∃ s, r.1 = c :: s ∧ (closeParameters n (s ++ y)).map (extend [c]) = some (c :: s, y) := by
        obtain ⟨s, hs, rfl⟩ := Option.map_eq_some_iff.1 hn
        exact ⟨s.1, rfl, by rw [ih hs]; rfl⟩
      simp only [closeParameters] at h
      split at h
      · next hclose =>
          split at h
          · next hnested =>
              obtain ⟨s, hr, hs⟩ := honwards _ h
              rw [hr, List.cons_append, closeParameters]
              simpa only [if_pos hclose, if_pos hnested] using hs
          · next hnested =>
              cases h
              rw [List.singleton_append, closeParameters]
              simp only [if_pos hclose, if_neg hnested]
      · next hclose =>
          split at h
          · next hopen =>
              split at h
              · simp at h
              · next hnested =>
                  obtain ⟨s, hr, hs⟩ := honwards _ h
                  rw [hr, List.cons_append, closeParameters]
                  simpa only [if_neg hclose, if_pos hopen, if_neg hnested] using hs
          · next hopen =>
              obtain ⟨s, hr, hs⟩ := honwards _ h
              rw [hr, List.cons_append, closeParameters]
              simpa only [if_neg hclose, if_neg hopen] using hs

theorem getLast?_of_closeParameters (h : closeParameters nested t = some r) :
    r.1.getLast? = some ')' := by
  induction t generalizing nested r with
  | nil => simp [closeParameters] at h
  | cons c t ih =>
      have honwards (n : Bool) (hn : (closeParameters n t).map (extend [c]) = some r) :
          r.1.getLast? = some ')' := by
        obtain ⟨s, hs, rfl⟩ := Option.map_eq_some_iff.1 hn
        simp [extend, List.getLast?_cons, ih hs]
      simp only [closeParameters] at h
      split at h
      · next hclose =>
          split at h
          · exact honwards _ h
          · cases h
            rw [hclose]
            rfl
      · split at h
        · split at h
          · simp at h
          · exact honwards _ h
        · exact honwards _ h

namespace Signature

/-- A signature with the rest behind it, cut behind `kept` so that `x` is gone; with a semicolon
instead, a signature and a rest can be read again. -/
inductive Cut : Signature × Text → Text → Text → Signature × Text → Prop
  | parameters (p rest) : Cut (parameters p, rest) p rest (parameters p, [';'])
  | expression (e x) :
      Cut (expression (e ++ x), []) ('=' :: '>' :: e) x (expression (e ++ [';']), [])

variable {s s' : Signature × Text} {kept : Text}

theorem read?_cases (h : read? t = some s) :
    (∃ u r, t = '(' :: u ∧ closeParameters false u = some r ∧
        s = (.parameters ('(' :: r.1), r.2)) ∨
      ∃ e, t = '=' :: '>' :: e ∧ s = (.expression e, []) := by
  unfold read? at h
  split at h
  · next u =>
      obtain ⟨r, hr, rfl⟩ := Option.map_eq_some_iff.1 h
      exact Or.inl ⟨u, r, rfl, hr, rfl⟩
  · next e => cases h; exact Or.inr ⟨e, rfl, rfl⟩
  · simp at h

theorem read?_parameters (h : closeParameters false u = some r) (y : Text) :
    read? ('(' :: (r.1 ++ y)) = some (.parameters ('(' :: r.1), y) := by
  rw [read?, closeParameters_append h]
  rfl

theorem Cut.text (hs : Cut s kept x s') : s.1.text ++ s.2 = kept ++ x := by
  cases hs with
  | parameters p rest => rfl
  | expression e x =>
      have harrow : "=>".toList = ['=', '>'] := by decide
      simp [Signature.text, harrow]

theorem Cut.read? (hs : Cut s kept x s') (h : Signature.read? (kept ++ x) = some s) :
    Signature.read? (kept ++ [';']) = some s' := by
  cases hs with
  | expression e x => rfl
  | parameters p rest =>
      rcases read?_cases h with ⟨u, r, -, hr, he⟩ | ⟨e, -, he⟩
      · cases he
        exact read?_parameters hr [';']
      · cases he

theorem Cut.begins (hs : Cut s kept x s') (h : Signature.read? (kept ++ x) = some s) :
    ∃ c u, kept = c :: u ∧ isStop c = true := by
  cases hs with
  | expression e x => exact ⟨'=', _, rfl, by decide⟩
  | parameters p rest =>
      rcases read?_cases h with ⟨u, r, -, hr, he⟩ | ⟨e, -, he⟩
      · cases he
        exact ⟨'(', _, rfl, by decide⟩
      · cases he

theorem isSome_read?_append (x : Text) (h : (Signature.read? (spanBlanks (u ++ [';'])).2).isSome) :
    (Signature.read? (spanBlanks (u ++ x)).2).isSome := by
  by_cases hu : ∀ c ∈ u, isBlank c = true
  · rw [spanBlanks_append hu (forall_mem_head?_cons (by decide))] at h
    simp [Signature.read?] at h
  · have hmem : ∃ c ∈ u, isBlank c = false := by simpa using hu
    rw [spanBlanks, dropWhile_append_of_mem hmem] at h ⊢
    obtain ⟨s, hs⟩ := Option.isSome_iff_exists.1 h
    rcases read?_cases hs with ⟨v, r, hv, hr, -⟩ | ⟨e, he, -⟩
    · have hsplit := eq_append_of_closeParameters hr
      cases hd : u.dropWhile isBlank with
      | nil => rw [hd] at hv; simp at hv
      | cons c w =>
          rw [hd, List.cons_append, List.cons.injEq] at hv
          obtain ⟨rfl, hw⟩ := hv
          have hrw : r.1 <+: w := by
            have hp : r.1 <+: w ++ [';'] := ⟨r.2, by rw [hw, ← hsplit]⟩
            rcases List.prefix_concat_iff.1 hp with hall | hp
            · have hlast := getLast?_of_closeParameters hr
              rw [hall, List.getLast?_concat] at hlast
              cases hlast
            · exact hp
          obtain ⟨b, rfl⟩ := hrw
          rw [List.cons_append, List.append_assoc, read?_parameters hr]
          rfl
    · cases hd : u.dropWhile isBlank with
      | nil => rw [hd] at he; simp at he
      | cons c w =>
          rw [hd, List.cons_append, List.cons.injEq] at he
          obtain ⟨rfl, hw⟩ := he
          cases w with
          | nil => simp at hw
          | cons d w =>
              rw [List.cons_append, List.cons.injEq] at hw
              obtain ⟨rfl, -⟩ := hw
              rfl

end Signature

end ApiListing
