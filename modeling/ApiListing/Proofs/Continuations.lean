import ApiListing.Proofs.Patterns

namespace ApiListing.Pattern

variable {β : Type} {p a : Pattern} {before t : Text} {x : Hit} {k : Hit → Option β}
  {greedy : Bool} {round : Text → Text → List Hit} {bound : Nat} {q : Char → Bool}
  {next : Option Char → Bool}

/-- What a match may stand before, where `next` says what it has to end before. -/
def starts : Pattern → (next : Option Char → Bool) → Option Char → Bool
  | empty, next => next
  | lineStart, next => next
  | one p, _ => fun c => c.any p
  | seq a b, next => a.starts (b.starts next)
  | alt a b, next => fun c => a.starts next c || b.starts next c
  | many _ a, next => fun c => a.starts next c || next c
  | group _ a, next => a.starts next

theorem starts_of_mem_rounds (hround : ∀ before t, ∀ y ∈ round before t, y.text ≠ [] →
      a.starts next t.head? = true) (hx : x ∈ rounds greedy round bound before t)
    (h : x.text ≠ [] ∨ next x.rest.head? = true) :
    a.starts next t.head? = true ∨ next t.head? = true := by
  have hstop (hx : x = .ofReading ([], t)) :
      a.starts next t.head? = true ∨ next t.head? = true := by
    rw [hx] at h
    exact h.elim (fun hne => absurd rfl hne) Or.inr
  cases bound with
  | zero => exact hstop (List.mem_singleton.1 hx)
  | succ bound =>
      rcases mem_rounds_succ hx with hx | hx
      · exact hstop hx
      · obtain ⟨y, hy, hne, -⟩ := mem_further hx
        exact Or.inl (hround before t y hy hne)

theorem starts_of_mem_hits (hx : x ∈ p.hits before t)
    (h : x.text ≠ [] ∨ next x.rest.head? = true) : p.starts next t.head? = true := by
  induction p generalizing before t x next with
  | empty =>
      rw [List.mem_singleton.1 hx] at h
      exact h.elim (fun hne => absurd rfl hne) id
  | lineStart =>
      rw [hits] at hx
      split at hx
      · rw [List.mem_singleton.1 hx] at h
        exact h.elim (fun hne => absurd rfl hne) id
      · cases hx
  | one p =>
      cases t with
      | nil => cases hx
      | cons c t =>
          rw [hits] at hx
          split at hx
          · next hc => exact hc
          · cases hx
  | seq a b iha ihb =>
      obtain ⟨y, hy, hx⟩ := List.mem_flatMap.1 hx
      obtain ⟨z, hz, rfl⟩ := List.mem_map.1 hx
      refine iha hy ?_
      by_cases hne : y.text = []
      · refine Or.inr (ihb hz (h.imp_left fun hyz hz => hyz ?_))
        rw [Hit.after, hne, hz, List.append_nil]
      · exact Or.inl hne
  | alt a b iha ihb =>
      rw [starts, Bool.or_eq_true]
      exact (List.mem_append.1 hx).imp (iha · h) (ihb · h)
  | many greedy a ih =>
      rw [starts, Bool.or_eq_true]
      exact starts_of_mem_rounds (fun _ _ y hy hne => ih hy (Or.inl hne)) hx h
  | group name a ih =>
      obtain ⟨y, hy, rfl⟩ := List.mem_map.1 hx
      exact ih hy h

/-- A match can only go on before what `next` says. -/
def Needs (next : Option Char → Bool) (k : Hit → Option β) : Prop :=
  ∀ x, k x ≠ none → next x.rest.head? = true

theorem needs_any (k : Hit → Option β) : Needs (fun _ => true) k := fun _ _ => rfl

theorem Needs.mono {next' : Option Char → Bool} (hk : Needs next k)
    (h : ∀ c, next c = true → next' c = true) : Needs next' k := fun x hx => h _ (hk x hx)

theorem Needs.eq_none (hk : Needs next k) (hx : next x.rest.head? = false) : k x = none := by
  by_contra h
  exact Bool.false_ne_true (hx.symm.trans (hk x h))

theorem Needs.after (hk : Needs next k) (x : Hit) : Needs next (k ∘ x.after) :=
  fun y hy => hk (x.after y) hy

theorem Needs.named (hk : Needs next k) (name : String) (start : Nat) :
    Needs next (k ∘ .named name start) := fun x hx => hk (x.named name start) hx

theorem Needs.first (hk : Needs next k) (h : p.first before t k ≠ none) :
    p.starts next t.head? = true := by
  obtain ⟨b, hb⟩ := Option.ne_none_iff_exists'.1 h
  obtain ⟨x, hx, hkx⟩ := List.exists_of_findSome?_eq_some hb
  exact starts_of_mem_hits hx (Or.inr (hk x (by simp [hkx])))

theorem Needs.seq (hk : Needs next k) (b : Pattern) (before : Text) :
    Needs (b.starts next) fun x => b.first (before ++ x.text) x.rest (k ∘ x.after) :=
  fun x hx => (hk.after x).first hx

def run (p : Char → Bool) : Pattern := many true (one p)

theorem hits_run (q : Char → Bool) (before t : Text) :
    (run q).hits before t = (List.range ((t.takeWhile q).length + 1)).reverse.map fun n =>
      .ofReading (t.take n, t.drop n) := by
  induction t generalizing before with
  | nil => rfl
  | cons c t ih =>
      rw [run, hits_many, if_pos rfl, further, hits]
      by_cases hc : q c = true
      · have hone : (Hit.ofReading ([c], t)).text ≠ [] := List.cons_ne_nil c []
        rw [if_pos hc, List.flatMap_singleton, if_neg hone]
        change ((run q).hits (before ++ [c]) t).map _ ++ _ = _
        rw [ih, List.takeWhile_cons_of_pos hc, List.length_cons,
          List.range_succ_eq_map (n := (t.takeWhile q).length + 1), List.reverse_cons,
          List.map_append, ← List.map_reverse, List.map_map, List.map_map]
        rfl
      · rw [if_neg hc, List.takeWhile_cons_of_neg hc]
        rfl

theorem first_run (hk : Needs next k) (hq : ∀ c, next (some c) = true → q c = false)
    (before t : Text) :
    (run q).first before t k = k (.ofReading (t.takeWhile q, t.dropWhile q)) := by
  have hshorter : (List.range (t.takeWhile q).length).reverse.findSome?
      (fun n => k (.ofReading (t.take n, t.drop n))) = none := by
    rw [List.findSome?_eq_none_iff]
    intro n hn
    have hlt : n < (t.takeWhile q).length := by simpa using hn
    by_contra hne
    have hnext := hk _ hne
    have htake := List.takeWhile_prefix (l := t) q
    have hrun := List.mem_takeWhile_imp (List.getElem_mem hlt)
    rw [Hit.ofReading, List.head?_drop,
      List.getElem?_eq_getElem (hlt.trans_le htake.length_le)] at hnext
    rw [htake.getElem hlt, hq _ hnext] at hrun
    cases hrun
  rw [first, hits_run, List.findSome?_map, List.range_succ, List.reverse_append,
    List.reverse_singleton, List.singleton_append, List.findSome?_cons]
  simp only [Function.comp_def, hshorter, Text.take_drop_length_takeWhile]
  cases k (.ofReading (t.takeWhile q, t.dropWhile q)) <;> rfl

def Accepts (k : Hit → Option β) : Prop := ∀ x, k x ≠ none

theorem Accepts.after (hk : Accepts k) (x : Hit) : Accepts (k ∘ x.after) := fun y => hk (x.after y)

theorem Accepts.named (hk : Accepts k) (name : String) (start : Nat) :
    Accepts (k ∘ .named name start) := fun x => hk (x.named name start)

theorem Accepts.or (hk : Accepts k) (x : Hit) (o : Option β) : (k x).or o = k x := by
  obtain ⟨b, hb⟩ := Option.ne_none_iff_exists'.1 (hk x)
  rw [hb, Option.some_or]

/-- Where a match can always go on the longest run is taken. -/
theorem first_run_of_accepts (hk : Accepts k) (q : Char → Bool) (before t : Text) :
    (run q).first before t k = k (.ofReading (t.takeWhile q, t.dropWhile q)) := by
  obtain ⟨b, hb⟩ := Option.ne_none_iff_exists'.1
    (hk (.ofReading (t.takeWhile q, t.dropWhile q)))
  rw [first, hits_run, List.range_succ, List.reverse_append, List.reverse_singleton,
    List.singleton_append, List.map_cons, List.findSome?_cons, Text.take_drop_length_takeWhile, hb]

end ApiListing.Pattern
