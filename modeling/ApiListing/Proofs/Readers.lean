import ApiListing.Proofs.Octets

namespace ApiListing.Json.Reader

open Text (octets)

variable {α β : Type} {r : Reader α} {f : α → Reader β} {a : α} {b : β} {s u : Bytes} {c : Char}

theorem bind_of_ok (h : r s = .ok (a, u)) : (r >>= f) s = f a u := by
  simp only [bind, StateT.bind, h, Except.bind]

theorem bind_eq_ok {w : Bytes} :
    (r >>= f) s = .ok (b, w) ↔ ∃ a u, r s = .ok (a, u) ∧ f a u = .ok (b, w) := by
  simp only [bind, StateT.bind, Except.bind]
  cases r s with
  | error e => simp
  | ok x =>
      obtain ⟨a, u⟩ := x
      simp

theorem pure_eq_ok {a' : α} : (pure a : Reader α) s = .ok (a', u) ↔ a = a' ∧ s = u := by
  change Except.ok (a, s) = Except.ok (a', u) ↔ _
  rw [Except.ok.injEq, Prod.mk.injEq]

/-- Whatever the reader gives back has a property. -/
def Yields (r : Reader α) (P : α → Prop) : Prop := ∀ s a u, r s = .ok (a, u) → P a

variable {P : α → Prop} {Q : β → Prop}

theorem yields_pure (h : P a) : Yields (pure a) P := by
  intro s a' u hok
  obtain ⟨rfl, -⟩ := pure_eq_ok.1 hok
  exact h

theorem yields_fail (cause : Cause) (reach : Reach) : Yields (fail cause reach) P := by
  intro s a u hok
  cases hok

theorem Yields.bind_of (h : Yields r P) (hf : ∀ a, P a → Yields (f a) Q) : Yields (r >>= f) Q := by
  intro s b w hok
  obtain ⟨a, u, hr, hb⟩ := bind_eq_ok.1 hok
  exact hf a (h s a u hr) u b w hb

theorem yields_bind (hf : ∀ a, Yields (f a) Q) : Yields (r >>= f) Q :=
  Yields.bind_of (P := fun _ => True) (fun _ _ _ _ => trivial) fun a _ => hf a

theorem Yields.items (h : Yields r P) (bound : Nat) (first : Bool) :
    Yields (items r bound first) fun xs => ∀ x ∈ xs, P x := by
  induction bound generalizing first with
  | zero => exact yields_fail _ _
  | succ bound ih =>
      refine yields_bind fun another => ?_
      split
      · refine h.bind_of fun x hx => (ih false).bind_of fun xs hxs => yields_pure ?_
        exact List.forall_mem_cons.2 ⟨hx, hxs⟩
      · exact yields_pure (by simp)

theorem Yields.list (h : Yields r P) (bound : Nat) :
    Yields (list r bound) fun xs => ∀ x ∈ xs, P x :=
  (h.items bound true).bind_of fun _ hxs => yields_bind fun _ => yields_pure hxs

theorem Yields.fields (h : Yields r P) (key : Reader String) (bound : Nat) (first : Bool) :
    Yields (fields key r bound first) fun fs => ∀ f ∈ fs, P f.2 := by
  induction bound generalizing first with
  | zero => exact yields_fail _ _
  | succ bound ih =>
      refine yields_bind fun another => ?_
      split
      · refine yields_bind fun _ => yields_bind fun k => yields_bind fun _ => ?_
        refine h.bind_of fun v hv => (ih false).bind_of fun fs hfs => yields_pure ?_
        exact List.forall_mem_cons.2 ⟨hv, hfs⟩
      · exact yields_pure (by simp)

theorem Yields.object (h : Yields r P) (key : Reader String) (bound : Nat) :
    Yields (object key r bound) fun fs => ∀ f ∈ fs, P f.2 :=
  (h.fields key bound true).bind_of fun _ hfs => yields_bind fun _ => yields_pure hfs

/-- The next octet is no white space. -/
def AtToken (s : Bytes) : Prop := ∀ b ∈ s.head?, isJsonSpace (charOf b) = false

theorem start_of_atToken (h : AtToken s) : start s = .ok (s.head?.map charOf, s) := by
  have hdrop : s.dropWhile (fun b => isJsonSpace (charOf b)) = s :=
    Text.dropWhile_run (l := []) (by simp) h
  have htake : s.takeWhile (fun b => isJsonSpace (charOf b)) = [] :=
    Text.takeWhile_run (l := []) (by simp) h
  simp [start, takeWhile, peek, bind, StateT.bind, Except.bind, Functor.discard, hdrop, htake,
    Functor.mapConst, StateT.map, pure, Except.pure]

theorem takeWhile_octets {p : Char → Bool} {t : Text} (hp : ∀ c ∈ t, p c = true)
    (hascii : ∀ c ∈ t, c.toNat < 128) (hrest : ∀ b ∈ u.head?, p (charOf b) = false) :
    takeWhile p (octets t ++ u) = .ok (t, u) := by
  have hmap : (octets t).map charOf = t ∧ ∀ b ∈ octets t, p (charOf b) = true := by
    induction t with
    | nil => simp
    | cons c t ih =>
        simp only [List.forall_mem_cons] at hp hascii
        obtain ⟨hmap, hall⟩ := ih hp.2 hascii.2
        rw [Text.octets_ascii hascii.1, List.map_cons, charOf_ofNat hascii.1, hmap]
        refine ⟨rfl, List.forall_mem_cons.2 ⟨?_, hall⟩⟩
        rw [charOf_ofNat hascii.1]
        exact hp.1
  rw [takeWhile, Text.takeWhile_run (p := fun b => p (charOf b)) hmap.2 hrest,
    Text.dropWhile_run (p := fun b => p (charOf b)) hmap.2 hrest, hmap.1]

theorem next_octets (hc : c.toNat < 128) (t : Text) (u : Bytes) :
    next (octets (c :: t) ++ u) = .ok (some c, octets t ++ u) := by
  rw [Text.octets_ascii hc, List.cons_append, next, List.head?_cons, Option.map_some,
    charOf_ofNat hc]
  rfl

theorem skip_octets (hc : c.toNat < 128) (t : Text) (u : Bytes) :
    skip (octets (c :: t) ++ u) = .ok ((), octets t ++ u) := by
  rw [Text.octets_ascii hc, List.cons_append, skip]
  rfl

theorem start_octets (hc : c.toNat < 128) (hspace : isJsonSpace c = false) (t : Text) (u : Bytes) :
    start (octets (c :: t) ++ u) = .ok (some c, octets (c :: t) ++ u) := by
  have hhead : (octets (c :: t) ++ u).head? = some (UInt8.ofNat c.toNat) := by
    rw [Text.octets_ascii hc]
    rfl
  rw [start_of_atToken, hhead, Option.map_some, charOf_ofNat hc]
  rw [AtToken, hhead]
  intro b hb
  cases hb
  rw [charOf_ofNat hc, hspace]

end ApiListing.Json.Reader
