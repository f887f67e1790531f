import ApiListing.Proofs.Words

namespace ApiListing

variable {v x t : Text} {r : Reading} {p inside : Char → Bool}

/-- The characters at which a signature may begin. -/
def Text.isStop (c : Char) : Bool := c = '(' || c = '='

def Text.Stops (v : Text) : Prop := ∃ c ∈ v, Text.isStop c = true

def Text.NoStops (p : Char → Bool) : Prop := ∀ c, Text.isStop c = true → p c = false

def Text.Returns (x : Text) : Prop := ∀ c ∈ x, c = '\r'

/-- A text whose reading does not depend on what follows it: a reading stops at a character at which
a signature may begin, and at carriage returns. -/
def Text.Apart (v x : Text) : Prop := Text.Stops v ∨ Text.Returns x

def Reading.followedBy (x : Text) (r : Reading) : Reading := (r.1, r.2 ++ x)

namespace Text

theorem takeWhile_append_of_mem (hv : ∃ c ∈ v, p c = false) (x : Text) :
    (v ++ x).takeWhile p = v.takeWhile p := by
  induction v with
  | nil => simp at hv
  | cons c v ih =>
      rw [List.cons_append]
      cases hc : p c with
      | false =>
          have hc' : ¬ p c = true := by simp [hc]
          rw [List.takeWhile_cons_of_neg hc', List.takeWhile_cons_of_neg hc']
      | true =>
          have hv' : ∃ d ∈ v, p d = false := by simpa [hc] using hv
          rw [List.takeWhile_cons_of_pos hc, List.takeWhile_cons_of_pos hc, ih hv']

theorem dropWhile_append_of_mem (hv : ∃ c ∈ v, p c = false) (x : Text) :
    (v ++ x).dropWhile p = v.dropWhile p ++ x := by
  induction v with
  | nil => simp at hv
  | cons c v ih =>
      rw [List.cons_append]
      cases hc : p c with
      | false =>
          have hc' : ¬ p c = true := by simp [hc]
          rw [List.dropWhile_cons_of_neg hc', List.dropWhile_cons_of_neg hc', List.cons_append]
      | true =>
          have hv' : ∃ d ∈ v, p d = false := by simpa [hc] using hv
          rw [List.dropWhile_cons_of_pos hc, List.dropWhile_cons_of_pos hc, ih hv']

theorem Stops.ne_nil (h : Stops v) : v ≠ [] := by
  rintro rfl
  simp [Stops] at h

theorem Stops.exists_false (h : Stops v) (hp : NoStops p) :
    ∃ c ∈ v, p c = false :=
  h.imp fun c hc => ⟨hc.1, hp c hc.2⟩

theorem Stops.of_append {a b : Text} (h : Stops (a ++ b)) (ha : ∀ c ∈ a, isStop c = false) :
    Stops b := by
  obtain ⟨c, hc, hstop⟩ := h
  rcases List.mem_append.1 hc with hc | hc
  · simp [ha c hc] at hstop
  · exact ⟨c, hc, hstop⟩

theorem Stops.of_cons {c : Char} (h : Stops (c :: v)) (hc : isStop c = false) : Stops v :=
  Stops.of_append (a := [c]) h (by simpa using hc)

theorem Stops.of_dropWhile (h : Stops v) (hp : NoStops p) :
    Stops (v.dropWhile p) := by
  refine Stops.of_append (a := v.takeWhile p) ?_ ?_
  · rwa [List.takeWhile_append_dropWhile]
  · intro c hc
    rw [Bool.eq_false_iff]
    intro hstop
    simpa [hp c hstop] using List.mem_takeWhile_imp hc

theorem Stops.exists_append {s : Text} (h : Stops v) (hs : ∀ c ∈ s, isStop c = false)
    (hbegin : s <+: v ++ x) : ∃ b, v = s ++ b ∧ Stops b := by
  rcases List.prefix_or_prefix_of_prefix hbegin (List.prefix_append v x) with ⟨b, rfl⟩ | ⟨b, rfl⟩
  · exact ⟨b, rfl, h.of_append hs⟩
  · obtain ⟨c, hc, hstop⟩ := h
    simp [hs c (List.mem_append_left _ hc)] at hstop

theorem Returns.head? (h : Returns x) (hp : p '\r' = false) : ∀ c ∈ x.head?, p c = false := by
  intro c hc
  rw [h c (List.mem_of_head? hc)]
  exact hp

theorem Stops.apart (h : Stops v) (x : Text) : Apart v x := Or.inl h

theorem Apart.imp {u : Text} (h : Apart v x) (hu : Stops v → Stops u) : Apart u x := h.imp_left hu

theorem Apart.of_cons {c : Char} (h : Apart (c :: v) x) (hc : isStop c = false) : Apart v x :=
  h.imp fun hv => hv.of_cons hc

theorem Apart.of_dropWhile (h : Apart v x) (hp : NoStops p) : Apart (v.dropWhile p) x :=
  h.imp fun hv => hv.of_dropWhile hp

theorem Apart.returns (h : Apart [] x) : Returns x := by
  rcases h with h | h
  · exact absurd rfl h.ne_nil
  · exact h

theorem Apart.run_ends (h : Apart v x) (hp : NoStops p) (hr : p '\r' = false) :
    (∃ c ∈ v, p c = false) ∨ (∀ c ∈ v, p c = true) ∧ ∀ c ∈ x.head?, p c = false := by
  rcases h with h | h
  · exact Or.inl (h.exists_false hp)
  · by_cases hv : ∀ c ∈ v, p c = true
    · exact Or.inr ⟨hv, h.head? hr⟩
    · exact Or.inl (by simpa using hv)

theorem Apart.exists_append {s : Text} (h : Apart v x) (hs : ∀ c ∈ s, isStop c = false)
    (hr : '\r' ∉ s) (hbegin : s <+: v ++ x) : ∃ b, v = s ++ b := by
  rcases h with h | h
  · exact (h.exists_append hs hbegin).imp fun _ hb => hb.1
  · have hlast : ∀ c ∈ s.getLast?, c ∉ x := fun c hc hx => hr (h c hx ▸ List.mem_of_getLast? hc)
    exact (prefix_of_prefix_append hlast hbegin).imp fun _ hb => hb.symm

theorem takeWhile_apart (h : Apart v x) (hp : NoStops p) (hr : p '\r' = false) :
    (v ++ x).takeWhile p = v.takeWhile p := by
  rcases h.run_ends hp hr with hv | ⟨hv, hx⟩
  · exact takeWhile_append_of_mem hv x
  · rw [takeWhile_run hv hx, List.takeWhile_eq_self_iff.2 hv]

theorem dropWhile_apart (h : Apart v x) (hp : NoStops p) (hr : p '\r' = false) :
    (v ++ x).dropWhile p = v.dropWhile p ++ x := by
  rcases h.run_ends hp hr with hv | ⟨hv, hx⟩
  · exact dropWhile_append_of_mem hv x
  · rw [dropWhile_run hv hx, List.dropWhile_eq_nil_iff.2 hv, List.nil_append]

end Text

open Text Reading

theorem noStops_of (hparen : p '(' = false) (hequals : p '=' = false) : NoStops p := by
  intro c hc
  simp only [isStop, Bool.or_eq_true, decide_eq_true_eq] at hc
  rcases hc with rfl | rfl
  · exact hparen
  · exact hequals

theorem noStops_isBlank : NoStops isBlank := noStops_of (by decide) (by decide)

theorem noStops_isWordChar : NoStops isWordChar := noStops_of (by decide) (by decide)

theorem noStops_isTypeChar : NoStops isTypeChar := noStops_of (by decide) (by decide)

theorem noStops_isTypeArgument : NoStops isTypeArgument := noStops_of (by decide) (by decide)

theorem noStops_isRankChar : NoStops isRankChar := noStops_of (by decide) (by decide)

theorem spanBlanks_followedBy (h : Apart v x) :
    spanBlanks (v ++ x) = followedBy x (spanBlanks v) := by
  rw [spanBlanks, takeWhile_apart h noStops_isBlank (by decide),
    dropWhile_apart h noStops_isBlank (by decide)]
  rfl

theorem gap?_followedBy (h : Apart v x) : gap? (v ++ x) = (gap? v).map (followedBy x) := by
  rw [gap?, gap?, spanBlanks_followedBy h]
  cases (spanBlanks v) with
  | mk gap rest => cases gap <;> rfl

theorem stops_of_gap? (h : Stops v) (hr : gap? v = some r) : Stops r.2 := by
  rw [eq_append_of_gap? hr] at h
  apply h.of_append
  intro c hc
  rw [Bool.eq_false_iff]
  intro hstop
  have := (isGap_of_gap? hr).1.isBlank c hc
  simp [noStops_isBlank c hstop] at this

theorem isStop_of_isWordChar {c : Char} (h : isWordChar c = true) : isStop c = false := by
  rw [Bool.eq_false_iff]
  intro hstop
  simp [noStops_isWordChar c hstop] at h

theorem isStop_of_isNameStart {c : Char} (h : isNameStart c = true) : isStop c = false :=
  isStop_of_isWordChar (isWordChar_of_isNameStart h)

theorem name?_of_returns (h : Returns x) : name? x = none := by
  cases x with
  | nil => rfl
  | cons c x =>
      have hc : isNameStart c = false := h.head? (by decide +kernel) c rfl
      rw [name?, if_neg (by simp [hc])]

theorem name?_followedBy (h : Apart v x) : name? (v ++ x) = (name? v).map (followedBy x) := by
  cases v with
  | nil => exact name?_of_returns h.returns
  | cons c v =>
      simp only [List.cons_append, name?]
      split
      · next hc =>
          have hv := h.of_cons (isStop_of_isNameStart hc)
          rw [takeWhile_apart hv noStops_isWordChar (by decide +kernel),
            dropWhile_apart hv noStops_isWordChar (by decide +kernel)]
          rfl
      · rfl

theorem stops_of_name? (h : Stops v) (hr : name? v = some r) : Stops r.2 := by
  cases v with
  | nil => exact absurd rfl h.ne_nil
  | cons c v =>
      rw [name?] at hr
      split at hr
      · next hc =>
          cases hr
          exact (h.of_cons (isStop_of_isNameStart hc)).of_dropWhile noStops_isWordChar
      · simp at hr

theorem stripPrefix?_followedBy {s : Text} (h : Apart v x) (hs : ∀ c ∈ s, isStop c = false)
    (hr : '\r' ∉ s) : stripPrefix? s (v ++ x) = (stripPrefix? s v).map (· ++ x) := by
  cases hv : stripPrefix? s v with
  | some u =>
      rw [eq_append_of_stripPrefix? hv, List.append_assoc, stripPrefix?_append_self]
      rfl
  | none =>
      cases hx : stripPrefix? s (v ++ x) with
      | none => rfl
      | some u =>
          obtain ⟨b, rfl⟩ := h.exists_append hs hr ⟨u, (eq_append_of_stripPrefix? hx).symm⟩
          rw [stripPrefix?_append_self] at hv
          cases hv

theorem stops_of_stripPrefix? {s u : Text} (h : Stops v) (hs : ∀ c ∈ s, isStop c = false)
    (hu : stripPrefix? s v = some u) : Stops u := by
  rw [eq_append_of_stripPrefix? hu] at h
  exact h.of_append hs

theorem rank?_of_returns (h : Returns x) : rank? x = none := by
  cases x with
  | nil => rfl
  | cons c x =>
      have hc : ¬ c = '[' := by simpa using h.head? (p := (· = '[')) (by decide) c rfl
      rw [rank?, if_neg hc]

theorem rank?_followedBy (h : Apart v x) : rank? (v ++ x) = (rank? v).map (followedBy x) := by
  cases v with
  | nil => exact rank?_of_returns h.returns
  | cons c v =>
      simp only [List.cons_append, rank?]
      split
      · next hc =>
          subst hc
          have hv := h.of_cons (by decide)
          have hd := hv.of_dropWhile noStops_isRankChar
          rw [takeWhile_apart hv noStops_isRankChar (by decide),
            dropWhile_apart hv noStops_isRankChar (by decide)]
          cases hdrop : v.dropWhile isRankChar with
          | nil =>
              rw [hdrop] at hd
              rw [List.nil_append]
              split
              · exact absurd (hd.returns ']' (List.mem_cons_self ..)) (by decide)
              · rfl
          | cons d rest =>
              rw [List.cons_append]
              by_cases hclose : d = ']'
              · subst hclose
                rfl
              · split
                · next he => exact absurd (List.cons.inj he).1 hclose
                · split
                  · next he => exact absurd (List.cons.inj he).1 hclose
                  · rfl
      · rfl

theorem stops_of_rank? (h : Stops v) (hr : rank? v = some r) : Stops r.2 := by
  cases v with
  | nil => exact absurd rfl h.ne_nil
  | cons c v =>
      simp only [rank?] at hr
      split at hr
      · next hc =>
          subst hc
          split at hr
          · next rest hd =>
              cases hr
              have hstops := h.of_cons (by decide)
              have := hstops.of_dropWhile noStops_isRankChar
              rw [hd] at this
              exact this.of_cons (by decide)
          · simp at hr
      · simp at hr

theorem ranks_of_none (h : rank? t = none) : ranks t = ([], t) := by
  rw [ranks]
  split
  · rfl
  · next hr => rw [h] at hr; cases hr

theorem ranks_of_some (h : rank? t = some r) : ranks t = extend r.1 (ranks r.2) := by
  rw [ranks]
  split
  · next hr => rw [h] at hr; cases hr
  · next hr => rw [Option.some.inj (h.symm.trans hr)]

theorem stops_of_ranks (h : Stops v) : Stops (ranks v).2 := by
  induction hn : v.length using Nat.strong_induction_on generalizing v with
  | _ n ih =>
      cases hr : rank? v with
      | none =>
          rw [ranks_of_none hr]
          exact h
      | some r =>
          rw [ranks_of_some hr]
          exact ih r.2.length (hn ▸ length_lt_of_rank? hr) (stops_of_rank? h hr) rfl

theorem ranks_followedBy (h : Apart v x) : ranks (v ++ x) = followedBy x (ranks v) := by
  induction hn : v.length using Nat.strong_induction_on generalizing v with
  | _ n ih =>
      have hx := rank?_followedBy h
      cases hr : rank? v with
      | none =>
          rw [hr, Option.map_none] at hx
          rw [ranks_of_none hr, ranks_of_none hx]
          rfl
      | some r =>
          rw [hr, Option.map_some] at hx
          rw [ranks_of_some hr, ranks_of_some hx, followedBy,
            ih r.2.length (hn ▸ length_lt_of_rank? hr) (h.imp fun h => stops_of_rank? h hr) rfl]
          rfl

theorem nullableMark_of_head? {c : Char} (hc : c ≠ '?') (t : Text) :
    nullableMark (c :: t) = ([], c :: t) := by
  simp [nullableMark, hc]

theorem stops_of_nullableMark (h : Stops v) : Stops (nullableMark v).2 := by
  cases v with
  | nil => exact h
  | cons c v =>
      by_cases hc : c = '?'
      · subst hc
        exact h.of_cons (by decide)
      · rw [nullableMark_of_head? hc]
        exact h

theorem nullableMark_followedBy (h : Apart v x) :
    nullableMark (v ++ x) = followedBy x (nullableMark v) := by
  cases v with
  | nil =>
      cases x with
      | nil => rfl
      | cons c x =>
          have hc : c ≠ '?' := by simpa using h.returns.head? (p := (· = '?')) (by decide) c rfl
          rw [List.nil_append, nullableMark_of_head? hc]
          rfl
  | cons c v =>
      by_cases hc : c = '?'
      · subst hc
        rfl
      · rw [List.cons_append, nullableMark_of_head? hc, nullableMark_of_head? hc]
        rfl

theorem upToAngle_of_returns (h : Returns x) : upToAngle inside x = [] := by
  induction x with
  | nil => rfl
  | cons c x ih =>
      have hc : ¬ c = '>' := by simpa using h.head? (p := (· = '>')) (by decide) c rfl
      simp [upToAngle, hc, ih fun c hc => h c (List.mem_cons_of_mem _ hc)]

theorem upToAngle_cons_followedBy (c : Char)
    (h : upToAngle inside (v ++ x) = (upToAngle inside v).map (followedBy x)) :
    upToAngle inside (c :: v ++ x) = (upToAngle inside (c :: v)).map (followedBy x) := by
  rw [List.cons_append, upToAngle, upToAngle, h]
  split <;> split <;> simp [followedBy, extend, Function.comp_def]

theorem upToAngle_returns (h : Returns x) (v : Text) :
    upToAngle inside (v ++ x) = (upToAngle inside v).map (followedBy x) := by
  induction v with
  | nil => exact upToAngle_of_returns h
  | cons c v ih => exact upToAngle_cons_followedBy c ih

theorem upToAngle_stops (h : Stops v) (x : Text) :
    upToAngle isTypeArgument (v ++ x) = (upToAngle isTypeArgument v).map (followedBy x) := by
  induction v with
  | nil => exact absurd rfl h.ne_nil
  | cons c v ih =>
      cases hstop : isStop c with
      | true =>
          have hangle : c ≠ '>' := by rintro rfl; simp [isStop] at hstop
          simp [upToAngle, noStops_isTypeArgument c hstop, hangle]
      | false => exact upToAngle_cons_followedBy c (ih (h.of_cons hstop))

theorem upToAngle_followedBy (h : Apart v x) :
    upToAngle isTypeArgument (v ++ x) = (upToAngle isTypeArgument v).map (followedBy x) := by
  rcases h with h | h
  · exact upToAngle_stops h x
  · exact upToAngle_returns h v

theorem stops_of_upToAngle (h : Stops v) (hr : r ∈ upToAngle isTypeArgument v) : Stops r.2 := by
  induction v generalizing r with
  | nil => exact absurd rfl h.ne_nil
  | cons c v ih =>
      have hstop : isStop c = false := by
        rw [Bool.eq_false_iff]
        intro hstop
        have hangle : c ≠ '>' := by rintro rfl; simp [isStop] at hstop
        simp [upToAngle, noStops_isTypeArgument c hstop, hangle] at hr
      have hv : Stops v := h.of_cons hstop
      have hlonger : r ∈ (if isTypeArgument c then (upToAngle isTypeArgument v).map (extend [c])
          else []) → Stops r.2 := by
        intro hr
        split at hr
        · obtain ⟨s, hs, rfl⟩ := List.mem_map.1 hr
          exact ih (r := s) hv hs
        · simp at hr
      simp only [upToAngle] at hr
      split at hr
      · rcases List.mem_cons.1 hr with rfl | hr
        · exact hv
        · exact hlonger hr
      · exact hlonger hr

theorem angles_of_returns (h : Returns x) : angles inside x = [] := by
  cases x with
  | nil => rfl
  | cons c x =>
      have hc : ¬ c = '<' := by simpa using h.head? (p := (· = '<')) (by decide) c rfl
      rw [angles, if_neg hc]

theorem angles_cons_followedBy (c : Char) (h : c = '<' →
    upToAngle inside (v ++ x) = (upToAngle inside v).map (followedBy x)) :
    angles inside (c :: v ++ x) = (angles inside (c :: v)).map (followedBy x) := by
  rw [List.cons_append, angles, angles]
  split
  · next hc =>
      rw [h hc]
      simp [followedBy, extend, Function.comp_def]
  · rfl

theorem angles_returns (h : Returns x) (v : Text) :
    angles inside (v ++ x) = (angles inside v).map (followedBy x) := by
  cases v with
  | nil => exact angles_of_returns h
  | cons c v => exact angles_cons_followedBy c fun _ => upToAngle_returns h v

theorem angles_followedBy (h : Apart v x) :
    angles isTypeArgument (v ++ x) = (angles isTypeArgument v).map (followedBy x) := by
  cases v with
  | nil => exact angles_of_returns h.returns
  | cons c v =>
      refine angles_cons_followedBy c fun hc => upToAngle_followedBy (h.of_cons ?_)
      rw [hc]
      decide

theorem stops_of_angles (h : Stops v) (hr : r ∈ angles isTypeArgument v) : Stops r.2 := by
  cases v with
  | nil => exact absurd rfl h.ne_nil
  | cons c v =>
      rw [angles] at hr
      split at hr
      · next hc =>
          subst hc
          obtain ⟨s, hs, rfl⟩ := List.mem_map.1 hr
          exact stops_of_upToAngle (r := s) (h.of_cons (by decide)) hs
      · simp at hr

theorem arguments_followedBy (h : Apart v x) :
    (angles isTypeArgument (v ++ x)).reverse ++ [([], v ++ x)] =
      ((angles isTypeArgument v).reverse ++ [([], v)]).map (followedBy x) := by
  rw [angles_followedBy h, List.map_append, List.map_reverse]
  rfl

theorem stops_of_arguments (h : Stops v)
    (hr : r ∈ (angles isTypeArgument v).reverse ++ [([], v)]) : Stops r.2 := by
  rcases List.mem_append.1 hr with hr | hr
  · exact stops_of_angles h (List.mem_reverse.1 hr)
  · rw [List.mem_singleton.1 hr]
    exact h

theorem typeReadings_of_returns (h : Returns x) : typeReadings x = [] := by
  cases x with
  | nil => rfl
  | cons c x =>
      have hc : isNameStart c = false := h.head? (by decide +kernel) c rfl
      rw [typeReadings, if_neg (by simp [hc])]

theorem typeReadings_followedBy (h : Apart v x) :
    typeReadings (v ++ x) = (typeReadings v).map (followedBy x) := by
  cases v with
  | nil => exact typeReadings_of_returns h.returns
  | cons c v =>
      simp only [List.cons_append, typeReadings]
      split
      · next hc =>
          have hv := h.of_cons (isStop_of_isNameStart hc)
          have hrest := hv.of_dropWhile noStops_isTypeChar
          rw [takeWhile_apart hv noStops_isTypeChar (by decide +kernel),
            dropWhile_apart hv noStops_isTypeChar (by decide +kernel),
            arguments_followedBy hrest, List.map_map, List.map_map]
          apply List.map_congr_left
          intro r hr
          have happart : Apart r.2 x :=
            h.imp fun h => stops_of_arguments
              ((h.of_cons (isStop_of_isNameStart hc)).of_dropWhile noStops_isTypeChar) hr
          have hranks := ranks_followedBy happart
          have hmark := nullableMark_followedBy (happart.imp stops_of_ranks)
          simp only [Function.comp_apply, followedBy] at hranks hmark ⊢
          rw [hranks]
          simp only [hmark]
      · rfl

theorem stops_of_typeReadings (h : Stops v) (hr : r ∈ typeReadings v) : Stops r.2 := by
  cases v with
  | nil => exact absurd rfl h.ne_nil
  | cons c v =>
      simp only [typeReadings] at hr
      split at hr
      · next hc =>
          have hv : Stops v := h.of_cons (isStop_of_isNameStart hc)
          obtain ⟨s, hs, rfl⟩ := List.mem_map.1 hr
          have hrest := stops_of_arguments (hv.of_dropWhile noStops_isTypeChar) hs
          exact stops_of_nullableMark (stops_of_ranks hrest)
      · simp at hr

end ApiListing
