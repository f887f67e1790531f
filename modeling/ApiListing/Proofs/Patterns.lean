import ApiListing.Search
import ApiListing.Proofs.Runs

namespace ApiListing

inductive Pattern where
  | empty
  | lineStart
  | one (p : Char → Bool)
  | seq (a b : Pattern)
  | alt (a b : Pattern)
  | many (greedy : Bool) (a : Pattern)
  | group (name : String) (a : Pattern)

/-- One way to match at a place: what is matched, what is left behind it, and the groups that took
part. -/
structure Hit where
  text : Text
  rest : Text
  parts : List Part

namespace Hit

def ofReading (r : Reading) : Hit := ⟨r.1, r.2, []⟩

@[simp] theorem text_ofReading (r : Reading) : (ofReading r).text = r.1 := rfl

@[simp] theorem rest_ofReading (r : Reading) : (ofReading r).rest = r.2 := rfl

def after (x y : Hit) : Hit := ⟨x.text ++ y.text, y.rest, x.parts ++ y.parts⟩

def named (name : String) (start : Nat) (x : Hit) : Hit :=
  { x with parts := ⟨name, start, x.text⟩ :: x.parts }

def followedBy (below : Text) (x : Hit) : Hit := { x with rest := x.rest ++ below }

end Hit

namespace Pattern

/-- The matches that go on behind a round that reads something. -/
def further (round more : (before t : Text) → List Hit) (before t : Text) : List Hit :=
  (round before t).flatMap fun x =>
    if x.text = [] then [] else (more (before ++ x.text) x.rest).map x.after

def rounds (greedy : Bool) (round : (before t : Text) → List Hit) :
    Nat → (before t : Text) → List Hit
  | 0, _, t => [.ofReading ([], t)]
  | bound + 1, before, t =>
    let more := further round (rounds greedy round bound) before t
    if greedy then more ++ [.ofReading ([], t)] else .ofReading ([], t) :: more

/-- The matches at a place between two texts, the preferred one first: an alternative before those
behind it, and of a repetition one more round, or none, before the other. -/
def hits : Pattern → (before t : Text) → List Hit
  | empty, _, t => [.ofReading ([], t)]
  | lineStart, before, t => if Text.BeginsLine before then [.ofReading ([], t)] else []
  | one _, _, [] => []
  | one p, _, c :: t => if p c then [.ofReading ([c], t)] else []
  | seq a b, before, t =>
    (a.hits before t).flatMap fun x => (b.hits (before ++ x.text) x.rest).map x.after
  | alt a b, before, t => a.hits before t ++ b.hits before t
  | many greedy a, before, t => rounds greedy a.hits t.length before t
  | group name a, before, t => (a.hits before t).map (.named name (Text.byteSize before))

def at? (p : Pattern) (before t : Text) : Option (List Part) :=
  ((group "0" p).hits before t).head?.map Hit.parts

/-- The parts of the first match at byte `least` or behind it, in what stands behind a place. -/
def searchFrom (p : Pattern) (least : Nat) (before : Text) : Text → Option (List Part)
  | [] => if least ≤ Text.byteSize before then p.at? before [] else none
  | c :: t => (if least ≤ Text.byteSize before then p.at? before (c :: t) else none).or
      (p.searchFrom least (before ++ [c]) t)

def search (p : Pattern) (least : Nat) (source : Text) : Option (List Part) :=
  p.searchFrom least [] source

example : ((many true (one (· = 'a'))).hits [] "aab".toList).map Hit.text =
    ["aa".toList, "a".toList, []] := by decide

variable {β : Type} {p a : Pattern} {before t : Text} {x : Hit} {greedy : Bool}
  {round : Text → Text → List Hit} {bound : Nat}

theorem mem_further {more : Text → Text → List Hit} (hx : x ∈ further round more before t) :
    ∃ y ∈ round before t, y.text ≠ [] ∧ ∃ z ∈ more (before ++ y.text) y.rest, x = y.after z := by
  obtain ⟨y, hy, hx⟩ := List.mem_flatMap.1 hx
  split at hx
  · cases hx
  · next hne =>
      obtain ⟨z, hz, rfl⟩ := List.mem_map.1 hx
      exact ⟨y, hy, hne, z, hz, rfl⟩

theorem further_congr {more more' : Text → Text → List Hit}
    (h : ∀ y ∈ round before t, y.text ≠ [] →
      more (before ++ y.text) y.rest = more' (before ++ y.text) y.rest) :
    further round more before t = further round more' before t := by
  refine List.flatMap_congr fun y hy => ?_
  split
  · rfl
  · next hne => rw [h y hy hne]

theorem mem_rounds_succ (hx : x ∈ rounds greedy round (bound + 1) before t) :
    x = .ofReading ([], t) ∨ x ∈ further round (rounds greedy round bound) before t := by
  cases greedy
  · exact List.mem_cons.1 hx
  · exact (List.mem_append.1 hx).symm.imp_left List.mem_singleton.1

theorem append_of_mem_rounds (hround : ∀ before t, ∀ y ∈ round before t, t = y.text ++ y.rest)
    (hx : x ∈ rounds greedy round bound before t) : t = x.text ++ x.rest := by
  induction bound generalizing before t x with
  | zero => rw [List.mem_singleton.1 hx]; rfl
  | succ bound ih =>
      rcases mem_rounds_succ hx with rfl | hx
      · rfl
      · obtain ⟨y, hy, -, z, hz, rfl⟩ := mem_further hx
        rw [hround before t y hy, ih hz]
        simp [Hit.after]

theorem append_of_mem_hits (hx : x ∈ p.hits before t) : t = x.text ++ x.rest := by
  induction p generalizing before t x with
  | empty => rw [List.mem_singleton.1 hx]; rfl
  | lineStart =>
      rw [hits] at hx
      split at hx
      · rw [List.mem_singleton.1 hx]; rfl
      · cases hx
  | one p =>
      cases t with
      | nil => cases hx
      | cons c t =>
          rw [hits] at hx
          split at hx
          · rw [List.mem_singleton.1 hx]; rfl
          · cases hx
  | seq a b iha ihb =>
      obtain ⟨y, hy, hx⟩ := List.mem_flatMap.1 hx
      obtain ⟨z, hz, rfl⟩ := List.mem_map.1 hx
      rw [iha hy, ihb hz]
      simp [Hit.after]
  | alt a b iha ihb => exact (List.mem_append.1 hx).elim iha ihb
  | many greedy a ih => exact append_of_mem_rounds (fun _ _ _ hy => ih hy) hx
  | group name a ih =>
      obtain ⟨y, hy, rfl⟩ := List.mem_map.1 hx
      exact ih (x := y) hy

theorem length_rest_lt (ht : t = x.text ++ x.rest) (hne : x.text ≠ []) :
    x.rest.length < t.length := by
  have := List.length_pos_iff.2 hne
  rw [ht, List.length_append]
  omega

theorem rounds_nil (hround : ∀ before t, ∀ y ∈ round before t, t = y.text ++ y.rest)
    (bound : Nat) (before : Text) :
    rounds greedy round bound before [] = [.ofReading ([], [])] := by
  cases bound with
  | zero => rfl
  | succ bound =>
      have hnone : further round (rounds greedy round bound) before [] = [] := by
        rw [List.eq_nil_iff_forall_not_mem]
        intro x hx
        obtain ⟨y, hy, hne, -⟩ := mem_further hx
        exact hne (List.append_eq_nil_iff.1 (hround before [] y hy).symm).1
      cases greedy <;> simp [rounds, hnone]

/-- More rounds than there are characters find nothing more. -/
theorem rounds_congr {n m : Nat} (hround : ∀ before t, ∀ y ∈ round before t, t = y.text ++ y.rest)
    (hn : t.length ≤ n) (hm : t.length ≤ m) :
    rounds greedy round n before t = rounds greedy round m before t := by
  induction n generalizing m before t with
  | zero =>
      obtain rfl : t = [] := List.length_eq_zero_iff.1 (by omega)
      rw [rounds_nil hround, rounds_nil hround]
  | succ n ih =>
      cases m with
      | zero =>
          obtain rfl : t = [] := List.length_eq_zero_iff.1 (by omega)
          rw [rounds_nil hround, rounds_nil hround]
      | succ m =>
          have hmore : further round (rounds greedy round n) before t =
              further round (rounds greedy round m) before t := by
            refine further_congr fun y hy hne => ?_
            have hlt := length_rest_lt (hround before t y hy) hne
            exact ih (by omega) (by omega)
          rw [rounds, rounds, hmore]

theorem hits_many (greedy : Bool) (a : Pattern) (before t : Text) :
    (many greedy a).hits before t =
      let more := further a.hits (many greedy a).hits before t
      if greedy then more ++ [.ofReading ([], t)] else .ofReading ([], t) :: more := by
  have hround : ∀ before t, ∀ y ∈ a.hits before t, t = y.text ++ y.rest :=
    fun _ _ _ => append_of_mem_hits
  have hmore : further a.hits (rounds greedy a.hits t.length) before t =
      further a.hits (many greedy a).hits before t := by
    refine further_congr fun y hy hne => ?_
    exact rounds_congr hround (length_rest_lt (hround before t y hy) hne).le (Nat.le_refl _)
  rw [hits, rounds_congr hround (Nat.le_refl _) (Nat.le_succ t.length), rounds, hmore]

def staysOnLine : Pattern → Bool
  | empty => true
  | lineStart => true
  | one p => !p '\n'
  | seq a b => a.staysOnLine && b.staysOnLine
  | alt a b => a.staysOnLine && b.staysOnLine
  | many _ a => a.staysOnLine
  | group _ a => a.staysOnLine

variable {line below : Text}

theorem not_mem_rest (hx : x ∈ p.hits before line) (hline : '\n' ∉ line) : '\n' ∉ x.rest :=
  fun h => hline (append_of_mem_hits hx ▸ List.mem_append_right _ h)

theorem hits_many_followedBy (greedy : Bool) (before : Text) (hline : '\n' ∉ line)
    (ha : ∀ before line, '\n' ∉ line →
      a.hits before (line ++ below) = (a.hits before line).map (.followedBy below)) :
    (many greedy a).hits before (line ++ below) =
      ((many greedy a).hits before line).map (.followedBy below) := by
  induction hn : line.length using Nat.strong_induction_on generalizing before line with
  | _ n ih =>
      have hmore : further a.hits (many greedy a).hits before (line ++ below) =
          (further a.hits (many greedy a).hits before line).map (.followedBy below) := by
        rw [further, further, ha before line hline, List.flatMap_map, List.map_flatMap]
        refine List.flatMap_congr fun x hx => ?_
        by_cases hne : x.text = []
        · rw [if_pos hne, if_pos (show (x.followedBy below).text = [] from hne), List.map_nil]
        · have hlt := length_rest_lt (append_of_mem_hits hx) hne
          rw [if_neg hne, if_neg (show (x.followedBy below).text ≠ [] from hne), Hit.followedBy,
            ih x.rest.length (hn ▸ hlt) _ (not_mem_rest hx hline) rfl, List.map_map, List.map_map]
          rfl
      rw [hits_many, hits_many]
      simp only [hmore]
      cases greedy <;> simp [Hit.ofReading, Hit.followedBy]

/-- On a line a pattern matches in the same ways whatever stands below. -/
theorem hits_followedBy (hp : p.staysOnLine = true) (before : Text) (hline : '\n' ∉ line)
    (hbelow : Text.EndsLine below) :
    p.hits before (line ++ below) = (p.hits before line).map (.followedBy below) := by
  induction p generalizing before line with
  | empty => rfl
  | lineStart =>
      rw [hits, hits]
      split <;> rfl
  | one p =>
      cases line with
      | nil =>
          cases below with
          | nil => rfl
          | cons c below =>
              obtain rfl : c = '\n' := by simpa [Text.EndsLine] using hbelow
              simp only [staysOnLine, Bool.not_eq_true'] at hp
              simp [hits, hp]
      | cons c line =>
          rw [List.cons_append, hits, hits]
          split <;> rfl
  | seq a b iha ihb =>
      simp only [staysOnLine, Bool.and_eq_true] at hp
      rw [hits, hits, iha hp.1 before hline, List.flatMap_map, List.map_flatMap]
      refine List.flatMap_congr fun x hx => ?_
      simp only [Hit.followedBy, ihb hp.2 _ (not_mem_rest hx hline), List.map_map]
      rfl
  | alt a b iha ihb =>
      simp only [staysOnLine, Bool.and_eq_true] at hp
      rw [hits, hits, iha hp.1 before hline, ihb hp.2 before hline, List.map_append]
  | many greedy a ih =>
      exact hits_many_followedBy greedy before hline fun before _ hline => ih hp before hline
  | group name a ih =>
      rw [hits, hits, ih hp before hline, List.map_map, List.map_map]
      rfl

/-- What the first match gives with which it is possible to go on. -/
def first (p : Pattern) (before t : Text) (k : Hit → Option β) : Option β :=
  (p.hits before t).findSome? k

theorem head?_hits (p : Pattern) (before t : Text) :
    (p.hits before t).head? = p.first before t some := by
  rw [first, ← List.head?_filterMap, List.filterMap_some]

theorem findSome?_flatMap {α : Type} (f : α → List Hit) (l : List α) (k : Hit → Option β) :
    (l.flatMap f).findSome? k = l.findSome? fun a => (f a).findSome? k := by
  induction l with
  | nil => rfl
  | cons a l ih =>
      rw [List.flatMap_cons, List.findSome?_append, ih, List.findSome?_cons]
      cases (f a).findSome? k <;> rfl

theorem first_empty (before t : Text) (k : Hit → Option β) :
    empty.first before t k = k (.ofReading ([], t)) := by
  simp [first, hits]

theorem first_lineStart (before t : Text) (k : Hit → Option β) :
    lineStart.first before t k =
      if Text.BeginsLine before then k (.ofReading ([], t)) else none := by
  rw [first, hits]
  split <;> simp

theorem first_one (p : Char → Bool) (before : Text) (c : Char) (t : Text) (k : Hit → Option β) :
    (one p).first before (c :: t) k = if p c then k (.ofReading ([c], t)) else none := by
  rw [first, hits]
  split <;> simp

theorem first_seq (a b : Pattern) (before t : Text) (k : Hit → Option β) :
    (seq a b).first before t k =
      a.first before t fun x => b.first (before ++ x.text) x.rest (k ∘ x.after) := by
  simp only [first, hits, findSome?_flatMap, List.findSome?_map]

theorem first_alt (a b : Pattern) (before t : Text) (k : Hit → Option β) :
    (alt a b).first before t k = (a.first before t k).or (b.first before t k) := by
  simp only [first, hits, List.findSome?_append]

theorem first_group (name : String) (a : Pattern) (before t : Text) (k : Hit → Option β) :
    (group name a).first before t k =
      a.first before t (k ∘ .named name (Text.byteSize before)) := by
  simp only [first, hits, List.findSome?_map]

theorem findSome?_further (round more : Text → Text → List Hit) (before t : Text)
    (k : Hit → Option β) :
    (further round more before t).findSome? k = (round before t).findSome? fun x =>
      if x.text = [] then none else (more (before ++ x.text) x.rest).findSome? (k ∘ x.after) := by
  rw [further, findSome?_flatMap]
  refine congrArg (List.findSome? · _) (funext fun x => ?_)
  split
  · rfl
  · rw [List.findSome?_map]

theorem first_many (greedy : Bool) (a : Pattern) (before t : Text) (k : Hit → Option β) :
    (many greedy a).first before t k =
      let more := a.first before t fun x => if x.text = [] then none
        else (many greedy a).first (before ++ x.text) x.rest (k ∘ x.after)
      if greedy then more.or (k (.ofReading ([], t))) else (k (.ofReading ([], t))).or more := by
  have hmore := findSome?_further a.hits (many greedy a).hits before t k
  rw [first, hits_many]
  cases greedy
  · rw [if_neg (by decide), if_neg (by decide), List.findSome?_cons, hmore]
    cases k (.ofReading ([], t)) <;> rfl
  · rw [if_pos rfl, if_pos rfl, List.findSome?_append, hmore, List.findSome?_singleton]
    rfl

theorem first_many_seq (greedy : Bool) (a b : Pattern) (before t : Text) (k : Hit → Option β) :
    (seq (many greedy a) b).first before t k =
      let more := a.first before t fun x => if x.text = [] then none
        else (seq (many greedy a) b).first (before ++ x.text) x.rest (k ∘ x.after)
      if greedy then more.or (b.first before t k) else (b.first before t k).or more := by
  have hnone : b.first (before ++ []) t (k ∘ (Hit.ofReading ([], t)).after) =
      b.first before t k := by
    rw [List.append_nil]
    rfl
  have hsome (x : Hit) : (many greedy a).first (before ++ x.text) x.rest
      ((fun y => b.first (before ++ y.text) y.rest (k ∘ y.after)) ∘ x.after) =
      (seq (many greedy a) b).first (before ++ x.text) x.rest (k ∘ x.after) := by
    rw [first_seq]
    refine congrArg _ (funext fun y => ?_)
    simp [Hit.after, Function.comp_def]
  rw [first_seq, first_many]
  simp only [hsome]
  rw [← hnone]
  rfl

end Pattern

end ApiListing
