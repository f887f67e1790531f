import ApiListing.Proofs.Stops

namespace ApiListing

variable {v x t : Text} {r : Reading} {inside : Char → Bool}

open Text Reading

def Reading.leaves (n : Nat) (r : Reading) : Bool := n < r.2.length

namespace Reading

theorem leaves_followedBy (x : Text) (r : Reading) :
    leaves x.length (followedBy x r) = leaves 0 r := by
  simp [leaves, followedBy]

theorem filter_leaves_extend (n : Nat) (s : Text) (rs : List Reading) :
    (rs.map (extend s)).filter (leaves n) = (rs.filter (leaves n)).map (extend s) := by
  rw [List.filter_map]
  rfl

theorem map_followedBy_extend (x s : Text) (rs : List Reading) :
    (rs.map (extend s)).map (followedBy x) = (rs.map (followedBy x)).map (extend s) := by
  simp [followedBy, extend, Function.comp_def]

theorem filter_leaves_eq_nil {rs : List Reading} (h : ∀ r ∈ rs, x = r.1 ++ r.2) :
    rs.filter (leaves x.length) = [] := by
  rw [List.filter_eq_nil_iff]
  intro r hr
  have := congrArg List.length (h r hr)
  simp only [List.length_append] at this
  simp only [leaves, decide_eq_true_eq]
  omega

theorem singleton_within (s v x : Text) :
    [(s, v ++ x)].filter (leaves x.length) = ([(s, v)].filter (leaves 0)).map (followedBy x) := by
  have hone : leaves x.length (s, v ++ x) = leaves 0 (s, v) := leaves_followedBy x (s, v)
  rw [List.filter_singleton, List.filter_singleton, hone]
  cases leaves 0 (s, v) <;> rfl

theorem upToAngle_within (v x : Text) :
    (upToAngle inside (v ++ x)).filter (leaves x.length) =
      ((upToAngle inside v).filter (leaves 0)).map (followedBy x) := by
  induction v with
  | nil =>
      rw [List.nil_append, filter_leaves_eq_nil fun r hr => eq_append_of_upToAngle hr]
      rfl
  | cons c v ih =>
      have hlonger :
          (if inside c then (upToAngle inside (v ++ x)).map (extend [c]) else []).filter
              (leaves x.length) =
            ((if inside c then (upToAngle inside v).map (extend [c]) else []).filter
              (leaves 0)).map (followedBy x) := by
        split
        · rw [filter_leaves_extend, filter_leaves_extend, ih, map_followedBy_extend]
        · rfl
      simp only [List.cons_append, upToAngle]
      split
      · rw [← List.singleton_append, ← List.singleton_append (x := ([c], v)), List.filter_append,
          List.filter_append, hlonger, singleton_within, List.map_append]
      · exact hlonger

def symbols : Text → List Reading
  | [] => []
  | c :: t => if isOperatorChar c then (symbols t).map (extend [c]) ++ [([c], t)] else []

theorem symbols_eq (t : Text) :
    symbols t = (List.range (t.takeWhile isOperatorChar).length).reverse.map fun n =>
      (t.take (n + 1), t.drop (n + 1)) := by
  induction t with
  | nil => rfl
  | cons c t ih =>
      rw [symbols]
      split
      · next hc =>
          rw [List.takeWhile_cons_of_pos hc, List.length_cons, List.range_succ_eq_map,
            List.reverse_cons, List.map_append, ← List.map_reverse, List.map_map, ih, List.map_map]
          rfl
      · next hc => rw [List.takeWhile_cons_of_neg hc]; rfl

theorem eq_append_of_symbols (h : r ∈ symbols t) : t = r.1 ++ r.2 := by
  rw [symbols_eq] at h
  obtain ⟨n, -, rfl⟩ := List.mem_map.1 h
  exact (List.take_append_drop (n + 1) t).symm

theorem symbols_within (v x : Text) :
    (symbols (v ++ x)).filter (leaves x.length) =
      ((symbols v).filter (leaves 0)).map (followedBy x) := by
  induction v with
  | nil =>
      rw [List.nil_append, filter_leaves_eq_nil fun r hr => eq_append_of_symbols hr]
      rfl
  | cons c v ih =>
      rw [List.cons_append, symbols, symbols]
      split
      · rw [List.filter_append, List.filter_append, filter_leaves_extend, filter_leaves_extend, ih,
          List.map_append, map_followedBy_extend, singleton_within]
      · rfl

end Reading

theorem operatorReadings_eq (t : Text) :
    operatorReadings t = match stripPrefix? "operator".toList t with
      | none => []
      | some u =>
        (symbols (spanBlanks u).2).map (extend ("operator".toList ++ (spanBlanks u).1)) := by
  rw [operatorReadings]
  cases stripPrefix? "operator".toList t with
  | none => rfl
  | some u =>
      simp only [symbols_eq, List.map_map]
      rfl

theorem operatorReadings_within (h : Stops v) (x : Text) :
    (operatorReadings (v ++ x)).filter (leaves x.length) =
      ((operatorReadings v).filter (leaves 0)).map (followedBy x) := by
  have hword : ∀ c ∈ "operator".toList, isStop c = false := by simp [isStop]
  rw [operatorReadings_eq, operatorReadings_eq, stripPrefix?_followedBy (h.apart x) hword (by decide)]
  cases hu : stripPrefix? "operator".toList v with
  | none => rfl
  | some u =>
      simp only [Option.map_some, spanBlanks_followedBy ((stops_of_stripPrefix? h hword hu).apart x)]
      rw [filter_leaves_extend, filter_leaves_extend, map_followedBy_extend, followedBy,
        symbols_within]

theorem methodNameReadings_within (h : Stops v) (x : Text) :
    (methodNameReadings (v ++ x)).filter (leaves x.length) =
      ((methodNameReadings v).filter (leaves 0)).map (followedBy x) := by
  unfold methodNameReadings
  rw [List.filter_append, List.filter_append, List.map_append, operatorReadings_within h,
    name?_followedBy (h.apart x)]
  apply congrArg _
  cases hn : name? v with
  | none => rfl
  | some n =>
      obtain ⟨name, rest⟩ := n
      have hrest := stops_of_name? h hn
      have hangles : (angles isMethodArgument (rest ++ x)).filter (leaves x.length) =
          ((angles isMethodArgument rest).filter (leaves 0)).map (followedBy x) := by
        cases rest with
        | nil => exact absurd rfl hrest.ne_nil
        | cons c rest =>
            rw [List.cons_append, angles, angles]
            split
            · rw [filter_leaves_extend, filter_leaves_extend, upToAngle_within,
                map_followedBy_extend]
            · rfl
      simp only [Option.map_some, followedBy]
      rw [filter_leaves_extend, filter_leaves_extend, map_followedBy_extend]
      simp only [List.filter_append, List.map_append, hangles, singleton_within]

end ApiListing
