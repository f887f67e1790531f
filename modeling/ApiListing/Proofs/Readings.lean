import ApiListing.Declaration.Match
import ApiListing.Proofs.Lines

namespace ApiListing

variable {t : Text} {r : Reading} {inside : Char → Bool}

namespace Reading

theorem eq_append_of_upToAngle (h : r ∈ upToAngle inside t) : t = r.1 ++ r.2 := by
  induction t generalizing r with
  | nil => simp [upToAngle] at h
  | cons c t ih =>
      have hlonger : r ∈ (if inside c then (upToAngle inside t).map (extend [c]) else []) →
          c :: t = r.1 ++ r.2 := by
        intro hr
        split at hr
        · obtain ⟨s, hs, rfl⟩ := List.mem_map.1 hr
          simp [extend, ← ih hs]
        · simp at hr
      simp only [upToAngle] at h
      split at h
      · rcases List.mem_cons.1 h with rfl | hr
        · rfl
        · exact hlonger hr
      · exact hlonger h

theorem eq_append_of_angles (h : r ∈ angles inside t) : t = r.1 ++ r.2 := by
  cases t with
  | nil => simp [angles] at h
  | cons c t =>
      simp only [angles] at h
      split at h
      · obtain ⟨s, hs, rfl⟩ := List.mem_map.1 h
        simp [extend, ← eq_append_of_upToAngle hs]
      · simp at h

end Reading

open Reading

theorem eq_append_of_rank? (h : rank? t = some r) : t = r.1 ++ r.2 := by
  cases t with
  | nil => simp [rank?] at h
  | cons c t =>
      simp only [rank?] at h
      split at h
      · split at h
        · next rest hd =>
            cases h
            have hs := List.takeWhile_append_dropWhile (p := isRankChar) (l := t)
            rw [hd] at hs
            simp [hs]
        · simp at h
      · simp at h

theorem eq_append_of_ranks (t : Text) : t = (ranks t).1 ++ (ranks t).2 := by
  fun_induction ranks t with
  | case1 t h => rfl
  | case2 t r h _ ih =>
      rw [eq_append_of_rank? h]
      simp [extend, ← ih]

theorem eq_append_of_nullableMark (t : Text) : t = (nullableMark t).1 ++ (nullableMark t).2 := by
  unfold nullableMark
  split <;> rfl

theorem eq_append_of_typeReadings (h : r ∈ typeReadings t) : t = r.1 ++ r.2 := by
  cases t with
  | nil => simp [typeReadings] at h
  | cons c t =>
      simp only [typeReadings] at h
      split at h
      · obtain ⟨s, hs, rfl⟩ := List.mem_map.1 h
        have hrest : t.dropWhile isTypeChar = s.1 ++ s.2 := by
          rcases List.mem_append.1 hs with hs | hs
          · exact eq_append_of_angles (List.mem_reverse.1 hs)
          · rw [List.mem_singleton.1 hs]; rfl
        have hmark := eq_append_of_nullableMark (ranks s.2).2
        have hranks := eq_append_of_ranks s.2
        have ht := List.takeWhile_append_dropWhile (p := isTypeChar) (l := t)
        simp only [hrest] at ht
        simp only [List.append_assoc, ← hmark, ← hranks, List.cons_append, ht]
      · simp at h

theorem eq_append_of_spanBlanks (t : Text) : t = (Text.spanBlanks t).1 ++ (Text.spanBlanks t).2 :=
  List.takeWhile_append_dropWhile.symm

theorem eq_append_of_gap? (h : gap? t = some r) : t = r.1 ++ r.2 := by
  rw [gap?] at h
  split at h
  · simp at h
  · cases h; exact eq_append_of_spanBlanks t

theorem eq_append_of_name? (h : Text.name? t = some r) : t = r.1 ++ r.2 := by
  unfold Text.name? at h
  split at h
  · simp at h
  · split at h
    · cases h; simp
    · simp at h

theorem eq_append_of_operatorReadings (h : r ∈ operatorReadings t) : t = r.1 ++ r.2 := by
  rw [operatorReadings] at h
  split at h
  · simp at h
  · next u hu =>
      obtain ⟨n, -, rfl⟩ := List.mem_map.1 h
      rw [Text.eq_append_of_stripPrefix? hu]
      simp

theorem eq_append_of_methodNameReadings (h : r ∈ methodNameReadings t) : t = r.1 ++ r.2 := by
  rw [methodNameReadings] at h
  rcases List.mem_append.1 h with h | h
  · exact eq_append_of_operatorReadings h
  · split at h
    · simp at h
    · next name rest hn =>
        obtain ⟨s, hs, rfl⟩ := List.mem_map.1 h
        have hrest : rest = s.1 ++ s.2 := by
          rcases List.mem_append.1 hs with hs | hs
          · exact eq_append_of_angles hs
          · rw [List.mem_singleton.1 hs]; rfl
        rw [eq_append_of_name? hn, hrest]
        simp [extend]

theorem eq_append_of_indexer? (h : indexer? t = some r) : t = r.1 ++ r.2 := by
  rw [indexer?] at h
  split at h
  · simp at h
  · next u hu =>
      simp only at h
      split at h
      · next v hv =>
          split at h
          · simp at h
          · next c rest hd =>
              cases h
              have hc : c = ']' := by
                have := List.head?_dropWhile_not (· ≠ ']') v
                rw [hd] at this
                simpa using this
              have hs := List.takeWhile_append_dropWhile (p := (· ≠ ']')) (l := v)
              rw [hd, hc] at hs
              have hu' := eq_append_of_spanBlanks u
              rw [hv, ← hs] at hu'
              simp only [Text.eq_append_of_stripPrefix? hu, List.append_assoc, List.cons_append,
                List.nil_append]
              rw [← hu']
      · simp at h

theorem eq_append_of_propertyName? (h : propertyName? t = some r) : t = r.1 ++ r.2 := by
  rw [propertyName?] at h
  cases hi : indexer? t with
  | some s =>
      rw [hi] at h
      exact eq_append_of_indexer? (hi.trans h)
  | none =>
      rw [hi] at h
      exact eq_append_of_name? h

theorem eq_append_of_closeParameters {nested : Bool} (h : closeParameters nested t = some r) :
    t = r.1 ++ r.2 := by
  induction t generalizing nested r with
  | nil => simp [closeParameters] at h
  | cons c t ih =>
      have honwards (n : Bool) (hn : (closeParameters n t).map (extend [c]) = some r) :
          c :: t = r.1 ++ r.2 := by
        obtain ⟨s, hs, rfl⟩ := Option.map_eq_some_iff.1 hn
        simp [extend, ← ih hs]
      simp only [closeParameters] at h
      split at h
      · split at h
        · exact honwards _ h
        · next hc _ => cases h; simp
      · split at h
        · split at h
          · simp at h
          · exact honwards _ h
        · exact honwards _ h

theorem Signature.eq_append_of_read? {s : Signature × Text} (h : Signature.read? t = some s) :
    t = s.1.text ++ s.2 := by
  unfold Signature.read? at h
  split at h
  · obtain ⟨r, hr, rfl⟩ := Option.map_eq_some_iff.1 h
    simp [Signature.text, ← eq_append_of_closeParameters hr]
  · cases h; simp [Signature.text]
  · simp at h

end ApiListing
