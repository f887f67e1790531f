import ApiListing.Proofs.Collapsing
import ApiListing.Proofs.DeclarationPattern

namespace ApiListing.Pattern

def spaces : Pattern := someOf Text.isSpace

def matchAt? (p : Pattern) (before t : Text) : Option Hit :=
  (p.hits before t).head?.filter fun x => x.text ≠ []

variable {p : Pattern} {before t : Text} {x : Hit}

theorem length_rest_of_matchAt? (h : p.matchAt? before t = some x) : x.rest.length < t.length := by
  obtain ⟨hhead, hne⟩ := Option.filter_eq_some_iff.1 h
  exact length_rest_lt (append_of_mem_hits (List.mem_of_head? hhead)) (of_decide_eq_true hne)

/-- What stands behind a place, with `new` for each match that reads something. -/
def replaceAll (p : Pattern) (new before : Text) : Text → Text
  | [] => []
  | c :: t =>
    match h : p.matchAt? before (c :: t) with
    | none => c :: replaceAll p new (before ++ [c]) t
    | some x =>
      have := length_rest_of_matchAt? h
      new ++ replaceAll p new (before ++ x.text) x.rest
termination_by t => t.length
decreasing_by
  · exact Nat.lt_succ_self _
  · assumption

variable {new : Text} {c : Char}

theorem replaceAll_of_none (h : p.matchAt? before (c :: t) = none) :
    p.replaceAll new before (c :: t) = c :: p.replaceAll new (before ++ [c]) t := by
  rw [replaceAll]
  split
  · rfl
  · next hx => cases hx.symm.trans h

theorem replaceAll_of_some (h : p.matchAt? before (c :: t) = some x) :
    p.replaceAll new before (c :: t) = new ++ p.replaceAll new (before ++ x.text) x.rest := by
  rw [replaceAll]
  split
  · next hx => cases hx.symm.trans h
  · next hx => cases hx.symm.trans h; rfl

theorem matchAt?_spaces (hc : Text.isSpace c = true) (before t : Text) :
    spaces.matchAt? before (c :: t) =
      some (.ofReading (c :: t.takeWhile Text.isSpace, t.dropWhile Text.isSpace)) := by
  have haccepts : Accepts (some : Hit → Option Hit) := fun _ => Option.some_ne_none _
  rw [matchAt?, head?_hits, spaces, someOf, first_seq, first_one, if_pos hc,
    first_run_of_accepts (haccepts.after _)]
  rfl

theorem matchAt?_spaces_eq_none (hc : Text.isSpace c = false) (before t : Text) :
    spaces.matchAt? before (c :: t) = none := by
  rw [matchAt?, head?_hits, spaces, someOf, first_seq, first_one, if_neg (by simp [hc])]
  rfl

/-- One space in place of each run of spaces squeezes a text. -/
theorem replaceAll_spaces (before t : Text) :
    spaces.replaceAll [' '] before t = Text.squeeze t := by
  induction hn : t.length using Nat.strong_induction_on generalizing before t with
  | _ n ih =>
      cases t with
      | nil => rw [replaceAll]; rfl
      | cons c t =>
          cases hc : Text.isSpace c with
          | true =>
              have hx := matchAt?_spaces hc before t
              rw [replaceAll_of_some hx, ih _ (hn ▸ length_rest_of_matchAt? hx) _ _ rfl,
                Text.squeeze_space hc]
              rfl
          | false =>
              rw [replaceAll_of_none (matchAt?_spaces_eq_none hc before t),
                ih t.length (hn ▸ Nat.lt_succ_self _) _ _ rfl, Text.squeeze_solid hc]

end ApiListing.Pattern
