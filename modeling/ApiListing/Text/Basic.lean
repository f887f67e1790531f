
namespace ApiListing

/-- A text, as the list of its characters. A place in it is the pair of what stands before and what
stands from there on. -/
abbrev Text := List Char

namespace Text

def byteSize (t : Text) : Nat := t.foldr (fun c n => c.utf8Size + n) 0

def firstLine (t : Text) : Text := t.takeWhile (· ≠ '\n')

def afterLine (t : Text) : Option Text :=
  match t.dropWhile (· ≠ '\n') with
  | [] => none
  | _ :: rest => some rest

def lines : Text → List Text
  | [] => []
  | c :: t =>
    if c = '\n' then [] :: lines t
    else match lines t with
      | [] => [[c]]
      | l :: ls => (c :: l) :: ls

def lastLine (t : Text) : Text := (t.reverse.takeWhile (· ≠ '\n')).reverse

def stripPrefix? : Text → Text → Option Text
  | [], t => some t
  | _ :: _, [] => none
  | s :: start, c :: t => if s = c then stripPrefix? start t else none

def cut? (mark : Text) : Text → Option (Text × Text)
  | [] => (stripPrefix? mark []).map ([], ·)
  | c :: t =>
    match stripPrefix? mark (c :: t) with
    | some rest => some ([], rest)
    | none => (cut? mark t).map fun p => (c :: p.1, p.2)

/-- A text cut at the first character that begins at byte `n` or later. -/
def splitBytes (n : Nat) : Text → Text × Text
  | [] => ([], [])
  | c :: t =>
    if n = 0 then ([], c :: t)
    else let (before, rest) := splitBytes (n - c.utf8Size) t; (c :: before, rest)

def join (between : Text) (ts : List Text) : Text := between.intercalate ts

@[simp] theorem byteSize_nil : byteSize [] = 0 := rfl

theorem byteSize_cons (c : Char) (t : Text) : byteSize (c :: t) = c.utf8Size + byteSize t := rfl

@[simp] theorem byteSize_append (s t : Text) : byteSize (s ++ t) = byteSize s + byteSize t := by
  induction s with
  | nil => simp
  | cons c s ih => rw [List.cons_append, byteSize_cons, byteSize_cons, ih, Nat.add_assoc]

theorem firstLine_append_dropWhile (t : Text) : firstLine t ++ t.dropWhile (· ≠ '\n') = t :=
  List.takeWhile_append_dropWhile

theorem length_lt_of_afterLine {t rest : Text} (h : afterLine t = some rest) :
    rest.length < t.length := by
  have hl := congrArg List.length (firstLine_append_dropWhile t)
  unfold afterLine at h
  split at h
  · simp at h
  · next c r hd =>
    cases h
    simp only [hd, List.length_append, List.length_cons] at hl
    omega

theorem length_lt_of_afterLine_drop {t rest : Text} {n : Nat}
    (h : afterLine (t.drop n) = some rest) : rest.length < t.length := by
  have := length_lt_of_afterLine h
  rw [List.length_drop] at this
  omega

theorem eq_append_of_stripPrefix? {start t rest : Text} (h : stripPrefix? start t = some rest) :
    t = start ++ rest := by
  fun_induction stripPrefix? start t with
  | case1 t => simpa using h
  | case2 => simp at h
  | case3 c start t ih => simp [ih h]
  | case4 => simp at h

theorem length_lt_of_stripPrefix? {start t rest : Text} (hs : start ≠ [])
    (h : stripPrefix? start t = some rest) : rest.length < t.length := by
  have := List.length_pos_iff.2 hs
  simp only [eq_append_of_stripPrefix? h, List.length_append]
  omega

theorem eq_append_of_cut? {mark t before rest : Text} (h : cut? mark t = some (before, rest)) :
    t = before ++ mark ++ rest := by
  fun_induction cut? mark t generalizing before with
  | case1 =>
    obtain ⟨_, hs, he⟩ := Option.map_eq_some_iff.1 h
    cases he
    exact eq_append_of_stripPrefix? hs
  | case2 c t r hs =>
    cases h
    exact eq_append_of_stripPrefix? hs
  | case3 c t hs ih =>
    obtain ⟨⟨b, r⟩, hc, he⟩ := Option.map_eq_some_iff.1 h
    cases he
    simp [ih hc]

theorem length_lt_of_cut? {mark t before rest : Text} (hm : mark ≠ [])
    (h : cut? mark t = some (before, rest)) : rest.length < t.length := by
  have := List.length_pos_iff.2 hm
  simp only [eq_append_of_cut? h, List.length_append]
  omega

/-- The parts of a text between marks that are not empty. A mark without characters stands between
any two characters. -/
def parts (mark t : Text) : List Text :=
  if hm : mark = [] then t.map ([·])
  else
    match h : cut? mark t with
    | none => if t = [] then [] else [t]
    | some (before, rest) =>
      have := length_lt_of_cut? hm h
      (if before = [] then [] else [before]) ++ parts mark rest
termination_by t.length

end Text

end ApiListing
