import ApiListing.Text.Basic

namespace ApiListing.Text

def isBlank (c : Char) : Bool := c = ' ' || c = '\t'

/-- The characters of the Unicode property White_Space. -/
def isSpace (c : Char) : Bool :=
  let n := c.toNat
  (9 ≤ n && n ≤ 13) || n = 0x20 || n = 0x85 || n = 0xA0 || n = 0x1680 || (0x2000 ≤ n && n ≤ 0x200A)
    || n = 0x2028 || n = 0x2029 || n = 0x202F || n = 0x205F || n = 0x3000

def spanBlanks (t : Text) : Text × Text := (t.takeWhile isBlank, t.dropWhile isBlank)

def trimStart (t : Text) : Text := t.dropWhile isSpace

def trimEnd (t : Text) : Text := (t.reverse.dropWhile isSpace).reverse

def trim (t : Text) : Text := trimEnd (trimStart t)

def words : Text → List Text
  | [] => []
  | c :: t =>
    if isSpace c then words t
    else match t, words t with
      | d :: _, w :: ws => if isSpace d then [c] :: w :: ws else (c :: w) :: ws
      | _, ws => [c] :: ws

def squeeze : Text → Text
  | [] => []
  | c :: t =>
    if isSpace c then
      match t with
      | d :: _ => if isSpace d then squeeze t else ' ' :: squeeze t
      | [] => [' ']
    else c :: squeeze t

def collapse (t : Text) : Text := trim (squeeze t)

def spaceRun? (t : Text) : Option (Text × Text) :=
  match t.dropWhile (fun c => !isSpace c) with
  | [] => none
  | rest => some (t.takeWhile (fun c => !isSpace c), rest.takeWhile isSpace)

theorem isSpace_of_isBlank {c : Char} (h : isBlank c = true) : isSpace c = true := by
  simp only [isBlank, Bool.or_eq_true, decide_eq_true_eq] at h
  rcases h with rfl | rfl <;> decide

end ApiListing.Text
