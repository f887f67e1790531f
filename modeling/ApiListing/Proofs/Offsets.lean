import ApiListing.Proofs.Jumps
import ApiListing.Proofs.Octets

namespace ApiListing

/-- What stops a computation on offsets: the bounds of a piece out of order, out of range or inside
a character, an octet that is not there, more taken from a number than it is, or a loop that does
not get on. -/
inductive Trap where
  | slice (start stop : Nat)
  | octet (i : Nat)
  | less (n k : Nat)
  | stuck (i : Nat)
  deriving DecidableEq, Repr

abbrev Checked := Except Trap

def minus (n k : Nat) : Checked Nat := if k ≤ n then .ok (n - k) else .error (.less n k)

inductive Round (σ α : Type) where
  | goOn (i : Nat) (state : σ)
  | leave (result : α)

/-- A loop over the offsets below `size`, which ends with `atEnd` when it has passed them all. -/
def loop {σ α : Type} (size : Nat) (round : Nat → σ → Checked (Round σ α)) (atEnd : σ → α) (i : Nat)
    (state : σ) : Checked α :=
  if i < size then
    match round i state with
    | .error trap => .error trap
    | .ok (.leave result) => .ok result
    | .ok (.goOn j state) => if i < j then loop size round atEnd j state else .error (.stuck i)
  else .ok (atEnd state)
termination_by size - i

namespace Text

def slice (t : Text) (start stop : Nat) : Checked Text :=
  let (before, rest) := splitBytes start t
  let (piece, _) := splitBytes (stop - start) rest
  if start ≤ stop && byteSize before = start && byteSize piece = stop - start then .ok piece
  else .error (.slice start stop)

def sliceFrom (t : Text) (start : Nat) : Checked Text := t.slice start (byteSize t)

def octet? (t : Text) (i : Nat) : Option Char := (octets t)[i]?.map Json.charOf

def octet (t : Text) (i : Nat) : Checked Char :=
  match t.octet? i with
  | some c => .ok c
  | none => .error (.octet i)

def find (c : Char) (t : Text) : Option Nat :=
  if c ∈ t then some (byteSize (t.takeWhile (· ≠ c))) else none

def lineEnd (t : Text) (i : Nat) : Checked Nat := do
  return ((find '\n' (← t.sliceFrom i)).map (i + ·)).getD (byteSize t)

end Text

variable {σ α β : Type} {size i j : Nat} {round : Nat → σ → Checked (Round σ α)} {atEnd : σ → α}
  {s s' : σ} {a : α} {x y t before rest piece : Text} {c : Char}

theorem Checked.bind_ok {r : Checked α} (h : r = .ok a) (f : α → Checked β) : (r >>= f) = f a := by
  rw [h]
  rfl

section

theorem loop_of_leave (hi : i < size) (h : round i s = .ok (.leave a)) :
    loop size round atEnd i s = .ok a := by
  rw [loop, if_pos hi, h]

theorem loop_of_goOn (hi : i < size) (h : round i s = .ok (.goOn j s')) (hj : i < j) :
    loop size round atEnd i s = loop size round atEnd j s' := by
  rw [loop, if_pos hi, h]
  exact if_pos hj

theorem loop_of_end (hi : size ≤ i) : loop size round atEnd i s = .ok (atEnd s) := by
  rw [loop, if_neg (Nat.not_lt.2 hi)]

theorem loop_pass {n : Nat} (hsize : i + n ≤ size)
    (h : ∀ k < n, round (i + k) s = .ok (.goOn (i + k + 1) s)) :
    loop size round atEnd i s = loop size round atEnd (i + n) s := by
  induction n generalizing i with
  | zero => rfl
  | succ n ih =>
      have hrest := ih (i := i + 1) (by omega) fun k hk => by
        have := h (k + 1) (by omega)
        rwa [← Nat.add_assoc, Nat.add_right_comm i k 1] at this
      have hfirst : round i s = .ok (.goOn (i + 1) s) := h 0 (Nat.succ_pos n)
      rw [loop_of_goOn (by omega) hfirst (Nat.lt_succ_self i), hrest, Nat.add_right_comm,
        Nat.add_assoc]

end

namespace Text

/-- A piece is cut exactly at the boundaries of characters that stand in order. -/
theorem slice_eq_ok_iff {start stop : Nat} : t.slice start stop = .ok piece ↔
    ∃ before after, t = before ++ (piece ++ after) ∧ byteSize before = start ∧
      byteSize (before ++ piece) = stop := by
  constructor
  · intro h
    have hcut (n : Nat) (u : Text) : u = (splitBytes n u).1 ++ (splitBytes n u).2 := by
      induction u generalizing n with
      | nil => rfl
      | cons c u ih =>
          rw [splitBytes]
          split
          · rfl
          · simpa using ih _
    simp only [slice] at h
    split at h
    · next hok =>
        simp only [Bool.and_eq_true, decide_eq_true_eq] at hok
        obtain ⟨⟨hle, hstart⟩, hsize⟩ := hok
        cases h
        refine ⟨_, (splitBytes (stop - start) (splitBytes start t).2).2, ?_, hstart, ?_⟩
        · rw [← hcut, ← hcut]
        · rw [byteSize_append, hstart, hsize]
          omega
    · cases h
  · rintro ⟨before, after, rfl, rfl, rfl⟩
    have hsize : byteSize (before ++ piece) - byteSize before = byteSize piece := by
      rw [byteSize_append]
      omega
    rw [slice]
    simp only [splitBytes_append, hsize]
    simp

/-- The letter takes two bytes, and no piece begins between them. -/
example : slice "é".toList 1 2 = .error (.slice 1 2) := by decide

theorem slice_append (before piece after : Text) :
    (before ++ (piece ++ after)).slice (byteSize before) (byteSize (before ++ piece)) = .ok piece :=
  slice_eq_ok_iff.2 ⟨before, after, rfl, rfl, rfl⟩

theorem sliceFrom_append (before rest : Text) :
    (before ++ rest).sliceFrom (byteSize before) = .ok rest := by
  have h := slice_append before rest []
  rwa [List.append_nil] at h

theorem find_of_not_mem (h : c ∉ t) : find c t = none := if_neg h

theorem find_append (h : c ∉ before) (rest : Text) :
    find c (before ++ c :: rest) = some (byteSize before) := by
  rw [find, if_pos (by simp), takeWhile_run (ne_of_not_mem h) (by simp)]

theorem lineEnd_append (before rest : Text) :
    (before ++ rest).lineEnd (byteSize before) = .ok (byteSize (before ++ firstLine rest)) := by
  rw [lineEnd, Checked.bind_ok (sliceFrom_append before rest)]
  rcases line_cases rest with h | ⟨l, below, h, rfl⟩
  · rw [find_of_not_mem h, firstLine_of_not_mem h]
    rfl
  · rw [find_append h, firstLine_line h]
    exact congrArg Except.ok (byteSize_append before l).symm

theorem slice_firstLine (before rest : Text) :
    (before ++ rest).slice (byteSize before) (byteSize (before ++ firstLine rest)) =
      .ok (firstLine rest) := by
  have h := slice_append before (firstLine rest) (rest.dropWhile (· ≠ '\n'))
  rwa [firstLine_append_dropWhile] at h

@[simp] theorem length_octets (t : Text) : (octets t).length = byteSize t := by
  induction t with
  | nil => rfl
  | cons c t ih =>
      rw [octets_cons, List.length_append, String.length_utf8EncodeChar, ih, byteSize_cons]

theorem octet?_append (before rest : Text) (k : Nat) :
    octet? (before ++ rest) (byteSize before + k) = octet? rest k := by
  rw [octet?, octets_append, List.getElem?_append_right (by simp), length_octets,
    Nat.add_sub_cancel_left, octet?]

theorem octet?_cons (hc : c.toNat < 128) (rest : Text) : octet? (c :: rest) 0 = some c := by
  rw [octet?, octets_ascii hc]
  exact congrArg some (Json.charOf_ofNat hc)

theorem byteSize_cons_ascii (hc : c.toNat < 128) (rest : Text) :
    byteSize (c :: rest) = 1 + byteSize rest := by
  rw [← length_octets, octets_ascii hc, List.length_cons, length_octets, Nat.add_comm]

theorem octet_append (hc : c.toNat < 128) (before rest : Text) :
    octet (before ++ c :: rest) (byteSize before) = .ok c := by
  have h := octet?_append before (c :: rest) 0
  rw [Nat.add_zero, octet?_cons hc] at h
  rw [octet, h]

theorem octet?_beyond (hc : 128 ≤ c.toNat) {k : Nat} (hk : k < c.utf8Size) (rest : Text) :
    ∃ b : Char, 128 ≤ b.toNat ∧ octet? (c :: rest) k = some b := by
  have hlength : k < (String.utf8EncodeChar c).length := by rwa [String.length_utf8EncodeChar]
  refine ⟨Json.charOf (String.utf8EncodeChar c)[k], ?_, ?_⟩
  · rw [Json.toNat_charOf]
    exact Json.le_of_mem_utf8EncodeChar hc _ (List.getElem_mem _)
  · rw [octet?, octets_cons, List.getElem?_append_left hlength, List.getElem?_eq_getElem hlength]
    rfl

theorem utf8Size_ascii (hc : c.toNat < 128) : c.utf8Size = 1 := by
  have h := byteSize_cons_ascii hc []
  simpa [byteSize_cons] using h

/-- Each octet of a character can be read: it is the character itself or lies beyond ASCII. -/
theorem octet_of_lt {k : Nat} (hk : k < c.utf8Size) (before rest : Text) :
    ∃ b, octet (before ++ c :: rest) (byteSize before + k) = .ok b ∧
      (b = c ∧ k = 0 ∨ 128 ≤ b.toNat) := by
  rcases Nat.lt_or_ge c.toNat 128 with hc | hc
  · obtain rfl : k = 0 := by
      rw [utf8Size_ascii hc] at hk
      omega
    exact ⟨c, octet_append hc before rest, Or.inl ⟨rfl, rfl⟩⟩
  · obtain ⟨b, hb, hoctet⟩ := octet?_beyond hc hk rest
    refine ⟨b, ?_, Or.inr hb⟩
    rw [octet, octet?_append, hoctet]

section

variable {a : Char} (ha : a.toNat < 128)
include ha

theorem octet?_eq_some_iff (before rest : Text) :
    octet? (before ++ rest) (byteSize before) = some a ↔ rest.head? = some a := by
  have happend := octet?_append before rest 0
  rw [Nat.add_zero] at happend
  rw [happend]
  cases rest with
  | nil => simp [octet?]
  | cons c rest =>
      rcases Nat.lt_or_ge c.toNat 128 with hc | hc
      · rw [octet?_cons hc, List.head?_cons]
      · obtain ⟨b, hb, hoctet⟩ := octet?_beyond hc c.utf8Size_pos rest
        rw [hoctet, List.head?_cons, Option.some.injEq, Option.some.injEq]
        constructor <;> rintro rfl <;> omega

theorem octet_behind (before rest : Text) (h : 0 < byteSize before) :
    ∃ b, octet (before ++ rest) (byteSize before - 1) = .ok b ∧
      (b = a ↔ before.getLast? = some a) := by
  rcases List.eq_nil_or_concat before with rfl | ⟨y, c, rfl⟩
  · simp at h
  rw [List.concat_eq_append, List.append_assoc, List.getLast?_concat, Option.some.injEq]
  have hpos := c.utf8Size_pos
  have hplace : byteSize (y ++ [c]) - 1 = byteSize y + (c.utf8Size - 1) := by
    rw [byteSize_append, byteSize_cons, byteSize_nil]
    omega
  rw [hplace]
  obtain ⟨b, hoctet, hb⟩ := octet_of_lt (Nat.sub_lt hpos Nat.one_pos) y rest
  refine ⟨b, hoctet, ?_⟩
  rcases hb with ⟨rfl, -⟩ | hb
  · rfl
  · rcases Nat.lt_or_ge c.toNat 128 with hc | hc
    · rw [utf8Size_ascii hc] at hoctet
      have := hoctet.symm.trans (octet_append hc y rest)
      cases this
      rfl
    · constructor <;> rintro rfl <;> omega

end

end Text

open Text

/-- A loop that passes the octets of a class passes a character of the class, from any of its octets
on, if no octet beyond ASCII stops it. -/
theorem loop_octets {P : Char → Prop} {k : Nat} (hbeyond : ∀ b : Char, 128 ≤ b.toNat → P b)
    (hround : ∀ i b, octet t i = .ok b → P b → round i s = .ok (.goOn (i + 1) s))
    (ht : t = before ++ c :: rest) (hk : k ≤ c.utf8Size) (hc : k = 0 → P c) :
    loop (byteSize t) round atEnd (byteSize before + k) s =
      loop (byteSize t) round atEnd (byteSize (before ++ [c])) s := by
  have hend : byteSize (before ++ [c]) = byteSize before + k + (c.utf8Size - k) := by
    rw [byteSize_append, byteSize_cons, byteSize_nil]
    omega
  have hsize : byteSize before + k + (c.utf8Size - k) ≤ byteSize t := by
    rw [ht, byteSize_append, byteSize_cons]
    omega
  rw [hend]
  refine loop_pass hsize fun n hn => ?_
  obtain ⟨b, hoctet, hb⟩ := octet_of_lt (c := c) (k := k + n) (by omega) before rest
  rw [← ht, ← Nat.add_assoc] at hoctet
  refine hround _ b hoctet ?_
  rcases hb with ⟨rfl, hzero⟩ | hb
  · exact hc (by omega)
  · exact hbeyond b hb

end ApiListing
