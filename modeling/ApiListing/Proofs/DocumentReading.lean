import ApiListing.Document.Encode
import ApiListing.Document.Reader
import ApiListing.Proofs.Decoding
import ApiListing.Proofs.ValueTexts

namespace ApiListing

namespace Json

def IsNumber : Json → Prop
  | .int _ => True
  | .float _ => True
  | _ => False

namespace Reader

theorem yields_floatOf (negative : Bool) (n : Nat) (e : Int) :
    Yields (floatOf negative n e) IsNumber := by
  unfold floatOf
  split
  · exact yields_pure trivial
  · exact yields_fail _ _

theorem yields_exponent (negative : Bool) (n : Nat) (scale : Int) :
    Yields (exponent negative n scale) IsNumber := by
  unfold exponent
  refine yields_bind fun sign => ?_
  extract_lets digits
  have hdigits : ∀ u, Yields (digits u) IsNumber := by
    refine fun u => yields_bind fun c => ?_
    split
    · exact yields_fail _ _
    · split
      · exact yields_fail _ _
      · refine yields_bind fun s => ?_
        split
        · exact yields_bind fun _ => yields_floatOf _ _ _
        · refine yields_bind fun _ => ?_
          split
          · exact yields_fail _ _
          · exact yields_bind fun _ => yields_pure trivial
  split
  · exact yields_bind hdigits
  · exact hdigits ()

theorem yields_fraction (negative : Bool) (n : Nat) (scale : Int) :
    Yields (fraction negative n scale) IsNumber := by
  unfold fraction
  refine yields_bind fun digits => ?_
  split
  · refine yields_bind fun c => ?_
    split <;> exact yields_fail _ _
  · split
    refine yields_bind fun c => ?_
    split
    · exact yields_bind fun _ => yields_exponent _ _ _
    · exact yields_floatOf _ _ _

theorem yields_afterDigits (negative : Bool) (n dropped : Nat) :
    Yields (afterDigits negative n dropped) IsNumber := by
  unfold afterDigits
  refine yields_bind fun c => ?_
  split_ifs
  · exact yields_bind fun _ => yields_fraction _ _ _
  · exact yields_bind fun _ => yields_exponent _ _ _
  · exact yields_floatOf _ _ _
  · exact yields_pure trivial
  · exact yields_floatOf _ _ _
  · exact yields_pure trivial

theorem yields_number (negative : Bool) : Yields (number negative) IsNumber := by
  unfold number
  refine yields_bind fun c => ?_
  split
  · exact yields_fail _ _
  · split_ifs
    · refine yields_bind fun digit => ?_
      split
      · exact yields_fail _ _
      · exact yields_afterDigits _ _ _
    · exact yields_bind fun digits => yields_afterDigits _ _ _
    · exact yields_fail _ _

variable {inner? : Option (Reader Json)} {bound n : Nat} {v : Json} {vs : List Json}
  {fs : List (String × Json)} {s w u : Bytes} {c : Char}

/-- How a value is read whose first octet is given: `w` begins with it, and `u` is left over. -/
inductive ReadAs (inner? : Option (Reader Json)) (bound : Nat) (w u : Bytes) : Char → Json → Prop
  | null : ReadAs inner? bound w u 'n' .null
  | bool (c : Char) (b : Bool) : ReadAs inner? bound w u c (.bool b)
  | str (s : String) : ReadAs inner? bound w u '"' (.str s)
  | negative {v : Json} (h : number true (w.drop 1) = .ok (v, u)) : ReadAs inner? bound w u '-' v
  | natural {c : Char} {v : Json} (hminus : c ≠ '-') (hdigit : c.isDigit = true)
      (h : number false w = .ok (v, u)) : ReadAs inner? bound w u c v
  | arr {inner : Reader Json} {vs : List Json} (hinner : inner? = some inner)
      (h : list inner bound (w.drop 1) = .ok (vs, u)) : ReadAs inner? bound w u '[' (.arr vs)
  | obj {inner : Reader Json} {fs : List (String × Json)} (hinner : inner? = some inner)
      (h : object string inner bound (w.drop 1) = .ok (fs, u)) :
      ReadAs inner? bound w u '\x7b' (.obj fs)

theorem eq_of_word {x : Json} {cs : List Char}
    (h : (do skip; word cs; return x : Reader Json) s = .ok (v, u)) : x = v := by
  obtain ⟨_, _, -, h⟩ := bind_eq_ok.1 h
  obtain ⟨_, _, -, h⟩ := bind_eq_ok.1 h
  exact (pure_eq_ok.1 h).1

theorem exists_of_behind {α : Type} {read : Reader α} {f : α → Json}
    (h : (do skip; return f (← read) : Reader Json) s = .ok (v, u)) :
    ∃ x, read (s.drop 1) = .ok (x, u) ∧ f x = v := by
  obtain ⟨_, _, hskip, h⟩ := bind_eq_ok.1 h
  cases hskip
  obtain ⟨x, _, hread, h⟩ := bind_eq_ok.1 h
  obtain ⟨hx, rfl⟩ := pure_eq_ok.1 h
  exact ⟨x, hread, hx⟩

theorem node_inversion (h : node inner? bound s = .ok (v, u)) :
    ∃ c w, start s = .ok (some c, w) ∧ ReadAs inner? bound w u c v := by
  unfold node at h
  obtain ⟨c?, w, hstart, h⟩ := bind_eq_ok.1 h
  cases c? with
  | none => cases h
  | some c =>
      refine ⟨c, w, hstart, ?_⟩
      simp only at h
      split_ifs at h with hn ht hf hminus hdigit hquote hlist hobject
      · obtain rfl := eq_of_word h
        exact hn ▸ .null
      · obtain rfl := eq_of_word h
        exact .bool c true
      · obtain rfl := eq_of_word h
        exact .bool c false
      · obtain ⟨_, _, hskip, h⟩ := bind_eq_ok.1 h
        cases hskip
        exact hminus ▸ .negative h
      · exact .natural hminus hdigit h
      · obtain ⟨t, -, rfl⟩ := exists_of_behind h
        exact hquote ▸ .str t
      · cases inner? with
        | none => cases h
        | some inner =>
            obtain ⟨vs, hitems, rfl⟩ := exists_of_behind h
            exact hlist ▸ .arr rfl hitems
      · cases inner? with
        | none => cases h
        | some inner =>
            obtain ⟨fs, hfields, rfl⟩ := exists_of_behind h
            exact hobject ▸ .obj rfl hfields
      · cases h

theorem depth_le_of_number {negative : Bool} (h : number negative s = .ok (v, u)) (n : Nat) :
    v.depth ≤ n := by
  have hnumber := yields_number negative s v u h
  cases v with
  | int k => simp [depth]
  | float x => simp [depth]
  | _ => exact hnumber.elim

/-- A value is nested no deeper than the reader goes. -/
theorem yields_value (bound n : Nat) : Yields (value bound n) fun v => v.depth ≤ n := by
  induction n with
  | zero =>
      intro s v u h
      obtain ⟨c, w, -, hread⟩ := node_inversion h
      cases hread with
      | negative h => exact depth_le_of_number h 0
      | natural _ _ h => exact depth_le_of_number h 0
      | arr hinner => cases hinner
      | obj hinner => cases hinner
      | _ => simp [depth]
  | succ n ih =>
      intro s v u h
      obtain ⟨c, w, -, hread⟩ := node_inversion h
      cases hread with
      | negative h => exact depth_le_of_number h (n + 1)
      | natural _ _ h => exact depth_le_of_number h (n + 1)
      | arr hinner h =>
          cases hinner
          rw [depth, Nat.add_le_add_iff_right, depthOfItems_le_iff]
          exact ih.list bound _ _ _ h
      | obj hinner h =>
          cases hinner
          rw [depth, Nat.add_le_add_iff_right, depthOfFields_le_iff]
          exact ih.object string bound _ _ _ h
      | _ => simp [depth]

theorem value_arr (h : value bound (n + 1) s = .ok (.arr vs, u)) : ∃ w,
    start s = .ok (some '[', w) ∧ list (value bound n) bound (w.drop 1) = .ok (vs, u) := by
  obtain ⟨c, w, hstart, hread⟩ := node_inversion h
  refine ⟨w, ?_⟩
  cases hread with
  | negative hnumber => exact (yields_number _ _ _ _ hnumber).elim
  | natural _ _ hnumber => exact (yields_number _ _ _ _ hnumber).elim
  | arr hinner hlist =>
      cases hinner
      exact ⟨hstart, hlist⟩

theorem value_obj (h : value bound (n + 1) s = .ok (.obj fs, u)) : ∃ w,
    start s = .ok (some '\x7b', w) ∧
      object string (value bound n) bound (w.drop 1) = .ok (fs, u) := by
  obtain ⟨c, w, hstart, hread⟩ := node_inversion h
  refine ⟨w, ?_⟩
  cases hread with
  | negative hnumber => exact (yields_number _ _ _ _ hnumber).elim
  | natural _ _ hnumber => exact (yields_number _ _ _ _ hnumber).elim
  | obj hinner hobject =>
      cases hinner
      exact ⟨hstart, hobject⟩

/-- Items of two readers, one of which gives the images of what the other gives. -/
theorem items_of_map {α β : Type} {r : Reader α} {q : Reader β} {f : α → β} {xs : List α}
    {first : Bool} (hr : ∀ x ∈ xs, ∀ s u, q s = .ok (f x, u) → r s = .ok (x, u))
    (h : items q bound first s = .ok (xs.map f, u)) : items r bound first s = .ok (xs, u) := by
  induction bound generalizing first xs s with
  | zero => cases h
  | succ bound ih =>
      obtain ⟨another, w, hanother, h⟩ := bind_eq_ok.1 h
      rw [items, bind_of_ok hanother]
      cases another with
      | false =>
          obtain ⟨hnil, rfl⟩ := pure_eq_ok.1 h
          rw [List.map_eq_nil_iff.1 hnil.symm]
          rfl
      | true =>
          obtain ⟨y, w, hy, h⟩ := bind_eq_ok.1 h
          obtain ⟨ys, w, hys, h⟩ := bind_eq_ok.1 h
          obtain ⟨hcons, rfl⟩ := pure_eq_ok.1 h
          obtain ⟨x, xs, rfl, rfl, rfl⟩ := List.map_eq_cons_iff.1 hcons.symm
          rw [List.forall_mem_cons] at hr
          simp only [if_true]
          rw [bind_of_ok (hr.1 _ _ hy), bind_of_ok (ih hr.2 hys)]
          rfl

theorem list_of_map {α β : Type} {r : Reader α} {q : Reader β} {f : α → β} {xs : List α}
    (hr : ∀ x ∈ xs, ∀ s u, q s = .ok (f x, u) → r s = .ok (x, u))
    (h : list q bound s = .ok (xs.map f, u)) : list r bound s = .ok (xs, u) := by
  obtain ⟨ys, w, hitems, h⟩ := bind_eq_ok.1 h
  obtain ⟨_, _, hend, h⟩ := bind_eq_ok.1 h
  obtain ⟨rfl, rfl⟩ := pure_eq_ok.1 h
  rw [list, bind_of_ok (items_of_map hr hitems), bind_of_ok hend]
  rfl

end Reader

theorem ofBytes_eq_ok {input : Bytes} {v : Json} (h : ofBytes input = .ok v) : ∃ u w,
    Reader.value (input.length + 1) maxNesting input = .ok (v, u) ∧
      Reader.finish u = .ok ((), w) := by
  rw [ofBytes] at h
  cases hvalue : Reader.value (input.length + 1) maxNesting input with
  | error fault =>
      rw [hvalue] at h
      cases h
  | ok x =>
      obtain ⟨w, u⟩ := x
      rw [hvalue] at h
      cases hfinish : Reader.finish u with
      | error fault =>
          simp [bind, Except.bind, Functor.discard, Functor.mapConst, Except.map, hfinish] at h
      | ok y =>
          simp only [bind, Except.bind, Functor.discard, Functor.mapConst, Except.map, hfinish,
            Function.comp_apply, pure, Except.pure, Except.ok.injEq] at h
          exact ⟨u, y.2, by rw [h], hfinish⟩

theorem depth_le_of_ofBytes {input : Bytes} {v : Json} (h : ofBytes input = .ok v) :
    v.depth ≤ maxNesting := by
  obtain ⟨u, w, hvalue, -⟩ := ofBytes_eq_ok h
  exact Reader.yields_value _ _ _ _ _ hvalue

end Json

namespace Document

open Json Json.Reader

def Parts.field (p : Parts) (f : Field) : String × Json :=
  (f.name, match f with
    | .apiVersion => .arr (p.apiVersion.map fun (n : Nat) => .int n)
    | .metadata => .obj p.metadata
    | .blocks => .arr p.blocks)

def Draft.of (p : Parts) (seen : List Field) : Draft where
  apiVersion? := if .apiVersion ∈ seen then some p.apiVersion else none
  metadata? := if .metadata ∈ seen then some p.metadata else none
  blocks? := if .blocks ∈ seen then some p.blocks else none

variable {p : Parts} {seen fs : List Field} {f : Field} {bound left n : Nat} {s w u : Bytes}
  {first : Bool}

theorem Draft.of_nil : Draft.of p [] = {} := by
  simp [of]

theorem Draft.has_of : (Draft.of p seen).has f = decide (f ∈ seen) := by
  cases f <;> simp only [has, of] <;> split_ifs <;> simp [*]

theorem Draft.finish_of (h : ∀ f, f ∈ seen) : (Draft.of p seen).finish = .ok p := by
  simp only [finish, of, h, if_true]

theorem readCount_of_value (hn : n < 2 ^ 32) (h : value bound left s = .ok (.int n, u)) :
    readCount s = .ok (n, u) := by
  have hcount : count? (.int n) = some n := count?_eq_some_iff.2 ⟨rfl, hn⟩
  obtain ⟨inner?, hnode⟩ : ∃ inner?, node inner? bound s = .ok (.int n, u) := by
    cases left <;> exact ⟨_, h⟩
  obtain ⟨c, w, hstart, hread⟩ := node_inversion hnode
  unfold readCount
  rw [bind_of_ok hstart]
  cases hread with
  | negative hnumber =>
      have hskip : skip w = .ok ((), w.drop 1) := rfl
      simp only [if_true]
      rw [bind_of_ok hskip, bind_of_ok hnumber, hcount]
      rfl
  | natural hminus hdigit hnumber =>
      simp only [if_neg hminus, hdigit, if_true]
      rw [bind_of_ok hnumber, hcount]
      rfl

theorem openWith_of_start {c : Char} (h : start s = .ok (some c, w)) (expected : String) :
    openWith c expected s = .ok ((), w.drop 1) := by
  rw [openWith, bind_of_ok h]
  simp only [if_true]
  rfl

theorem readField_of_value (hcounts : ∀ n ∈ p.apiVersion, n < 2 ^ 32)
    (h : value bound (fieldNesting + 1) s = .ok ((p.field f).2, u)) :
    readField bound (.of p seen) f s = .ok (.of p (f :: seen), u) := by
  cases f with
  | apiVersion =>
      obtain ⟨w, hstart, hlist⟩ := value_arr h
      have hread := list_of_map (fun n hn s u => readCount_of_value (hcounts n hn)) hlist
      rw [readField, bind_of_ok (openWith_of_start hstart _), bind_of_ok hread]
      exact pure_eq_ok.2 ⟨by simp [Draft.of], rfl⟩
  | metadata =>
      obtain ⟨w, hstart, hobject⟩ := value_obj h
      rw [readField, bind_of_ok (openWith_of_start hstart _), bind_of_ok hobject]
      exact pure_eq_ok.2 ⟨by simp [Draft.of], rfl⟩
  | blocks =>
      obtain ⟨w, hstart, hlist⟩ := value_arr h
      rw [readField, bind_of_ok (openWith_of_start hstart _), bind_of_ok hlist]
      exact pure_eq_ok.2 ⟨by simp [Draft.of], rfl⟩

theorem Field.ofName?_name (f : Field) : ofName? f.name = some f := by
  cases f <;> decide

theorem readFields_of_fields (hcounts : ∀ n ∈ p.apiVersion, n < 2 ^ 32) (hnodup : fs.Nodup)
    (hnew : ∀ f ∈ fs, f ∉ seen)
    (h : fields string (value bound (fieldNesting + 1)) left first s = .ok (fs.map p.field, u)) :
    readFields bound first (.of p seen) left s = .ok (.ok (.of p (fs.reverse ++ seen)), u) := by
  induction left generalizing fs seen first s with
  | zero => cases h
  | succ left ih =>
      obtain ⟨another, w, hanother, h⟩ := bind_eq_ok.1 h
      rw [readFields, bind_of_ok hanother]
      cases another with
      | false =>
          obtain ⟨hnil, rfl⟩ := pure_eq_ok.1 h
          obtain rfl := List.map_eq_nil_iff.1 hnil.symm
          rfl
      | true =>
          obtain ⟨_, w, hskip, h⟩ := bind_eq_ok.1 h
          obtain ⟨key, w, hkey, h⟩ := bind_eq_ok.1 h
          obtain ⟨_, w, hcolon, h⟩ := bind_eq_ok.1 h
          obtain ⟨v, w, hv, h⟩ := bind_eq_ok.1 h
          obtain ⟨tail, _, htail, h⟩ := bind_eq_ok.1 h
          obtain ⟨hcons, rfl⟩ := pure_eq_ok.1 h
          obtain ⟨f, fs, rfl, hfield, rfl⟩ := List.map_eq_cons_iff.1 hcons.symm
          obtain ⟨rfl, rfl⟩ := Prod.ext_iff.1 hfield
          rw [List.nodup_cons] at hnodup
          rw [List.forall_mem_cons] at hnew
          have hhas : ¬ (Draft.of p seen).has f = true := by
            rw [Draft.has_of, decide_eq_true_eq]
            exact hnew.1
          have hnew' : ∀ g ∈ fs, g ∉ f :: seen := by
            intro g hg hmem
            rcases List.mem_cons.1 hmem with rfl | hmem
            · exact hnodup.1 hg
            · exact hnew.2 g hg hmem
          have hname : Field.ofName? (p.field f).1 = some f := Field.ofName?_name f
          simp only [if_true]
          rw [bind_of_ok hskip, bind_of_ok hkey, hname]
          simp only [if_neg hhas]
          rw [bind_of_ok hcolon, bind_of_ok (readField_of_value hcounts hv),
            ih hnodup.2 hnew' htail, List.reverse_cons, List.append_assoc, List.singleton_append]

/-- Where a reader of values finds an object with the fields of a document, these are its parts. -/
theorem partsOf_of_ofBytes {input : Bytes} (hcounts : ∀ n ∈ p.apiVersion, n < 2 ^ 32)
    (hnodup : fs.Nodup) (hall : ∀ f, f ∈ fs)
    (h : Json.ofBytes input = .ok (.obj (fs.map p.field))) : partsOf input = .ok p := by
  obtain ⟨u, rest, hvalue, hfinish⟩ := Json.ofBytes_eq_ok h
  rw [(by decide : maxNesting = fieldNesting + 1 + 1)] at hvalue
  obtain ⟨w, hstart, hobject⟩ := value_obj hvalue
  obtain ⟨_, v, hfields, h⟩ := bind_eq_ok.1 hobject
  obtain ⟨_, u, hend, h⟩ := bind_eq_ok.1 h
  obtain ⟨rfl, rfl⟩ := pure_eq_ok.1 h
  have hread : readFields (input.length + 1) true (.of p []) (input.length + 1) (w.drop 1) =
      .ok (.ok (.of p (fs.reverse ++ [])), v) :=
    readFields_of_fields hcounts hnodup (by simp) hfields
  have hdraft : (Draft.of p (fs.reverse ++ [])).finish = .ok p :=
    Draft.finish_of (by simpa using hall)
  rw [Draft.of_nil] at hread
  have hskip : skip w = .ok ((), w.drop 1) := rfl
  have hreadObject : readObject (input.length + 1) (w.drop 1) = .ok (p, u) := by
    rw [readObject, bind_of_ok hread]
    simp only
    rw [bind_of_ok hend, hdraft]
    rfl
  have hreader : reader (input.length + 1) input = .ok (p, rest) := by
    rw [reader, bind_of_ok hstart]
    simp only [if_true]
    rw [bind_of_ok hskip, bind_of_ok hreadObject, bind_of_ok hfinish]
    rfl
  rw [partsOf, hreader]
  rfl

end Document

end ApiListing
