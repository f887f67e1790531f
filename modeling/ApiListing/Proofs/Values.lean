import ApiListing.Json.Basic
import ApiListing.Json.NumberReader
import Mathlib.Algebra.Group.Nat.Defs
import Mathlib.Data.List.Nodup

namespace ApiListing.Json

variable {items : List Json} {fields : List (String × Json)} {v : Json} {n : Nat}

theorem sizeOf_lt_of_mem (h : v ∈ items) : sizeOf v < sizeOf (arr items) := by
  have := List.sizeOf_lt_of_mem h
  simp only [arr.sizeOf_spec]
  omega

theorem sizeOf_lt_of_mem_fields {f : String × Json} (h : f ∈ fields) :
    sizeOf f.2 < sizeOf (obj fields) := by
  have := List.sizeOf_lt_of_mem h
  obtain ⟨k, w⟩ := f
  simp only [Prod.mk.sizeOf_spec, obj.sizeOf_spec] at *
  omega

@[elab_as_elim]
theorem induction {motive : Json → Prop} (null : motive null) (bool : ∀ b, motive (bool b))
    (int : ∀ n, motive (int n)) (float : ∀ x, motive (float x)) (str : ∀ s, motive (str s))
    (arr : ∀ items, (∀ v ∈ items, motive v) → motive (arr items))
    (obj : ∀ fields, (∀ f ∈ fields, motive f.2) → motive (obj fields)) : ∀ v, motive v
  | .null => null
  | .bool b => bool b
  | .int n => int n
  | .float x => float x
  | .str s => str s
  | .arr items => arr items fun v _ => induction null bool int float str arr obj v
  | .obj fields => obj fields fun f _ => induction null bool int float str arr obj f.2
termination_by v => sizeOf v
decreasing_by
  · exact sizeOf_lt_of_mem ‹_›
  · exact sizeOf_lt_of_mem_fields ‹_›

/-- No object repeats a key, and every number is an integer of 64 bits. -/
inductive IsPlain : Json → Prop
  | null : IsPlain null
  | bool (b : Bool) : IsPlain (bool b)
  | int {n : Int} (hmin : minInteger ≤ n) (hmax : n ≤ maxSignificand) : IsPlain (int n)
  | str (s : String) : IsPlain (str s)
  | arr {items : List Json} (hitems : ∀ v ∈ items, IsPlain v) : IsPlain (arr items)
  | obj {fields : List (String × Json)} (hkeys : (fields.map Prod.fst).Nodup)
      (hfields : ∀ f ∈ fields, IsPlain f.2) : IsPlain (obj fields)

theorem IsPlain.of_mem (h : IsPlain (.arr items)) (hv : v ∈ items) : v.IsPlain := by
  cases h with
  | arr hitems => exact hitems v hv

@[simp] theorem isPlain_arr_iff : IsPlain (.arr items) ↔ ∀ v ∈ items, v.IsPlain :=
  ⟨fun h _ hv => h.of_mem hv, .arr⟩

@[simp] theorem isPlain_str (s : String) : IsPlain (.str s) := .str s

theorem IsPlain.nodup (h : IsPlain (.obj fields)) : (fields.map Prod.fst).Nodup := by
  cases h with
  | obj hkeys => exact hkeys

@[simp] theorem isPlain_null : IsPlain .null := .null

theorem IsPlain.of_mem_fields {f : String × Json} (h : IsPlain (.obj fields)) (hf : f ∈ fields) :
    f.2.IsPlain := by
  cases h with
  | obj _ hfields => exact hfields f hf

@[simp] theorem isPlain_obj_iff :
    IsPlain (.obj fields) ↔ (fields.map Prod.fst).Nodup ∧ ∀ f ∈ fields, f.2.IsPlain :=
  ⟨fun h => ⟨h.nodup, fun _ hf => h.of_mem_fields hf⟩, fun h => .obj h.1 h.2⟩

mutual

def depth : Json → Nat
  | arr items => depthOfItems items + 1
  | obj fields => depthOfFields fields + 1
  | _ => 0

def depthOfItems : List Json → Nat
  | [] => 0
  | v :: vs => max (depth v) (depthOfItems vs)

def depthOfFields : List (String × Json) → Nat
  | [] => 0
  | (_, v) :: fs => max (depth v) (depthOfFields fs)

end

theorem depthOfItems_le_iff : depthOfItems items ≤ n ↔ ∀ v ∈ items, v.depth ≤ n := by
  induction items with
  | nil => simp [depthOfItems]
  | cons v vs ih => rw [depthOfItems, Nat.max_le, ih, List.forall_mem_cons]

theorem depthOfFields_le_iff : depthOfFields fields ≤ n ↔ ∀ f ∈ fields, f.2.depth ≤ n := by
  induction fields with
  | nil => simp [depthOfFields]
  | cons f fs ih => rw [depthOfFields, Nat.max_le, ih, List.forall_mem_cons]

end ApiListing.Json
