import ApiListing.Proofs.Values
import Mathlib.Data.List.Perm.Basic
import Mathlib.Order.Nat

namespace ApiListing.Json

variable {key : String} {value v w : Json} {items : List Json} {f : String × Json}
  {fs gs : List (String × Json)}

def SortedKeys (fs : List (String × Json)) : Prop := fs.Pairwise fun f g => f.1 < g.1

theorem SortedKeys.nodup (h : SortedKeys fs) : (fs.map Prod.fst).Nodup := by
  refine List.pairwise_map.2 (h.imp fun hlt heq => ?_)
  rw [heq] at hlt
  exact String.lt_irrefl _ hlt

/-- Fields with sorted keys stand in one order only. -/
theorem SortedKeys.eq_of_perm (hf : SortedKeys fs) (hg : SortedKeys gs) (h : fs.Perm gs) :
    fs = gs := by
  refine h.eq_of_pairwise (fun f g _ _ hfg hgf => ?_) hf hg
  exact absurd (String.lt_trans hfg hgf) (String.lt_irrefl _)

theorem hasKey_iff : hasKey key fs = true ↔ key ∈ fs.map Prod.fst := by
  simp [hasKey]

theorem mem_setField (h : f ∈ setField key value fs) : f = (key, value) ∨ f ∈ fs := by
  induction fs with
  | nil => exact Or.inl (List.mem_singleton.1 h)
  | cons g fs ih =>
      obtain ⟨k, w⟩ := g
      rw [setField] at h
      split_ifs at h
      · exact (List.mem_cons.1 h).imp_right (List.mem_cons_of_mem _)
      · exact List.mem_cons.1 h
      · rcases List.mem_cons.1 h with rfl | h
        · exact Or.inr (List.mem_cons_self ..)
        · exact (ih h).imp_right (List.mem_cons_of_mem _)

theorem perm_setField (h : key ∉ fs.map Prod.fst) :
    (setField key value fs).Perm ((key, value) :: fs) := by
  induction fs with
  | nil => exact List.Perm.refl _
  | cons g fs ih =>
      obtain ⟨k, w⟩ := g
      rw [List.map_cons, List.mem_cons, not_or] at h
      rw [setField, if_neg h.1]
      split_ifs
      · exact List.Perm.refl _
      · exact ((ih h.2).cons _).trans (List.Perm.swap ..)

theorem SortedKeys.setField (h : SortedKeys fs) (key : String) (value : Json) :
    SortedKeys (setField key value fs) := by
  induction fs with
  | nil => exact List.pairwise_singleton _ _
  | cons g fs ih =>
      obtain ⟨k, w⟩ := g
      obtain ⟨hk, htail⟩ := List.pairwise_cons.1 h
      rw [Json.setField]
      split_ifs with heq hlt
      · subst heq
        exact List.pairwise_cons.2 ⟨hk, htail⟩
      · refine List.pairwise_cons.2 ⟨List.forall_mem_cons.2 ⟨hlt, fun f hf => ?_⟩, h⟩
        exact String.lt_trans hlt (hk f hf)
      · refine List.pairwise_cons.2 ⟨fun f hf => ?_, ih htail⟩
        rcases mem_setField hf with rfl | hf
        · by_contra hkey
          exact heq (String.le_antisymm (String.not_lt.1 hkey) (String.not_lt.1 hlt))
        · exact hk f hf

theorem normalFields_cons_of_mem (h : key ∈ (normalFields fs).map Prod.fst) :
    normalFields ((key, value) :: fs) = normalFields fs := by
  rw [normalFields, if_pos (hasKey_iff.2 h)]

theorem normalFields_cons_of_not_mem (h : key ∉ (normalFields fs).map Prod.fst) :
    normalFields ((key, value) :: fs) = setField key (normal value) (normalFields fs) := by
  rw [normalFields, if_neg fun hkey => h (hasKey_iff.1 hkey)]

def normalField (f : String × Json) : String × Json := (f.1, normal f.2)

theorem mem_normalFields (h : f ∈ normalFields fs) : f ∈ fs.map normalField := by
  induction fs with
  | nil =>
      rw [normalFields] at h
      cases h
  | cons g fs ih =>
      obtain ⟨k, w⟩ := g
      rw [List.map_cons, List.mem_cons]
      by_cases hk : k ∈ (normalFields fs).map Prod.fst
      · rw [normalFields_cons_of_mem hk] at h
        exact Or.inr (ih h)
      · rw [normalFields_cons_of_not_mem hk] at h
        exact (mem_setField h).imp_right ih

theorem sortedKeys_normalFields (fs : List (String × Json)) : SortedKeys (normalFields fs) := by
  induction fs with
  | nil =>
      rw [normalFields]
      exact List.Pairwise.nil
  | cons f fs ih =>
      obtain ⟨k, w⟩ := f
      by_cases hk : k ∈ (normalFields fs).map Prod.fst
      · rw [normalFields_cons_of_mem hk]
        exact ih
      · rw [normalFields_cons_of_not_mem hk]
        exact ih.setField k (normal w)

theorem perm_normalFields (h : (fs.map Prod.fst).Nodup) :
    (normalFields fs).Perm (fs.map normalField) := by
  induction fs with
  | nil => rw [normalFields, List.map_nil]
  | cons f fs ih =>
      obtain ⟨k, w⟩ := f
      rw [List.map_cons, List.nodup_cons] at h
      have hkeys : ((normalFields fs).map Prod.fst).Perm (fs.map Prod.fst) := by
        simpa [normalField, Function.comp_def] using (ih h.2).map Prod.fst
      have hk : k ∉ (normalFields fs).map Prod.fst := fun hmem => h.1 (hkeys.mem_iff.1 hmem)
      rw [normalFields_cons_of_not_mem hk, List.map_cons]
      exact (perm_setField hk).trans ((ih h.2).cons _)

/-- Objects with the same fields, up to their order and the forms of the values, have one normal
form. -/
theorem normalFields_eq_of_perm (hf : (fs.map Prod.fst).Nodup) (hg : (gs.map Prod.fst).Nodup)
    (h : (fs.map normalField).Perm (gs.map normalField)) : normalFields fs = normalFields gs :=
  (sortedKeys_normalFields fs).eq_of_perm (sortedKeys_normalFields gs)
    ((perm_normalFields hf).trans (h.trans (perm_normalFields hg).symm))

theorem map_eq_self_iff {α : Type} {f : α → α} {l : List α} :
    l.map f = l ↔ ∀ a ∈ l, f a = a := by
  simpa using List.map_eq_map_iff (l := l) (f := f) (g := id)

theorem normalItems_eq_map (items : List Json) : normalItems items = items.map normal := by
  induction items with
  | nil => rw [normalItems, List.map_nil]
  | cons v vs ih => rw [normalItems, ih, List.map_cons]

theorem normal_arr (items : List Json) : normal (arr items) = arr (items.map normal) := by
  rw [normal, normalItems_eq_map]

theorem normal_obj (fs : List (String × Json)) : normal (obj fs) = obj (normalFields fs) := by
  rw [normal]

theorem normalFields_of_normal (hsorted : SortedKeys fs) (h : ∀ f ∈ fs, normal f.2 = f.2) :
    normalFields fs = fs := by
  have hmap : fs.map normalField = fs :=
    map_eq_self_iff.2 fun f hf => by rw [normalField, h f hf]
  refine (sortedKeys_normalFields fs).eq_of_perm hsorted ?_
  simpa [hmap] using perm_normalFields hsorted.nodup

theorem normal_normal (v : Json) : normal (normal v) = normal v := by
  induction v using Json.induction with
  | arr items ih =>
      rw [normal_arr, normal_arr, List.map_map]
      exact congrArg arr (List.map_congr_left ih)
  | obj fields ih =>
      rw [normal_obj, normal_obj]
      refine congrArg obj (normalFields_of_normal (sortedKeys_normalFields fields) fun f hf => ?_)
      obtain ⟨g, hg, rfl⟩ := List.mem_map.1 (mem_normalFields hf)
      exact ih g hg
  | _ => simp only [normal]

theorem IsPlain.normal (h : IsPlain v) : IsPlain (normal v) := by
  induction v using Json.induction with
  | arr items ih =>
      rw [normal_arr]
      refine IsPlain.arr fun w hw => ?_
      obtain ⟨v, hv, rfl⟩ := List.mem_map.1 hw
      exact ih v hv (h.of_mem hv)
  | obj fields ih =>
      rw [normal_obj]
      refine IsPlain.obj (sortedKeys_normalFields fields).nodup fun f hf => ?_
      obtain ⟨g, hg, rfl⟩ := List.mem_map.1 (mem_normalFields hf)
      exact ih g hg (h.of_mem_fields hg)
  | _ => rw [Json.normal]; exact h; all_goals simp

theorem depth_normal (h : IsPlain v) : (normal v).depth = v.depth := by
  induction v using Json.induction with
  | arr items ih =>
      rw [normal_arr, depth, depth, Nat.add_right_cancel_iff]
      refine eq_of_forall_ge_iff fun n => ?_
      rw [depthOfItems_le_iff, depthOfItems_le_iff, List.forall_mem_map]
      refine forall_congr' fun v => forall_congr' fun hv => ?_
      rw [ih v hv (h.of_mem hv)]
  | obj fields ih =>
      rw [normal_obj, depth, depth, Nat.add_right_cancel_iff]
      refine eq_of_forall_ge_iff fun n => ?_
      have hmem := fun f => (perm_normalFields h.nodup).mem_iff (a := f)
      simp only [depthOfFields_le_iff, hmem, List.forall_mem_map]
      refine forall_congr' fun f => forall_congr' fun hf => ?_
      rw [normalField, ih f hf (h.of_mem_fields hf)]
  | _ => rw [Json.normal]; all_goals simp

end ApiListing.Json
