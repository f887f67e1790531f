import ApiListing.Document.Decode
import ApiListing.Document.Encode
import ApiListing.Proofs.NormalForms

namespace ApiListing

open Json (normal normalField normalFields)

variable {v w c : Json} {vs ws : List Json} {fs : List (String × Json)} {key : String}

namespace Json

theorem normal_eq_str_iff {s : String} : normal v = str s ↔ v = str s := by
  cases v <;> simp [normal]

theorem normal_eq_int_iff {n : Int} : normal v = int n ↔ v = int n := by
  cases v <;> simp [normal]

theorem normal_eq_arr_iff : normal v = arr ws ↔ ∃ vs, v = arr vs ∧ vs.map normal = ws := by
  cases v <;> simp [normal, normalItems_eq_map]

theorem map_normal_eq_map_iff {α : Type} {f : α → Json} {l : List α}
    (hf : ∀ v a, normal v = f a ↔ v = f a) : vs.map normal = l.map f ↔ vs = l.map f := by
  induction l generalizing vs with
  | nil => simp
  | cons a l ih => cases vs <;> simp [hf, ih]

theorem normal_eq_arr_map_iff {α : Type} {f : α → Json} {l : List α}
    (hf : ∀ v a, normal v = f a ↔ v = f a) : normal v = arr (l.map f) ↔ v = arr (l.map f) := by
  rw [normal_eq_arr_iff]
  constructor
  · rintro ⟨vs, rfl, hvs⟩
    rw [(map_normal_eq_map_iff hf).1 hvs]
  · rintro rfl
    exact ⟨_, rfl, (map_normal_eq_map_iff hf).2 rfl⟩

theorem valuesOf_eq_singleton_iff (h : (fs.map Prod.fst).Nodup) :
    valuesOf key fs = [v] ↔ (key, v) ∈ fs := by
  induction fs with
  | nil => simp [valuesOf]
  | cons f fs ih =>
      obtain ⟨k, w⟩ := f
      rw [List.map_cons, List.nodup_cons] at h
      by_cases hk : k = key
      · subst hk
        have habsent : ∀ x, (k, x) ∉ fs := fun x hx => h.1 (List.mem_map.2 ⟨(k, x), hx, rfl⟩)
        have hnone : fs.filter (fun f => f.1 = k) = [] := by
          refine List.filter_eq_nil_iff.2 fun f hf hkey => habsent f.2 ?_
          rw [← of_decide_eq_true hkey]
          exact hf
        simp [valuesOf, hnone, habsent, eq_comm (a := v)]
      · have hcons : valuesOf key ((k, w) :: fs) = valuesOf key fs := by simp [valuesOf, hk]
        rw [hcons, ih h.2]
        simp [Ne.symm hk]

theorem mapM_eq_some_iff {α : Type} {f : α → Json} {g : Json → Option α} {l : List α}
    (hg : ∀ v a, g v = some a ↔ v = f a) : vs.mapM g = some l ↔ vs = l.map f := by
  induction vs generalizing l with
  | nil => cases l <;> simp
  | cons v vs ih =>
      simp only [List.mapM_cons, Option.bind_eq_bind, Option.pure_def, Option.bind_eq_some_iff, hg,
        ih, Option.some.injEq]
      cases l with
      | nil => simp
      | cons a l => simp

end Json

namespace Tag

variable {t : Tag}

theorem split?_obj_iff (h : (fs.map Prod.fst).Nodup) : split? (.obj fs) = some (t, c) ↔
    ∃ name, ("t", name) ∈ fs ∧ ("c", c) ∈ fs ∧ ofField? name = some t := by
  rw [split?]
  constructor
  · intro hsplit
    split at hsplit
    · next name content hname hcontent =>
        obtain ⟨_, hfield, hpair⟩ := Option.map_eq_some_iff.1 hsplit
        cases hpair
        exact ⟨name, (Json.valuesOf_eq_singleton_iff h).1 hname,
          (Json.valuesOf_eq_singleton_iff h).1 hcontent, hfield⟩
    · cases hsplit
  · rintro ⟨name, hname, hcontent, hfield⟩
    rw [(Json.valuesOf_eq_singleton_iff h).2 hname, (Json.valuesOf_eq_singleton_iff h).2 hcontent]
    simp [hfield]

theorem ofField?_normal (h : v.IsPlain) : ofField? (normal v) = ofField? v := by
  cases v with
  | obj fs =>
      have hperm := Json.perm_normalFields h.nodup
      rw [Json.normal_obj]
      rcases fs with _ | ⟨⟨k, w⟩, _ | ⟨g, fs⟩⟩
      · rw [Json.normalFields]
      · have hone : normalFields [(k, w)] = [(k, normal w)] := List.perm_singleton.1 hperm
        rw [hone]
        cases w <;> simp [ofField?, normal]
      · obtain ⟨f', g', fs', hfields⟩ : ∃ f' g' fs', normalFields ((k, w) :: g :: fs) =
            f' :: g' :: fs' := by
          have hlength := hperm.length_eq
          rcases hfields : normalFields ((k, w) :: g :: fs) with _ | ⟨f', _ | ⟨g', fs'⟩⟩
          · simp [hfields] at hlength
          · simp [hfields] at hlength
          · exact ⟨f', g', fs', rfl⟩
        simp [hfields, ofField?]
  | arr vs => rw [Json.normal_arr]; rfl
  | _ => simp only [normal]

theorem ofItem?_normal (v : Json) : ofItem? (normal v) = ofItem? v := by
  cases v <;> simp [ofItem?, normal]

theorem split?_normal (h : v.IsPlain) :
    split? (normal v) = (split? v).map fun x => (x.1, normal x.2) := by
  cases v with
  | obj fs =>
      rw [Json.normal_obj]
      refine Option.ext fun ⟨t, c⟩ => ?_
      have hmem := fun f => (Json.perm_normalFields h.nodup).mem_iff (a := f)
      simp only [split?_obj_iff (Json.sortedKeys_normalFields fs).nodup, Option.map_eq_some_iff,
        Prod.exists, split?_obj_iff h.nodup, hmem, List.mem_map, normalField, Prod.mk.injEq]
      constructor
      · rintro ⟨_, ⟨k, name, hname, rfl, rfl⟩, ⟨k', content, hcontent, rfl, rfl⟩, hfield⟩
        rw [ofField?_normal (h.of_mem_fields hname)] at hfield
        exact ⟨t, content, ⟨name, hname, hcontent, hfield⟩, rfl, rfl⟩
      · rintro ⟨_, content, ⟨name, hname, hcontent, hfield⟩, rfl, rfl⟩
        rw [← ofField?_normal (h.of_mem_fields hname)] at hfield
        exact ⟨_, ⟨_, name, hname, rfl, rfl⟩, ⟨_, content, hcontent, rfl, rfl⟩, hfield⟩
  | arr vs =>
      rw [Json.normal_arr]
      rcases vs with _ | ⟨a, _ | ⟨b, _ | ⟨c, vs⟩⟩⟩
      · rfl
      · rfl
      · simp only [List.map_cons, List.map_nil, split?, ofItem?_normal, Option.map_map]
        rfl
      · rfl
  | _ => simp [normal, split?]

theorem isPlain_of_split? (h : v.IsPlain) {t : Tag} (hsplit : split? v = some (t, c)) :
    c.IsPlain := by
  cases v with
  | obj fs =>
      obtain ⟨_, -, hc, -⟩ := (split?_obj_iff h.nodup).1 hsplit
      exact h.of_mem_fields hc
  | arr vs =>
      match vs with
      | [a, b] =>
          obtain ⟨_, -, hpair⟩ := Option.map_eq_some_iff.1 hsplit
          cases hpair
          exact h.of_mem (by simp)
  | _ => cases hsplit

end Tag

theorem count?_eq_some_iff {n : Nat} : count? v = some n ↔ v = .int n ∧ n < 2 ^ 32 := by
  have hpow : Int.pow 2 32 = 4294967296 := by decide
  cases v with
  | int k =>
      simp only [count?, hpow, Option.ite_none_right_eq_some, Bool.and_eq_true, decide_eq_true_eq,
        Option.some.injEq, Json.int.injEq]
      omega
  | _ => simp [count?]

theorem count?_normal (v : Json) : count? (normal v) = count? v := by
  cases v <;> simp [count?, normal]

namespace Attr

theorem texts?_eq_some_iff {l : List String} : texts? vs = some l ↔ vs = l.map .str :=
  Json.mapM_eq_some_iff fun v s => by cases v <;> simp [Json.str?]

theorem pair?_eq_some_iff {p : String × String} :
    pair? v = some p ↔ v = .arr [.str p.1, .str p.2] := by
  obtain ⟨k, w⟩ := p
  unfold pair?
  split
  · simp
  · next hne =>
      simp only [reduceCtorEq, false_iff]
      exact hne k w

theorem ofJson?_eq_some_iff {a : Attr} : ofJson? v = some a ↔ v = a.toJson := by
  obtain ⟨identifier, classes, pairs⟩ := a
  unfold ofJson?
  split
  · next i cs ps =>
      have hpairs : ∀ l, ps.mapM pair? = some l ↔ ps = l.map fun p => .arr [.str p.1, .str p.2] :=
        fun _ => Json.mapM_eq_some_iff fun _ _ => pair?_eq_some_iff
      simp only [Option.bind_eq_bind, Option.pure_def, Option.bind_eq_some_iff, hpairs,
        texts?_eq_some_iff, Option.some.injEq, Attr.mk.injEq, toJson]
      constructor
      · rintro ⟨_, rfl, _, rfl, rfl, rfl, rfl⟩
        rfl
      · intro h
        simp only [Json.arr.injEq, List.cons.injEq, Json.str.injEq] at h
        exact ⟨_, h.2.1, _, h.2.2.1, h.1, rfl, rfl⟩
  · next hne =>
      simp only [reduceCtorEq, false_iff]
      exact hne _ _ _

theorem normal_eq_toJson_iff {a : Attr} : normal v = a.toJson ↔ v = a.toJson := by
  have hstr : ∀ (v : Json) (s : String), normal v = .str s ↔ v = .str s :=
    fun _ _ => Json.normal_eq_str_iff
  have hpair : ∀ (v : Json) (p : String × String),
      normal v = .arr [.str p.1, .str p.2] ↔ v = .arr [.str p.1, .str p.2] :=
    fun v p => Json.normal_eq_arr_map_iff (l := [p.1, p.2]) hstr
  constructor
  · intro h
    obtain ⟨vs, rfl, hvs⟩ := Json.normal_eq_arr_iff.1 h
    simp only [List.map_eq_cons_iff, List.map_eq_nil_iff, hstr, Json.normal_eq_arr_map_iff hstr,
      Json.normal_eq_arr_map_iff hpair] at hvs
    obtain ⟨_, _, rfl, rfl, _, _, rfl, rfl, _, _, rfl, rfl, rfl⟩ := hvs
    rfl
  · rintro rfl
    rw [toJson, Json.normal_arr, List.map_cons, List.map_cons, List.map_cons, List.map_nil,
      (hstr _ _).2 rfl, (Json.normal_eq_arr_map_iff hstr).2 rfl,
      (Json.normal_eq_arr_map_iff hpair).2 rfl]

theorem normal_toJson (a : Attr) : normal a.toJson = a.toJson := normal_eq_toJson_iff.2 rfl

end Attr

namespace Block

variable {b : Block} {t : Tag}

theorem header?_eq_some_iff : header? c = some b ↔ ∃ (level : Nat) (attr : Attr) (vs : List Json),
    c = .arr [.int level, attr.toJson, .arr vs] ∧ level < 2 ^ 32 ∧
      b = header level attr (vs.map normal) := by
  unfold header?
  split
  · next level attr vs =>
      simp only [Option.bind_eq_bind, Option.pure_def, Option.bind_eq_some_iff,
        count?_eq_some_iff, Attr.ofJson?_eq_some_iff, Option.some.injEq]
      constructor
      · rintro ⟨n, ⟨rfl, hn⟩, a, rfl, rfl⟩
        exact ⟨n, a, vs, rfl, hn, rfl⟩
      · rintro ⟨n, a, ws, hc, hn, rfl⟩
        simp only [Json.arr.injEq, List.cons.injEq] at hc
        exact ⟨n, ⟨hc.1, hn⟩, a, hc.2.1, by rw [hc.2.2.1]⟩
  · next hne =>
      simp only [reduceCtorEq, false_iff]
      rintro ⟨n, a, ws, hc, -⟩
      exact hne _ _ _ hc

theorem raw?_eq_some_iff : raw? c = some b ↔ ∃ (format text : String),
    c = .arr [.str format, .str text] ∧ b = raw format text := by
  unfold raw?
  split
  · next format text => simp [eq_comm]
  · next hne =>
      simp only [reduceCtorEq, false_iff]
      rintro ⟨format, text, hc, -⟩
      exact hne _ _ hc

theorem code?_eq_some_iff : code? c = some b ↔ ∃ (attr : Attr) (text : String),
    c = .arr [attr.toJson, .str text] ∧ b = code attr text := by
  unfold code?
  split
  · next attr text =>
      simp only [Option.map_eq_some_iff, Attr.ofJson?_eq_some_iff]
      constructor
      · rintro ⟨a, rfl, rfl⟩
        exact ⟨a, text, rfl, rfl⟩
      · rintro ⟨a, text, hc, rfl⟩
        simp only [Json.arr.injEq, List.cons.injEq, Json.str.injEq] at hc
        exact ⟨a, hc.1, by rw [hc.2.1]⟩
  · next hne =>
      simp only [reduceCtorEq, false_iff]
      rintro ⟨attr, text, hc, -⟩
      exact hne _ _ hc

theorem header?_normal (c : Json) : header? (normal c) = header? c := by
  refine Option.ext fun b => ?_
  rw [header?_eq_some_iff, header?_eq_some_iff]
  constructor
  · rintro ⟨n, a, ws, hc, hn, rfl⟩
    obtain ⟨vs, rfl, hvs⟩ := Json.normal_eq_arr_iff.1 hc
    simp only [List.map_eq_cons_iff, List.map_eq_nil_iff, Json.normal_eq_int_iff,
      Attr.normal_eq_toJson_iff, Json.normal_eq_arr_iff] at hvs
    obtain ⟨_, _, rfl, rfl, _, _, rfl, rfl, _, _, rfl, ⟨vs, rfl, rfl⟩, rfl⟩ := hvs
    exact ⟨n, a, vs, rfl, hn, by simp [Json.normal_normal]⟩
  · rintro ⟨n, a, vs, rfl, hn, rfl⟩
    refine ⟨n, a, vs.map normal, ?_, hn, by simp [Json.normal_normal]⟩
    rw [Json.normal_arr, List.map_cons, List.map_cons, List.map_cons, List.map_nil,
      Attr.normal_toJson, Json.normal_arr, normal] <;> simp

theorem raw?_normal (c : Json) : raw? (normal c) = raw? c := by
  refine Option.ext fun b => ?_
  rw [raw?_eq_some_iff, raw?_eq_some_iff]
  refine exists_congr fun format => exists_congr fun text => and_congr_left' ?_
  exact Json.normal_eq_arr_map_iff (l := [format, text]) fun _ _ => Json.normal_eq_str_iff

theorem code?_normal (c : Json) : code? (normal c) = code? c := by
  refine Option.ext fun b => ?_
  rw [code?_eq_some_iff, code?_eq_some_iff]
  refine exists_congr fun attr => exists_congr fun text => and_congr_left' ?_
  rw [Json.normal_eq_arr_iff]
  constructor
  · rintro ⟨vs, rfl, hvs⟩
    simp only [List.map_eq_cons_iff, List.map_eq_nil_iff, Json.normal_eq_str_iff,
      Attr.normal_eq_toJson_iff] at hvs
    obtain ⟨_, _, rfl, rfl, _, _, rfl, rfl, rfl⟩ := hvs
    rfl
  · rintro rfl
    exact ⟨_, rfl, by simp [Attr.normal_toJson, normal]⟩

/-- The block of a kind with this content, if the content has the shape of the kind. -/
def known? (t : Tag) (c : Json) : Option Block :=
  match t with
  | .header => header? c
  | .raw => raw? c
  | .code => code? c
  | .container kind => (Content.ofJson? kind.schema c).map (.container kind)

theorem ofJson_eq (v : Json) : ofJson v =
    ((Tag.split? v).bind fun x => known? x.1 x.2).getD (.other (normal v)) := by
  rw [ofJson]
  split
  · next hsplit => rw [hsplit]; rfl
  · next t c hsplit =>
      have hknown : ((Tag.split? v).bind fun x => known? x.1 x.2) = known? t c := by
        rw [hsplit, Option.bind_some]
      rw [hknown]
      cases t <;> simp only [known?] <;> split <;> simp only [*, Option.getD_some, Option.getD_none]

theorem ofItems_eq_map (vs : List Json) : ofItems vs = vs.map ofJson := by
  induction vs with
  | nil => rw [ofItems, List.map_nil]
  | cons v vs ih => rw [ofItems, ih, List.map_cons]

end Block

def Schema.items? (n : Nat) : Schema → Option (List Schema)
  | .list item => some (List.replicate n item)
  | .tuple items => some items
  | _ => none

theorem Schema.items?_length {s : Schema} {n : Nat} {items : List Schema}
    (h : s.items? n = some items) : s.items? items.length = some items := by
  cases s with
  | list item =>
      cases h
      rw [List.length_replicate, items?]
  | _ => exact h

namespace Content

variable {item : Schema} {items : List Schema} {cs : List Content} {content : Content}

theorem ofList?_eq_ofTuple? (item : Schema) (vs : List Json) :
    ofList? item vs = ofTuple? (List.replicate vs.length item) vs := by
  induction vs with
  | nil => rw [ofList?, List.length_nil, List.replicate_zero, ofTuple?]
  | cons v vs ih => rw [ofList?, List.length_cons, List.replicate_succ, ofTuple?, ih]

theorem ofTuple?_map {f : Json → Json} (h : ∀ v ∈ vs, ∀ s, ofJson? s (f v) = ofJson? s v) :
    ofTuple? items (vs.map f) = ofTuple? items vs := by
  induction vs generalizing items with
  | nil => rfl
  | cons v vs ih =>
      rw [List.forall_mem_cons] at h
      cases items with
      | nil => rw [List.map_cons, ofTuple?, ofTuple?] <;> simp
      | cons item items => rw [List.map_cons, ofTuple?, ofTuple?, h.1, ih h.2]

theorem ofJson?_count_iff : ofJson? .count v = some content ↔
    ∃ n : Nat, v = .int n ∧ n < 2 ^ 32 ∧ content = .value (.int n) := by
  rw [ofJson?]
  simp [Option.bind_eq_some_iff, count?_eq_some_iff, and_assoc, eq_comm (a := content)]

theorem eq_normal_of_ofJson? {s : Schema} (h : ofJson? s v = some (.value w)) : w = normal v := by
  cases s with
  | count =>
      obtain ⟨n, rfl, -, hw⟩ := ofJson?_count_iff.1 h
      simp only [value.injEq] at hw
      rw [hw, normal] <;> simp
  | _ => cases v <;> simp_all [ofJson?, normal]

theorem ofJson?_eq_blocks_iff {s : Schema} {bs : List Block} : ofJson? s v = some (.blocks bs) ↔
    ∃ vs, v = .arr vs ∧ s = .blocks ∧ vs.map Block.ofJson = bs := by
  cases s with
  | count => simp [ofJson?_count_iff]
  | _ => cases v <;> simp [ofJson?, Block.ofItems_eq_map]

theorem ofJson?_eq_list_iff {s : Schema} : ofJson? s v = some (.list cs) ↔
    ∃ items vs, v = .arr vs ∧ s.items? vs.length = some items ∧ ofTuple? items vs = some cs := by
  cases s with
  | count => simp [ofJson?_count_iff, Schema.items?]
  | _ => cases v <;> simp [ofJson?, Schema.items?, ofList?_eq_ofTuple?]

end Content

theorem Block.known?_normal {t : Tag}
    (h : ∀ s, Content.ofJson? s (normal c) = Content.ofJson? s c) :
    known? t (normal c) = known? t c := by
  cases t with
  | header => exact header?_normal c
  | raw => exact raw?_normal c
  | code => exact code?_normal c
  | container kind => rw [known?, known?, h]

mutual

theorem Block.ofJson_normal {v : Json} (h : v.IsPlain) :
    Block.ofJson (normal v) = Block.ofJson v := by
  rw [Block.ofJson_eq, Block.ofJson_eq, Tag.split?_normal h, Json.normal_normal]
  match hsplit : Tag.split? v with
  | none => rfl
  | some (t, c) =>
      have := Tag.sizeOf_lt_of_split? hsplit
      have hc := fun s => Content.ofJson?_normal s (Tag.isPlain_of_split? h hsplit)
      rw [Option.map_some, Option.bind_some, Option.bind_some, Block.known?_normal hc]
termination_by (sizeOf v, 0)

theorem Content.ofJson?_normal {v : Json} (s : Schema) (h : v.IsPlain) :
    Content.ofJson? s (normal v) = Content.ofJson? s v := by
  match v with
  | .arr vs =>
      have hblock : ∀ v ∈ vs, Block.ofJson (normal v) = Block.ofJson v := fun v hv =>
        have := Json.sizeOf_lt_of_mem hv
        Block.ofJson_normal (h.of_mem hv)
      have hitems : ∀ v ∈ vs, ∀ s, Content.ofJson? s (normal v) =
          Content.ofJson? s v := fun v hv s =>
        have := Json.sizeOf_lt_of_mem hv
        Content.ofJson?_normal s (h.of_mem hv)
      cases s with
      | value => rw [Content.ofJson?, Content.ofJson?, Json.normal_normal]
      | text => rw [Json.normal_arr, Content.ofJson?, Content.ofJson?] <;> simp
      | count => rw [Content.ofJson?, Content.ofJson?, count?_normal]
      | blocks =>
          rw [Json.normal_arr, Content.ofJson?, Content.ofJson?, Block.ofItems_eq_map,
            Block.ofItems_eq_map,
            List.map_map]
          exact congrArg (fun bs => some (Content.blocks bs)) (List.map_congr_left hblock)
      | list item =>
          rw [Json.normal_arr, Content.ofJson?, Content.ofJson?, Content.ofList?_eq_ofTuple?,
            Content.ofList?_eq_ofTuple?,
            List.length_map, Content.ofTuple?_map hitems]
      | tuple items =>
          rw [Json.normal_arr, Content.ofJson?, Content.ofJson?, Content.ofTuple?_map hitems]
  | .obj fs =>
      have hnormal := Json.normal_normal (.obj fs)
      rw [Json.normal_obj] at hnormal ⊢
      cases s <;> simp [Content.ofJson?, count?, hnormal, Json.normal_obj]
  | .null | .bool _ | .int _ | .float _ | .str _ => rw [normal] <;> simp
termination_by (sizeOf v, 0)

end

end ApiListing
