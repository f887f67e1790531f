import ApiListing.Proofs.Decoding
import Mathlib.Data.List.Forall2

namespace ApiListing

open Json (normal)

variable {b : Block} {bs : List Block} {content : Content} {cs : List Content} {s : Schema}
  {items : List Schema} {t : Tag} {v c : Json} {vs : List Json}

structure Block.IsStable (b : Block) : Prop where
  plain : b.toJson.IsPlain
  decoded : Block.ofJson b.toJson = b

structure Content.Fits (s : Schema) (c : Content) : Prop where
  plain : c.toJson.IsPlain
  decoded : Content.ofJson? s c.toJson = some c

namespace Tag

theorem ofName?_name (t : Tag) : ofName? t.name = some t := by
  rcases t with _ | _ | _ | kind
  case container => cases kind <;> decide
  all_goals decide

theorem split?_taggedJson (t : Tag) (c : Json) : split? (taggedJson t c) = some (t, c) := by
  refine (split?_obj_iff (by simp)).2 ⟨.str t.name, by simp, by simp, ?_⟩
  exact ofName?_name t

end Tag

theorem Attr.isPlain_toJson (a : Attr) : a.toJson.IsPlain := by
  have hpair : ∀ p : String × String, (Json.arr [.str p.1, .str p.2]).IsPlain := by simp
  simpa [toJson] using fun v k w hp hv => hv ▸ hpair (k, w)

theorem isPlain_count {n : Nat} (h : n < 2 ^ 32) : (Json.int n).IsPlain := by
  have hmin : Json.minInteger = -9223372036854775808 := by decide
  have hmax : Json.maxSignificand = 18446744073709551615 := by decide
  exact .int (by omega) (by omega)

theorem isPlain_taggedJson : (taggedJson t c).IsPlain ↔ c.IsPlain := by
  constructor
  · intro h
    exact h.of_mem_fields (f := ("c", c)) (by simp)
  · intro h
    refine Json.IsPlain.obj (by simp) ?_
    simp [h]

namespace Block

theorem toItems_eq_map (bs : List Block) : toItems bs = bs.map toJson := by
  induction bs with
  | nil => rw [toItems, List.map_nil]
  | cons b bs ih => rw [toItems, ih, List.map_cons]

theorem map_ofJson_toJson_iff :
    (bs.map toJson).map ofJson = bs ↔ ∀ b ∈ bs, ofJson b.toJson = b := by
  rw [List.map_map, Json.map_eq_self_iff]
  rfl

theorem ofJson_taggedJson (t : Tag) (c : Json) :
    ofJson (taggedJson t c) = (known? t c).getD (.other (normal (taggedJson t c))) := by
  rw [ofJson_eq, Tag.split?_taggedJson, Option.bind_some]

theorem ofJson_taggedJson_eq (hb : ∀ v, b ≠ .other v) :
    ofJson (taggedJson t c) = b ↔ known? t c = some b := by
  rw [ofJson_taggedJson]
  cases known? t c with
  | none => simp [(hb _).symm]
  | some b' => simp

theorem isStable_known (hb : b.toJson = taggedJson t c) (hne : ∀ v, b ≠ .other v) :
    b.IsStable ↔ c.IsPlain ∧ known? t c = some b := by
  constructor
  · rintro ⟨hplain, hdecoded⟩
    rw [hb] at hplain hdecoded
    exact ⟨isPlain_taggedJson.1 hplain, (ofJson_taggedJson_eq hne).1 hdecoded⟩
  · rintro ⟨hplain, hknown⟩
    refine ⟨?_, ?_⟩ <;> rw [hb]
    · exact isPlain_taggedJson.2 hplain
    · exact (ofJson_taggedJson_eq hne).2 hknown

theorem isStable_raw (format text : String) : (raw format text).IsStable := by
  refine (isStable_known (by rw [toJson]) (by simp)).2 ⟨?_, ?_⟩
  · simp
  · exact raw?_eq_some_iff.2 ⟨format, text, rfl, rfl⟩

theorem isStable_code (attr : Attr) (text : String) : (code attr text).IsStable := by
  refine (isStable_known (by rw [toJson]) (by simp)).2 ⟨?_, ?_⟩
  · simp [attr.isPlain_toJson]
  · exact code?_eq_some_iff.2 ⟨attr, text, rfl, rfl⟩

theorem isStable_header_iff {level : Nat} {attr : Attr} :
    (header level attr vs).IsStable ↔ level < 2 ^ 32 ∧ ∀ v ∈ vs, v.IsPlain ∧ normal v = v := by
  rw [isStable_known (t := .header) (by rw [toJson]) (by simp), known?, header?_eq_some_iff]
  constructor
  · rintro ⟨hplain, n, a, ws, hcontent, hn, hheader⟩
    simp only [header.injEq] at hheader
    obtain ⟨rfl, rfl, hmap⟩ := hheader
    obtain rfl : vs = ws := by simpa using hcontent
    have hvs : (Json.arr vs).IsPlain := hplain.of_mem (by simp)
    exact ⟨hn, fun v hv => ⟨hvs.of_mem hv, Json.map_eq_self_iff.1 hmap.symm v hv⟩⟩
  · rintro ⟨hlevel, hvs⟩
    refine ⟨?_, level, attr, vs, rfl, hlevel, ?_⟩
    · simpa [attr.isPlain_toJson, isPlain_count hlevel] using fun v hv => (hvs v hv).1
    · rw [Json.map_eq_self_iff.2 fun v hv => (hvs v hv).2]

theorem isStable_container_iff {kind : Container} :
    (container kind content).IsStable ↔ content.Fits kind.schema := by
  rw [isStable_known (t := .container kind) (by rw [toJson]) (by simp), known?]
  simp only [Option.map_eq_some_iff, container.injEq, true_and, exists_eq_right]
  exact ⟨fun h => ⟨h.1, h.2⟩, fun h => ⟨h.plain, h.decoded⟩⟩

end Block

namespace Content

theorem toItems_eq_map (cs : List Content) : toItems cs = cs.map toJson := by
  induction cs with
  | nil => rw [toItems, List.map_nil]
  | cons c cs ih => rw [toItems, ih, List.map_cons]

theorem Fits.eq_blocks (h : (blocks bs).Fits s) : s = .blocks := by
  obtain ⟨_, -, hs, -⟩ := ofJson?_eq_blocks_iff.1 h.decoded
  exact hs

theorem fits_blocks_iff : (blocks bs).Fits .blocks ↔ ∀ b ∈ bs, b.IsStable := by
  constructor
  · rintro ⟨hplain, h⟩
    rw [toJson, Block.toItems_eq_map] at hplain h
    obtain ⟨_, harr, -, hmap⟩ := ofJson?_eq_blocks_iff.1 h
    cases harr
    rw [Block.map_ofJson_toJson_iff] at hmap
    exact fun b hb => ⟨hplain.of_mem (List.mem_map_of_mem hb), hmap b hb⟩
  · intro h
    refine ⟨?_, ?_⟩ <;> rw [toJson, Block.toItems_eq_map]
    · simpa using fun b hb => (h b hb).plain
    · have hmap := Block.map_ofJson_toJson_iff.2 fun b hb => (h b hb).decoded
      exact ofJson?_eq_blocks_iff.2 ⟨_, rfl, rfl, hmap⟩

theorem forall₂_fits_iff : List.Forall₂ Fits items cs ↔
    (∀ c ∈ cs, c.toJson.IsPlain) ∧ ofTuple? items (cs.map toJson) = some cs := by
  induction items generalizing cs with
  | nil => cases cs <;> simp [ofTuple?]
  | cons item items ih =>
      cases cs with
      | nil => simp [ofTuple?]
      | cons c cs =>
          simp only [List.forall₂_cons, ih, List.forall_mem_cons, List.map_cons, ofTuple?,
            Option.bind_eq_bind, Option.pure_def, Option.bind_eq_some_iff, Option.some.injEq,
            List.cons.injEq]
          constructor
          · rintro ⟨hfits, hplain, htuple⟩
            exact ⟨⟨hfits.plain, hplain⟩, c, hfits.decoded, cs, htuple, rfl, rfl⟩
          · rintro ⟨hplain, _, hdecoded, _, htuple, rfl, rfl⟩
            exact ⟨⟨hplain.1, hdecoded⟩, hplain.2, htuple⟩

theorem fits_list_iff : (list cs).Fits s ↔
    ∃ items, s.items? cs.length = some items ∧ List.Forall₂ Fits items cs := by
  constructor
  · rintro ⟨hplain, h⟩
    rw [toJson, toItems_eq_map] at hplain h
    obtain ⟨items, _, harr, hitems, htuple⟩ := ofJson?_eq_list_iff.1 h
    cases harr
    rw [List.length_map] at hitems
    exact ⟨items, hitems, forall₂_fits_iff.2
      ⟨fun c hc => hplain.of_mem (List.mem_map_of_mem hc), htuple⟩⟩
  · rintro ⟨items, hitems, hfits⟩
    obtain ⟨hplain, htuple⟩ := forall₂_fits_iff.1 hfits
    refine ⟨?_, ?_⟩ <;> rw [toJson, toItems_eq_map]
    · simpa using hplain
    · refine ofJson?_eq_list_iff.2 ⟨items, _, rfl, ?_, htuple⟩
      rw [List.length_map, hitems]

theorem forall₂_of_ofTuple? {R : Schema → Content → Prop} (h : ofTuple? items vs = some cs)
    (hR : ∀ v ∈ vs, ∀ s c, ofJson? s v = some c → R s c) : List.Forall₂ R items cs := by
  induction vs generalizing items cs with
  | nil =>
      cases items with
      | nil =>
          rw [ofTuple?] at h
          cases h
          exact .nil
      | cons item items => simp [ofTuple?] at h
  | cons v vs ih =>
      cases items with
      | nil => simp [ofTuple?] at h
      | cons item items =>
          simp only [ofTuple?, Option.bind_eq_bind, Option.pure_def, Option.bind_eq_some_iff,
            Option.some.injEq] at h
          rw [List.forall_mem_cons] at hR
          obtain ⟨c, hc, cs, hcs, rfl⟩ := h
          exact .cons (hR.1 item c hc) (ih hcs hR.2)

end Content

theorem Block.isStable_other (h : v.IsPlain) (hother : Block.ofJson v = .other (normal v)) :
    (Block.other (normal v)).IsStable := by
  refine ⟨?_, ?_⟩ <;> rw [toJson]
  · exact h.normal
  · rw [ofJson_normal h, hother]

theorem Block.isStable_known? (h : c.IsPlain) (hb : known? t c = some b)
    (hfits : ∀ s content, Content.ofJson? s c = some content → content.Fits s) : b.IsStable := by
  cases t with
  | header =>
      obtain ⟨n, a, vs, rfl, hn, rfl⟩ := header?_eq_some_iff.1 hb
      refine isStable_header_iff.2 ⟨hn, List.forall_mem_map.2 fun v hv => ?_⟩
      have hvs : (Json.arr vs).IsPlain := h.of_mem (by simp)
      exact ⟨(hvs.of_mem hv).normal, v.normal_normal⟩
  | raw =>
      obtain ⟨format, text, -, rfl⟩ := raw?_eq_some_iff.1 hb
      exact isStable_raw format text
  | code =>
      obtain ⟨attr, text, -, rfl⟩ := code?_eq_some_iff.1 hb
      exact isStable_code attr text
  | container kind =>
      obtain ⟨content, hcontent, rfl⟩ := Option.map_eq_some_iff.1 hb
      exact isStable_container_iff.2 (hfits _ _ hcontent)

mutual

theorem Block.isStable_ofJson {v : Json} (h : v.IsPlain) : (Block.ofJson v).IsStable := by
  match hsplit : Tag.split? v with
  | none =>
      have hother : Block.ofJson v = .other (normal v) := by
        rw [Block.ofJson_eq, hsplit, Option.bind_none, Option.getD_none]
      exact hother ▸ Block.isStable_other h hother
  | some (t, c) =>
      have := Tag.sizeOf_lt_of_split? hsplit
      have hc := Tag.isPlain_of_split? h hsplit
      have hfits : ∀ s content, Content.ofJson? s c = some content → content.Fits s :=
        fun _ _ => Content.fits_of_ofJson? hc
      cases hknown : Block.known? t c with
      | none =>
          have hother : Block.ofJson v = .other (normal v) := by
            rw [Block.ofJson_eq, hsplit, Option.bind_some, hknown, Option.getD_none]
          exact hother ▸ Block.isStable_other h hother
      | some b =>
          rw [Block.ofJson_eq, hsplit, Option.bind_some, hknown, Option.getD_some]
          exact Block.isStable_known? hc hknown hfits
termination_by (sizeOf v, 0)

theorem Content.fits_of_ofJson? {v : Json} {s : Schema} {content : Content} (h : v.IsPlain)
    (hcontent : Content.ofJson? s v = some content) : content.Fits s := by
  match content with
  | .value w =>
      obtain rfl := Content.eq_normal_of_ofJson? hcontent
      refine ⟨?_, ?_⟩ <;> rw [Content.toJson]
      · exact h.normal
      · rw [Content.ofJson?_normal s h, hcontent]
  | .blocks bs =>
      obtain ⟨vs, rfl, rfl, rfl⟩ := Content.ofJson?_eq_blocks_iff.1 hcontent
      refine Content.fits_blocks_iff.2 (List.forall_mem_map.2 fun v hv => ?_)
      have := Json.sizeOf_lt_of_mem hv
      exact Block.isStable_ofJson (h.of_mem hv)
  | .list cs =>
      obtain ⟨items, vs, rfl, hitems, htuple⟩ := Content.ofJson?_eq_list_iff.1 hcontent
      have hfits : List.Forall₂ Content.Fits items cs :=
        Content.forall₂_of_ofTuple? htuple fun v hv s c hc =>
          have := Json.sizeOf_lt_of_mem hv
          Content.fits_of_ofJson? (h.of_mem hv) hc
      refine Content.fits_list_iff.2 ⟨items, ?_, hfits⟩
      rw [← hfits.length_eq]
      exact Schema.items?_length hitems
termination_by (sizeOf v, 0)

end

end ApiListing
