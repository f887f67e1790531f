import ApiListing.Proofs.StableDocuments
import Mathlib.Data.Set.List

namespace ApiListing

open Json (normal normalField normalFields)
open Text (octets)

mutual

/-- The values at the places of blocks in a value of this shape. Blocks inside of these are not
among them. -/
def Schema.blocksIn : Schema → Json → List Json
  | .blocks, .arr vs => vs
  | .list item, .arr vs => vs.flatMap (Schema.blocksIn item)
  | .tuple items, .arr vs => Schema.blocksInAll items vs
  | _, _ => []

def Schema.blocksInAll : List Schema → List Json → List Json
  | item :: items, v :: vs => Schema.blocksIn item v ++ Schema.blocksInAll items vs
  | _, _ => []

end

/-- A value that stands in the place of a block, at any depth that the model of blocks reaches. -/
inductive BlockAt (vs : List Json) : Json → Prop
  | top {v : Json} (h : v ∈ vs) : BlockAt vs v
  | inside {v w c : Json} {kind : Container} {content : Content} (h : BlockAt vs v)
      (hsplit : Tag.split? v = some (.container kind, c))
      (hfits : Content.ofJson? kind.schema c = some content) (hw : w ∈ kind.schema.blocksIn c) :
      BlockAt vs w

variable {u v w c : Json} {vs ws : List Json} {fs : List (String × Json)} {b : Block} {t : Tag}
  {content : Content} {cs : List Content} {s : Schema} {items : List Schema} {kind : Container}

/-- The value is no pair, and if it is a known block, it has no fields but the name of its kind and
its content. -/
structure Json.IsRegular (v : Json) : Prop where
  not_pair : ∀ a b, v ≠ .arr [a, b]
  named : ∀ t c b, Tag.split? v = some (t, c) → Block.known? t c = some b →
    ∃ fs name, v = .obj fs ∧ (∀ f ∈ fs, f.1 = "t" ∨ f.1 = "c") ∧ ("t", .str name) ∈ fs

theorem Tag.name_of_ofName? {name : String} (h : ofName? name = some t) : t.name = name := by
  rw [ofName?] at h
  simpa using List.find?_some h

theorem BlockAt.trans (h : BlockAt vs v) (hw : BlockAt [v] w) : BlockAt vs w := by
  induction hw with
  | top hmem => exact List.mem_singleton.1 hmem ▸ h
  | inside _ hsplit hfits hmem ih => exact .inside ih hsplit hfits hmem

namespace Json

theorem eq_of_mem_of_nodup {key : String} (h : (fs.map Prod.fst).Nodup) (hv : (key, v) ∈ fs)
    (hw : (key, w) ∈ fs) : v = w := by
  have hone := (valuesOf_eq_singleton_iff h).2 hv
  rw [(valuesOf_eq_singleton_iff h).2 hw] at hone
  exact (List.singleton_inj.1 hone).symm

theorem perm_named (h : (fs.map Prod.fst).Nodup) (hkeys : ∀ f ∈ fs, f.1 = "t" ∨ f.1 = "c")
    (hv : ("t", v) ∈ fs) (hc : ("c", c) ∈ fs) : fs.Perm [("t", v), ("c", c)] := by
  refine (List.perm_ext_iff_of_nodup h.of_map (by simp)).2 fun f => ?_
  rw [List.mem_cons, List.mem_singleton]
  constructor
  · intro hf
    obtain ⟨k, w⟩ := f
    rcases hkeys _ hf with rfl | rfl
    · exact Or.inl (by rw [eq_of_mem_of_nodup h hf hv])
    · exact Or.inr (by rw [eq_of_mem_of_nodup h hf hc])
  · rintro (rfl | rfl)
    · exact hv
    · exact hc

end Json

theorem Block.toJson_of_known? (hb : known? t c = some b)
    (hcontent : ∀ kind content, Content.ofJson? kind.schema c = some content →
      t = .container kind → normal content.toJson = normal c) :
    ∃ c', b.toJson = taggedJson t c' ∧ normal c' = normal c := by
  cases t with
  | header =>
      obtain ⟨n, a, vs, rfl, -, rfl⟩ := header?_eq_some_iff.1 hb
      refine ⟨_, by rw [toJson], ?_⟩
      simp [Json.normal_arr, Json.normal_normal]
  | raw =>
      obtain ⟨format, text, rfl, rfl⟩ := raw?_eq_some_iff.1 hb
      exact ⟨_, by rw [toJson], rfl⟩
  | code =>
      obtain ⟨attr, text, rfl, rfl⟩ := code?_eq_some_iff.1 hb
      exact ⟨_, by rw [toJson], rfl⟩
  | container kind =>
      obtain ⟨content, hfits, rfl⟩ := Option.map_eq_some_iff.1 hb
      exact ⟨_, by rw [toJson], hcontent kind content hfits rfl⟩

theorem Block.normal_toJson_of_known? (hu : u.IsPlain) (hregular : u.IsRegular)
    (hsplit : Tag.split? u = some (t, c)) (hb : known? t c = some b) {c' : Json}
    (htoJson : b.toJson = taggedJson t c') (hc' : normal c' = normal c) :
    normal b.toJson = normal u := by
  obtain ⟨fs, name, rfl, hkeys, hname⟩ := hregular.named t c b hsplit hb
  obtain ⟨v, hv, hc, hfield⟩ := (Tag.split?_obj_iff hu.nodup).1 hsplit
  obtain rfl := Json.eq_of_mem_of_nodup hu.nodup hname hv
  have hfields : [("t", .str t.name), ("c", c')].map normalField =
      [("t", .str name), ("c", c)].map normalField := by
    rw [Tag.name_of_ofName? hfield]
    simp [normalField, hc']
  have hperm := (Json.perm_named hu.nodup hkeys hv hc).map normalField
  rw [htoJson, taggedJson, Json.normal_obj, Json.normal_obj]
  refine congrArg Json.obj (Json.normalFields_eq_of_perm (by simp) hu.nodup ?_)
  rw [hfields]
  exact hperm.symm

theorem Schema.blocksIn_eq (h : s.items? vs.length = some items) :
    s.blocksIn (.arr vs) = Schema.blocksInAll items vs := by
  have hlist : ∀ (item : Schema) (vs : List Json),
      vs.flatMap item.blocksIn = Schema.blocksInAll (List.replicate vs.length item) vs := by
    intro item vs
    induction vs with
    | nil => rfl
    | cons v vs ih =>
        rw [List.flatMap_cons, List.length_cons, List.replicate_succ, Schema.blocksInAll, ih]
  cases s with
  | list item =>
      cases h
      rw [blocksIn, hlist]
  | tuple items =>
      cases h
      rw [blocksIn]
  | _ => cases h

theorem Content.map_normal_of_ofTuple? {P : Json → Prop} (h : ofTuple? items vs = some cs)
    (hvs : ∀ v ∈ vs, ∀ s c, ofJson? s v = some c → (∀ w ∈ s.blocksIn v, P w) →
      normal c.toJson = normal v)
    (hP : ∀ w ∈ Schema.blocksInAll items vs, P w) :
    cs.map (fun c => normal c.toJson) = vs.map normal := by
  induction vs generalizing items cs with
  | nil =>
      cases items with
      | nil =>
          rw [ofTuple?] at h
          cases h
          rfl
      | cons item items => simp [ofTuple?] at h
  | cons v vs ih =>
      cases items with
      | nil => simp [ofTuple?] at h
      | cons item items =>
          simp only [ofTuple?, Option.bind_eq_bind, Option.pure_def, Option.bind_eq_some_iff,
            Option.some.injEq] at h
          rw [List.forall_mem_cons] at hvs
          rw [Schema.blocksInAll, List.forall_mem_append] at hP
          obtain ⟨c, hc, cs, hcs, rfl⟩ := h
          rw [List.map_cons, List.map_cons, hvs.1 item c hc hP.1, ih hcs hvs.2 hP.2]

mutual

theorem Block.normal_toJson_ofJson {u : Json} (hu : u.IsPlain)
    (hregular : ∀ w, BlockAt [u] w → w.IsRegular) :
    normal (Block.ofJson u).toJson = normal u := by
  match hsplit : Tag.split? u with
  | none =>
      rw [Block.ofJson_eq, hsplit, Option.bind_none, Option.getD_none, Block.toJson,
        Json.normal_normal]
  | some (t, c) =>
      have := Tag.sizeOf_lt_of_split? hsplit
      have htop : BlockAt [u] u := .top (List.mem_singleton.2 rfl)
      rw [Block.ofJson_eq, hsplit, Option.bind_some]
      cases hknown : Block.known? t c with
      | none => rw [Option.getD_none, Block.toJson, Json.normal_normal]
      | some b =>
          have hc : ∀ kind content, Content.ofJson? kind.schema c = some content →
              t = .container kind → normal content.toJson = normal c := by
            rintro kind content hfits rfl
            refine Content.normal_toJson_ofJson? (Tag.isPlain_of_split? hu hsplit) hfits ?_
            exact fun w hw x hx => hregular x (BlockAt.trans (.inside htop hsplit hfits hw) hx)
          obtain ⟨c', htoJson, hc'⟩ := Block.toJson_of_known? hknown hc
          exact Block.normal_toJson_of_known? hu (hregular u htop) hsplit hknown htoJson hc'
termination_by (sizeOf u, 0)

theorem Content.normal_toJson_ofJson? {v : Json} {s : Schema} {content : Content} (hv : v.IsPlain)
    (h : Content.ofJson? s v = some content)
    (hregular : ∀ w ∈ s.blocksIn v, ∀ x, BlockAt [w] x → x.IsRegular) :
    normal content.toJson = normal v := by
  match content with
  | .value w =>
      rw [Content.eq_normal_of_ofJson? h, Content.toJson, Json.normal_normal]
  | .blocks bs =>
      obtain ⟨vs, rfl, rfl, rfl⟩ := Content.ofJson?_eq_blocks_iff.1 h
      rw [Content.toJson, Block.toItems_eq_map, Json.normal_arr, Json.normal_arr, List.map_map,
        List.map_map]
      refine congrArg Json.arr (List.map_congr_left fun v hmem => ?_)
      have := Json.sizeOf_lt_of_mem hmem
      rw [Schema.blocksIn] at hregular
      exact Block.normal_toJson_ofJson (hv.of_mem hmem) (hregular v hmem)
  | .list cs =>
      obtain ⟨items, vs, rfl, hitems, htuple⟩ := Content.ofJson?_eq_list_iff.1 h
      rw [Schema.blocksIn_eq hitems] at hregular
      rw [Content.toJson, Content.toItems_eq_map, Json.normal_arr, Json.normal_arr, List.map_map]
      refine congrArg Json.arr (Content.map_normal_of_ofTuple? htuple ?_ hregular)
      intro v hmem s c hc hblocks
      have := Json.sizeOf_lt_of_mem hmem
      exact Content.normal_toJson_ofJson? (hv.of_mem hmem) hc hblocks
termination_by (sizeOf v, 0)

end

namespace Document

variable {p : Parts} {input : Json.Bytes} {fields : List (String × Json)}

theorem Parts.isPlain_of_perm (hplain : (Json.obj fields).IsPlain)
    (hfields : fields.Perm (Field.all.map p.field)) : p.IsPlain := by
  have hmem : ∀ f, (p.field f).2.IsPlain := fun f =>
    hplain.of_mem_fields (hfields.mem_iff.2 (List.mem_map_of_mem (by cases f <;> decide)))
  exact ⟨hmem .metadata, fun v hv => (hmem .blocks).of_mem hv⟩

theorem Parts.exists_fields (hfields : fields.Perm (Field.all.map p.field)) :
    ∃ fs : List Field, fields = fs.map p.field ∧ fs.Nodup ∧ ∀ f, f ∈ fs := by
  have hrange : fields ∈ Set.range (List.map p.field) := by
    rw [Set.range_list_map]
    intro f hf
    obtain ⟨g, -, rfl⟩ := List.mem_map.1 (hfields.mem_iff.1 hf)
    exact ⟨g, rfl⟩
  obtain ⟨fs, rfl⟩ := hrange
  refine ⟨fs, rfl, ?_, fun f => ?_⟩
  · have hnames := (hfields.map Prod.fst).nodup_iff.2 (by decide : (Field.all.map Field.name).Nodup)
    rw [List.map_map] at hnames
    exact hnames.of_map
  · have hf := hfields.mem_iff.2 (List.mem_map_of_mem (by cases f <;> decide : f ∈ Field.all))
    obtain ⟨g, hg, hfield⟩ := List.mem_map.1 hf
    have hname : g.name = f.name := congrArg Prod.fst hfield
    have hsame := Field.ofName?_name g
    rw [hname, Field.ofName?_name] at hsame
    exact Option.some.inj hsame ▸ hg

theorem normalField_ofParts (hp : p.IsPlain) (hregular : ∀ u, BlockAt p.blocks u → u.IsRegular)
    (f : Field) : normalField ((ofParts p).parts.field f) = normalField (p.field f) := by
  cases f with
  | apiVersion => rfl
  | metadata =>
      have hnormal := Json.normal_normal (.obj p.metadata)
      rw [Json.normal_obj] at hnormal
      exact congrArg (Prod.mk _) hnormal
  | blocks =>
      have hblocks : ((p.blocks.map Block.ofJson).map Block.toJson).map normal =
          p.blocks.map normal := by
        rw [List.map_map, List.map_map]
        refine List.map_congr_left fun v hv => Block.normal_toJson_ofJson (hp.blocks v hv) ?_
        exact fun w hw => hregular w (BlockAt.trans (.top hv) hw)
      have harr :
          normal (.arr (Block.toItems (Block.ofItems p.blocks))) = normal (.arr p.blocks) := by
        rw [Block.toItems_eq_map, Block.ofItems_eq_map, Json.normal_arr, Json.normal_arr, hblocks]
      exact congrArg (Prod.mk _) harr

/-- A document is written back as the value that it was read from. -/
theorem ofBytes_lossless (h : Json.ofBytes input = .ok (.obj fields))
    (hplain : (Json.obj fields).IsPlain) (hfields : fields.Perm (Field.all.map p.field))
    (hcounts : ∀ n ∈ p.apiVersion, n < 2 ^ 32)
    (hregular : ∀ u, BlockAt p.blocks u → u.IsRegular) :
    ∃ d, ofBytes input = .ok d ∧
      ∃ v, Json.ofBytes (octets d.text) = .ok v ∧ normal v = normal (.obj fields) := by
  obtain ⟨fs, rfl, hnodup, hall⟩ := Parts.exists_fields hfields
  have hp := Parts.isPlain_of_perm hplain hfields
  have hparts := partsOf_of_ofBytes hcounts hnodup hall h
  have hstable := isStable_of_partsOf hparts hp
  have hnormal : normal (ofParts p).toJson = normal (.obj (fs.map p.field)) := by
    have hmap : (Field.all.map (ofParts p).parts.field).map normalField =
        (Field.all.map p.field).map normalField := by
      rw [List.map_map, List.map_map]
      exact List.map_congr_left fun f _ => normalField_ofParts hp hregular f
    rw [toJson_eq, Json.normal_obj, Json.normal_obj]
    refine congrArg Json.obj (Json.normalFields_eq_of_perm hstable.isPlain_toJson.nodup
      hplain.nodup ?_)
    rw [hmap]
    exact (hfields.map normalField).symm
  have hdepth : (ofParts p).toJson.depth ≤ Json.maxNesting := by
    rw [← Json.depth_normal hstable.isPlain_toJson, hnormal, Json.depth_normal hplain]
    exact Json.depth_le_of_ofBytes h
  refine ⟨ofParts p, by rw [ofBytes, hparts]; rfl, _, ?_, hnormal⟩
  exact Json.ofBytes_text hstable.isPlain_toJson hdepth

def quoted : Parts where
  apiVersion := [1, 22]
  metadata := [("title", .str "Guide")]
  blocks := [taggedJson (.container .blockQuote) (.arr [.obj [("t", .str "HorizontalRule")]])]

theorem isRegular_quoted : ∀ u, BlockAt quoted.blocks u → u.IsRegular := by
  have hrule : Tag.split? (.obj [("t", .str "HorizontalRule")]) = none := rfl
  have hplaces : ∀ u, BlockAt quoted.blocks u → u ∈ quoted.blocks ∨
      u = .obj [("t", .str "HorizontalRule")] := by
    intro u hu
    induction hu with
    | top hmem => exact Or.inl hmem
    | inside _ hsplit hfits hmem ih =>
        rcases ih with ih | rfl
        · obtain rfl := List.mem_singleton.1 ih
          rw [Tag.split?_taggedJson] at hsplit
          cases hsplit
          exact Or.inr (List.mem_singleton.1 hmem)
        · rw [hrule] at hsplit
          cases hsplit
  intro u hu
  rcases hplaces u hu with hmem | rfl
  · obtain rfl := List.mem_singleton.1 hmem
    refine ⟨by simp [taggedJson], fun t c b hsplit _ => ⟨_, _, rfl, by simp, List.mem_cons_self ..⟩⟩
  · refine ⟨by simp, fun t c b hsplit _ => ?_⟩
    rw [hrule] at hsplit
    cases hsplit

theorem ofBytes_lossless_quoted :
    Json.ofBytes (octets (Json.obj (Field.all.reverse.map quoted.field)).text) =
      .ok (.obj (Field.all.reverse.map quoted.field)) ∧
    (Json.obj (Field.all.reverse.map quoted.field)).IsPlain ∧
    (Field.all.reverse.map quoted.field).Perm (Field.all.map quoted.field) ∧
    (∀ n ∈ quoted.apiVersion, n < 2 ^ 32) ∧
    (∀ u, BlockAt quoted.blocks u → u.IsRegular) ∧
    ∃ d, ofBytes (octets (Json.obj (Field.all.reverse.map quoted.field)).text) = .ok d ∧
      ∃ v, Json.ofBytes (octets d.text) = .ok v ∧
        normal v = normal (.obj (Field.all.reverse.map quoted.field)) := by
  have hplain : (Json.obj (Field.all.reverse.map quoted.field)).IsPlain := by
    have hone : (Json.int 1).IsPlain := .int (by decide) (by decide)
    have htwo : (Json.int 22).IsPlain := .int (by decide) (by decide)
    simp [Field.all, Parts.field, Field.name, quoted, taggedJson, hone, htwo]
  have hperm : (Field.all.reverse.map quoted.field).Perm (Field.all.map quoted.field) :=
    Field.all.reverse_perm.map _
  have hread := Json.ofBytes_text hplain (by decide)
  exact ⟨hread, hplain, hperm, by decide, isRegular_quoted,
    ofBytes_lossless hread hplain hperm (by decide) isRegular_quoted⟩

def objectTagged : Parts where
  apiVersion := [1]
  metadata := []
  blocks := [.obj [("t", .obj [("RawBlock", .null)]), ("c", .arr [.str "html", .str "x"])]]

def objectTaggedText : Text :=
  ("\x7b\"pandoc-api-version\":[1],\"meta\":\x7b\x7d,\"blocks\":" ++
    "[\x7b\"t\":\x7b\"RawBlock\":null\x7d,\"c\":[\"html\",\"x\"]\x7d]\x7d").toList

theorem split?_objectTagged :
    Tag.split? (.obj [("t", .obj [("RawBlock", .null)]), ("c", .arr [.str "html", .str "x"])]) =
      some (.raw, .arr [.str "html", .str "x"]) := rfl

theorem mem_of_blockAt_objectTagged (hu : BlockAt objectTagged.blocks u) :
    u ∈ objectTagged.blocks := by
  induction hu with
  | top hmem => exact hmem
  | inside _ hcontainer _ _ ih =>
      obtain rfl := List.mem_singleton.1 ih
      rw [split?_objectTagged] at hcontainer
      cases hcontainer

theorem ofParts_objectTagged : ofParts objectTagged = ⟨[1], [], [.raw "html" "x"]⟩ := by
  rw [ofParts, objectTagged, Block.ofItems_eq_map, List.map_singleton, Block.ofJson_eq,
    split?_objectTagged]
  rfl

theorem ofBytes_lossy_objectTagged :
    Json.ofBytes (octets objectTaggedText) = .ok (.obj (Field.all.map objectTagged.field)) ∧
    (Json.obj (Field.all.map objectTagged.field)).IsPlain ∧
    (∀ n ∈ objectTagged.apiVersion, n < 2 ^ 32) ∧
    (∀ u, BlockAt objectTagged.blocks u → (∀ a b, u ≠ .arr [a, b]) ∧
      ∃ fs, u = .obj fs ∧ ∀ f ∈ fs, f.1 = "t" ∨ f.1 = "c") ∧
    ∃ d, ofBytes (octets objectTaggedText) = .ok d ∧
      ∃ v, Json.ofBytes (octets d.text) = .ok v ∧
        normal v ≠ normal (.obj (Field.all.map objectTagged.field)) := by
  have htext : objectTaggedText = (Json.obj (Field.all.map objectTagged.field)).text := by decide
  have hplain : (Json.obj (Field.all.map objectTagged.field)).IsPlain := by
    have hone : (Json.int 1).IsPlain := .int (by decide) (by decide)
    simp [Field.all, Parts.field, Field.name, objectTagged, hone]
  have hread : Json.ofBytes (octets objectTaggedText) =
      .ok (.obj (Field.all.map objectTagged.field)) := by
    rw [htext]
    exact Json.ofBytes_text hplain (by decide)
  have hparts := partsOf_of_ofBytes (p := objectTagged) (by decide) (by decide)
    (by rintro (_ | _ | _) <;> decide) hread
  have hstable : (ofParts objectTagged).IsStable :=
    isStable_of_partsOf hparts (Parts.isPlain_of_perm hplain (List.Perm.refl _))
  have hwritten : normal (ofParts objectTagged).toJson =
      .obj [("blocks", .arr [.obj [("c", .arr [.str "html", .str "x"]), ("t", .str "RawBlock")]]),
        ("meta", .obj []), ("pandoc-api-version", .arr [.int 1])] := by
    rw [ofParts_objectTagged]
    rfl
  have hinput : normal (.obj (Field.all.map objectTagged.field)) =
      .obj [("blocks", .arr [.obj [("c", .arr [.str "html", .str "x"]),
          ("t", .obj [("RawBlock", .null)])]]),
        ("meta", .obj []), ("pandoc-api-version", .arr [.int 1])] := rfl
  refine ⟨hread, hplain, by decide, fun u hu => ?_, ofParts objectTagged, ?_, _,
    Json.ofBytes_text hstable.isPlain_toJson ?_, ?_⟩
  · obtain rfl := List.mem_singleton.1 (mem_of_blockAt_objectTagged hu)
    exact ⟨by simp, _, rfl, by simp⟩
  · rw [ofBytes, hparts]
    rfl
  · rw [ofParts_objectTagged]
    decide
  · rw [hwritten, hinput]
    simp

end Document

end ApiListing
