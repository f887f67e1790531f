import ApiListing.Proofs.DocumentReading
import ApiListing.Proofs.Stability

namespace ApiListing.Document

open Json (normal SortedKeys)
open Json.Reader
open Text (octets)

variable {d : Document} {p : Parts} {input : Json.Bytes} {key text : String}

/-- A document that is read back from its JSON. -/
structure IsStable (d : Document) : Prop where
  counts : ∀ n ∈ d.apiVersion, n < 2 ^ 32
  sorted : SortedKeys d.metadata
  metadata : ∀ f ∈ d.metadata, f.2.IsPlain ∧ normal f.2 = f.2
  blocks : ∀ b ∈ d.blocks, b.IsStable

/-- No object in the parts repeats a key, and all numbers are integers of 64 bits. -/
structure Parts.IsPlain (p : Parts) : Prop where
  metadata : (Json.obj p.metadata).IsPlain
  blocks : ∀ v ∈ p.blocks, v.IsPlain

section Counts

variable {bound n left : Nat} {draft : Draft} {f : Field} {fs : List Field} {first : Bool}

def Draft.Counts (d : Draft) : Prop := ∀ ns, d.apiVersion? = some ns → ∀ n ∈ ns, n < 2 ^ 32

theorem Draft.Counts.finish (h : draft.Counts) (hp : draft.finish = .ok p) :
    ∀ n ∈ p.apiVersion, n < 2 ^ 32 := by
  unfold Draft.finish at hp
  split at hp
  · next ns _ _ hns _ _ =>
      cases hp
      exact h ns hns
  all_goals cases hp

theorem yields_mismatch {α : Type} {P : α → Prop} (expected : String) :
    Yields (mismatch expected) P := by
  unfold mismatch
  refine yields_bind fun c => ?_
  split
  · exact yields_fail _ _
  · exact yields_fail _ _
  · refine yields_bind fun v => ?_
    split <;> exact yields_fail _ _

theorem yields_readCount : Yields readCount (· < 2 ^ 32) := by
  unfold readCount
  refine yields_bind fun c => ?_
  extract_lets counted
  have hcounted : ∀ v, Yields (counted v) (· < 2 ^ 32) := by
    intro v
    simp only [counted]
    split
    · next hcount => exact yields_pure (count?_eq_some_iff.1 hcount).2
    all_goals exact yields_fail _ _
  split
  · exact yields_bind hcounted
  · split_ifs
    · exact yields_bind fun _ => yields_bind hcounted
    · exact yields_bind hcounted
    · exact yields_bind hcounted

theorem yields_readField (h : draft.Counts) (f : Field) :
    Yields (readField bound draft f) Draft.Counts := by
  cases f with
  | apiVersion =>
      refine yields_bind fun _ => (yields_readCount.list bound).bind_of fun ns hns => yields_pure ?_
      intro _ hsome
      cases hsome
      exact hns
  | metadata => exact yields_bind fun _ => yields_bind fun _ => yields_pure h
  | blocks => exact yields_bind fun _ => yields_bind fun _ => yields_pure h

theorem yields_readFields (h : draft.Counts) :
    Yields (readFields bound first draft left) fun r => ∀ d, r = .ok d → d.Counts := by
  induction left generalizing first draft with
  | zero => exact yields_fail _ _
  | succ left ih =>
      refine yields_bind fun another => ?_
      split
      · refine yields_bind fun _ => yields_bind fun name => ?_
        split
        · exact yields_bind fun _ => yields_bind fun _ => ih h
        · split
          · exact yields_pure (by simp)
          · exact yields_bind fun _ => (yields_readField h _).bind_of fun d hd => ih hd
      · refine yields_pure fun d hd => ?_
        cases hd
        exact h

theorem yields_readValues (h : draft.Counts) (n : Nat) :
    Yields (readValues bound draft n fs) Draft.Counts := by
  induction fs generalizing draft n with
  | nil => exact yields_pure h
  | cons f fs ih =>
      refine yields_bind fun another => ?_
      split
      · exact (yields_readField h f).bind_of fun d hd => ih hd _
      · exact yields_bind fun _ => yields_fail _ _

theorem Draft.counts_empty : ({} : Draft).Counts := by
  intro ns hns
  cases hns

theorem yields_readObject :
    Yields (readObject bound) fun p => ∀ n ∈ p.apiVersion, n < 2 ^ 32 := by
  unfold readObject
  refine (yields_readFields Draft.counts_empty).bind_of fun r hr => ?_
  split
  · refine yields_bind fun c => ?_
    split
    · exact yields_bind fun _ => yields_fail _ _
    · exact yields_fail _ _
  · next d =>
      refine yields_bind fun _ => ?_
      split
      · next hfinish => exact yields_pure ((hr d rfl).finish hfinish)
      · exact yields_fail _ _

theorem yields_readList : Yields (readList bound) fun p => ∀ n ∈ p.apiVersion, n < 2 ^ 32 := by
  unfold readList
  refine (yields_readValues Draft.counts_empty 0).bind_of fun d hd => yields_bind fun _ => ?_
  split
  · next hfinish => exact yields_pure (hd.finish hfinish)
  · exact yields_fail _ _

theorem yields_reader : Yields (reader bound) fun p => ∀ n ∈ p.apiVersion, n < 2 ^ 32 := by
  unfold reader
  refine yields_bind fun c => ?_
  extract_lets finished
  have hfinished : ∀ p : Parts, (∀ n ∈ p.apiVersion, n < 2 ^ 32) →
      Yields (finished p) fun p => ∀ n ∈ p.apiVersion, n < 2 ^ 32 :=
    fun p hp => yields_bind fun _ => yields_pure hp
  split
  · exact (yields_fail _ _).bind_of hfinished
  · split_ifs
    · exact yields_bind fun _ => yields_readObject.bind_of hfinished
    · exact yields_bind fun _ => yields_readList.bind_of hfinished
    · exact (yields_mismatch _).bind_of hfinished

theorem counts_of_partsOf (h : partsOf input = .ok p) : ∀ n ∈ p.apiVersion, n < 2 ^ 32 := by
  rw [partsOf] at h
  cases hread : reader (input.length + 1) input with
  | error fault =>
      rw [hread] at h
      cases h
  | ok x =>
      rw [hread] at h
      cases h
      exact yields_reader _ _ _ hread

end Counts

theorem isStable_of_partsOf (h : partsOf input = .ok p) (hp : p.IsPlain) :
    (ofParts p).IsStable where
  counts := counts_of_partsOf h
  sorted := Json.sortedKeys_normalFields p.metadata
  metadata := by
    intro f hf
    obtain ⟨g, hg, rfl⟩ := List.mem_map.1 (Json.mem_normalFields hf)
    exact ⟨(hp.metadata.of_mem_fields hg).normal, g.2.normal_normal⟩
  blocks := by
    rw [ofParts, Block.ofItems_eq_map]
    exact List.forall_mem_map.2 fun v hv => Block.isStable_ofJson (hp.blocks v hv)

def parts (d : Document) : Parts := ⟨d.apiVersion, d.metadata, Block.toItems d.blocks⟩

theorem toJson_eq (d : Document) : d.toJson = .obj (Field.all.map d.parts.field) := rfl

theorem isPlain_taggedText (content tag : String) :
    (Json.obj [("c", .str content), ("t", .str tag)]).IsPlain := .obj (by simp) (by simp)

theorem normal_taggedText (content tag : String) :
    normal (.obj [("c", .str content), ("t", .str tag)]) =
      .obj [("c", .str content), ("t", .str tag)] := by
  have hsorted : SortedKeys [("c", .str content), ("t", .str tag)] :=
    List.pairwise_pair.2 (show "c" < "t" by decide)
  rw [Json.normal_obj, Json.normalFields_of_normal hsorted]
  simp [normal]

namespace IsStable

theorem isPlain_parts (h : d.IsStable) : d.parts.IsPlain where
  metadata := .obj h.sorted.nodup fun f hf => (h.metadata f hf).1
  blocks := by
    rw [parts, Block.toItems_eq_map]
    exact List.forall_mem_map.2 fun b hb => (h.blocks b hb).plain

theorem ofParts_parts (h : d.IsStable) : ofParts d.parts = d := by
  have hmetadata := Json.normalFields_of_normal h.sorted fun f hf => (h.metadata f hf).2
  have hblocks := Block.map_ofJson_toJson_iff.2 fun b hb => (h.blocks b hb).decoded
  rw [ofParts, parts, Block.toItems_eq_map, Block.ofItems_eq_map, hmetadata, hblocks]

theorem isPlain_toJson (h : d.IsStable) : d.toJson.IsPlain := by
  have hcounts : ∀ n ∈ d.apiVersion, (Json.int n).IsPlain :=
    fun n hn => isPlain_count (h.counts n hn)
  have hkeys : (Field.all.map Field.name).Nodup := by decide
  rw [toJson_eq]
  refine .obj hkeys (List.forall_mem_map.2 fun f _ => ?_)
  cases f with
  | apiVersion => exact .arr (List.forall_mem_map.2 hcounts)
  | metadata => exact h.isPlain_parts.metadata
  | blocks => exact .arr h.isPlain_parts.blocks

theorem partsOf_text (h : d.IsStable) (hdepth : d.toJson.depth ≤ Json.maxNesting) :
    partsOf (octets d.text) = .ok d.parts := by
  have hread : Json.ofBytes (octets d.text) = .ok (.obj (Field.all.map d.parts.field)) :=
    Json.ofBytes_text h.isPlain_toJson hdepth
  exact partsOf_of_ofBytes h.counts (by decide) (by rintro (_ | _ | _) <;> decide) hread

/-- A stable document is read back from its text, if it is not nested too deep. -/
theorem ofBytes_text (h : d.IsStable) (hdepth : d.toJson.depth ≤ Json.maxNesting) :
    ofBytes (octets d.text) = .ok d := by
  rw [ofBytes, h.partsOf_text hdepth]
  exact congrArg Except.ok h.ofParts_parts

theorem setMetaString (h : d.IsStable) (key text : String) :
    (d.setMetaString key text).IsStable where
  counts := h.counts
  sorted := h.sorted.setField key _
  metadata := by
    intro f hf
    rcases Json.mem_setField hf with rfl | hf
    · exact ⟨isPlain_taggedText text _, normal_taggedText text _⟩
    · exact h.metadata f hf
  blocks := h.blocks

end IsStable

end ApiListing.Document
