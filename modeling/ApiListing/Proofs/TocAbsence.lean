import ApiListing.Proofs.TocRemoval
import ApiListing.Proofs.WalkOrder
import Mathlib.Data.List.Chain

namespace ApiListing

open ApiListing.Filter

variable {order order' : List Block} {removed : Nat → Bool} {n : Nat} {inToc : Bool} {a b : Block}
  {d : Document}

def Block.isTocHeader : Block → Bool
  | .header _ _ inlines => Inline.stringify inlines = tocTitle
  | _ => false

/-- The block stands in the order at a place that is kept, where the first place is `n`. -/
def KeptIn (removed : Nat → Bool) (n : Nat) (order : List Block) (b : Block) : Prop :=
  ∃ i, order[i]? = some b ∧ removed (n + i) = false

namespace KeptIn

theorem left (h : KeptIn removed n order b) : KeptIn removed n (order ++ order') b := by
  obtain ⟨i, hb, hkept⟩ := h
  exact ⟨i, by rw [List.getElem?_append_left (List.getElem?_eq_some_iff.1 hb).1, hb], hkept⟩

theorem right (h : KeptIn removed (n + order.length) order' b) :
    KeptIn removed n (order ++ order') b := by
  obtain ⟨i, hb, hkept⟩ := h
  refine ⟨order.length + i, ?_, by rwa [← Nat.add_assoc]⟩
  rw [List.getElem?_append_right (Nat.le_add_right _ _), Nat.add_sub_cancel_left, hb]

end KeptIn

mutual

/-- The leaves that deletions leave are those at the places that are kept. -/
theorem Block.keptIn_graft (b : Block) (n : Nat) (ha : a.isContainer = false)
    (h : a ∈ Block.offeredOf (b.graft (deletions removed) n)) : KeptIn removed n b.offered a := by
  match b with
  | .container kind content =>
      rw [Block.graft, deletions] at h
      split at h
      · cases h
      · rw [Option.getD_none, Block.offeredOf_singleton, Block.offered, List.mem_append,
          List.mem_singleton] at h
        rcases h with h | rfl
        · exact (Content.keptIn_graft content n ha h).left
        · cases ha
  | .header .. | .raw .. | .code .. | .other .. =>
      rw [Block.graft, deletions] at h
      split at h
      · cases h
      · next hkept =>
          obtain rfl : a = _ := List.mem_singleton.1 h
          exact ⟨0, rfl, by simpa using hkept⟩

theorem Content.keptIn_graft (c : Content) (n : Nat) (ha : a.isContainer = false)
    (h : a ∈ (c.graft (deletions removed) n).offered) : KeptIn removed n c.offered a := by
  match c with
  | .value v => cases h
  | .blocks bs => exact Block.keptIn_graftOf bs n ha h
  | .list cs => exact Content.keptIn_graftOf cs n ha h

theorem Block.keptIn_graftOf (bs : List Block) (n : Nat) (ha : a.isContainer = false)
    (h : a ∈ Block.offeredOf (Block.graftOf (deletions removed) n bs)) :
    KeptIn removed n (Block.offeredOf bs) a := by
  match bs with
  | [] => cases h
  | b :: bs =>
      rw [Block.graftOf, Block.offeredOf_append, List.mem_append] at h
      rcases h with h | h
      · exact (Block.keptIn_graft b n ha h).left
      · exact (Block.keptIn_graftOf bs _ ha h).right

theorem Content.keptIn_graftOf (cs : List Content) (n : Nat) (ha : a.isContainer = false)
    (h : a ∈ Content.offeredOf (Content.graftOf (deletions removed) n cs)) :
    KeptIn removed n (Content.offeredOf cs) a := by
  match cs with
  | [] => cases h
  | c :: cs =>
      rw [Content.graftOf, Content.offeredOf, List.mem_append] at h
      rcases h with h | h
      · exact (Content.keptIn_graft c n ha h).left
      · exact (Content.keptIn_graftOf cs _ ha h).right

end

theorem Block.isHeader_of_isTocHeader (h : b.isTocHeader = true) : b.isHeader = true := by
  cases b with
  | header level attr inlines => rfl
  | _ => cases h

theorem Block.isContainer_of_isHeader (h : b.isHeader = true) : b.isContainer = false := by
  cases b with
  | header level attr inlines => rfl
  | _ => cases h

/-- Of two headers in a row at most one opens a table of contents. `inToc` tells whether the header
before these blocks did. -/
structure TocsApart (inToc : Bool) (order : List Block) : Prop where
  next : inToc = true → ∀ b ∈ (order.filter Block.isHeader).head?, b.isTocHeader = false
  chain : (order.filter Block.isHeader).IsChain fun a b => ¬ (a.isTocHeader ∧ b.isTocHeader)

namespace TocsApart

theorem isTocPart_eq (h : TocsApart inToc (b :: order)) (hb : b.isTocHeader = true) :
    isTocPart inToc b = true := by
  have hnext := h.next
  rw [List.filter_cons_of_pos (Block.isHeader_of_isTocHeader hb)] at hnext
  cases b with
  | header level attr inlines =>
      cases inToc with
      | false => exact hb
      | true => exact absurd hb (by simp [hnext rfl _ rfl])
  | _ => cases hb

theorem tail (h : TocsApart inToc (b :: order)) : TocsApart (tocBehind inToc b) order := by
  obtain ⟨hnext, hchain⟩ := h
  cases hb : b.isHeader with
  | false =>
      rw [List.filter_cons_of_neg (by simp [hb])] at hnext hchain
      rw [tocBehind_of_not_header hb]
      exact ⟨hnext, hchain⟩
  | true =>
      rw [List.filter_cons_of_pos hb, List.isChain_cons] at hchain
      refine ⟨fun hopens a ha => ?_, hchain.2⟩
      have htoc : b.isTocHeader = true := by
        cases b with
        | header level attr inlines => exact (Bool.and_eq_true _ _ ▸ hopens).2
        | _ => cases hb
      simpa [htoc] using hchain.1 a ha

theorem tocPlaces_eq {i : Nat} (h : TocsApart inToc order) (hb : order[i]? = some b)
    (htoc : b.isTocHeader = true) : tocPlaces inToc order i = true := by
  induction order generalizing inToc i with
  | nil => cases hb
  | cons a order ih =>
      cases i with
      | zero =>
          cases hb
          exact h.isTocPart_eq htoc
      | succ i => exact ih h.tail hb

end TocsApart

theorem Filter.tocPlaces_of_no_toc (h : ∀ b ∈ order, b.isTocHeader = false) (i : Nat) :
    tocPlaces false order i = false := by
  induction order generalizing i with
  | nil => rfl
  | cons b order ih =>
      obtain ⟨hb, horder⟩ := List.forall_mem_cons.1 h
      have hkept : isTocPart false b = false ∧ tocBehind false b = false := by
        cases b with
        | header level attr inlines => exact ⟨hb, hb⟩
        | _ => exact ⟨rfl, rfl⟩
      cases i with
      | zero => exact hkept.1
      | succ i =>
          have htail : tocPlaces (tocBehind false b) order i = false := by rw [hkept.2, ih horder]
          exact htail

theorem Filter.removeToc_of_no_toc (h : ∀ b ∈ Block.offeredOf d.blocks, b.isTocHeader = false) :
    removeToc.apply d = .ok () d := by
  have hremoved : deletions (tocPlaces false (Block.offeredOf d.blocks)) = fun _ => none := by
    funext i
    rw [deletions, tocPlaces_of_no_toc h, if_neg Bool.false_ne_true]
  rw [removeToc_apply, hremoved, Block.graftOf_none]

/-- Where of two headers in a row at most one opens a table of contents, all that open one go at once.
A document without such headers stays as it is. -/
theorem Filter.removeToc_once (d : Document) :
    (((Block.offeredOf d.blocks).filter Block.isHeader).IsChain
        (fun a b => ¬ (a.isTocHeader ∧ b.isTocHeader)) →
      ∃ d', removeToc.apply d = .ok () d' ∧
        (∀ b ∈ Block.offeredOf d'.blocks, b.isTocHeader = false) ∧
        removeToc.apply d' = .ok () d') ∧
    ((∀ b ∈ Block.offeredOf d.blocks, b.isTocHeader = false) → removeToc.apply d = .ok () d) := by
  refine ⟨fun hchain => ⟨_, removeToc_apply d, ?_⟩, removeToc_of_no_toc⟩
  have hapart : TocsApart false (Block.offeredOf d.blocks) :=
    ⟨fun hfalse => absurd hfalse Bool.false_ne_true, hchain⟩
  suffices hno : ∀ b ∈ Block.offeredOf (Block.graftOf
      (deletions (tocPlaces false (Block.offeredOf d.blocks))) 0 d.blocks),
      b.isTocHeader = false from ⟨hno, removeToc_of_no_toc hno⟩
  intro b hb
  by_contra htoc
  rw [Bool.not_eq_false] at htoc
  have hleaf := Block.isContainer_of_isHeader (Block.isHeader_of_isTocHeader htoc)
  obtain ⟨i, hget, hkept⟩ := Block.keptIn_graftOf d.blocks 0 hleaf hb
  rw [Nat.zero_add, hapart.tocPlaces_eq hget htoc] at hkept
  cases hkept

open Block in
theorem Filter.removeToc_once_nested :
    let word : Block := .other (.str "word")
    let toc := heading tocTitle.toList
    let settled : Document := ⟨[1], [], [heading "Use".toList, word]⟩
    let d : Document := ⟨[1], [], [toc, bullets [[word]], heading "Use".toList,
      bullets [[toc, word]], word]⟩
    (((offeredOf d.blocks).filter isHeader).IsChain
        (fun a b => ¬ (a.isTocHeader ∧ b.isTocHeader))) ∧
      (∃ d', removeToc.apply d = .ok () d' ∧
        (∀ b ∈ offeredOf d'.blocks, b.isTocHeader = false) ∧ removeToc.apply d' = .ok () d') ∧
      (∀ b ∈ offeredOf settled.blocks, b.isTocHeader = false) ∧
      removeToc.apply settled = .ok () settled := by
  intro word toc settled d
  have hchain : ((offeredOf d.blocks).filter isHeader).IsChain
      (fun a b => ¬ (a.isTocHeader ∧ b.isTocHeader)) := by decide +kernel
  have hsettled : ∀ b ∈ offeredOf settled.blocks, b.isTocHeader = false := by decide +kernel
  exact ⟨hchain, (removeToc_once d).1 hchain, hsettled, (removeToc_once settled).2 hsettled⟩

end ApiListing
