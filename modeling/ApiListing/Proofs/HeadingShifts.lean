import ApiListing.Proofs.Expansions
import ApiListing.Proofs.Frames

namespace ApiListing

structure Heading where
  level : Nat
  inlines : List Json

open ApiListing.Filter

variable {n k : Nat} {b : Block} {d d' d'' : Document} {h : Heading} {hs : List Heading}

/-- What takes the place of a leaf when headers move up by `n` levels: a header of level `n` at most
goes. -/
def Block.shifted (n : Nat) : Block → List Block
  | .header level attr inlines =>
    if level ≤ n then [] else [.header (level - n) attr inlines]
  | b => [b]

def Block.heading? : Block → Option Heading
  | .header level _ inlines => some ⟨level, inlines⟩
  | _ => none

def Block.headings (bs : List Block) : List Heading :=
  (Block.offeredOf bs).filterMap Block.heading?

def Heading.shifted? (n : Nat) (h : Heading) : Option Heading :=
  if h.level ≤ n then none else some ⟨h.level - n, h.inlines⟩

namespace Block

theorem expandsToLeaves_shifted (n : Nat) : ExpandsToLeaves (shifted n) := by
  intro b hb a ha
  cases b with
  | header level attr inlines =>
      rw [shifted] at ha
      split at ha
      · cases ha
      · cases List.mem_singleton.1 ha
        rfl
  | container kind content => cases hb
  | _ =>
      cases List.mem_singleton.1 ha
      rfl

theorem expandOf_shifted_shifted (n k : Nat) (b : Block) (hb : b.isContainer = false) :
    expandOf (shifted k) (b.shifted n) = b.shifted (n + k) := by
  cases b with
  | header level attr inlines =>
      rw [shifted, shifted]
      by_cases hgone : level ≤ n
      · rw [if_pos hgone, if_pos (Nat.le_add_right_of_le hgone)]
        rfl
      · rw [if_neg hgone, expandOf, expandOf, expand, shifted, List.append_nil]
        by_cases hnext : level ≤ n + k
        · rw [if_pos hnext, if_pos (by omega)]
        · rw [if_neg hnext, if_neg (by omega), Nat.sub_sub]
  | container kind content => cases hb
  | _ => rfl

theorem headings_eq_leaves (bs : List Block) :
    headings bs = (leaves (offeredOf bs)).filterMap heading? := by
  rw [headings, leaves, List.filterMap_filter]
  refine List.filterMap_congr fun b _ => ?_
  cases b <;> rfl

theorem headings_expandOf_shifted (n : Nat) (bs : List Block) :
    headings (expandOf (shifted n) bs) = (headings bs).filterMap (Heading.shifted? n) := by
  rw [headings_eq_leaves, headings_eq_leaves, leaves_expandOf (expandsToLeaves_shifted n)]
  induction leaves (offeredOf bs) with
  | nil => rfl
  | cons b bs ih =>
      rw [List.flatMap_cons, List.filterMap_append, ih]
      cases b with
      | header level attr inlines =>
          have hhead : (header level attr inlines :: bs).filterMap heading? =
              ⟨level, inlines⟩ :: bs.filterMap heading? := rfl
          rw [hhead, List.filterMap_cons, Heading.shifted?, shifted]
          split <;> rfl
      | _ => rfl

end Block

/-- Of the headers that `n` passes take away, this is the last one of the greatest level. Levels zero
and one go in the same pass. -/
def Heading.IsTitle (n : Nat) (hs : List Heading) (h : Heading) : Prop :=
  ∃ before after, hs = before ++ h :: after ∧ h.level ≤ n ∧
    (∀ a ∈ before, a.level ≤ n → max a.level 1 ≤ max h.level 1) ∧
    ∀ a ∈ after, a.level ≤ n → max a.level 1 < max h.level 1

/-- What `n` passes make of a document. -/
structure Document.ShiftedBy (n : Nat) (d d' : Document) : Prop where
  version : d'.apiVersion = d.apiVersion
  blocks : d'.blocks = Block.expandOf (Block.shifted n) d.blocks
  headings : Block.headings d'.blocks = (Block.headings d.blocks).filterMap (Heading.shifted? n)
  metadata : ∀ key, key ≠ "title" → d'.metaValue? key = d.metaValue? key
  title :
    (∀ h ∈ Block.headings d.blocks, n < h.level) ∧
      d'.metaValue? "title" = d.metaValue? "title" ∨
    ∃ h, Heading.IsTitle n (Block.headings d.blocks) h ∧
      d'.metaValue? "title" = some (Document.metaString (Inline.stringify h.inlines))

namespace Heading

theorem shifted?_eq_some {h' : Heading} :
    h.shifted? n = some h' ↔ 1 ≤ h'.level ∧ h = ⟨h'.level + n, h'.inlines⟩ := by
  obtain ⟨level, inlines⟩ := h
  obtain ⟨level', inlines'⟩ := h'
  rw [shifted?]
  split <;> simp only [Option.some.injEq, Heading.mk.injEq] <;> grind

theorem mem_shifted (hh : h ∈ hs) (hstays : n < h.level) :
    (⟨h.level - n, h.inlines⟩ : Heading) ∈ hs.filterMap (shifted? n) :=
  List.mem_filterMap.2 ⟨h, hh, if_neg (Nat.not_le.2 hstays)⟩

theorem IsTitle.more (hh : IsTitle n hs h) (hnone : ∀ a ∈ hs.filterMap (shifted? n), k < a.level) :
    IsTitle (n + k) hs h := by
  have hgone : ∀ a ∈ hs, a.level ≤ n + k → a.level ≤ n := by
    intro a ha hle
    by_contra hstays
    have hlt : k < a.level - n := hnone _ (mem_shifted ha (Nat.not_le.1 hstays))
    omega
  obtain ⟨before, after, rfl, hle, hbefore, hafter⟩ := hh
  refine ⟨before, after, rfl, Nat.le_add_right_of_le hle, fun a ha hle => ?_, fun a ha hle => ?_⟩
  · exact hbefore a ha (hgone a (List.mem_append_left _ ha) hle)
  · exact hafter a ha (hgone a (List.mem_append_right _ (List.mem_cons_of_mem _ ha)) hle)

/-- A header that a later pass takes away has a greater level than all that went before. -/
theorem IsTitle.later (hn : 1 ≤ n) (hh : IsTitle k (hs.filterMap (shifted? n)) h) :
    ∃ level, IsTitle (n + k) hs ⟨level, h.inlines⟩ := by
  obtain ⟨_, _, heq, hle, hbefore, hafter⟩ := hh
  obtain ⟨before, rest, rfl, rfl, hrest⟩ := List.filterMap_eq_append_iff.1 heq
  obtain ⟨gone, a, after, rfl, hgone, ha, rfl⟩ := List.filterMap_eq_cons_iff.1 hrest
  obtain ⟨hpos, rfl⟩ := shifted?_eq_some.1 ha
  -- The levels that the later passes see are `n` levels lower, none of them zero.
  have hbefore : ∀ b ∈ before ++ gone, b.level ≤ n + k → max b.level 1 ≤ max (h.level + n) 1 := by
    intro b hb hlevel
    by_cases hstays : n < b.level
    · rcases List.mem_append.1 hb with hb | hb
      · have hmax : max (b.level - n) 1 ≤ max h.level 1 :=
          hbefore _ (mem_shifted hb hstays) (Nat.sub_le_iff_le_add'.2 hlevel)
        omega
      · exact absurd (hgone b hb) (by simp [shifted?, hstays])
    · omega
  have hafter : ∀ b ∈ after, b.level ≤ n + k → max b.level 1 < max (h.level + n) 1 := by
    intro b hb hlevel
    by_cases hstays : n < b.level
    · have hmax : max (b.level - n) 1 < max h.level 1 :=
        hafter _ (mem_shifted hb hstays) (Nat.sub_le_iff_le_add'.2 hlevel)
      omega
    · omega
  exact ⟨h.level + n, before ++ gone, after, (List.append_assoc ..).symm,
    (Nat.add_comm ..).trans_le (Nat.add_le_add_left hle n), hbefore, hafter⟩

end Heading

namespace Document

theorem ShiftedBy.trans (hn : 1 ≤ n) (h : d.ShiftedBy n d') (h' : d'.ShiftedBy k d'') :
    d.ShiftedBy (n + k) d'' := by
  have hblocks : d''.blocks = Block.expandOf (Block.shifted (n + k)) d.blocks := by
    rw [h'.blocks, h.blocks, Block.expandOf_expandOf (Block.expandOf_shifted_shifted n k)]
  have hheadings : Block.headings d''.blocks =
      (Block.headings d.blocks).filterMap (Heading.shifted? (n + k)) := by
    rw [hblocks, Block.headings_expandOf_shifted]
  refine ⟨h'.version.trans h.version, hblocks, hheadings,
    fun key hkey => (h'.metadata key hkey).trans (h.metadata key hkey), ?_⟩
  have htitle' := h'.title
  rw [h.headings] at htitle'
  rcases htitle' with ⟨hnone, htitle'⟩ | ⟨later, hlater, htitle'⟩
  · rcases h.title with ⟨hall, htitle⟩ | ⟨earlier, hearlier, htitle⟩
    · refine .inl ⟨fun a ha => ?_, htitle'.trans htitle⟩
      have hlt : k < a.level - n := hnone _ (Heading.mem_shifted ha (hall a ha))
      omega
    · exact .inr ⟨earlier, hearlier.more hnone, htitle'.trans htitle⟩
  · obtain ⟨level, hlast⟩ := hlater.later hn
    exact .inr ⟨_, hlast, htitle'⟩

def titled (d : Document) (h : Heading) : Document :=
  if h.level ≤ 1 then d.setMetaString "title" (Inline.stringify h.inlines) else d

theorem setMetaString_setMetaString (key text text' : String) (d : Document) :
    (d.setMetaString key text).setMetaString key text' = d.setMetaString key text' := by
  rw [setMetaString, setMetaString, setMetaString, Json.setField_setField]

theorem foldl_titled (hs : List Heading) (d : Document) :
    (∀ h ∈ hs, 1 < h.level) ∧ hs.foldl titled d = d ∨
      ∃ h, Heading.IsTitle 1 hs h ∧
        hs.foldl titled d = d.setMetaString "title" (Inline.stringify h.inlines) := by
  induction hs generalizing d with
  | nil => exact .inl ⟨List.forall_mem_nil _, rfl⟩
  | cons h hs ih =>
      rw [List.foldl_cons]
      rcases ih (d.titled h) with ⟨hall, heq⟩ | ⟨h', ⟨before, after, rfl, hle, hbefore, hafter⟩, heq⟩
      · rw [heq, titled]
        split
        · next hle =>
            have hafter : ∀ a ∈ hs, a.level ≤ 1 → max a.level 1 < max h.level 1 :=
              fun a ha hle => absurd (hall a ha) (Nat.not_lt.2 hle)
            exact .inr ⟨h, ⟨[], hs, rfl, hle, List.forall_mem_nil _, hafter⟩, rfl⟩
        · next hle => exact .inl ⟨List.forall_mem_cons.2 ⟨Nat.lt_of_not_le hle, hall⟩, rfl⟩
      · have hbefore : ∀ a ∈ h :: before, a.level ≤ 1 → max a.level 1 ≤ max h'.level 1 :=
          fun a ha hle => by omega
        refine .inr ⟨h', ⟨h :: before, after, rfl, hle, hbefore, hafter⟩, ?_⟩
        rw [heq, titled]
        split
        · exact setMetaString_setMetaString ..
        · rfl

end Document

namespace Filter

def noted (s : Unit × Document) (b : Block) : Unit × Document :=
  (s.1, b.heading?.elim s.2 s.2.titled)

theorem shiftHeadings_expands : shiftHeadings.action.Expands (Block.shifted 1) noted where
  container kind content s := rfl
  leaf := by
    rintro b (s : Unit × Document) hb
    cases b with
    | header level attr inlines =>
        by_cases hlevel : level ≤ 1
        · have htitled : noted s (.header level attr inlines) =
              (s.1, s.2.setMetaString "title" (Inline.stringify inlines)) :=
            congrArg (s.1, ·) (if_pos hlevel)
          rw [Block.shifted, if_pos hlevel, htitled]
          exact shiftHeadings_title hlevel attr inlines s
        · have htitled : noted s (.header level attr inlines) = s :=
            congrArg (s.1, ·) (if_neg hlevel)
          rw [Block.shifted, if_neg hlevel, htitled]
          exact shiftHeadings_header hlevel attr inlines s
    | container kind content => cases hb
    | _ => rfl

theorem foldl_noted (bs : List Block) (s : Unit × Document) :
    bs.foldl noted s = (s.1, (bs.filterMap Block.heading?).foldl Document.titled s.2) := by
  induction bs generalizing s with
  | nil => rfl
  | cons b bs ih =>
      rw [List.foldl_cons, ih, noted, List.filterMap_cons]
      cases b.heading? <;> rfl

theorem shiftHeadings_apply_eq (d : Document) :
    shiftHeadings.apply d =
      .ok () { (Block.headings d.blocks).foldl Document.titled { d with blocks := [] } with
        blocks := Block.expandOf (Block.shifted 1) d.blocks } := by
  have happly := apply_of_expands (d := d) rfl shiftHeadings_expands
  have hfold := foldl_noted (Block.leaves (Block.offeredOf d.blocks)) ((), { d with blocks := [] })
  rw [← Block.headings_eq_leaves] at hfold
  exact happly.trans (congrArg (fun s : Unit × Document => EStateM.Result.ok ()
    { s.2 with blocks := Block.expandOf (Block.shifted 1) d.blocks }) hfold)

theorem shiftHeadings_apply (d : Document) :
    ∃ d', shiftHeadings.apply d = .ok () d' ∧ d.ShiftedBy 1 d' := by
  refine ⟨_, shiftHeadings_apply_eq d, ?_⟩
  rcases Document.foldl_titled (Block.headings d.blocks) { d with blocks := [] } with
    ⟨hall, heq⟩ | ⟨h, hh, heq⟩
  · rw [heq]
    exact ⟨rfl, rfl, Block.headings_expandOf_shifted 1 d.blocks, fun _ _ => rfl, .inl ⟨hall, rfl⟩⟩
  · rw [heq]
    refine ⟨rfl, rfl, Block.headings_expandOf_shifted 1 d.blocks, fun key hkey => ?_,
      .inr ⟨h, hh, ?_⟩⟩
    · exact (Document.metaValue?_setMetaString ..).trans (if_neg hkey)
    · exact (Document.metaValue?_setMetaString ..).trans (if_pos rfl)

/-- A pass deletes a header or takes a level from it that it has to spare. -/
def LowersHeader (o : Offer (Unit × Document)) : Prop :=
  ∀ level attr inlines, o.block = .header level attr inlines →
    level ≤ 1 ∧ o.answer = [] ∨
      ∃ upper, 1 ≤ upper ∧ upper + 1 = level ∧ o.answer = [.header upper attr inlines]

theorem shiftHeadings_offers (d : Document) : ∀ o ∈ shiftHeadings.offers d, LowersHeader o := by
  have htotal : ∀ b s, ∃ answer t, shiftHeadings.action b s = .ok answer t := by
    intro b s
    cases b with
    | container kind content => exact ⟨_, _, shiftHeadings_expands.container kind content s⟩
    | _ => exact ⟨_, _, shiftHeadings_expands.leaf _ s rfl⟩
  obtain ⟨bs, t, -, hlogs⟩ := exists_logs htotal d
  intro o ho level attr inlines hblock
  have hact := shiftHeadings_expands.leaf (.header level attr inlines) o.state rfl
  rw [← hblock] at hact
  have hanswer : o.answer = Block.shifted 1 (.header level attr inlines) :=
    hblock ▸ hlogs.answers.answer_eq ho hact
  rw [hanswer, Block.shifted]
  by_cases hlevel : level ≤ 1
  · exact .inl ⟨hlevel, if_pos hlevel⟩
  · exact .inr ⟨level - 1, by omega, by omega, if_neg hlevel⟩

end Filter

namespace Settings

theorem applyAll_shiftHeadings (s : Settings) (files : Files) (hn : 1 ≤ n) (d : Document) :
    ∃ d', s.applyAll files (List.replicate n .shiftHeadings) d = .ok () d' ∧ d.ShiftedBy n d' := by
  induction n, hn using Nat.le_induction with
  | base =>
      obtain ⟨d', happly, hd'⟩ := shiftHeadings_apply d
      exact ⟨d', bind_ok happly, hd'⟩
  | succ n hn ih =>
      obtain ⟨d', hrun, hd'⟩ := ih
      obtain ⟨d'', happly, hd''⟩ := shiftHeadings_apply d'
      refine ⟨d'', ?_, hd'.trans hn hd''⟩
      rw [List.replicate_succ', applyAll_append, bind_ok hrun]
      exact bind_ok happly

/-- Headers moved up `n` times: those of level `n` at most are gone and give the title, the others are
`n` levels higher, and nothing else is changed. No pass takes a level away that a header has not. -/
theorem run_shiftHeadings (s : Settings) (files : Files) (hn : 1 ≤ n) (d : Document) :
    (∃ d', run { s with filters := List.replicate n .shiftHeadings } files d = .ok d' ∧
      d.ShiftedBy n d') ∧
    ∀ m < n, ∃ d', run { s with filters := List.replicate m .shiftHeadings } files d = .ok d' ∧
      ∀ o ∈ shiftHeadings.offers d', LowersHeader o := by
  have hrun : ∀ m, ∃ d', run { s with filters := List.replicate m .shiftHeadings } files d = .ok d' ∧
      (1 ≤ m → d.ShiftedBy m d') := by
    intro m
    by_cases hm : 1 ≤ m
    · obtain ⟨d', happly, hd'⟩ := applyAll_shiftHeadings s files hm d
      exact ⟨d', run_filters_eq_ok.2 happly, fun _ => hd'⟩
    · cases Nat.lt_one_iff.1 (Nat.not_le.1 hm)
      exact ⟨d, rfl, fun h => absurd h hm⟩
  constructor
  · obtain ⟨d', h, hd'⟩ := hrun n
    exact ⟨d', h, hd' hn⟩
  · intro m _
    obtain ⟨d', h, -⟩ := hrun m
    exact ⟨d', h, shiftHeadings_offers d'⟩

def chapters : Document where
  apiVersion := [1, 23]
  metadata := [("author", Document.metaString "Writer")]
  blocks := [
    .header 1 (.ofClasses []) (Inline.ofText "Guide".toList),
    .header 2 (.ofClasses []) (Inline.ofText "Setup".toList),
    .container .blockQuote (.blocks [
      .header 2 (.ofClasses []) (Inline.ofText "Use".toList),
      .header 3 (.ofClasses []) (Inline.ofText "Deep".toList)]),
    .header 0 (.ofClasses []) (Inline.ofText "Notes".toList)]

theorem run_shiftHeadings_chapters :
    1 ≤ 2 ∧ ∃ d', run { date := ⟨2024, 2, 29⟩, filters := List.replicate 2 .shiftHeadings }
        (fun _ => .error .notFound) chapters = .ok d' ∧
      (Block.headings d'.blocks).map Heading.level = [1] ∧
      d'.metaString? "title" = some "Use" ∧
      d'.metaValue? "author" = some (Document.metaString "Writer") := by
  refine ⟨by decide, ?_⟩
  obtain ⟨⟨d', hrun, hd'⟩, -⟩ := run_shiftHeadings { date := ⟨2024, 2, 29⟩ }
    (fun _ => .error .notFound) (n := 2) (by decide) chapters
  have htitle : (run { date := ⟨2024, 2, 29⟩, filters := List.replicate 2 .shiftHeadings }
      (fun _ => .error .notFound) chapters).toOption.map (Document.metaString? "title") =
        some (some "Use") := by decide +kernel
  rw [hrun] at htitle
  refine ⟨d', hrun, ?_, Option.some.inj htitle, (hd'.metadata "author" (by decide)).trans rfl⟩
  rw [hd'.headings]
  decide

end Settings

end ApiListing
