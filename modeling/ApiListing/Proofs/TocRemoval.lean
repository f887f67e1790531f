import ApiListing.Proofs.FilterOrder
import ApiListing.Proofs.WalkLogs

namespace ApiListing

variable {s t : Bool × Document} {order : List Block} {removed : Nat → Bool} {i : Nat}

namespace Block

/-- Right before every block stands what it holds. -/
def PostOrdered (order : List Block) : Prop :=
  ∀ before b after, order = before ++ b :: after → List.IsSuffix b.inside before

namespace PostOrdered

variable {order' : List Block}

theorem nil : PostOrdered [] := fun _ _ _ h => by simp at h

theorem append (h : PostOrdered order) (h' : PostOrdered order') :
    PostOrdered (order ++ order') := by
  intro before b after hsplit
  rcases List.append_eq_append_iff.1 hsplit with ⟨middle, rfl, hright⟩ | ⟨middle, hleft, hright⟩
  · exact (h' _ _ _ hright).trans (List.suffix_append order middle)
  · cases middle with
    | nil =>
        have hinside := h' [] b after hright.symm
        rw [List.suffix_nil.1 hinside]
        exact List.nil_suffix
    | cons a middle =>
        cases hright
        exact h _ _ _ hleft

theorem concat {b : Block} (h : PostOrdered b.inside) : PostOrdered b.offered := by
  rw [offered_eq]
  intro before b' after hsplit
  rcases List.eq_nil_or_concat after with rfl | ⟨after, last, rfl⟩
  · obtain ⟨rfl, hlast⟩ := List.append_inj' hsplit rfl
    cases hlast
    exact List.suffix_refl _
  · rw [List.concat_eq_append, ← List.cons_append, ← List.append_assoc] at hsplit
    exact h _ _ _ (List.append_inj' hsplit rfl).1

end PostOrdered

end Block

open Block (PostOrdered)

mutual

theorem Block.postOrdered_offered (b : Block) : PostOrdered b.offered := by
  refine .concat ?_
  match b with
  | .container kind content => exact Content.postOrdered_offered content
  | .header .. | .raw .. | .code .. | .other .. => exact .nil

theorem Content.postOrdered_offered (c : Content) : PostOrdered c.offered := by
  match c with
  | .value v => exact .nil
  | .blocks bs => exact Block.postOrdered_offeredOf bs
  | .list cs => exact Content.postOrdered_offeredOf cs

theorem Block.postOrdered_offeredOf (bs : List Block) : PostOrdered (Block.offeredOf bs) := by
  match bs with
  | [] => exact .nil
  | b :: bs => exact (Block.postOrdered_offered b).append (Block.postOrdered_offeredOf bs)

theorem Content.postOrdered_offeredOf (cs : List Content) :
    PostOrdered (Content.offeredOf cs) := by
  match cs with
  | [] => exact .nil
  | c :: cs => exact (Content.postOrdered_offered c).append (Content.postOrdered_offeredOf cs)

end

/-- At place `i` of the walk, the last header is one that is removed. -/
def InToc (order : List Block) (removed : Nat → Bool) (i : Nat) : Prop :=
  ∃ j < i, removed j = true ∧ (∃ b, order[j]? = some b ∧ b.isHeader = true) ∧
    ∀ k b, j < k → k < i → order[k]? = some b → b.isHeader = false

namespace InToc

variable {b : Block}

theorem not_zero : ¬ InToc order removed 0 := fun ⟨_, hj, _⟩ => absurd hj (Nat.not_lt_zero _)

theorem succ_of_header (hb : order[i]? = some b) (hheader : b.isHeader = true) :
    InToc order removed (i + 1) ↔ removed i = true := by
  constructor
  · rintro ⟨j, hj, hremoved, -, hlast⟩
    rcases Nat.lt_succ_iff_lt_or_eq.1 hj with hj | rfl
    · rw [hlast i b hj (Nat.lt_succ_self i) hb] at hheader
      cases hheader
    · exact hremoved
  · intro hremoved
    refine ⟨i, Nat.lt_succ_self i, hremoved, ⟨b, hb, hheader⟩, fun k _ hk hk' => ?_⟩
    omega

theorem succ_of_not_header (hb : order[i]? = some b) (hheader : b.isHeader = false) :
    InToc order removed (i + 1) ↔ InToc order removed i := by
  constructor
  · rintro ⟨j, hj, hremoved, ⟨a, ha, hfirst⟩, hlast⟩
    rcases Nat.lt_succ_iff_lt_or_eq.1 hj with hj | rfl
    · exact ⟨j, hj, hremoved, ⟨a, ha, hfirst⟩,
        fun k c hk hk' => hlast k c hk (Nat.lt_succ_of_lt hk')⟩
    · obtain rfl : a = b := Option.some.inj (ha.symm.trans hb)
      rw [hheader] at hfirst
      cases hfirst
  · rintro ⟨j, hj, hremoved, hfirst, hlast⟩
    refine ⟨j, Nat.lt_succ_of_lt hj, hremoved, hfirst, fun k c hk hk' hc => ?_⟩
    rcases Nat.lt_succ_iff_lt_or_eq.1 hk' with hk' | rfl
    · exact hlast k c hk hk' hc
    · obtain rfl : c = b := Option.some.inj (hc.symm.trans hb)
      exact hheader

theorem add_iff {n : Nat} (hn : i + n ≤ order.length)
    (h : ∀ k b, i ≤ k → k < i + n → order[k]? = some b → b.isHeader = false) :
    InToc order removed (i + n) ↔ InToc order removed i := by
  induction n with
  | zero => rfl
  | succ n ih =>
      have hb : order[i + n]? = some order[i + n] := List.getElem?_eq_getElem hn
      have hheader := h (i + n) _ (Nat.le_add_right i n) (Nat.lt_succ_self _) hb
      rw [← Nat.add_assoc, succ_of_not_header hb hheader]
      exact ih (Nat.le_of_succ_le hn) fun k b hk hk' => h k b hk (Nat.lt_succ_of_lt hk')

theorem inside_iff (horder : Block.PostOrdered order) (hb : order[i]? = some b)
    (h : ∀ a ∈ b.inside, a.isHeader = false) :
    InToc order removed i ↔ InToc order removed (i - b.inside.length) := by
  obtain ⟨hi, hget⟩ := List.getElem?_eq_some_iff.1 hb
  have hsplit : order = order.take i ++ b :: order.drop (i + 1) := by
    rw [← hget, ← List.drop_eq_getElem_cons hi, List.take_append_drop]
  obtain ⟨before, hbefore⟩ := horder _ _ _ hsplit
  have hlength : before.length + b.inside.length = i := by
    rw [← List.length_append, hbefore, List.length_take, Nat.min_eq_left hi.le]
  rw [← hlength, Nat.add_sub_cancel_right]
  refine add_iff (hlength.trans_le hi.le) fun k a hk hk' ha => h a ?_
  rw [hsplit, List.getElem?_append_left (by rw [← hbefore, List.length_append]; exact hk'),
    ← hbefore, List.getElem?_append_right hk] at ha
  exact List.mem_of_getElem? ha

end InToc

namespace Filter

def tocBehind (inToc : Bool) : Block → Bool
  | .header _ _ inlines => opensToc inToc inlines
  | _ => inToc

def isTocPart (inToc : Bool) : Block → Bool
  | .header _ _ inlines => opensToc inToc inlines
  | b => inToc && b.isList

theorem removeToc_action (b : Block) (s : Bool × Document) : removeToc.action b s =
    .ok (if isTocPart s.1 b then [] else [b]) (tocBehind s.1 b, s.2) := by
  cases b <;> rfl

theorem tocBehind_eq_isTocPart {b : Block} (h : b.isHeader = true) (inToc : Bool) :
    tocBehind inToc b = isTocPart inToc b := by
  cases b with
  | header level attr inlines => rfl
  | _ => cases h

theorem tocBehind_of_not_header {b : Block} (h : b.isHeader = false) (inToc : Bool) :
    tocBehind inToc b = inToc := by
  cases b with
  | header level attr inlines => cases h
  | _ => rfl

theorem isTocPart_of_not_header {b : Block} (h : b.isHeader = false) (inToc : Bool) :
    isTocPart inToc b = (inToc && b.isList) := by
  cases b with
  | header level attr inlines => cases h
  | _ => rfl

theorem isHeader_of_isList {b : Block} (h : b.isList = true) : b.isHeader = false := by
  cases b with
  | header level attr inlines => cases h
  | _ => rfl

def tocAt (inToc : Bool) (order : List Block) (i : Nat) : Bool :=
  (order.take i).foldl tocBehind inToc

/-- The places of the walk whose blocks go. -/
def tocPlaces (inToc : Bool) (order : List Block) (i : Nat) : Bool :=
  order[i]?.any (isTocPart (tocAt inToc order i))

end Filter

open ApiListing.Filter

theorem Block.SameNode.toc_eq {b b' : Block} (h : b.SameNode b') (inToc : Bool) :
    tocBehind inToc b' = tocBehind inToc b ∧ isTocPart inToc b' = isTocPart inToc b := by
  cases h with
  | leaf => exact ⟨rfl, rfl⟩
  | @container kind content content' =>
      refine ⟨rfl, ?_⟩
      cases kind <;> rfl

theorem Answers.removeToc {log : List (Offer (Bool × Document))}
    (h : Answers removeToc.action s log t)
    (hnodes : List.Forall₂ Block.SameNode order (log.map Offer.block)) :
    t.2 = s.2 ∧ ∀ i o, log[i]? = some o →
      o.answer = if tocPlaces s.1 order i then [] else [o.block] := by
  induction h generalizing order with
  | nil => exact ⟨rfl, fun i o ho => by simp at ho⟩
  | @cons o t u log head tail ih =>
      obtain _ | ⟨hnode, hnodes⟩ := hnodes
      obtain ⟨hbehind, hpart⟩ := hnode.toc_eq o.state.1
      rw [removeToc_action, hbehind, hpart] at head
      obtain ⟨hanswer, rfl⟩ := EStateM.Result.ok.inj head
      obtain ⟨hlast, htail⟩ := ih hnodes
      refine ⟨hlast, fun i o' ho => ?_⟩
      cases i with
      | zero =>
          cases ho
          exact hanswer.symm
      | succ i => exact htail i o' ho

namespace Filter

theorem tocAt_succ {b : Block} (inToc : Bool) (hb : order[i]? = some b) :
    tocAt inToc order (i + 1) = tocBehind (tocAt inToc order i) b := by
  rw [tocAt, List.take_add_one, hb, List.foldl_append]
  rfl

theorem tocPlaces_eq {b : Block} (inToc : Bool) (hb : order[i]? = some b) :
    tocPlaces inToc order i = isTocPart (tocAt inToc order i) b := by
  rw [tocPlaces, hb]
  rfl

theorem tocAt_iff (order : List Block) (hi : i ≤ order.length) :
    tocAt false order i = true ↔ InToc order (tocPlaces false order) i := by
  induction i with
  | zero => exact ⟨(fun h => by cases h), fun h => absurd h InToc.not_zero⟩
  | succ i ih =>
      have hb : order[i]? = some order[i] := List.getElem?_eq_getElem hi
      rw [tocAt_succ false hb]
      cases hheader : order[i].isHeader with
      | true =>
          rw [InToc.succ_of_header hb hheader, tocBehind_eq_isTocPart hheader, tocPlaces_eq _ hb]
      | false =>
          rw [InToc.succ_of_not_header hb hheader, tocBehind_of_not_header hheader]
          exact ih (Nat.le_of_succ_le hi)

/-- The blocks at some places of the walk give way to nothing. -/
def deletions (removed : Nat → Bool) : Grafts := fun i => if removed i then some [] else none

theorem removeToc_apply (d : Document) :
    let removed := tocPlaces false (Block.offeredOf d.blocks)
    removeToc.apply d = .ok () { d with
      blocks := Block.graftOf (deletions removed) 0 d.blocks } := by
  intro removed
  have htotal : ∀ b s, ∃ answer t, removeToc.action b s = .ok answer t :=
    fun b s => ⟨_, _, removeToc_action b s⟩
  obtain ⟨bs, t, happly, hlogs⟩ := exists_logs htotal d
  obtain ⟨hlast, hanswers⟩ : t.2 = { d with blocks := [] } ∧
      ∀ (i : Nat) (o : Offer (Bool × Document)), (removeToc.offers d)[i]? = some o →
        o.answer = if removed i then [] else [o.block] :=
    hlogs.answers.removeToc hlogs.sameNodes
  have hexplain : (deletions removed).Explain 0 (removeToc.offers d) := by
    intro i o ho
    rw [hanswers i o ho, Nat.zero_add, deletions]
    split <;> rfl
  rw [happly, hlast, hlogs.grafted _ 0 hexplain]
  rfl

end Filter

/-- The removal of tables of contents goes by the last header before each place of the walk. A list
without headers goes exactly if the header before it goes. A list with headers goes only if the last
of them goes, and it does go if the header before the list goes too. -/
structure TocRemoval (order : List Block) (removed : Nat → Bool) : Prop where
  header : ∀ i level attr inlines, order[i]? = some (.header level attr inlines) →
    (removed i = true ↔ Inline.stringify inlines = tocTitle ∧ ¬ InToc order removed i)
  plainList : ∀ i b, order[i]? = some b → b.isList = true →
    (∀ a ∈ b.inside, a.isHeader = false) →
      (removed i = true ↔ InToc order removed (i - b.inside.length))
  inToc : ∀ i b, order[i]? = some b → b.isList = true → removed i = true → InToc order removed i
  list : ∀ i b, order[i]? = some b → b.isList = true →
    InToc order removed (i - b.inside.length) → InToc order removed i → removed i = true
  other : ∀ i b, order[i]? = some b → b.isHeader = false → b.isList = false → removed i = false

namespace Filter

theorem tocRemoval_tocPlaces (horder : PostOrdered order) :
    TocRemoval order (tocPlaces false order) := by
  have hstate : ∀ i b, order[i]? = some b →
      (tocAt false order i = true ↔ InToc order (tocPlaces false order) i) :=
    fun i b hb => tocAt_iff order (List.getElem?_eq_some_iff.1 hb).1.le
  have hlist : ∀ i b, order[i]? = some b → b.isList = true →
      (tocPlaces false order i = true ↔ InToc order (tocPlaces false order) i) := by
    intro i b hb hlist
    rw [tocPlaces_eq false hb, isTocPart_of_not_header (isHeader_of_isList hlist), hlist,
      Bool.and_true, hstate i b hb]
  refine ⟨fun i level attr inlines hb => ?_, fun i b hb h hinside => ?_,
    fun i b hb h => (hlist i b hb h).1, fun i b hb h _ => (hlist i b hb h).2,
    fun i b hb hheader hlist => ?_⟩
  · rw [← hstate i _ hb, tocPlaces_eq false hb, isTocPart, opensToc, Bool.and_eq_true,
      Bool.not_eq_true', decide_eq_true_iff, and_comm, Bool.not_eq_true]
  · rw [hlist i b hb h, InToc.inside_iff horder hb hinside]
  · rw [tocPlaces_eq false hb, isTocPart_of_not_header hheader, hlist, Bool.and_false]

/-- A document loses the blocks at the places of tables of contents, with what they hold, and
nothing else. -/
theorem removeToc_removes (d : Document) : ∃ removed : Nat → Bool,
    removeToc.apply d = .ok () { d with
      blocks := Block.graftOf (deletions removed) 0 d.blocks } ∧
    TocRemoval (Block.offeredOf d.blocks) removed ∧ PostOrdered (Block.offeredOf d.blocks) :=
  have horder := Block.postOrdered_offeredOf d.blocks
  ⟨_, removeToc_apply d, tocRemoval_tocPlaces horder, horder⟩

end Filter

def Block.heading (text : Text) : Block := .header 2 (.ofClasses []) (Inline.ofText text)

def Block.bullets (items : List (List Block)) : Block :=
  .container .bulletList (.list (items.map .blocks))

open Block

theorem stringify_tocTitle : Inline.stringify (Inline.ofText tocTitle.toList) = tocTitle := by
  decide +kernel

theorem Filter.removeToc_removes_lists :
    let word : Block := .other (.str "word")
    let d : Document := ⟨[1], [], [heading tocTitle.toList, bullets [[word]],
      heading "Use".toList, bullets [[word]]]⟩
    removeToc.apply d = .ok () ⟨[1], [], [heading "Use".toList, bullets [[word]]]⟩ := by
  intro word d
  obtain ⟨removed, happly, h, -⟩ := removeToc_removes d
  have htoc : removed 0 = true := (h.header 0 _ _ _ rfl).2 ⟨stringify_tocTitle, InToc.not_zero⟩
  have hlist : removed 2 = true :=
    (h.plainList 2 _ rfl rfl (List.forall_mem_singleton.2 rfl)).2
      ((InToc.succ_of_header rfl rfl).2 htoc)
  have huse : ¬ removed 3 = true := by
    rw [h.header 3 _ _ _ rfl]
    exact fun hboth => absurd hboth.1 (by decide +kernel)
  have hlast : ¬ removed 5 = true := fun hremoved =>
    huse ((InToc.succ_of_header rfl rfl).1
      ((h.plainList 5 _ rfl rfl (List.forall_mem_singleton.2 rfl)).1 hremoved))
  have hwords : removed 1 = false ∧ removed 4 = false :=
    ⟨h.other 1 word rfl rfl rfl, h.other 4 word rfl rfl rfl⟩
  have hgraft : graftOf (deletions removed) 0 d.blocks =
      [heading "Use".toList, bullets [[word]]] := by
    simp [d, word, heading, bullets, graftOf, graft, Content.graft, Content.graftOf, offered,
      Content.offered, Content.offeredOf, offeredOf, deletions, htoc, hlist, huse, hlast, hwords]
  rw [happly, hgraft]

/-- The places of the headers of tables of contents and of the lists that begin behind one of them
and before the next header. -/
def tocPlacesByBeginning (order : List Block) (i : Nat) : Bool :=
  let isToc : Block → Bool
    | .header _ _ inlines => Inline.stringify inlines = tocTitle
    | _ => false
  order[i]?.any fun b => isToc b ||
    b.isList && ((order.take (i - b.inside.length)).reverse.find? Block.isHeader).any isToc

theorem Filter.removeToc_ne_by_beginning :
    let toc := heading tocTitle.toList
    let d : Document := ⟨[1], [], [bullets [[toc]], heading "End".toList, toc, toc,
      heading "Use".toList, toc, bullets [[heading "Setup".toList]]]⟩
    let begun := graftOf (deletions (tocPlacesByBeginning (offeredOf d.blocks))) 0 d.blocks
    begun = [bullets [[]], heading "End".toList, heading "Use".toList] ∧
      removeToc.apply d = .ok () { d with blocks := [heading "End".toList, toc,
        heading "Use".toList, bullets [[heading "Setup".toList]]] } ∧
      removeToc.apply d ≠ .ok () { d with blocks := begun } := by
  intro toc d begun
  have hbegun : begun = [bullets [[]], heading "End".toList, heading "Use".toList] := by
    have hplaces : (List.range 9).map (tocPlacesByBeginning (offeredOf d.blocks)) =
        [true, false, false, true, true, false, true, false, true] := by decide +kernel
    revert hplaces
    unfold begun
    generalize tocPlacesByBeginning (offeredOf d.blocks) = removed
    intro hplaces
    simp [List.range_succ] at hplaces
    simp [d, toc, heading, bullets, graftOf, graft, Content.graft, Content.graftOf, offered,
      Content.offered, Content.offeredOf, offeredOf, deletions, hplaces]
  have happly : removeToc.apply d = .ok () { d with blocks := [heading "End".toList, toc,
      heading "Use".toList, bullets [[heading "Setup".toList]]] } := by
    have hplaces : (List.range 9).map (tocPlaces false (offeredOf d.blocks)) =
        [true, true, false, true, false, false, true, false, false] := by decide +kernel
    rw [removeToc_apply]
    revert hplaces
    generalize tocPlaces false (offeredOf d.blocks) = removed
    intro hplaces
    simp [List.range_succ] at hplaces
    simp [d, toc, heading, bullets, graftOf, graft, Content.graft, Content.graftOf, offered,
      Content.offered, Content.offeredOf, offeredOf, deletions, hplaces]
  refine ⟨hbegun, happly, fun h => ?_⟩
  rw [happly, hbegun] at h
  simp [heading, bullets] at h

end ApiListing
