import ApiListing.Proofs.Rewrites

namespace ApiListing

open Block (KeepsLeaves)

variable {σ α β : Type} {act : Action σ} {r : Block → Block} {φ : σ → σ} {P : Block → Prop}

def along (f : α → α) (φ : σ → σ) : EStateM.Result Error σ α → EStateM.Result Error σ α
  | .ok a s => .ok (f a) (φ s)
  | .error e s => .error e (φ s)

theorem along_of_eq {f : α → α} {x x' y y' : EStateM.Result Error σ α} (hx' : x' = y')
    (hx : x = y) (h : y' = along f φ y) : x' = along f φ x := by
  rw [hx', hx, h]

theorem bind_along {x x' : EStateM Error σ α} {g g' : α → EStateM Error σ β} {f : α → α}
    {k : β → β} {s : σ} (hx : x' (φ s) = along f φ (x s))
    (hg : ∀ a t, g' (f a) (φ t) = along k φ (g a t)) :
    (x' >>= g') (φ s) = along k φ ((x >>= g) s) := by
  simp only [bind, EStateM.bind, hx]
  cases x s with
  | ok a t => exact hg a t
  | error e t => rfl

theorem Block.replaceOf_append (r : Block → Block) (bs bs' : List Block) :
    replaceOf r (bs ++ bs') = replaceOf r bs ++ replaceOf r bs' := by
  induction bs with
  | nil => rfl
  | cons b bs ih => rw [List.cons_append, replaceOf, replaceOf, ih, List.cons_append]

theorem Block.offeredOf_append (bs bs' : List Block) :
    offeredOf (bs ++ bs') = offeredOf bs ++ offeredOf bs' := by
  induction bs with
  | nil => rfl
  | cons b bs ih => rw [List.cons_append, offeredOf, offeredOf, ih, List.append_assoc]

theorem Block.offeredOf_singleton (b : Block) : offeredOf [b] = b.offered := by
  rw [offeredOf, offeredOf, List.append_nil]

theorem walkInside_of_leaf {b : Block} (h : b.isContainer = false) (s : σ) :
    walkInside act b s = .ok b s := by
  cases b with
  | container kind content => cases h
  | _ => rfl

/-- An action that does to a changed block what it does to the block. -/
def Action.Respects (act : Action σ) (r : Block → Block) (φ : σ → σ) : Prop :=
  ∀ b s, act (b.replace r) (φ s) = along (Block.replaceOf r) φ (act b s)

mutual

theorem walkBlocks_respects (h : act.Respects r φ) (hr : KeepsLeaves r) (bs : List Block) (s : σ) :
    walkBlocks act (Block.replaceOf r bs) (φ s) =
      along (Block.replaceOf r) φ (walkBlocks act bs s) := by
  match bs with
  | [] => rfl
  | b :: bs =>
      rw [Block.replaceOf, walkBlocks, walkBlocks]
      refine bind_along (walkInside_respects h hr b s) fun b s => ?_
      refine bind_along (h b s) fun inPlace s => ?_
      refine bind_along (walkBlocks_respects h hr bs s) fun rest s => ?_
      rw [← Block.replaceOf_append]
      rfl

theorem walkInside_respects (h : act.Respects r φ) (hr : KeepsLeaves r) (b : Block) (s : σ) :
    walkInside act (b.replace r) (φ s) = along (Block.replace r) φ (walkInside act b s) := by
  match b with
  | .container kind content =>
      rw [Block.replace, walkInside, walkInside]
      exact bind_along (walkContent_respects h hr content s) fun content s => rfl
  | .header .. | .raw .. | .code .. | .other .. =>
      rw [Block.replace_of_leaf rfl, walkInside_of_leaf (hr _ rfl)]
      rfl

theorem walkContent_respects (h : act.Respects r φ) (hr : KeepsLeaves r) (c : Content) (s : σ) :
    walkContent act (c.replace r) (φ s) = along (Content.replace r) φ (walkContent act c s) := by
  match c with
  | .value v => rfl
  | .blocks bs =>
      rw [Content.replace, walkContent, walkContent]
      exact bind_along (walkBlocks_respects h hr bs s) fun bs s => rfl
  | .list cs =>
      rw [Content.replace, walkContent, walkContent]
      exact bind_along (walkContents_respects h hr cs s) fun cs s => rfl

theorem walkContents_respects (h : act.Respects r φ) (hr : KeepsLeaves r) (cs : List Content)
    (s : σ) : walkContents act (Content.replaceOf r cs) (φ s) =
      along (Content.replaceOf r) φ (walkContents act cs s) := by
  match cs with
  | [] => rfl
  | c :: cs =>
      rw [Content.replaceOf, walkContents, walkContents]
      refine bind_along (walkContent_respects h hr c s) fun c s => ?_
      exact bind_along (walkContents_respects h hr cs s) fun cs s => rfl

end

/-- An action that never stops a walk over blocks of a class, to which all containers belong, and
answers them with such blocks. -/
structure Action.Keeps (act : Action σ) (P : Block → Prop) : Prop where
  container : ∀ kind content, P (.container kind content)
  answer : ∀ b s, (∀ a ∈ b.offered, P a) →
    ∃ bs s', act b s = .ok bs s' ∧ ∀ a ∈ Block.offeredOf bs, P a

mutual

theorem walkBlocks_keeps (h : act.Keeps P) {bs : List Block} (hbs : ∀ a ∈ Block.offeredOf bs, P a)
    (s : σ) : ∃ bs' s', walkBlocks act bs s = .ok bs' s' ∧ ∀ a ∈ Block.offeredOf bs', P a := by
  match bs with
  | [] => exact ⟨[], s, rfl, hbs⟩
  | b :: bs =>
      rw [Block.offeredOf, List.forall_mem_append] at hbs
      obtain ⟨b', s, hinside, hb⟩ := walkInside_keeps h hbs.1 s
      obtain ⟨inPlace, s, hact, hinPlace⟩ := h.answer b' s hb
      obtain ⟨rest, s', hwalk, hrest⟩ := walkBlocks_keeps h hbs.2 s
      refine ⟨inPlace ++ rest, s', ?_, ?_⟩
      · rw [walkBlocks, bind_ok hinside, bind_ok hact, bind_ok hwalk]
        rfl
      · rw [Block.offeredOf_append, List.forall_mem_append]
        exact ⟨hinPlace, hrest⟩

theorem walkInside_keeps (h : act.Keeps P) {b : Block} (hb : ∀ a ∈ b.offered, P a) (s : σ) :
    ∃ b' s', walkInside act b s = .ok b' s' ∧ ∀ a ∈ b'.offered, P a := by
  match b with
  | .container kind content =>
      rw [Block.offered, List.forall_mem_append] at hb
      obtain ⟨content', s', hwalk, hcontent⟩ := walkContent_keeps h hb.1 s
      refine ⟨.container kind content', s', ?_, ?_⟩
      · rw [walkInside, bind_ok hwalk]
        rfl
      · rw [Block.offered, List.forall_mem_append, List.forall_mem_singleton]
        exact ⟨hcontent, h.container kind content'⟩
  | .header .. | .raw .. | .code .. | .other .. => exact ⟨_, s, rfl, hb⟩

theorem walkContent_keeps (h : act.Keeps P) {c : Content} (hc : ∀ a ∈ c.offered, P a) (s : σ) :
    ∃ c' s', walkContent act c s = .ok c' s' ∧ ∀ a ∈ c'.offered, P a := by
  match c with
  | .value v => exact ⟨.value v, s, rfl, hc⟩
  | .blocks bs =>
      obtain ⟨bs', s', hwalk, hbs⟩ := walkBlocks_keeps h hc s
      refine ⟨.blocks bs', s', ?_, hbs⟩
      rw [walkContent, bind_ok hwalk]
      rfl
  | .list cs =>
      obtain ⟨cs', s', hwalk, hcs⟩ := walkContents_keeps h hc s
      refine ⟨.list cs', s', ?_, hcs⟩
      rw [walkContent, bind_ok hwalk]
      rfl

theorem walkContents_keeps (h : act.Keeps P) {cs : List Content}
    (hcs : ∀ a ∈ Content.offeredOf cs, P a) (s : σ) :
    ∃ cs' s', walkContents act cs s = .ok cs' s' ∧ ∀ a ∈ Content.offeredOf cs', P a := by
  match cs with
  | [] => exact ⟨[], s, rfl, hcs⟩
  | c :: cs =>
      rw [Content.offeredOf, List.forall_mem_append] at hcs
      obtain ⟨c', s, hwalk, hc⟩ := walkContent_keeps h hcs.1 s
      obtain ⟨cs', s', hwalk', hcs'⟩ := walkContents_keeps h hcs.2 s
      refine ⟨c' :: cs', s', ?_, ?_⟩
      · rw [walkContents, bind_ok hwalk, bind_ok hwalk']
        rfl
      · rw [Content.offeredOf, List.forall_mem_append]
        exact ⟨hc, hcs'⟩

end

namespace Document

/-- A document with other metadata and other blocks in the place of its leaves. -/
def change (g : List (String × Json) → List (String × Json)) (r : Block → Block) (d : Document) :
    Document :=
  { d with metadata := g d.metadata, blocks := Block.replaceOf r d.blocks }

end Document

namespace Filter

variable {f : Filter} {g : List (String × Json) → List (String × Json)} {d : Document}

theorem apply_change (hprepare : f.prepare = id) (hr : KeepsLeaves r)
    (h : f.action.Respects r fun s => (s.1, s.2.change g r)) (d : Document) :
    f.apply (d.change g r) = along id (Document.change g r) (f.apply d) := by
  have hwalk := walkBlocks_respects h hr d.blocks (f.initial, { d with blocks := [] })
  unfold apply
  simp only [hprepare, id]
  have hstate : (f.initial, { d.change g r with blocks := [] }) =
      (f.initial, ({ d with blocks := [] } : Document).change g r) := rfl
  have hblocks : (d.change g r).blocks = Block.replaceOf r d.blocks := rfl
  rw [hblocks, hstate, hwalk]
  cases walkBlocks f.action d.blocks (f.initial, { d with blocks := [] }) <;> rfl

theorem apply_of_walk {bs : List Block} {s : f.State × Document}
    (h : walkBlocks f.action (f.prepare d).blocks (f.initial, { f.prepare d with blocks := [] }) =
      .ok bs s) : f.apply d = .ok () { s.2 with blocks := bs } := by
  simp only [apply, h]

theorem apply_keeps (hprepare : ∀ d, (f.prepare d).blocks = d.blocks) (h : f.action.Keeps P)
    (hd : ∀ b ∈ Block.offeredOf d.blocks, P b) :
    ∃ d', f.apply d = .ok () d' ∧ ∀ b ∈ Block.offeredOf d'.blocks, P b := by
  rw [← hprepare d] at hd
  obtain ⟨bs, s, hwalk, hbs⟩ :=
    walkBlocks_keeps h hd (f.initial, { f.prepare d with blocks := [] })
  exact ⟨{ s.2 with blocks := bs }, apply_of_walk hwalk, hbs⟩

end Filter

end ApiListing
