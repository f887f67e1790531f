import ApiListing.Proofs.WalkLogs

namespace ApiListing

variable {σ : Type} {act : Action σ} {f g k : Block → List Block} {see : σ → Block → σ}

mutual

/-- A block with other blocks in the place of its leaves. -/
def Block.expand (f : Block → List Block) : Block → List Block
  | .container kind content => [.container kind (content.expand f)]
  | .header level attr inlines => f (.header level attr inlines)
  | .raw format text => f (.raw format text)
  | .code attr text => f (.code attr text)
  | .other value => f (.other value)

def Content.expand (f : Block → List Block) : Content → Content
  | .value v => .value v
  | .blocks bs => .blocks (Block.expandOf f bs)
  | .list cs => .list (Content.expandOf f cs)

def Block.expandOf (f : Block → List Block) : List Block → List Block
  | [] => []
  | b :: bs => b.expand f ++ Block.expandOf f bs

def Content.expandOf (f : Block → List Block) : List Content → List Content
  | [] => []
  | c :: cs => c.expand f :: Content.expandOf f cs

end

/-- An action that answers a leaf `b` with `f b`, of which its state sees `b` alone, and leaves
containers alone. -/
structure Action.Expands (act : Action σ) (f : Block → List Block) (see : σ → Block → σ) : Prop where
  container : ∀ kind content s, act (.container kind content) s = .ok [.container kind content] s
  leaf : ∀ b s, b.isContainer = false → act b s = .ok (f b) (see s b)

mutual

theorem walkBlock_expands (h : act.Expands f see) (b : Block) (s : σ) :
    (walkInside act b >>= act) s = .ok (b.expand f) ((Block.leaves b.offered).foldl see s) := by
  match b with
  | .container kind content =>
      have hinside : walkInside act (.container kind content) s =
          .ok (.container kind (content.expand f))
            ((Block.leaves content.offered).foldl see s) :=
        bind_ok (walkContent_expands h content s)
      have hcontainer : Block.leaves [.container kind content] = [] := rfl
      rw [bind_ok hinside, h.container, Block.offered, Block.leaves_append, hcontainer,
        List.append_nil]
      rfl
  | .header .. | .raw .. | .code .. | .other .. => exact h.leaf _ s rfl

theorem walkBlocks_expands (h : act.Expands f see) (bs : List Block) (s : σ) :
    walkBlocks act bs s =
      .ok (Block.expandOf f bs) ((Block.leaves (Block.offeredOf bs)).foldl see s) := by
  match bs with
  | [] => rfl
  | b :: bs =>
      rw [walkBlocks, Block.offeredOf, Block.leaves_append, List.foldl_append, ← bind_assoc,
        bind_ok (walkBlock_expands h b s), bind_ok (walkBlocks_expands h bs _)]
      rfl

theorem walkContent_expands (h : act.Expands f see) (c : Content) (s : σ) :
    walkContent act c s = .ok (c.expand f) ((Block.leaves c.offered).foldl see s) := by
  match c with
  | .value v => rfl
  | .blocks bs =>
      rw [walkContent, bind_ok (walkBlocks_expands h bs s), Content.offered]
      rfl
  | .list cs =>
      rw [walkContent, bind_ok (walkContents_expands h cs s), Content.offered]
      rfl

theorem walkContents_expands (h : act.Expands f see) (cs : List Content) (s : σ) :
    walkContents act cs s =
      .ok (Content.expandOf f cs) ((Block.leaves (Content.offeredOf cs)).foldl see s) := by
  match cs with
  | [] => rfl
  | c :: cs =>
      rw [walkContents, Content.offeredOf, Block.leaves_append, List.foldl_append,
        bind_ok (walkContent_expands h c s), bind_ok (walkContents_expands h cs _)]
      rfl

end

theorem Filter.apply_of_expands {f : Filter} {r : Block → List Block}
    {see : f.State × Document → Block → f.State × Document} {d : Document}
    (hprepare : f.prepare = id) (h : f.action.Expands r see) :
    f.apply d = .ok () { ((Block.leaves (Block.offeredOf d.blocks)).foldl see
      (f.initial, { d with blocks := [] })).2 with blocks := Block.expandOf r d.blocks } := by
  refine apply_of_walk ?_
  rw [hprepare]
  exact walkBlocks_expands h d.blocks _

theorem Block.expandOf_append (f : Block → List Block) (bs bs' : List Block) :
    expandOf f (bs ++ bs') = expandOf f bs ++ expandOf f bs' := by
  induction bs with
  | nil => rfl
  | cons b bs ih => rw [List.cons_append, expandOf, expandOf, ih, List.append_assoc]

mutual

/-- Two expansions are one that puts the second one's blocks in the place of the first one's. -/
theorem Block.expandOf_expand
    (h : ∀ b : Block, b.isContainer = false → Block.expandOf g (f b) = k b) (b : Block) :
    Block.expandOf g (b.expand f) = b.expand k := by
  match b with
  | .container kind content =>
      rw [Block.expand, Block.expand, Block.expandOf, Block.expandOf, List.append_nil, Block.expand,
        Content.expand_expand h content]
  | .header .. | .raw .. | .code .. | .other .. => exact h _ rfl

theorem Block.expandOf_expandOf
    (h : ∀ b : Block, b.isContainer = false → Block.expandOf g (f b) = k b) (bs : List Block) :
    Block.expandOf g (Block.expandOf f bs) = Block.expandOf k bs := by
  match bs with
  | [] => rfl
  | b :: bs =>
      rw [Block.expandOf, Block.expandOf_append, Block.expandOf_expand h b,
        Block.expandOf_expandOf h bs, Block.expandOf]

theorem Content.expand_expand
    (h : ∀ b : Block, b.isContainer = false → Block.expandOf g (f b) = k b) (c : Content) :
    (c.expand f).expand g = c.expand k := by
  match c with
  | .value v => rfl
  | .blocks bs =>
      rw [Content.expand, Content.expand, Content.expand, Block.expandOf_expandOf h bs]
  | .list cs =>
      rw [Content.expand, Content.expand, Content.expand, Content.expandOf_expandOf h cs]

theorem Content.expandOf_expandOf
    (h : ∀ b : Block, b.isContainer = false → Block.expandOf g (f b) = k b) (cs : List Content) :
    Content.expandOf g (Content.expandOf f cs) = Content.expandOf k cs := by
  match cs with
  | [] => rfl
  | c :: cs =>
      rw [Content.expandOf, Content.expandOf, Content.expand_expand h c,
        Content.expandOf_expandOf h cs, Content.expandOf]

end

def Block.ExpandsToLeaves (f : Block → List Block) : Prop :=
  ∀ b : Block, b.isContainer = false → ∀ a ∈ f b, a.isContainer = false

open Block (ExpandsToLeaves leaves)

theorem Block.leaves_expand_of_leaf (hf : ExpandsToLeaves f) {b : Block}
    (hb : b.isContainer = false) :
    leaves (offeredOf (b.expand f)) = (leaves b.offered).flatMap f := by
  have hexpand : b.expand f = f b := by
    cases b with
    | container kind content => cases hb
    | _ => rfl
  have hleaves : leaves (f b) = f b := List.filter_eq_self.2 fun a ha => by simp [hf b hb a ha]
  rw [hexpand, offeredOf_of_leaves (hf b hb), hleaves, offered_of_leaf hb, leaves_of_leaf hb,
    List.flatMap_singleton]

mutual

theorem Block.leaves_expand (hf : ExpandsToLeaves f) (b : Block) :
    leaves (Block.offeredOf (b.expand f)) = (leaves b.offered).flatMap f := by
  match b with
  | .container kind content =>
      rw [Block.expand, Block.offeredOf_singleton, Block.offered, Block.offered,
        Block.leaves_append, Block.leaves_append, Content.leaves_expand hf content,
        List.flatMap_append]
      rfl
  | .header .. | .raw .. | .code .. | .other .. => exact Block.leaves_expand_of_leaf hf rfl

theorem Block.leaves_expandOf (hf : ExpandsToLeaves f) (bs : List Block) :
    leaves (Block.offeredOf (Block.expandOf f bs)) =
      (leaves (Block.offeredOf bs)).flatMap f := by
  match bs with
  | [] => rfl
  | b :: bs =>
      rw [Block.expandOf, Block.offeredOf_append, Block.offeredOf, Block.leaves_append,
        Block.leaves_append, List.flatMap_append, Block.leaves_expand hf b,
        Block.leaves_expandOf hf bs]

theorem Content.leaves_expand (hf : ExpandsToLeaves f) (c : Content) :
    leaves (c.expand f).offered = (leaves c.offered).flatMap f := by
  match c with
  | .value v => rfl
  | .blocks bs =>
      rw [Content.expand, Content.offered, Content.offered, Block.leaves_expandOf hf bs]
  | .list cs =>
      rw [Content.expand, Content.offered, Content.offered, Content.leaves_expandOf hf cs]

theorem Content.leaves_expandOf (hf : ExpandsToLeaves f) (cs : List Content) :
    leaves (Content.offeredOf (Content.expandOf f cs)) =
      (leaves (Content.offeredOf cs)).flatMap f := by
  match cs with
  | [] => rfl
  | c :: cs =>
      rw [Content.expandOf, Content.offeredOf, Content.offeredOf, Block.leaves_append,
        Block.leaves_append, List.flatMap_append, Content.leaves_expand hf c,
        Content.leaves_expandOf hf cs]

end

end ApiListing
