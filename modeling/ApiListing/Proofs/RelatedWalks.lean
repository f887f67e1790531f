import ApiListing.Proofs.Commuting

namespace ApiListing

variable {σ : Type} {act : Action σ} {R : Block → Block → Prop}

mutual

/-- The same containers around related leaves. -/
inductive Block.Related (R : Block → Block → Prop) : Block → Block → Prop
  | leaf {b b' : Block} (hb : b.isContainer = false) (hb' : b'.isContainer = false) (h : R b b') :
      Block.Related R b b'
  | container (kind : Container) {c c' : Content} (h : Content.Related R c c') :
      Block.Related R (.container kind c) (.container kind c')

inductive Block.RelatedOf (R : Block → Block → Prop) : List Block → List Block → Prop
  | nil : Block.RelatedOf R [] []
  | cons {b b' : Block} {bs bs' : List Block} (head : Block.Related R b b')
      (tail : Block.RelatedOf R bs bs') : Block.RelatedOf R (b :: bs) (b' :: bs')

inductive Content.Related (R : Block → Block → Prop) : Content → Content → Prop
  | value (v : Json) : Content.Related R (.value v) (.value v)
  | blocks {bs bs' : List Block} (h : Block.RelatedOf R bs bs') :
      Content.Related R (.blocks bs) (.blocks bs')
  | list {cs cs' : List Content} (h : Content.RelatedOf R cs cs') :
      Content.Related R (.list cs) (.list cs')

inductive Content.RelatedOf (R : Block → Block → Prop) : List Content → List Content → Prop
  | nil : Content.RelatedOf R [] []
  | cons {c c' : Content} {cs cs' : List Content} (head : Content.Related R c c')
      (tail : Content.RelatedOf R cs cs') : Content.RelatedOf R (c :: cs) (c' :: cs')

end

namespace Block

theorem RelatedOf.append {bs bs' cs cs' : List Block} (h : RelatedOf R bs bs')
    (h' : RelatedOf R cs cs') : RelatedOf R (bs ++ cs) (bs' ++ cs') := by
  induction bs generalizing bs' with
  | nil => cases h with | nil => exact h'
  | cons b bs ih => cases h with | cons head tail => exact .cons head (ih tail)

theorem RelatedOf.singleton {b b' : Block} (h : Related R b b') : RelatedOf R [b] [b'] :=
  .cons h .nil

end Block

/-- An action that does to related blocks the same, and answers them with related blocks. -/
def Action.Relates (act : Action σ) (R : Block → Block → Prop) : Prop :=
  ∀ b b' s, Block.Related R b b' → ∃ bs bs' t, act b s = .ok bs t ∧ act b' s = .ok bs' t ∧
    Block.RelatedOf R bs bs'

mutual

theorem walkBlocks_related (h : act.Relates R) {bs bs' : List Block}
    (hbs : Block.RelatedOf R bs bs') (s : σ) :
    ∃ cs cs' t, walkBlocks act bs s = .ok cs t ∧ walkBlocks act bs' s = .ok cs' t ∧
      Block.RelatedOf R cs cs' := by
  cases hbs with
  | nil => exact ⟨[], [], s, rfl, rfl, .nil⟩
  | cons head tail =>
      obtain ⟨a, a', t, ha, ha', hinside⟩ := walkInside_related h head s
      obtain ⟨inPlace, inPlace', u, hact, hact', hplace⟩ := h a a' t hinside
      obtain ⟨rest, rest', v, hwalk, hwalk', hrest⟩ := walkBlocks_related h tail u
      refine ⟨inPlace ++ rest, inPlace' ++ rest', v, ?_, ?_, hplace.append hrest⟩
      · rw [walkBlocks, bind_ok ha, bind_ok hact, bind_ok hwalk]
        rfl
      · rw [walkBlocks, bind_ok ha', bind_ok hact', bind_ok hwalk']
        rfl

theorem walkInside_related (h : act.Relates R) {b b' : Block}
    (hb : Block.Related R b b') (s : σ) :
    ∃ a a' t, walkInside act b s = .ok a t ∧ walkInside act b' s = .ok a' t ∧
      Block.Related R a a' := by
  cases hb with
  | leaf hb hb' hleaf =>
      exact ⟨_, _, s, walkInside_of_leaf hb s, walkInside_of_leaf hb' s, .leaf hb hb' hleaf⟩
  | container kind hc =>
      obtain ⟨c, c', t, hwalk, hwalk', hcontent⟩ := walkContent_related h hc s
      refine ⟨.container kind c, .container kind c', t, ?_, ?_, .container kind hcontent⟩
      · rw [walkInside, bind_ok hwalk]
        rfl
      · rw [walkInside, bind_ok hwalk']
        rfl

theorem walkContent_related (h : act.Relates R) {c c' : Content}
    (hc : Content.Related R c c') (s : σ) :
    ∃ a a' t, walkContent act c s = .ok a t ∧ walkContent act c' s = .ok a' t ∧
      Content.Related R a a' := by
  cases hc with
  | value v => exact ⟨_, _, s, rfl, rfl, .value v⟩
  | blocks hbs =>
      obtain ⟨cs, cs', t, hwalk, hwalk', hblocks⟩ := walkBlocks_related h hbs s
      refine ⟨.blocks cs, .blocks cs', t, ?_, ?_, .blocks hblocks⟩
      · rw [walkContent, bind_ok hwalk]
        rfl
      · rw [walkContent, bind_ok hwalk']
        rfl
  | list hcs =>
      obtain ⟨cs, cs', t, hwalk, hwalk', hcontents⟩ := walkContents_related h hcs s
      refine ⟨.list cs, .list cs', t, ?_, ?_, .list hcontents⟩
      · rw [walkContent, bind_ok hwalk]
        rfl
      · rw [walkContent, bind_ok hwalk']
        rfl

theorem walkContents_related (h : act.Relates R) {cs cs' : List Content}
    (hcs : Content.RelatedOf R cs cs') (s : σ) :
    ∃ as as' t, walkContents act cs s = .ok as t ∧ walkContents act cs' s = .ok as' t ∧
      Content.RelatedOf R as as' := by
  cases hcs with
  | nil => exact ⟨[], [], s, rfl, rfl, .nil⟩
  | cons head tail =>
      obtain ⟨a, a', t, ha, ha', hcontent⟩ := walkContent_related h head s
      obtain ⟨as, as', u, hwalk, hwalk', hrest⟩ := walkContents_related h tail t
      refine ⟨a :: as, a' :: as', u, ?_, ?_, .cons hcontent hrest⟩
      · rw [walkContents, bind_ok ha, bind_ok hwalk]
        rfl
      · rw [walkContents, bind_ok ha', bind_ok hwalk']
        rfl

end

structure Document.Related (R : Block → Block → Prop) (d d' : Document) : Prop where
  version : d'.apiVersion = d.apiVersion
  metadata : d'.metadata = d.metadata
  blocks : Block.RelatedOf R d.blocks d'.blocks

theorem Filter.apply_related {f : Filter} {d d' : Document} (hprepare : f.prepare = id)
    (h : f.action.Relates R) (hd : Document.Related R d d') :
    ∃ t t', f.apply d = .ok () t ∧ f.apply d' = .ok () t' ∧ Document.Related R t t' := by
  obtain ⟨version, metadata, blocks⟩ := d
  obtain ⟨version', metadata', blocks'⟩ := d'
  obtain ⟨rfl, rfl, hblocks⟩ := hd
  obtain ⟨bs, bs', s, hwalk, hwalk', hbs⟩ :=
    walkBlocks_related h hblocks (f.initial, ⟨version', metadata', []⟩)
  refine ⟨{ s.2 with blocks := bs }, { s.2 with blocks := bs' }, apply_of_walk ?_, apply_of_walk ?_,
    rfl, rfl, hbs⟩
  · rw [hprepare]
    exact hwalk
  · rw [hprepare]
    exact hwalk'

end ApiListing
