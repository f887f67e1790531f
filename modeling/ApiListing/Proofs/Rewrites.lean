import ApiListing.Document.Visit

namespace ApiListing

mutual

/-- The blocks that a walk offers for a block, in its order. -/
def Block.offered : Block → List Block
  | .container kind content => content.offered ++ [.container kind content]
  | .header level attr inlines => [.header level attr inlines]
  | .raw format text => [.raw format text]
  | .code attr text => [.code attr text]
  | .other value => [.other value]

def Content.offered : Content → List Block
  | .value _ => []
  | .blocks bs => Block.offeredOf bs
  | .list cs => Content.offeredOf cs

def Block.offeredOf : List Block → List Block
  | [] => []
  | b :: bs => b.offered ++ Block.offeredOf bs

def Content.offeredOf : List Content → List Block
  | [] => []
  | c :: cs => c.offered ++ Content.offeredOf cs

end

mutual

def Block.replace (r : Block → Block) : Block → Block
  | .container kind content => .container kind (content.replace r)
  | .header level attr inlines => r (.header level attr inlines)
  | .raw format text => r (.raw format text)
  | .code attr text => r (.code attr text)
  | .other value => r (.other value)

def Content.replace (r : Block → Block) : Content → Content
  | .value v => .value v
  | .blocks bs => .blocks (Block.replaceOf r bs)
  | .list cs => .list (Content.replaceOf r cs)

def Block.replaceOf (r : Block → Block) : List Block → List Block
  | [] => []
  | b :: bs => b.replace r :: Block.replaceOf r bs

def Content.replaceOf (r : Block → Block) : List Content → List Content
  | [] => []
  | c :: cs => c.replace r :: Content.replaceOf r cs

end

def Block.isContainer : Block → Bool
  | .container _ _ => true
  | _ => false

variable {σ α β : Type} {act : Action σ} {fault? : Block → Option Error} {r : Block → Block}

/-- The result `x`, unless one of the offered blocks is at fault; then the error of the first. -/
def outcome (fault? : Block → Option Error) (offered : List Block) (x : α) (s : σ) :
    EStateM.Result Error σ α :=
  match offered.findSome? fault? with
  | none => .ok x s
  | some e => .error e s

theorem bind_outcome {l m : List Block} {x : EStateM Error σ α} {f : α → EStateM Error σ β}
    {a : α} {b : β} {s : σ} (hx : x s = outcome fault? l a s) (hf : f a s = outcome fault? m b s) :
    (x >>= f) s = outcome fault? (l ++ m) b s := by
  simp only [bind, EStateM.bind, hx, outcome, List.findSome?_append]
  cases l.findSome? fault? with
  | none => simpa [outcome] using hf
  | some e => rfl

/-- An action that rewrites blocks one by one and leaves containers alone. -/
structure Action.Rewrites (act : Action σ) (fault? : Block → Option Error) (r : Block → Block) :
    Prop where
  container : ∀ kind content s, act (.container kind content) s = .ok [.container kind content] s
  faultless : ∀ kind content, fault? (.container kind content) = none
  leaf : ∀ b s, b.isContainer = false → act b s = outcome fault? [b] [r b] s

mutual

theorem walkBlock_rewrites (h : act.Rewrites fault? r) (b : Block) (s : σ) :
    (walkInside act b >>= act) s = outcome fault? b.offered [b.replace r] s := by
  match b with
  | .container kind content =>
      have hinside : walkInside act (.container kind content) s =
          outcome fault? (content.offered ++ []) (.container kind (content.replace r)) s :=
        bind_outcome (walkContent_rewrites h content s) rfl
      have hact : act (.container kind (content.replace r)) s =
          outcome fault? [.container kind content] [.container kind (content.replace r)] s := by
        rw [h.container, outcome, List.findSome?_singleton, h.faultless]
      rw [Block.offered, Block.replace]
      rw [List.append_nil] at hinside
      exact bind_outcome hinside hact
  | .header .. | .raw .. | .code .. | .other .. => exact h.leaf _ s rfl

theorem walkBlocks_rewrites (h : act.Rewrites fault? r) (bs : List Block) (s : σ) :
    walkBlocks act bs s = outcome fault? (Block.offeredOf bs) (Block.replaceOf r bs) s := by
  match bs with
  | [] => rfl
  | b :: bs =>
      have hblock := walkBlock_rewrites h b s
      have hrest : (walkBlocks act bs >>= fun rest => pure ([b.replace r] ++ rest)) s =
          outcome fault? (Block.offeredOf bs ++ []) ([b.replace r] ++ Block.replaceOf r bs) s :=
        bind_outcome (walkBlocks_rewrites h bs s) rfl
      rw [List.append_nil] at hrest
      rw [walkBlocks, Block.offeredOf, Block.replaceOf, ← bind_assoc]
      exact bind_outcome hblock hrest

theorem walkContent_rewrites (h : act.Rewrites fault? r) (c : Content) (s : σ) :
    walkContent act c s = outcome fault? c.offered (c.replace r) s := by
  match c with
  | .value v => rfl
  | .blocks bs =>
      rw [walkContent, Content.offered, Content.replace, ← List.append_nil (Block.offeredOf bs)]
      exact bind_outcome (walkBlocks_rewrites h bs s) rfl
  | .list cs =>
      rw [walkContent, Content.offered, Content.replace, ← List.append_nil (Content.offeredOf cs)]
      exact bind_outcome (walkContents_rewrites h cs s) rfl

theorem walkContents_rewrites (h : act.Rewrites fault? r) (cs : List Content) (s : σ) :
    walkContents act cs s = outcome fault? (Content.offeredOf cs) (Content.replaceOf r cs) s := by
  match cs with
  | [] => rfl
  | c :: cs =>
      rw [walkContents, Content.offeredOf, Content.replaceOf,
        ← List.append_nil (Content.offeredOf cs)]
      exact bind_outcome (walkContent_rewrites h c s)
        (bind_outcome (walkContents_rewrites h cs s) rfl)

end

theorem Filter.apply_of_rewrites {f : Filter} {d : Document} (hprepare : f.prepare = id)
    (h : f.action.Rewrites fault? r) : f.apply d =
      match (Block.offeredOf d.blocks).findSome? fault? with
      | none => .ok () { d with blocks := Block.replaceOf r d.blocks }
      | some e => .error e { d with blocks := [] } := by
  unfold apply
  rw [hprepare]
  simp only [walkBlocks_rewrites h, outcome, id]
  cases (Block.offeredOf d.blocks).findSome? fault? <;> rfl

def Action.Observes (act : Action σ) (see : σ → Block → σ) : Prop :=
  ∀ b s, act b s = .ok [b] (see s b)

theorem bind_ok {x : EStateM Error σ α} {f : α → EStateM Error σ β} {a : α} {s t : σ}
    (hx : x s = .ok a t) : (x >>= f) s = f a t := by
  simp only [bind, EStateM.bind, hx]

variable {see : σ → Block → σ}

mutual

theorem walkBlock_observes (h : act.Observes see) (b : Block) (s : σ) :
    (walkInside act b >>= act) s = .ok [b] (b.offered.foldl see s) := by
  match b with
  | .container kind content =>
      have hinside : walkInside act (.container kind content) s =
          .ok (.container kind content) (content.offered.foldl see s) :=
        bind_ok (walkContent_observes h content s)
      rw [bind_ok hinside, h, Block.offered, List.foldl_append, List.foldl_cons, List.foldl_nil]
  | .header .. | .raw .. | .code .. | .other .. => exact h _ s

theorem walkBlocks_observes (h : act.Observes see) (bs : List Block) (s : σ) :
    walkBlocks act bs s = .ok bs ((Block.offeredOf bs).foldl see s) := by
  match bs with
  | [] => rfl
  | b :: bs =>
      rw [walkBlocks, Block.offeredOf, List.foldl_append, ← bind_assoc,
        bind_ok (walkBlock_observes h b s), bind_ok (walkBlocks_observes h bs _)]
      rfl

theorem walkContent_observes (h : act.Observes see) (c : Content) (s : σ) :
    walkContent act c s = .ok c (c.offered.foldl see s) := by
  match c with
  | .value v => rfl
  | .blocks bs =>
      rw [walkContent, bind_ok (walkBlocks_observes h bs s), Content.offered]
      rfl
  | .list cs =>
      rw [walkContent, bind_ok (walkContents_observes h cs s), Content.offered]
      rfl

theorem walkContents_observes (h : act.Observes see) (cs : List Content) (s : σ) :
    walkContents act cs s = .ok cs ((Content.offeredOf cs).foldl see s) := by
  match cs with
  | [] => rfl
  | c :: cs =>
      rw [walkContents, Content.offeredOf, List.foldl_append,
        bind_ok (walkContent_observes h c s), bind_ok (walkContents_observes h cs _)]
      rfl

end

def Filter.recorded (s : List Visit × Document) (b : Block) : List Visit × Document :=
  (s.1 ++ [⟨b, s.2.blocks⟩], s.2)

/-- A walk that keeps every block visits exactly the offered blocks, in their order. -/
theorem Document.map_block_visits (d : Document) :
    d.visits.map Visit.block = Block.offeredOf d.blocks := by
  have hobserves : Filter.recorder.action.Observes Filter.recorded := fun _ _ => rfl
  have hfold : ∀ (bs : List Block) (s : List Visit × Document),
      (bs.foldl Filter.recorded s).1.map Visit.block = s.1.map Visit.block ++ bs := by
    intro bs
    induction bs with
    | nil => simp
    | cons b bs ih =>
        intro s
        rw [List.foldl_cons, ih]
        simp [Filter.recorded]
  rw [visits, walkBlocks_observes hobserves]
  exact hfold _ _

theorem Block.offered_of_leaf {b : Block} (h : b.isContainer = false) : b.offered = [b] := by
  cases b with
  | container kind content => cases h
  | _ => rw [offered]

theorem Block.replace_of_leaf {b : Block} (h : b.isContainer = false) : b.replace r = r b := by
  cases b with
  | container kind content => cases h
  | _ => rw [replace]

def Block.leaves (bs : List Block) : List Block := bs.filter fun b => !b.isContainer

theorem Block.mem_leaves {b : Block} {bs : List Block} :
    b ∈ leaves bs ↔ b ∈ bs ∧ b.isContainer = false := by
  simp [leaves]

theorem Block.leaves_append (bs bs' : List Block) :
    leaves (bs ++ bs') = leaves bs ++ leaves bs' := List.filter_append ..

theorem Block.leaves_of_leaf {b : Block} (h : b.isContainer = false) : leaves [b] = [b] := by
  simp [leaves, h]

theorem Block.leaves_replace_of_leaf {b : Block} (h : b.isContainer = false)
    (hr : (r b).isContainer = false) :
    leaves (b.replace r).offered = (leaves b.offered).map r := by
  rw [replace_of_leaf h, offered_of_leaf hr, offered_of_leaf h, leaves_of_leaf hr,
    leaves_of_leaf h, List.map_singleton]

/-- Containers are put in the place of containers only. -/
def Block.KeepsLeaves (r : Block → Block) : Prop :=
  ∀ b : Block, b.isContainer = false → (r b).isContainer = false

open Block (KeepsLeaves)

mutual

theorem Block.leaves_replace (hr : KeepsLeaves r) (b : Block) :
    Block.leaves (b.replace r).offered = (Block.leaves b.offered).map r := by
  match b with
  | .container kind content =>
      rw [Block.replace, Block.offered, Block.offered, Block.leaves_append, Block.leaves_append,
        List.map_append, Content.leaves_replace hr content]
      rfl
  | .header .. | .raw .. | .code .. | .other .. =>
      exact Block.leaves_replace_of_leaf rfl (hr _ rfl)

theorem Block.leaves_replaceOf (hr : KeepsLeaves r) (bs : List Block) :
    Block.leaves (Block.offeredOf (Block.replaceOf r bs)) =
      (Block.leaves (Block.offeredOf bs)).map r := by
  match bs with
  | [] => rfl
  | b :: bs =>
      rw [Block.replaceOf, Block.offeredOf, Block.offeredOf, Block.leaves_append,
        Block.leaves_append, List.map_append, Block.leaves_replace hr b,
        Block.leaves_replaceOf hr bs]

theorem Content.leaves_replace (hr : KeepsLeaves r) (c : Content) :
    Block.leaves (c.replace r).offered = (Block.leaves c.offered).map r := by
  match c with
  | .value v => rfl
  | .blocks bs =>
      rw [Content.replace, Content.offered, Content.offered, Block.leaves_replaceOf hr bs]
  | .list cs =>
      rw [Content.replace, Content.offered, Content.offered, Content.leaves_replaceOf hr cs]

theorem Content.leaves_replaceOf (hr : KeepsLeaves r) (cs : List Content) :
    Block.leaves (Content.offeredOf (Content.replaceOf r cs)) =
      (Block.leaves (Content.offeredOf cs)).map r := by
  match cs with
  | [] => rfl
  | c :: cs =>
      rw [Content.replaceOf, Content.offeredOf, Content.offeredOf, Block.leaves_append,
        Block.leaves_append, List.map_append, Content.leaves_replace hr c,
        Content.leaves_replaceOf hr cs]

end

mutual

theorem Block.replace_eq_self {b : Block} (h : ∀ a ∈ Block.leaves b.offered, r a = a) :
    b.replace r = b := by
  match b with
  | .container kind content =>
      rw [Block.offered, Block.leaves_append, List.forall_mem_append] at h
      rw [Block.replace, Content.replace_eq_self h.1]
  | .header .. | .raw .. | .code .. | .other .. => exact h _ (List.mem_singleton.2 rfl)

theorem Block.replaceOf_eq_self {bs : List Block}
    (h : ∀ a ∈ Block.leaves (Block.offeredOf bs), r a = a) : Block.replaceOf r bs = bs := by
  match bs with
  | [] => rfl
  | b :: bs =>
      rw [Block.offeredOf, Block.leaves_append, List.forall_mem_append] at h
      rw [Block.replaceOf, Block.replace_eq_self h.1, Block.replaceOf_eq_self h.2]

theorem Content.replace_eq_self {c : Content} (h : ∀ a ∈ Block.leaves c.offered, r a = a) :
    c.replace r = c := by
  match c with
  | .value v => rfl
  | .blocks bs => rw [Content.replace, Block.replaceOf_eq_self h]
  | .list cs => rw [Content.replace, Content.replaceOf_eq_self h]

theorem Content.replaceOf_eq_self {cs : List Content}
    (h : ∀ a ∈ Block.leaves (Content.offeredOf cs), r a = a) : Content.replaceOf r cs = cs := by
  match cs with
  | [] => rfl
  | c :: cs =>
      rw [Content.offeredOf, Block.leaves_append, List.forall_mem_append] at h
      rw [Content.replaceOf, Content.replace_eq_self h.1, Content.replaceOf_eq_self h.2]

end

end ApiListing
