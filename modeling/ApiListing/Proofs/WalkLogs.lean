import ApiListing.Proofs.Commuting
import ApiListing.Proofs.Walks

namespace ApiListing

open EState

structure Offer (σ : Type) where
  block : Block
  state : σ
  answer : List Block

/-- How to answer the block at each place of the walk. Where nothing is said it is kept. -/
abbrev Grafts := Nat → Option (List Block)

variable {σ α β γ : Type} {act : Action σ} {grafts : Grafts} {n : Nat} {s t u : σ}
  {o : Offer σ} {log log' : List (Offer σ)} {offered offered' : List Block}

def Action.logged (act : Action σ) : Action (List (Offer σ) × σ) := fun b (log, s) =>
  match act b s with
  | .ok answer t => .ok answer (log ++ [⟨b, s, answer⟩], t)
  | .error e t => .error e (log, t)

theorem Action.logged_of_ok {b : Block} {answer : List Block} (h : act b s = .ok answer t) :
    act.logged b (log, s) = .ok answer (log ++ [⟨b, s, answer⟩], t) := by
  simp only [logged, h]

/-- The log is what an action answers one after the other, from a first state to a last one. -/
inductive Answers (act : Action σ) : σ → List (Offer σ) → σ → Prop
  | nil {s : σ} : Answers act s [] s
  | cons {o : Offer σ} {t u : σ} {log : List (Offer σ)}
      (head : act o.block o.state = .ok o.answer t) (tail : Answers act t log u) :
      Answers act o.state (o :: log) u

namespace Answers

theorem append (h : Answers act s log t) (h' : Answers act t log' u) :
    Answers act s (log ++ log') u := by
  induction h with
  | nil => exact h'
  | cons head _ ih => exact .cons head (ih h')

theorem singleton {b : Block} {answer : List Block} (h : act b s = .ok answer t) :
    Answers act s [⟨b, s, answer⟩] t :=
  .cons (o := ⟨b, s, answer⟩) h .nil

theorem forall_state {P : σ → Prop} (hP : ∀ b s answer t, P s → act b s = .ok answer t → P t)
    (h : Answers act s log t) (hs : P s) : (∀ o ∈ log, P o.state) ∧ P t := by
  induction h with
  | nil => exact ⟨fun o ho => absurd ho List.not_mem_nil, hs⟩
  | cons head _ ih =>
      obtain ⟨htail, ht⟩ := ih (hP _ _ _ _ hs head)
      exact ⟨List.forall_mem_cons.2 ⟨hs, htail⟩, ht⟩

theorem answered (h : Answers act s log t) :
    ∀ o ∈ log, ∃ t, act o.block o.state = .ok o.answer t := by
  induction h with
  | nil => exact fun o ho => absurd ho List.not_mem_nil
  | cons head _ ih => exact List.forall_mem_cons.2 ⟨⟨_, head⟩, ih⟩

theorem answer_eq {answer : List Block} (h : Answers act s log t) (ho : o ∈ log)
    (hact : act o.block o.state = .ok answer u) : o.answer = answer := by
  obtain ⟨_, hanswer⟩ := h.answered o ho
  exact (EStateM.Result.ok.inj (hanswer.symm.trans hact)).1

end Answers

/-- The same node of a document: a container keeps its kind and may hold something else. -/
inductive Block.SameNode : Block → Block → Prop
  | leaf {b : Block} (leaf : b.isContainer = false) : SameNode b b
  | container {kind : Container} {content content' : Content} :
      SameNode (.container kind content) (.container kind content')

mutual

/-- A block with grafts, the first of its offers being at the place `n` of the walk. -/
def Block.graft (grafts : Grafts) (n : Nat) : Block → List Block
  | .container kind content =>
    (grafts (n + content.offered.length)).getD [.container kind (content.graft grafts n)]
  | .header level attr inlines => (grafts n).getD [.header level attr inlines]
  | .raw format text => (grafts n).getD [.raw format text]
  | .code attr text => (grafts n).getD [.code attr text]
  | .other value => (grafts n).getD [.other value]

def Content.graft (grafts : Grafts) (n : Nat) : Content → Content
  | .value v => .value v
  | .blocks bs => .blocks (Block.graftOf grafts n bs)
  | .list cs => .list (Content.graftOf grafts n cs)

def Block.graftOf (grafts : Grafts) (n : Nat) : List Block → List Block
  | [] => []
  | b :: bs => b.graft grafts n ++ Block.graftOf grafts (n + b.offered.length) bs

def Content.graftOf (grafts : Grafts) (n : Nat) : List Content → List Content
  | [] => []
  | c :: cs => c.graft grafts n :: Content.graftOf grafts (n + c.offered.length) cs

end

def Grafts.Explain (grafts : Grafts) (n : Nat) (log : List (Offer σ)) : Prop :=
  ∀ i o, log[i]? = some o → o.answer = (grafts (n + i)).getD [o.block]

namespace Grafts.Explain

theorem left (h : grafts.Explain n (log ++ log')) : grafts.Explain n log := by
  intro i o ho
  refine h i o ?_
  rw [List.getElem?_append_left (List.getElem?_eq_some_iff.1 ho).1, ho]

theorem right (h : grafts.Explain n (log ++ log')) :
    grafts.Explain (n + log.length) log' := by
  intro i o ho
  rw [Nat.add_assoc]
  refine h _ o ?_
  rw [List.getElem?_append_right (Nat.le_add_right _ _), Nat.add_sub_cancel_left, ho]

theorem last (h : grafts.Explain n (log ++ [o])) :
    o.answer = (grafts (n + log.length)).getD [o.block] := h.right 0 o rfl

end Grafts.Explain

namespace Block

def inside : Block → List Block
  | .container _ content => content.offered
  | _ => []

theorem offered_eq (b : Block) : b.offered = b.inside ++ [b] := by
  cases b with
  | container kind content => rw [offered, inside]
  | _ => rfl

theorem inside_of_leaf {b : Block} (h : b.isContainer = false) : b.inside = [] := by
  cases b with
  | container kind content => cases h
  | _ => rfl

theorem offeredOf_of_leaves {bs : List Block} (h : ∀ b ∈ bs, b.isContainer = false) :
    offeredOf bs = bs := by
  induction bs with
  | nil => rfl
  | cons b bs ih =>
      rw [List.forall_mem_cons] at h
      rw [offeredOf, offered_of_leaf h.1, ih h.2, List.singleton_append]

end Block

/-- The block is kept, or it is a leaf that gives way to leaves. Other answers would bring blocks
into the document that the walk is not offered. -/
def Offer.InPlace (o : Offer σ) : Prop :=
  o.answer = [o.block] ∨ o.block.isContainer = false ∧ ∀ b ∈ o.answer, b.isContainer = false

/-- The log of a walk over a part of a document that offers the blocks `offered`. The walk goes
from `s` to `t` and its outcome is `x`: the part with the answers as grafts. `listing` are the blocks
that an outcome offers. -/
structure Logs (act : Action σ) (walk : EStateM Error (List (Offer σ) × σ) α)
    (offered : List Block) (graft : Grafts → Nat → α) (listing : α → List Block)
    (s : σ) (x : α) (log : List (Offer σ)) (t : σ) : Prop where
  logged : ∀ before, walk (before, s) = .ok x (before ++ log, t)
  answers : Answers act s log t
  sameNodes : List.Forall₂ Block.SameNode offered (log.map Offer.block)
  grafted : ∀ grafts n, grafts.Explain n log → x = graft grafts n
  listed : (∀ o ∈ log, o.InPlace) → listing x = log.flatMap Offer.answer

namespace Logs

variable {walk : EStateM Error (List (Offer σ) × σ) α}
  {walk' : EStateM Error (List (Offer σ) × σ) β}
  {graft : Grafts → Nat → α} {graft' : Grafts → Nat → β} {listing : α → List Block}
  {listing' : β → List Block} {x : α} {y : β}

theorem length_eq (h : Logs act walk offered graft listing s x log t) :
    log.length = offered.length := by
  rw [h.sameNodes.length_eq, List.length_map]

theorem pure (hgraft : ∀ grafts n, x = graft grafts n) (hlisting : listing x = []) :
    Logs act (pure x) [] graft listing s x [] s where
  logged before := by rw [List.append_nil]; rfl
  answers := .nil
  sameNodes := .nil
  grafted grafts n _ := hgraft grafts n
  listed _ := hlisting

theorem map (h : Logs act walk offered graft listing s x log t) (f : α → β)
    (hgraft : ∀ grafts n, f (graft grafts n) = graft' grafts n)
    (hlisting : listing' (f x) = listing x) :
    Logs act (do return f (← walk)) offered graft' listing' s (f x) log t where
  logged before := by rw [bind_ok (h.logged before)]; rfl
  answers := h.answers
  sameNodes := h.sameNodes
  grafted grafts n hexplain := by rw [h.grafted grafts n hexplain, hgraft]
  listed hplaced := by rw [hlisting, h.listed hplaced]

theorem both {f : α → β → γ} {graft'' : Grafts → Nat → γ} {listing'' : γ → List Block}
    (h : Logs act walk offered graft listing s x log t)
    (h' : Logs act walk' offered' graft' listing' t y log' u)
    (hgraft : ∀ grafts n,
      f (graft grafts n) (graft' grafts (n + offered.length)) = graft'' grafts n)
    (hlisting : listing'' (f x y) = listing x ++ listing' y) :
    Logs act (do let x ← walk; return f x (← walk')) (offered ++ offered') graft'' listing'' s
      (f x y) (log ++ log') u where
  logged before := by
    rw [bind_ok (h.logged before), bind_ok (h'.logged (before ++ log)), ← List.append_assoc]
    rfl
  answers := h.answers.append h'.answers
  sameNodes := by
    rw [List.map_append]
    exact List.rel_append h.sameNodes h'.sameNodes
  grafted grafts n hexplain := by
    have hright := hexplain.right
    rw [h.length_eq] at hright
    rw [← hgraft, ← h.grafted grafts n hexplain.left, ← h'.grafted grafts _ hright]
  listed hplaced := by
    rw [List.forall_mem_append] at hplaced
    rw [hlisting, List.flatMap_append, h.listed hplaced.1, h'.listed hplaced.2]

theorem offer {b b' : Block} {answer : List Block}
    {walk : EStateM Error (List (Offer σ) × σ) Block} {graft : Grafts → Nat → Block}
    {graft' : Grafts → Nat → List Block}
    (h : Logs act walk offered graft Block.inside s b' log t) (hact : act b' t = .ok answer u)
    (hnode : b.SameNode b')
    (hgraft : ∀ grafts n,
      (grafts (n + offered.length)).getD [graft grafts n] = graft' grafts n) :
    Logs act (walk >>= act.logged) (offered ++ [b]) graft' Block.offeredOf s answer
      (log ++ [⟨b', t, answer⟩]) u where
  logged before := by
    rw [bind_ok (h.logged before), Action.logged_of_ok hact, List.append_assoc]
  answers := h.answers.append (.singleton hact)
  sameNodes := by
    rw [List.map_append]
    exact List.rel_append h.sameNodes (.cons hnode .nil)
  grafted grafts n hexplain := by
    have hlast := hexplain.last
    rw [h.length_eq] at hlast
    rw [← hgraft, ← h.grafted grafts n hexplain.left]
    exact hlast
  listed hplaced := by
    rw [List.forall_mem_append, List.forall_mem_singleton] at hplaced
    rw [List.flatMap_append, List.flatMap_singleton, ← h.listed hplaced.1]
    rcases hplaced.2 with (hkept : answer = [b']) | ⟨hleaf, hleaves⟩
    · rw [hkept, Block.offeredOf_singleton, Block.offered_eq]
    · rw [Block.inside_of_leaf hleaf, Block.offeredOf_of_leaves hleaves, List.nil_append]

end Logs

mutual

/-- A walk that comes to its end has a log. -/
theorem walkBlocks_logs {s t : σ} {bs bs' : List Block}
    (h : walkBlocks act bs s = .ok bs' t) : ∃ log,
    Logs act (walkBlocks act.logged bs) (Block.offeredOf bs)
      (fun grafts n => Block.graftOf grafts n bs) Block.offeredOf s bs' log t := by
  match bs with
  | [] =>
      obtain ⟨rfl, rfl⟩ := pure_eq_ok.1 h
      exact ⟨[], .pure (fun _ _ => rfl) rfl⟩
  | b :: bs =>
      rw [walkBlocks, ← bind_assoc] at h
      obtain ⟨inPlace, _, hblock, h⟩ := bind_eq_ok.1 h
      obtain ⟨rest, _, hrest, h⟩ := bind_eq_ok.1 h
      obtain ⟨rfl, rfl⟩ := pure_eq_ok.1 h
      obtain ⟨log, hlog⟩ := walkBlock_logs hblock
      obtain ⟨log', hlog'⟩ := walkBlocks_logs hrest
      rw [walkBlocks, ← bind_assoc]
      exact ⟨log ++ log', hlog.both hlog' (fun _ _ => rfl) (Block.offeredOf_append ..)⟩

theorem walkBlock_logs {s t : σ} {b : Block} {bs' : List Block}
    (h : (walkInside act b >>= act) s = .ok bs' t) : ∃ log,
    Logs act (walkInside act.logged b >>= act.logged) b.offered
      (fun grafts n => b.graft grafts n) Block.offeredOf s bs' log t := by
  obtain ⟨b', _, hinside, hact⟩ := bind_eq_ok.1 h
  match b with
  | .container kind content =>
      obtain ⟨content', _, hcontent, hinside⟩ := bind_eq_ok.1 hinside
      obtain ⟨rfl, rfl⟩ := pure_eq_ok.1 hinside
      obtain ⟨log, hlog⟩ := walkContent_logs hcontent
      exact ⟨_, (hlog.map (Block.container kind) (fun _ _ => rfl) rfl).offer hact .container
        fun _ _ => rfl⟩
  | .header .. | .raw .. | .code .. | .other .. =>
      obtain ⟨rfl, rfl⟩ := pure_eq_ok.1 hinside
      exact ⟨_, (Logs.pure (fun _ _ => rfl) rfl).offer hact (.leaf rfl) fun _ _ => rfl⟩

theorem walkContent_logs {s t : σ} {c c' : Content}
    (h : walkContent act c s = .ok c' t) : ∃ log,
    Logs act (walkContent act.logged c) c.offered
      (fun grafts n => c.graft grafts n) Content.offered s c' log t := by
  match c with
  | .value v =>
      obtain ⟨rfl, rfl⟩ := pure_eq_ok.1 h
      exact ⟨[], .pure (fun _ _ => rfl) rfl⟩
  | .blocks bs =>
      obtain ⟨bs', _, hblocks, h⟩ := bind_eq_ok.1 h
      obtain ⟨rfl, rfl⟩ := pure_eq_ok.1 h
      obtain ⟨log, hlog⟩ := walkBlocks_logs hblocks
      exact ⟨log, hlog.map Content.blocks (fun _ _ => rfl) rfl⟩
  | .list cs =>
      obtain ⟨cs', _, hcontents, h⟩ := bind_eq_ok.1 h
      obtain ⟨rfl, rfl⟩ := pure_eq_ok.1 h
      obtain ⟨log, hlog⟩ := walkContents_logs hcontents
      exact ⟨log, hlog.map Content.list (fun _ _ => rfl) rfl⟩

theorem walkContents_logs {s t : σ} {cs cs' : List Content}
    (h : walkContents act cs s = .ok cs' t) : ∃ log,
    Logs act (walkContents act.logged cs) (Content.offeredOf cs)
      (fun grafts n => Content.graftOf grafts n cs) Content.offeredOf s cs' log t := by
  match cs with
  | [] =>
      obtain ⟨rfl, rfl⟩ := pure_eq_ok.1 h
      exact ⟨[], .pure (fun _ _ => rfl) rfl⟩
  | c :: cs =>
      obtain ⟨c', _, hcontent, h⟩ := bind_eq_ok.1 h
      obtain ⟨cs', _, hcontents, h⟩ := bind_eq_ok.1 h
      obtain ⟨rfl, rfl⟩ := pure_eq_ok.1 h
      obtain ⟨log, hlog⟩ := walkContent_logs hcontent
      obtain ⟨log', hlog'⟩ := walkContents_logs hcontents
      exact ⟨log ++ log', hlog.both hlog' (fun _ _ => rfl) rfl⟩

end

namespace Filter

def start (f : Filter) (d : Document) : f.State × Document :=
  (f.initial, { f.prepare d with blocks := [] })

/-- What a filter is offered in a document. -/
def offers (f : Filter) (d : Document) : List (Offer (f.State × Document)) :=
  match walkBlocks f.action.logged (f.prepare d).blocks ([], f.start d) with
  | .ok _ (log, _) => log
  | .error _ (log, _) => log

theorem exists_logs {f : Filter} (h : ∀ b s, ∃ answer t, f.action b s = .ok answer t)
    (d : Document) : ∃ bs t, f.apply d = .ok () { t.2 with blocks := bs } ∧
      Logs f.action (walkBlocks f.action.logged (f.prepare d).blocks)
        (Block.offeredOf (f.prepare d).blocks)
        (fun grafts n => Block.graftOf grafts n (f.prepare d).blocks) Block.offeredOf (f.start d)
        bs (f.offers d) t := by
  have hkeeps : f.action.Keeps fun _ => True :=
    ⟨fun _ _ => trivial, fun b s _ =>
      have ⟨answer, t, hact⟩ := h b s
      ⟨answer, t, hact, fun _ _ => trivial⟩⟩
  have hblocks : ∀ b ∈ Block.offeredOf (f.prepare d).blocks, True := fun _ _ => trivial
  obtain ⟨bs, t, hwalk, -⟩ := walkBlocks_keeps hkeeps hblocks (f.start d)
  obtain ⟨log, hlog⟩ := walkBlocks_logs hwalk
  have hoffers : f.offers d = log := by
    rw [offers, hlog.logged []]
    rfl
  exact ⟨bs, t, apply_of_walk hwalk, hoffers ▸ hlog⟩

end Filter

end ApiListing
