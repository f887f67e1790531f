import ApiListing.Document.Walk
import ApiListing.Proofs.Stability

namespace ApiListing

variable {σ : Type} {act : Action σ} {invariant : σ → Prop}

namespace EState

variable {ε α β : Type} {s s' : σ}

theorem bind_eq_ok {x : EStateM ε σ α} {f : α → EStateM ε σ β} {y : β} :
    (x >>= f) s = .ok y s' ↔ ∃ a t, x s = .ok a t ∧ f a t = .ok y s' := by
  simp only [bind, EStateM.bind]
  cases x s <;> simp

theorem pure_eq_ok {a a' : α} :
    (pure a : EStateM ε σ α) s = .ok a' s' ↔ a = a' ∧ s = s' := by
  simp [pure, EStateM.pure]

end EState

open EState

/-- The action answers stable blocks with stable blocks, and its state keeps an invariant. -/
def Action.KeepsStable (act : Action σ) (invariant : σ → Prop) : Prop :=
  ∀ b s bs s', b.IsStable → invariant s → act b s = .ok bs s' →
    (∀ b' ∈ bs, b'.IsStable) ∧ invariant s'

mutual

theorem walkBlocks_stable (hact : act.KeepsStable invariant) {s s' : σ} {bs bs' : List Block}
    (hbs : ∀ b ∈ bs, b.IsStable) (hs : invariant s) (h : walkBlocks act bs s = .ok bs' s') :
    (∀ b ∈ bs', b.IsStable) ∧ invariant s' := by
  match bs with
  | [] =>
      obtain ⟨rfl, rfl⟩ := pure_eq_ok.1 h
      exact ⟨hbs, hs⟩
  | b :: bs =>
      rw [List.forall_mem_cons] at hbs
      obtain ⟨b, t, hinside, h⟩ := bind_eq_ok.1 h
      obtain ⟨inPlace, t, hb, h⟩ := bind_eq_ok.1 h
      obtain ⟨rest, t, hrest, h⟩ := bind_eq_ok.1 h
      obtain ⟨rfl, rfl⟩ := pure_eq_ok.1 h
      obtain ⟨hstable, hs⟩ := walkInside_stable hact hbs.1 hs hinside
      obtain ⟨hinPlace, hs⟩ := hact _ _ _ _ hstable hs hb
      obtain ⟨hrest, hs⟩ := walkBlocks_stable hact hbs.2 hs hrest
      refine ⟨fun b hb => ?_, hs⟩
      rcases List.mem_append.1 hb with hb | hb
      · exact hinPlace b hb
      · exact hrest b hb

theorem walkInside_stable (hact : act.KeepsStable invariant) {s s' : σ} {b b' : Block}
    (hb : b.IsStable) (hs : invariant s) (h : walkInside act b s = .ok b' s') :
    b'.IsStable ∧ invariant s' := by
  match b with
  | .container kind content =>
      obtain ⟨content, t, hcontent, h⟩ := bind_eq_ok.1 h
      obtain ⟨rfl, rfl⟩ := pure_eq_ok.1 h
      rw [Block.isStable_container_iff] at hb ⊢
      exact walkContent_fits hact hb hs hcontent
  | .header .. | .raw .. | .code .. | .other .. =>
      obtain ⟨rfl, rfl⟩ := pure_eq_ok.1 h
      exact ⟨hb, hs⟩

theorem walkContent_fits (hact : act.KeepsStable invariant) {s s' : σ} {c c' : Content}
    {schema : Schema} (hc : c.Fits schema) (hs : invariant s)
    (h : walkContent act c s = .ok c' s') : c'.Fits schema ∧ invariant s' := by
  match c with
  | .value v =>
      obtain ⟨rfl, rfl⟩ := pure_eq_ok.1 h
      exact ⟨hc, hs⟩
  | .blocks bs =>
      obtain ⟨bs', t, hblocks, h⟩ := bind_eq_ok.1 h
      obtain ⟨rfl, rfl⟩ := pure_eq_ok.1 h
      obtain rfl := hc.eq_blocks
      rw [Content.fits_blocks_iff] at hc ⊢
      exact walkBlocks_stable hact hc hs hblocks
  | .list cs =>
      obtain ⟨cs', t, hcontents, h⟩ := bind_eq_ok.1 h
      obtain ⟨rfl, rfl⟩ := pure_eq_ok.1 h
      obtain ⟨items, hitems, hfits⟩ := Content.fits_list_iff.1 hc
      obtain ⟨hfits', hs⟩ := walkContents_fits hact hfits hs hcontents
      rw [← hfits.length_eq, hfits'.length_eq] at hitems
      exact ⟨Content.fits_list_iff.2 ⟨items, hitems, hfits'⟩, hs⟩

theorem walkContents_fits (hact : act.KeepsStable invariant) {s s' : σ} {cs cs' : List Content}
    {items : List Schema} (hcs : List.Forall₂ Content.Fits items cs) (hs : invariant s)
    (h : walkContents act cs s = .ok cs' s') :
    List.Forall₂ Content.Fits items cs' ∧ invariant s' := by
  match cs with
  | [] =>
      obtain ⟨rfl, rfl⟩ := pure_eq_ok.1 h
      exact ⟨hcs, hs⟩
  | c :: cs =>
      obtain ⟨item, items, hc, htail, rfl⟩ := List.forall₂_cons_right_iff.1 hcs
      obtain ⟨c, t, hcontent, h⟩ := bind_eq_ok.1 h
      obtain ⟨cs', t, hcontents, h⟩ := bind_eq_ok.1 h
      obtain ⟨rfl, rfl⟩ := pure_eq_ok.1 h
      obtain ⟨hc, hs⟩ := walkContent_fits hact hc hs hcontent
      obtain ⟨htail, hs⟩ := walkContents_fits hact htail hs hcontents
      exact ⟨.cons hc htail, hs⟩

end

end ApiListing
