import ApiListing.Proofs.Insertion
import ApiListing.Proofs.StableDocuments
import ApiListing.Proofs.Walks

namespace ApiListing

open EState
open Text (octets)

variable {d d' : Document}

abbrev StableState {σ : Type} (s : σ × Document) : Prop := s.2.IsStable

namespace Filter

variable {f : Filter}

theorem keepsStable_keep {σ : Type} {invariant : σ → Prop} :
    (Action.keep : Action σ).KeepsStable invariant := by
  intro b s bs s' hb hs h
  obtain ⟨rfl, rfl⟩ := pure_eq_ok.1 h
  exact ⟨by simpa using hb, hs⟩

theorem keepsStable_shiftHeadings : shiftHeadings.action.KeepsStable StableState := by
  intro b s bs s' hb hs h
  obtain ⟨_, d⟩ := s
  cases b with
  | header level attr inlines =>
      obtain ⟨hlevel, hinlines⟩ := Block.isStable_header_iff.1 hb
      simp only [shiftHeadings] at h
      split_ifs at h
      · obtain ⟨_, t, hmodify, h⟩ := bind_eq_ok.1 h
        obtain ⟨rfl, rfl⟩ := pure_eq_ok.1 h
        cases hmodify
        exact ⟨by simp, hs.setMetaString _ _⟩
      · obtain ⟨rfl, rfl⟩ := pure_eq_ok.1 h
        have hless : level - 1 < 2 ^ 32 := by omega
        exact ⟨by simpa using Block.isStable_header_iff.2 ⟨hless, hinlines⟩, hs⟩
  | _ =>
      obtain ⟨rfl, rfl⟩ := pure_eq_ok.1 h
      exact ⟨by simpa using hb, hs⟩

theorem keepsStable_removeToc : removeToc.action.KeepsStable StableState := by
  intro b s bs s' hb hs h
  obtain ⟨inToc, d⟩ := s
  obtain ⟨_, _, hget, h⟩ := bind_eq_ok.1 h
  cases hget
  cases b with
  | header level attr inlines =>
      obtain ⟨_, t, hset, h⟩ := bind_eq_ok.1 h
      obtain ⟨rfl, rfl⟩ := pure_eq_ok.1 h
      cases hset
      refine ⟨?_, hs⟩
      split_ifs <;> simp [hb]
  | _ =>
      obtain ⟨rfl, rfl⟩ := pure_eq_ok.1 h
      refine ⟨?_, hs⟩
      split_ifs <;> simp [hb]

theorem isStable_listed (o : InsertOptions) (files : Files) {b : Block} (hb : b.IsStable) :
    (o.listed files b).IsStable := by
  cases b with
  | raw format text =>
      rw [InsertOptions.listed]
      split
      · split
        · exact Block.isStable_code _ _
        · exact hb
      · exact hb
  | _ => exact hb

theorem keepsStable_insertCode (o : InsertOptions) (files : Files) :
    (insertCode o files).action.KeepsStable StableState := by
  intro b s bs s' hb hs h
  cases hcontainer : b.isContainer with
  | false =>
      rw [(rewrites_insertCode o files).leaf b s hcontainer, outcome] at h
      split at h
      · cases h
        exact ⟨by simpa using isStable_listed o files hb, hs⟩
      · cases h
  | true =>
      cases b with
      | container kind content =>
          cases h
          exact ⟨by simpa using hb, hs⟩
      | _ => cases hcontainer

theorem apply_stable (hprepare : ∀ d, d.IsStable → (f.prepare d).IsStable)
    (hact : f.action.KeepsStable StableState) (hd : d.IsStable) (h : f.apply d = .ok () d') :
    d'.IsStable := by
  have hd := hprepare d hd
  have hempty : (⟨(f.prepare d).apiVersion, (f.prepare d).metadata, []⟩ : Document).IsStable :=
    ⟨hd.counts, hd.sorted, hd.metadata, by simp⟩
  unfold apply at h
  simp only at h
  split at h
  · next blocks s d hwalk =>
      cases h
      obtain ⟨hblocks, hs⟩ := walkBlocks_stable hact hd.blocks hempty hwalk
      exact ⟨hs.counts, hs.sorted, hs.metadata, hblocks⟩
  · cases h

end Filter

namespace Settings

variable {s : Settings} {files : Files} {input : Json.Bytes} {F G : List FilterName}

theorem filter_stable (s : Settings) (files : Files) (n : FilterName) (hd : d.IsStable)
    (h : (s.filter files n).apply d = .ok () d') : d'.IsStable := by
  cases n with
  | compileDate =>
      exact Filter.apply_stable (fun d hd => hd.setMetaString _ _) Filter.keepsStable_keep hd h
  | shiftHeadings =>
      exact Filter.apply_stable (fun _ hd => hd) Filter.keepsStable_shiftHeadings hd h
  | removeToc => exact Filter.apply_stable (fun _ hd => hd) Filter.keepsStable_removeToc hd h
  | insertCode =>
      exact Filter.apply_stable (fun _ hd => hd) (Filter.keepsStable_insertCode _ _) hd h

theorem applyAll_stable (s : Settings) (files : Files) (F : List FilterName) (hd : d.IsStable)
    (h : s.applyAll files F d = .ok () d') : d'.IsStable := by
  induction F generalizing d with
  | nil =>
      obtain ⟨-, rfl⟩ := pure_eq_ok.1 h
      exact hd
  | cons n F ih =>
      obtain ⟨_, t, hn, h⟩ := bind_eq_ok.1 h
      exact ih (s.filter_stable files n hd hn) h

theorem applyAll_append (s : Settings) (files : Files) (F G : List FilterName) :
    s.applyAll files (F ++ G) = s.applyAll files F >>= fun _ => s.applyAll files G := by
  induction F with
  | nil => rw [List.nil_append, applyAll, pure_bind]
  | cons n F ih => rw [List.cons_append, applyAll, applyAll, ih, bind_assoc]

/-- Filters do not depend on which others are to run. -/
theorem applyAll_filters (s : Settings) (files : Files) (F G : List FilterName) :
    applyAll { s with filters := F } files G = s.applyAll files G := by
  induction G with
  | nil => rfl
  | cons n G ih =>
      rw [applyAll, applyAll, ih]
      cases n <;> rfl

theorem run_stable (hd : d.IsStable) (h : s.run files d = .ok d') : d'.IsStable := by
  unfold run at h
  split at h
  · next hall =>
      cases h
      exact s.applyAll_stable files s.filters hd hall
  · cases h

theorem run_append (s : Settings) (files : Files) (F G : List FilterName) (d : Document) :
    run { s with filters := F ++ G } files d =
      (run { s with filters := F } files d).bind (run { s with filters := G } files) := by
  simp only [run, applyAll_filters, applyAll_append, bind, EStateM.bind]
  cases s.applyAll files F d with
  | error e t => rfl
  | ok u t => simp only [Except.bind, run, applyAll_filters]

theorem isStable_of_read (hplain : ∀ p, Document.partsOf input = .ok p → p.IsPlain)
    (h : Document.read .stream input = .ok d) : d.IsStable := by
  rw [Document.read, Document.ofBytes] at h
  cases hparts : Document.partsOf input with
  | error fault =>
      rw [hparts] at h
      cases h
  | ok p =>
      rw [hparts] at h
      cases h
      exact Document.isStable_of_partsOf hparts (hplain p hparts)

/-- Two runs, the second on the text that the first one wrote, come to the same as one run. -/
theorem runStream_append (s : Settings) (files : Files) (input : Json.Bytes)
    (F G : List FilterName) (hplain : ∀ p, Document.partsOf input = .ok p → p.IsPlain)
    (hnesting : ∀ d d', Document.read .stream input = .ok d →
      run { s with filters := F } files d = .ok d' → d'.toJson.depth ≤ Json.maxNesting) :
    runStream { s with filters := F ++ G } files input =
      (runStream { s with filters := F } files input).bind
        (fun t => runStream { s with filters := G } files (octets t)) ∧
    ∀ d d', Document.read .stream input = .ok d → run { s with filters := F } files d = .ok d' →
      Document.ofBytes (octets d'.text) = .ok d' := by
  have hround : ∀ d d', Document.read .stream input = .ok d →
      run { s with filters := F } files d = .ok d' → Document.ofBytes (octets d'.text) = .ok d' :=
    fun d d' hread hrun =>
      (run_stable (isStable_of_read hplain hread) hrun).ofBytes_text (hnesting d d' hread hrun)
  refine ⟨?_, hround⟩
  cases hread : Document.read .stream input with
  | error e => simp only [runStream, hread, bind, Except.bind]
  | ok d =>
      cases hrun : run { s with filters := F } files d with
      | error e => simp only [runStream, hread, run_append, hrun, bind, Except.bind]
      | ok d' =>
          have hagain : Document.read .stream (octets d'.text) = .ok d' := by
            rw [Document.read, hround d d' hread hrun]
            rfl
          simp only [runStream, hread, run_append, hrun, hagain, bind, Except.bind, pure,
            Except.pure]

def titled : Document where
  apiVersion := [1, 22]
  metadata := []
  blocks := [.header 1 (.ofClasses []) [Inline.word "Guide".toList], .raw "html" "<!-- note -->"]

theorem isStable_titled : titled.IsStable where
  counts := by decide
  sorted := List.Pairwise.nil
  metadata := by simp [titled]
  blocks := by
    have hheader : (Block.header 1 (.ofClasses []) [Inline.word "Guide".toList]).IsStable :=
      Block.isStable_header_iff.2 ⟨by decide, List.forall_mem_singleton.2
        ⟨Document.isPlain_taggedText _ _, Document.normal_taggedText _ _⟩⟩
    exact List.forall_mem_cons.2 ⟨hheader, List.forall_mem_singleton.2 (Block.isStable_raw _ _)⟩

theorem runStream_append_titled :
    (∀ p, Document.partsOf (octets titled.text) = .ok p → p.IsPlain) ∧
    (∀ d d', Document.read .stream (octets titled.text) = .ok d →
      run { date := ⟨2024, 2, 29⟩, filters := [.shiftHeadings] } (fun _ => .error .notFound) d =
        .ok d' → d'.toJson.depth ≤ Json.maxNesting) ∧
    runStream { date := ⟨2024, 2, 29⟩, filters := [.shiftHeadings, .insertCode] }
        (fun _ => .error .notFound) (octets titled.text) =
      (runStream { date := ⟨2024, 2, 29⟩, filters := [.shiftHeadings] }
        (fun _ => .error .notFound) (octets titled.text)).bind fun t =>
          runStream { date := ⟨2024, 2, 29⟩, filters := [.insertCode] }
            (fun _ => .error .notFound) (octets t) := by
  have hparts := isStable_titled.partsOf_text (by decide)
  have hread := isStable_titled.ofBytes_text (by decide)
  have hplain : ∀ p, Document.partsOf (octets titled.text) = .ok p → p.IsPlain := by
    intro p hp
    obtain rfl : titled.parts = p := Except.ok.inj (hparts.symm.trans hp)
    exact isStable_titled.isPlain_parts
  have hnesting : ∀ d d', Document.read .stream (octets titled.text) = .ok d →
      run { date := ⟨2024, 2, 29⟩, filters := [.shiftHeadings] } (fun _ => .error .notFound) d =
        .ok d' → d'.toJson.depth ≤ Json.maxNesting := by
    intro d d' hd hrun
    rw [Document.read, hread] at hd
    cases hd
    cases hrun
    decide
  exact ⟨hplain, hnesting, (runStream_append { date := ⟨2024, 2, 29⟩ } _ _ [.shiftHeadings]
    [.insertCode] hplain hnesting).1⟩

end Settings

end ApiListing
