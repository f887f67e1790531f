import ApiListing.Proofs.FilterOrder

namespace ApiListing

open EState

variable {d d' d'' : Document} {σ : Type} {act : Action σ} {cuts : Prop} {invariant : σ → Prop}

def Container.isList : Container → Bool
  | .bulletList | .orderedList => true
  | _ => false

def Block.other? : Block → Option Json
  | .other value => some value
  | _ => none

/-- The blocks of raw JSON among these blocks and inside them, in the order of a walk. -/
def Block.others (bs : List Block) : List Json := (Block.offeredOf bs).filterMap Block.other?

/-- What is left of a block without its headers, raw blocks and code. -/
inductive Outline where
  | other (value : Json)
  | container (kind : Container) (inside : List Outline)

mutual

def Block.outline : Block → List Outline
  | .container kind content => [.container kind content.outline]
  | .other value => [.other value]
  | .header _ _ _ | .raw _ _ | .code _ _ => []

def Content.outline : Content → List Outline
  | .value _ => []
  | .blocks bs => Block.outlineOf bs
  | .list cs => Content.outlineOf cs

def Block.outlineOf : List Block → List Outline
  | [] => []
  | b :: bs => b.outline ++ Block.outlineOf bs

def Content.outlineOf : List Content → List Outline
  | [] => []
  | c :: cs => c.outline ++ Content.outlineOf cs

end

namespace Outline

mutual

def values : Outline → List Json
  | other value => [value]
  | container _ inside => valuesOf inside

def valuesOf : List Outline → List Json
  | [] => []
  | o :: os => o.values ++ valuesOf os

end

/-- The second outline is the first one with lists cut out, if there are cuts at all. -/
inductive Thins (cuts : Prop) : List Outline → List Outline → Prop
  | nil : Thins cuts [] []
  | other {os os'} (value) (h : Thins cuts os os') :
      Thins cuts (.other value :: os) (.other value :: os')
  | container {inside inside' os os'} (kind) (hinside : Thins cuts inside inside')
      (h : Thins cuts os os') :
      Thins cuts (.container kind inside :: os) (.container kind inside' :: os')
  | cut {os os'} (hcuts : cuts) (kind) (inside) (hlist : kind.isList = true)
      (h : Thins cuts os os') : Thins cuts (.container kind inside :: os) os'

theorem valuesOf_append (os os' : List Outline) :
    valuesOf (os ++ os') = valuesOf os ++ valuesOf os' := by
  induction os with
  | nil => rfl
  | cons o os ih => rw [List.cons_append, valuesOf, valuesOf, ih, List.append_assoc]

variable {os os' os'' us us' : List Outline}

namespace Thins

theorem refl (os : List Outline) : Thins cuts os os := by
  match os with
  | [] => exact .nil
  | .other value :: os => exact .other value (refl os)
  | .container kind inside :: os => exact .container kind (refl inside) (refl os)

theorem trans (h : Thins cuts os os') (h' : Thins cuts os' os'') : Thins cuts os os'' := by
  induction h generalizing os'' with
  | nil => exact h'
  | other value h ih =>
      cases h' with
      | other _ h' => exact .other value (ih h')
  | container kind hinside h ihinside ih =>
      cases h' with
      | container _ hinside' h' => exact .container kind (ihinside hinside') (ih h')
      | cut hcuts _ inside hlist h' => exact .cut hcuts kind _ hlist (ih h')
  | cut hcuts kind inside hlist h ih => exact .cut hcuts kind inside hlist (ih h')

theorem append (h : Thins cuts os os') (hu : Thins cuts us us') :
    Thins cuts (os ++ us) (os' ++ us') := by
  induction h with
  | nil => exact hu
  | other value h ih => exact .other value ih
  | container kind hinside h ihinside ih => exact .container kind hinside ih
  | cut hcuts kind inside hlist h ih => exact .cut hcuts kind inside hlist ih

theorem mono {cuts' : Prop} (hcuts : cuts → cuts') (h : Thins cuts os os') :
    Thins cuts' os os' := by
  induction h with
  | nil => exact .nil
  | other value h ih => exact .other value ih
  | container kind hinside h ihinside ih => exact .container kind ihinside ih
  | cut hcut kind inside hlist h ih => exact .cut (hcuts hcut) kind inside hlist ih

theorem eq_of_not (hcuts : ¬ cuts) (h : Thins cuts os os') : os = os' := by
  induction h with
  | nil => rfl
  | other value h ih => rw [ih]
  | container kind hinside h ihinside ih => rw [ihinside, ih]
  | cut hcut kind inside hlist h ih => exact absurd hcut hcuts

theorem sublist (h : Thins cuts os os') : (valuesOf os').Sublist (valuesOf os) := by
  induction h with
  | nil => exact List.Sublist.refl _
  | other value h ih =>
      rw [valuesOf, valuesOf]
      exact (List.Sublist.refl _).append ih
  | container kind hinside h ihinside ih =>
      rw [valuesOf, valuesOf, values, values]
      exact ihinside.append ih
  | cut hcut kind inside hlist h ih =>
      rw [valuesOf]
      exact ih.trans (List.sublist_append_right _ _)

end Thins

end Outline

open Outline (Thins)

mutual

theorem Block.others_offered (b : Block) :
    b.offered.filterMap Block.other? = Outline.valuesOf b.outline := by
  match b with
  | .container kind content =>
      rw [Block.offered, Block.outline, List.filterMap_append, Content.others_offered content]
      rfl
  | .header .. | .raw .. | .code .. | .other .. => rfl

theorem Block.others_offeredOf (bs : List Block) :
    (Block.offeredOf bs).filterMap Block.other? = Outline.valuesOf (Block.outlineOf bs) := by
  match bs with
  | [] => rfl
  | b :: bs =>
      rw [Block.offeredOf, Block.outlineOf, List.filterMap_append, Block.others_offered b,
        Block.others_offeredOf bs, Outline.valuesOf_append]

theorem Content.others_offered (c : Content) :
    c.offered.filterMap Block.other? = Outline.valuesOf c.outline := by
  match c with
  | .value v => rfl
  | .blocks bs => exact Block.others_offeredOf bs
  | .list cs => exact Content.others_offeredOf cs

theorem Content.others_offeredOf (cs : List Content) :
    (Content.offeredOf cs).filterMap Block.other? =
      Outline.valuesOf (Content.outlineOf cs) := by
  match cs with
  | [] => rfl
  | c :: cs =>
      rw [Content.offeredOf, Content.outlineOf, List.filterMap_append, Content.others_offered c,
        Content.others_offeredOf cs, Outline.valuesOf_append]

end

theorem Block.others_eq_valuesOf (bs : List Block) :
    Block.others bs = Outline.valuesOf (Block.outlineOf bs) := Block.others_offeredOf bs

theorem Block.outlineOf_append (bs bs' : List Block) :
    Block.outlineOf (bs ++ bs') = Block.outlineOf bs ++ Block.outlineOf bs' := by
  induction bs with
  | nil => rfl
  | cons b bs ih => rw [List.cons_append, outlineOf, outlineOf, ih, List.append_assoc]

theorem Block.outlineOf_singleton (b : Block) : Block.outlineOf [b] = b.outline := by
  rw [outlineOf, outlineOf, List.append_nil]

/-- The answers of an action keep the outline, or cut lists out of it, and its state keeps an
invariant. -/
def Action.KeepsOutline (act : Action σ) (cuts : Prop) (invariant : σ → Prop) : Prop :=
  ∀ b s bs s', invariant s → act b s = .ok bs s' →
    Thins cuts b.outline (Block.outlineOf bs) ∧ invariant s'

mutual

theorem walkBlocks_outline (hact : act.KeepsOutline cuts invariant) {s s' : σ}
    {bs bs' : List Block} (hs : invariant s) (h : walkBlocks act bs s = .ok bs' s') :
    Thins cuts (Block.outlineOf bs) (Block.outlineOf bs') ∧ invariant s' := by
  match bs with
  | [] =>
      obtain ⟨rfl, rfl⟩ := pure_eq_ok.1 h
      exact ⟨.nil, hs⟩
  | b :: bs =>
      obtain ⟨b', t, hinside, h⟩ := bind_eq_ok.1 h
      obtain ⟨inPlace, t, hb, h⟩ := bind_eq_ok.1 h
      obtain ⟨rest, t, hrest, h⟩ := bind_eq_ok.1 h
      obtain ⟨rfl, rfl⟩ := pure_eq_ok.1 h
      obtain ⟨hinside, hs⟩ := walkInside_outline hact hs hinside
      obtain ⟨hinPlace, hs⟩ := hact _ _ _ _ hs hb
      obtain ⟨hrest, hs⟩ := walkBlocks_outline hact hs hrest
      rw [Block.outlineOf, Block.outlineOf_append]
      exact ⟨(hinside.trans hinPlace).append hrest, hs⟩

theorem walkInside_outline (hact : act.KeepsOutline cuts invariant) {s s' : σ} {b b' : Block}
    (hs : invariant s) (h : walkInside act b s = .ok b' s') :
    Thins cuts b.outline b'.outline ∧ invariant s' := by
  match b with
  | .container kind content =>
      obtain ⟨content', t, hcontent, h⟩ := bind_eq_ok.1 h
      obtain ⟨rfl, rfl⟩ := pure_eq_ok.1 h
      obtain ⟨hcontent, hs⟩ := walkContent_outline hact hs hcontent
      rw [Block.outline, Block.outline]
      exact ⟨.container kind hcontent .nil, hs⟩
  | .header .. | .raw .. | .code .. | .other .. =>
      obtain ⟨rfl, rfl⟩ := pure_eq_ok.1 h
      exact ⟨.refl _, hs⟩

theorem walkContent_outline (hact : act.KeepsOutline cuts invariant) {s s' : σ} {c c' : Content}
    (hs : invariant s) (h : walkContent act c s = .ok c' s') :
    Thins cuts c.outline c'.outline ∧ invariant s' := by
  match c with
  | .value v =>
      obtain ⟨rfl, rfl⟩ := pure_eq_ok.1 h
      exact ⟨.refl _, hs⟩
  | .blocks bs =>
      obtain ⟨bs', t, hblocks, h⟩ := bind_eq_ok.1 h
      obtain ⟨rfl, rfl⟩ := pure_eq_ok.1 h
      rw [Content.outline, Content.outline]
      exact walkBlocks_outline hact hs hblocks
  | .list cs =>
      obtain ⟨cs', t, hcontents, h⟩ := bind_eq_ok.1 h
      obtain ⟨rfl, rfl⟩ := pure_eq_ok.1 h
      rw [Content.outline, Content.outline]
      exact walkContents_outline hact hs hcontents

theorem walkContents_outline (hact : act.KeepsOutline cuts invariant) {s s' : σ}
    {cs cs' : List Content} (hs : invariant s) (h : walkContents act cs s = .ok cs' s') :
    Thins cuts (Content.outlineOf cs) (Content.outlineOf cs') ∧ invariant s' := by
  match cs with
  | [] =>
      obtain ⟨rfl, rfl⟩ := pure_eq_ok.1 h
      exact ⟨.nil, hs⟩
  | c :: cs =>
      obtain ⟨c', t, hcontent, h⟩ := bind_eq_ok.1 h
      obtain ⟨cs', t, hcontents, h⟩ := bind_eq_ok.1 h
      obtain ⟨rfl, rfl⟩ := pure_eq_ok.1 h
      obtain ⟨hcontent, hs⟩ := walkContent_outline hact hs hcontent
      obtain ⟨hcontents, hs⟩ := walkContents_outline hact hs hcontents
      rw [Content.outlineOf, Content.outlineOf]
      exact ⟨hcontent.append hcontents, hs⟩

end

theorem Json.find?_setField (key k : String) (v : Json) (fs : List (String × Json)) :
    (setField key v fs).find? (fun f => f.1 = k) =
      if k = key then some (key, v) else fs.find? fun f => f.1 = k := by
  have hhead : ∀ fs : List (String × Json), ((key, v) :: fs).find? (fun f => f.1 = k) =
      if k = key then some (key, v) else fs.find? fun f => f.1 = k := by
    intro fs
    rw [List.find?_cons]
    by_cases hk : k = key
    · simp [hk]
    · simp [hk, Ne.symm hk]
  induction fs with
  | nil => exact hhead []
  | cons f fs ih =>
      obtain ⟨a, w⟩ := f
      by_cases ha : key = a
      · subst ha
        rw [setField, if_pos rfl, hhead]
        by_cases hk : k = key
        · rw [if_pos hk, if_pos hk]
        · simp [hk, Ne.symm hk]
      · rw [setField, if_neg ha]
        split
        · exact hhead _
        · rw [List.find?_cons, ih, List.find?_cons]
          by_cases hk : k = key
          · subst hk
            simp [Ne.symm ha]
          · simp [hk]

namespace Document

theorem metaValue?_setMetaString (key k text : String) (d : Document) :
    (d.setMetaString key text).metaValue? k =
      if k = key then some (metaString text) else d.metaValue? k := by
  rw [metaValue?, setMetaString, Json.find?_setField, metaValue?]
  split <;> rfl

/-- Two documents have the same version and, but for some fields, the same metadata. -/
structure AgreesBut (fields : String → Prop) (d d' : Document) : Prop where
  version : d'.apiVersion = d.apiVersion
  metadata : ∀ key, ¬ fields key → d'.metaValue? key = d.metaValue? key

variable {fields : String → Prop}

theorem AgreesBut.setMetaString (h : d.AgreesBut fields d') {key : String} (hkey : fields key)
    (text : String) : d.AgreesBut fields (d'.setMetaString key text) where
  version := h.version
  metadata := by
    intro k hk
    have hne : k ≠ key := fun heq => hk (heq ▸ hkey)
    rw [metaValue?_setMetaString, if_neg hne, h.metadata k hk]

end Document

namespace Filter

abbrev AgreesWith {σ : Type} (fields : String → Prop) (d : Document) (s : σ × Document) : Prop :=
  d.AgreesBut fields s.2

variable {fields : String → Prop}

theorem keepsOutline_keep : (Action.keep : Action σ).KeepsOutline cuts invariant := by
  intro b s bs s' hs h
  obtain ⟨rfl, rfl⟩ := pure_eq_ok.1 h
  rw [Block.outlineOf_singleton]
  exact ⟨.refl _, hs⟩

theorem keepsOutline_shiftHeadings (htitle : fields "title") (d : Document) :
    shiftHeadings.action.KeepsOutline cuts (AgreesWith fields d) := by
  rintro b (s : Unit × Document) bs s' hs h
  cases hb : b.isHeader with
  | false =>
      cases (shiftHeadings_of_not_header hb s).symm.trans h
      rw [Block.outlineOf_singleton]
      exact ⟨.refl _, hs⟩
  | true =>
      cases b with
      | header level attr inlines =>
          by_cases hlevel : level ≤ 1
          · cases (shiftHeadings_title hlevel attr inlines s).symm.trans h
            exact ⟨.nil, hs.setMetaString htitle _⟩
          · cases (shiftHeadings_header hlevel attr inlines s).symm.trans h
            exact ⟨.nil, hs⟩
      | _ => cases hb

theorem keepsOutline_removeToc (hcuts : cuts) (d : Document) :
    removeToc.action.KeepsOutline cuts (AgreesWith fields d) := by
  rintro b (s : Bool × Document) bs s' hs h
  cases hb : b.isHeader with
  | true =>
      cases b with
      | header level attr inlines =>
          rw [removeToc_header] at h
          cases h
          refine ⟨?_, hs⟩
          split <;> exact .nil
      | _ => cases hb
  | false =>
      rw [removeToc_of_not_header hb] at h
      cases h
      refine ⟨?_, hs⟩
      split
      · next hlist =>
          cases b with
          | container kind content =>
              have hkind : kind.isList = true := by
                cases kind <;> simp_all [Block.isList, Container.isList]
              exact .cut hcuts kind _ hkind .nil
          | _ => simp [Block.isList] at hlist
      · rw [Block.outlineOf_singleton]
        exact .refl _

theorem outline_listed (o : InsertOptions) (files : Files) {b : Block}
    (hb : b.isContainer = false) : (o.listed files b).outline = b.outline := by
  cases b with
  | raw format text =>
      rw [InsertOptions.listed]
      split
      · split <;> rfl
      · rfl
  | container kind content => cases hb
  | _ => rfl

theorem keepsOutline_insertCode (o : InsertOptions) (files : Files) (d : Document) :
    (insertCode o files).action.KeepsOutline cuts (AgreesWith fields d) := by
  intro b s bs s' hs h
  have hrewrites := rewrites_insertCode o files
  cases hb : b.isContainer with
  | false =>
      rw [hrewrites.leaf b s hb, outcome] at h
      split at h
      · cases h
        rw [Block.outlineOf_singleton, outline_listed o files hb]
        exact ⟨.refl _, hs⟩
      · cases h
  | true =>
      cases b with
      | container kind content =>
          rw [hrewrites.container] at h
          cases h
          rw [Block.outlineOf_singleton]
          exact ⟨.refl _, hs⟩
      | _ => cases hb

theorem apply_outline {f : Filter} (hblocks : (f.prepare d).blocks = d.blocks)
    (hprepare : d.AgreesBut fields (f.prepare d))
    (hact : f.action.KeepsOutline cuts (AgreesWith fields d)) (h : f.apply d = .ok () d') :
    d.AgreesBut fields d' ∧ Thins cuts (Block.outlineOf d.blocks) (Block.outlineOf d'.blocks) := by
  unfold apply at h
  simp only at h
  split at h
  · next blocks s t hwalk =>
      cases h
      rw [hblocks] at hwalk
      obtain ⟨houtline, ht⟩ := walkBlocks_outline hact ⟨hprepare.version, hprepare.metadata⟩ hwalk
      exact ⟨⟨ht.version, ht.metadata⟩, houtline⟩
  · cases h

end Filter

def FilterName.field? : FilterName → Option String
  | .compileDate => some "date"
  | .shiftHeadings => some "title"
  | .removeToc | .insertCode => none

namespace Settings

variable {s : Settings} {files : Files} {F : List FilterName} {n : FilterName}

/-- What filters leave alone, and the date that one of them sets. -/
structure Framed (s : Settings) (F : List FilterName) (d d' : Document) : Prop where
  agrees : d.AgreesBut (fun key => ∃ n ∈ F, n.field? = some key) d'
  date : .compileDate ∈ F →
    d'.metaValue? "date" = some (Document.metaString (String.ofList s.date.text))
  outline : Thins (.removeToc ∈ F) (Block.outlineOf d.blocks) (Block.outlineOf d'.blocks)

theorem framed_nil (s : Settings) (d : Document) : s.Framed [] d d where
  agrees := ⟨rfl, fun _ _ => rfl⟩
  date := by simp
  outline := .refl _

theorem filter_framed (h : (s.filter files n).apply d = .ok () d') : s.Framed [n] d d' := by
  have hagrees : d.AgreesBut (fun key => ∃ m ∈ [n], m.field? = some key) d := ⟨rfl, fun _ _ => rfl⟩
  cases n with
  | compileDate =>
      have hdate : ∃ m ∈ [FilterName.compileDate], m.field? = some "date" :=
        ⟨_, List.mem_singleton_self _, rfl⟩
      have hprepare := hagrees.setMetaString hdate (String.ofList s.date.text)
      obtain ⟨hagrees, houtline⟩ :=
        Filter.apply_outline (f := .compileDate s.date) rfl hprepare Filter.keepsOutline_keep h
      refine ⟨hagrees, fun _ => ?_, houtline⟩
      rw [filter, Filter.compileDate_apply] at h
      cases h
      rw [Document.metaValue?_setMetaString, if_pos rfl]
  | shiftHeadings =>
      have htitle : ∃ m ∈ [FilterName.shiftHeadings], m.field? = some "title" :=
        ⟨_, List.mem_singleton_self _, rfl⟩
      obtain ⟨hagrees, houtline⟩ := Filter.apply_outline (f := .shiftHeadings) rfl hagrees
        (Filter.keepsOutline_shiftHeadings htitle d) h
      exact ⟨hagrees, by simp, houtline⟩
  | removeToc =>
      obtain ⟨hagrees, houtline⟩ := Filter.apply_outline (f := .removeToc) rfl hagrees
        (Filter.keepsOutline_removeToc (List.mem_singleton_self _) d) h
      exact ⟨hagrees, by simp, houtline⟩
  | insertCode =>
      obtain ⟨hagrees, houtline⟩ := Filter.apply_outline (f := .insertCode s.insert files) rfl
        hagrees (Filter.keepsOutline_insertCode s.insert files d) h
      exact ⟨hagrees, by simp, houtline⟩

theorem Framed.cons (h : s.Framed [n] d d') (h' : s.Framed F d' d'') : s.Framed (n :: F) d d'' where
  agrees := by
    refine ⟨h'.agrees.version.trans h.agrees.version, fun key hkey => ?_⟩
    simp only [List.exists_mem_cons_iff, not_or] at hkey
    rw [h'.agrees.metadata key hkey.2, h.agrees.metadata key (by simpa using hkey.1)]
  date := by
    intro hmem
    by_cases hF : .compileDate ∈ F
    · exact h'.date hF
    · have hkey : ¬ ∃ m ∈ F, m.field? = some "date" := by
        rintro ⟨m, hm, hfield⟩
        cases m with
        | compileDate => exact hF hm
        | _ => simp [FilterName.field?] at hfield
      rw [h'.agrees.metadata "date" hkey]
      exact h.date (by simpa [hF] using hmem)
  outline := (h.outline.mono (by simp_all)).trans (h'.outline.mono (List.mem_cons_of_mem _))

theorem applyAll_framed (h : s.applyAll files F d = .ok () d') : s.Framed F d d' := by
  induction F generalizing d with
  | nil =>
      obtain ⟨-, rfl⟩ := pure_eq_ok.1 h
      exact framed_nil s d
  | cons n F ih =>
      obtain ⟨_, t, hn, h⟩ := bind_eq_ok.1 h
      exact (filter_framed hn).cons (ih h)

/-- A run keeps the version, all metadata but the date and the title, and all blocks of raw JSON but
those in lists that are cut out of a table of contents. -/
theorem run_framed (h : s.run files d = .ok d') :
    d'.apiVersion = d.apiVersion ∧
    (∀ key, key ≠ "date" → key ≠ "title" → d'.metaValue? key = d.metaValue? key) ∧
    d'.metaValue? "date" =
      (if .compileDate ∈ s.filters then
        some (Document.metaString (String.ofList s.date.text)) else d.metaValue? "date") ∧
    (.shiftHeadings ∉ s.filters → d'.metaValue? "title" = d.metaValue? "title") ∧
    (.removeToc ∉ s.filters → Block.others d'.blocks = Block.others d.blocks) ∧
    (Block.others d'.blocks).Sublist (Block.others d.blocks) ∧
    Thins (.removeToc ∈ s.filters) (Block.outlineOf d.blocks) (Block.outlineOf d'.blocks) := by
  have hall : s.applyAll files s.filters d = .ok () d' := by
    unfold run at h
    split at h
    · next hall =>
        cases h
        exact hall
    · cases h
  obtain ⟨hagrees, hdate, houtline⟩ := applyAll_framed hall
  refine ⟨hagrees.version, fun key hdate htitle => ?_, ?_, fun hno => ?_, fun hno => ?_, ?_,
    houtline⟩
  · refine hagrees.metadata key ?_
    rintro ⟨n, -, hfield⟩
    cases n <;> simp_all [FilterName.field?]
  · split
    · next hmem => exact hdate hmem
    · next hno =>
        refine hagrees.metadata "date" ?_
        rintro ⟨n, hn, hfield⟩
        cases n <;> simp_all [FilterName.field?]
  · refine hagrees.metadata "title" ?_
    rintro ⟨n, hn, hfield⟩
    cases n <;> simp_all [FilterName.field?]
  · rw [Block.others_eq_valuesOf, Block.others_eq_valuesOf, houtline.eq_of_not hno]
  · rw [Block.others_eq_valuesOf, Block.others_eq_valuesOf]
    exact houtline.sublist

def manual : Document where
  apiVersion := [1, 23]
  metadata := [("author", Document.metaString "Writer")]
  blocks := [
    .header 2 (.ofClasses []) (Inline.ofText Filter.tocTitle.toList),
    .container .bulletList (.list [.blocks [.other (.str "entry")]]),
    .other (.str "paragraph")]

theorem run_framed_manual :
    ∃ d', run { date := ⟨2024, 2, 29⟩ } (fun _ => .error .notFound) manual = .ok d' ∧
      d'.metaValue? "author" = some (Document.metaString "Writer") ∧
      d'.metaValue? "date" = some (Document.metaString "2024-02-29") ∧
      (Block.others manual.blocks).length = 2 ∧ (Block.others d'.blocks).length = 1 ∧
      (Block.others d'.blocks).Sublist (Block.others manual.blocks) ∧
      Thins True (Block.outlineOf manual.blocks) (Block.outlineOf d'.blocks) := by
  have hlength : (run { date := ⟨2024, 2, 29⟩ } (fun _ => .error .notFound) manual).toOption.map
      (fun d' => (Block.others d'.blocks).length) = some 1 := by decide +kernel
  have hdate : String.ofList (Date.text ⟨2024, 2, 29⟩) = "2024-02-29" := by decide +kernel
  cases h : run { date := ⟨2024, 2, 29⟩ } (fun _ => .error .notFound) manual with
  | error e =>
      rw [h] at hlength
      cases hlength
  | ok d' =>
      rw [h] at hlength
      obtain ⟨-, hmetadata, hstamped, -, -, hothers, houtline⟩ := run_framed h
      refine ⟨d', rfl, ?_, ?_, by decide, Option.some.inj hlength, hothers,
        houtline.mono fun _ => trivial⟩
      · rw [hmetadata "author" (by decide) (by decide)]
        rfl
      · rw [hstamped, if_pos (by decide), hdate]

end Settings

end ApiListing
