import ApiListing.Proofs.Chaining
import ApiListing.Proofs.Commuting

namespace ApiListing

open EState

variable {g : List (String × Json) → List (String × Json)} {r : Block → Block} {d d' : Document}
  {o : InsertOptions} {files : Files}

theorem Json.key_cases (k k' : String) : k < k' ∨ k = k' ∨ k' < k := by
  by_cases hlt : k < k'
  · exact Or.inl hlt
  · by_cases hgt : k' < k
    · exact Or.inr (Or.inr hgt)
    · exact Or.inr (Or.inl (String.le_antisymm (String.not_lt.1 hgt) (String.not_lt.1 hlt)))

theorem Json.key_ne {k k' : String} (h : k < k') : k ≠ k' ∧ k' ≠ k ∧ ¬ k' < k := by
  refine ⟨?_, ?_, fun h' => String.lt_irrefl _ (String.lt_trans h h')⟩ <;>
    rintro rfl <;> exact String.lt_irrefl _ h

theorem Json.setField_comm {k k' : String} (h : k < k') (v v' : Json) (fs : List (String × Json)) :
    setField k v (setField k' v' fs) = setField k' v' (setField k v fs) := by
  obtain ⟨hne, hne', hnot⟩ := key_ne h
  induction fs with
  | nil => simp [setField, h, hne, hne', hnot]
  | cons f fs ih =>
      obtain ⟨a, w⟩ := f
      rcases key_cases k' a with hlt | rfl | hgt
      · have hka := String.lt_trans h hlt
        simp [setField, h, hne, hne', hnot, hlt, hka, key_ne hlt, key_ne hka]
      · simp [setField, h, hne, hne', hnot]
      · rcases key_cases k a with hka | rfl | hka
        · simp [setField, hne', hnot, hka, key_ne hka, key_ne hgt]
        · simp [setField, hne', hnot]
        · simp [setField, key_ne hgt, key_ne hka, ih]

theorem Json.setField_setField (k : String) (v v' : Json) (fs : List (String × Json)) :
    setField k v (setField k v' fs) = setField k v fs := by
  induction fs with
  | nil => simp [setField]
  | cons f fs ih =>
      obtain ⟨a, w⟩ := f
      rw [setField, setField]
      split_ifs with heq hlt
      · simp [setField]
      · simp [setField]
      · rw [setField, if_neg heq, if_neg hlt, ih]

def Block.isHeader : Block → Bool
  | .header _ _ _ => true
  | _ => false

/-- A change that leaves alone what the filters for headers look at. -/
structure Unnoticed (g : List (String × Json) → List (String × Json)) (r : Block → Block) :
    Prop where
  title : ∀ v fs, Json.setField "title" v (g fs) = g (Json.setField "title" v fs)
  header : ∀ level attr inlines, r (.header level attr inlines) = .header level attr inlines
  leaf : ∀ b : Block, b.isContainer = false → b.isHeader = false →
    (r b).isContainer = false ∧ (r b).isHeader = false

namespace Unnoticed

theorem keepsLeaves (h : Unnoticed g r) : Block.KeepsLeaves r := by
  intro b hb
  cases b with
  | header level attr inlines => rw [h.header]; rfl
  | container kind content => cases hb
  | _ => exact (h.leaf _ rfl rfl).1

theorem isHeader_replace (h : Unnoticed g r) {b : Block} (hb : b.isHeader = false) :
    (b.replace r).isHeader = false := by
  cases b with
  | header level attr inlines => cases hb
  | container kind content => rw [Block.replace]; rfl
  | _ => rw [Block.replace_of_leaf rfl]; exact (h.leaf _ rfl rfl).2

theorem replace_header (h : Unnoticed g r) (level : Nat) (attr : Attr) (inlines : List Json) :
    (Block.header level attr inlines).replace r = .header level attr inlines := by
  rw [Block.replace_of_leaf rfl, h.header]

theorem replaceOf_header (h : Unnoticed g r) (level : Nat) (attr : Attr) (inlines : List Json) :
    Block.replaceOf r [.header level attr inlines] = [.header level attr inlines] := by
  rw [Block.replaceOf, h.replace_header]
  rfl

theorem setMetaString (h : Unnoticed g r) (text : String) (d : Document) :
    (d.change g r).setMetaString "title" text = (d.setMetaString "title" text).change g r := by
  rw [Document.setMetaString, Document.setMetaString, Document.change, Document.change, h.title]

end Unnoticed

theorem Block.isList_of_leaf {b : Block} (h : b.isContainer = false) : b.isList = false := by
  cases b with
  | container kind content => cases h
  | _ => rfl

theorem Block.isList_replace (hr : KeepsLeaves r) (b : Block) : (b.replace r).isList = b.isList := by
  cases hb : b.isContainer with
  | false => rw [replace_of_leaf hb, isList_of_leaf hb, isList_of_leaf (hr b hb)]
  | true =>
      cases b with
      | container kind content =>
          rw [replace]
          cases kind <;> rfl
      | _ => cases hb

namespace Filter

theorem shiftHeadings_of_not_header {b : Block} (h : b.isHeader = false) (s : Unit × Document) :
    shiftHeadings.action b s = .ok [b] s := by
  cases b with
  | header level attr inlines => cases h
  | _ => rfl

theorem removeToc_of_not_header {b : Block} (h : b.isHeader = false) (s : Bool × Document) :
    removeToc.action b s = .ok (if s.1 && b.isList then [] else [b]) s := by
  cases b with
  | header level attr inlines => cases h
  | _ => rfl

theorem shiftHeadings_title {level : Nat} (hlevel : level ≤ 1) (attr : Attr) (inlines : List Json)
    (s : Unit × Document) : shiftHeadings.action (.header level attr inlines) s =
      .ok [] (s.1, s.2.setMetaString "title" (Inline.stringify inlines)) := by
  simp only [shiftHeadings, if_pos hlevel]
  rfl

theorem shiftHeadings_header {level : Nat} (hlevel : ¬ level ≤ 1) (attr : Attr)
    (inlines : List Json) (s : Unit × Document) :
    shiftHeadings.action (.header level attr inlines) s =
      .ok [.header (level - 1) attr inlines] s := by
  simp only [shiftHeadings, if_neg hlevel]
  rfl

def opensToc (inToc : Bool) (inlines : List Json) : Bool :=
  !inToc && Inline.stringify inlines = tocTitle

theorem removeToc_header (level : Nat) (attr : Attr) (inlines : List Json) (s : Bool × Document) :
    removeToc.action (.header level attr inlines) s =
      .ok (if opensToc s.1 inlines then [] else [.header level attr inlines])
        (opensToc s.1 inlines, s.2) := rfl

theorem shiftHeadings_respects (h : Unnoticed g r) :
    shiftHeadings.action.Respects r fun s => (s.1, s.2.change g r) := by
  rintro b (s : Unit × Document)
  cases hb : b.isHeader with
  | false =>
      exact along_of_eq (shiftHeadings_of_not_header (h.isHeader_replace hb) _)
        (shiftHeadings_of_not_header hb s) rfl
  | true =>
      cases b with
      | header level attr inlines =>
          rw [h.replace_header]
          by_cases hlevel : level ≤ 1
          · refine along_of_eq (shiftHeadings_title hlevel attr inlines _)
              (shiftHeadings_title hlevel attr inlines s) ?_
            exact congrArg (fun d => EStateM.Result.ok [] (s.1, d)) (h.setMetaString _ _)
          · refine along_of_eq (shiftHeadings_header hlevel attr inlines _)
              (shiftHeadings_header hlevel attr inlines s) ?_
            exact congrArg (EStateM.Result.ok · (s.1, s.2.change g r)) (h.replaceOf_header _ _ _).symm
      | _ => cases hb

theorem removeToc_respects (h : Unnoticed g r) :
    removeToc.action.Respects r fun s => (s.1, s.2.change g r) := by
  rintro b (s : Bool × Document)
  cases hb : b.isHeader with
  | false =>
      refine along_of_eq (removeToc_of_not_header (h.isHeader_replace hb) _)
        (removeToc_of_not_header hb s) ?_
      rw [Block.isList_replace h.keepsLeaves]
      split <;> rfl
  | true =>
      cases b with
      | header level attr inlines =>
          rw [h.replace_header]
          refine along_of_eq (removeToc_header level attr inlines _)
            (removeToc_header level attr inlines s) ?_
          split
          · rfl
          · exact congrArg (EStateM.Result.ok · (opensToc s.1 inlines, s.2.change g r))
              (h.replaceOf_header _ _ _).symm
      | _ => cases hb

theorem compileDate_apply (date : Date) (d : Document) :
    (compileDate date).apply d = .ok () (d.setMetaString "date" (String.ofList date.text)) := by
  have hkeep : (Action.keep : Action (Unit × Document)).Observes fun s _ => s := fun _ _ => rfl
  have hfold : ∀ (bs : List Block) (s : Unit × Document), bs.foldl (fun s _ => s) s = s := by
    intro bs s
    induction bs with
    | nil => rfl
    | cons b bs ih => exact ih
  have hwalk := walkBlocks_observes hkeep d.blocks
    ((), { d.setMetaString "date" (String.ofList date.text) with blocks := [] })
  rw [hfold] at hwalk
  exact apply_of_walk (f := compileDate date) (d := d) hwalk

abbrev Faultless (o : InsertOptions) (files : Files) (b : Block) : Prop := o.fault? files b = none

theorem keeps_keep {σ : Type} : (Action.keep : Action σ).Keeps (Faultless o files) where
  container _ _ := rfl
  answer b s hb := ⟨[b], s, rfl, by rwa [Block.offeredOf_singleton]⟩

theorem keeps_shiftHeadings : shiftHeadings.action.Keeps (Faultless o files) where
  container _ _ := rfl
  answer b s hb := by
    cases hheader : b.isHeader with
    | false =>
        exact ⟨[b], s, shiftHeadings_of_not_header hheader s, by rwa [Block.offeredOf_singleton]⟩
    | true =>
        cases b with
        | header level attr inlines =>
            by_cases hlevel : level ≤ 1
            · exact ⟨[], _, shiftHeadings_title hlevel attr inlines s, by simp [Block.offeredOf]⟩
            · refine ⟨_, s, shiftHeadings_header hlevel attr inlines s, ?_⟩
              rw [Block.offeredOf_singleton, Block.offered, List.forall_mem_singleton]
              rfl
        | _ => cases hheader

theorem keeps_removeToc : removeToc.action.Keeps (Faultless o files) where
  container _ _ := rfl
  answer := by
    rintro b (s : Bool × Document) hb
    have hanswer : ∀ opens : Bool, ∀ a ∈ Block.offeredOf (if opens then [] else [b]),
        Faultless o files a := by
      rintro (rfl | rfl)
      · simpa [Block.offeredOf_singleton] using hb
      · simp [Block.offeredOf]
    cases hheader : b.isHeader with
    | false => exact ⟨_, s, removeToc_of_not_header hheader s, hanswer _⟩
    | true =>
        cases b with
        | header level attr inlines =>
            exact ⟨_, _, removeToc_header level attr inlines s, hanswer _⟩
        | _ => cases hheader

theorem keeps_insertCode (o : InsertOptions) (files : Files) :
    (insertCode o files).action.Keeps (Faultless o files) where
  container _ _ := rfl
  answer b s hb := by
    have hrewrites := rewrites_insertCode o files
    cases hcontainer : b.isContainer with
    | false =>
        rw [Block.offered_of_leaf hcontainer, List.forall_mem_singleton] at hb
        refine ⟨[o.listed files b], s, ?_, ?_⟩
        · rw [hrewrites.leaf b s hcontainer, outcome, List.findSome?_singleton, hb]
        · rw [Block.offeredOf_singleton,
            Block.offered_of_leaf (o.keepsLeaves_listed files b hcontainer),
            List.forall_mem_singleton]
          exact InsertOptions.fault?_listed hb
    | true =>
        cases b with
        | container kind content =>
            exact ⟨_, s, hrewrites.container kind content s, by rwa [Block.offeredOf_singleton]⟩
        | _ => cases hcontainer

end Filter

def FilterName.isForHeaders : FilterName → Bool
  | .shiftHeadings | .removeToc => true
  | .compileDate | .insertCode => false

namespace Settings

variable {s : Settings} {F G : List FilterName}

def stamp (s : Settings) : List (String × Json) → List (String × Json) :=
  Json.setField "date" (Document.metaString (String.ofList s.date.text))

theorem unnoticed_stamp (s : Settings) : Unnoticed s.stamp id where
  title v fs := (Json.setField_comm (by decide) _ v fs).symm
  header _ _ _ := rfl
  leaf _ hc hh := ⟨hc, hh⟩

theorem unnoticed_listed (o : InsertOptions) (files : Files) : Unnoticed id (o.listed files) where
  title _ _ := rfl
  header _ _ _ := rfl
  leaf b hc hh := by
    refine ⟨o.keepsLeaves_listed files b hc, ?_⟩
    cases b with
    | raw format text =>
        rw [InsertOptions.listed]
        split
        · split <;> rfl
        · rfl
    | _ => exact hh

theorem apply_change_of_isForHeaders (h : Unnoticed g r) {n : FilterName}
    (hn : n.isForHeaders = true) (d : Document) :
    (s.filter files n).apply (d.change g r) =
      along id (Document.change g r) ((s.filter files n).apply d) := by
  cases n with
  | shiftHeadings =>
      exact Filter.apply_change rfl h.keepsLeaves (Filter.shiftHeadings_respects h) d
  | removeToc => exact Filter.apply_change rfl h.keepsLeaves (Filter.removeToc_respects h) d
  | _ => cases hn

theorem applyAll_change (h : Unnoticed g r) (hF : ∀ n ∈ F, n.isForHeaders = true) (d : Document) :
    s.applyAll files F (d.change g r) =
      along id (Document.change g r) (s.applyAll files F d) := by
  induction F generalizing d with
  | nil => rfl
  | cons n F ih =>
      rw [List.forall_mem_cons] at hF
      rw [applyAll]
      exact bind_along (apply_change_of_isForHeaders h hF.1 d) fun _ d => ih hF.2 d

theorem filter_keeps (n : FilterName)
    (hd : ∀ b ∈ Block.offeredOf d.blocks, Filter.Faultless s.insert files b) :
    ∃ d', (s.filter files n).apply d = .ok () d' ∧
      ∀ b ∈ Block.offeredOf d'.blocks, Filter.Faultless s.insert files b := by
  cases n with
  | compileDate => exact Filter.apply_keeps (fun _ => rfl) Filter.keeps_keep hd
  | shiftHeadings => exact Filter.apply_keeps (fun _ => rfl) Filter.keeps_shiftHeadings hd
  | removeToc => exact Filter.apply_keeps (fun _ => rfl) Filter.keeps_removeToc hd
  | insertCode => exact Filter.apply_keeps (fun _ => rfl) (Filter.keeps_insertCode _ _) hd

theorem applyAll_keeps (F : List FilterName)
    (hd : ∀ b ∈ Block.offeredOf d.blocks, Filter.Faultless s.insert files b) :
    ∃ d', s.applyAll files F d = .ok () d' := by
  induction F generalizing d with
  | nil => exact ⟨d, rfl⟩
  | cons n F ih =>
      obtain ⟨d₁, hn, hd₁⟩ := filter_keeps n hd
      obtain ⟨d', hF⟩ := ih hd₁
      exact ⟨d', by rw [applyAll, bind_ok hn, hF]⟩

theorem compileDate_eq_change (s : Settings) (files : Files) (d : Document) :
    (s.filter files .compileDate).apply d = .ok () (d.change s.stamp id) := by
  have hblocks : Block.replaceOf id d.blocks = d.blocks := Block.replaceOf_eq_self fun _ _ => rfl
  rw [filter, Filter.compileDate_apply, Document.change, hblocks]
  rfl

theorem insertCode_eq_change (h : (s.filter files .insertCode).apply d = .ok () d') :
    d' = d.change id (s.insert.listed files) ∧
      ∀ b ∈ Block.offeredOf d.blocks, Filter.Faultless s.insert files b := by
  rw [filter, Filter.insertCode_apply] at h
  split at h
  · next hfault =>
      cases h
      exact ⟨rfl, List.findSome?_eq_none_iff.1 hfault⟩
  · cases h

/-- A document with the date set and the listings inserted, as far as the filters do so. -/
def settled (s : Settings) (files : Files) (F : List FilterName) (d : Document) : Document :=
  d.change (if .compileDate ∈ F then s.stamp else id)
    (if .insertCode ∈ F then s.insert.listed files else id)

theorem settled_of_isForHeaders {n : FilterName} (hn : n.isForHeaders = true) :
    s.settled files (n :: F) = s.settled files F := by
  cases n with
  | shiftHeadings | removeToc =>
      funext d
      simp [settled]
  | _ => cases hn

theorem settled_stamp (s : Settings) (files : Files) (F : List FilterName) (d : Document) :
    s.settled files F (d.change s.stamp id) = s.settled files (.compileDate :: F) d := by
  have hblocks : Block.replaceOf id d.blocks = d.blocks := Block.replaceOf_eq_self fun _ _ => rfl
  have hstamp : s.stamp (s.stamp d.metadata) = s.stamp d.metadata := Json.setField_setField ..
  by_cases hdate : .compileDate ∈ F <;> simp [settled, Document.change, hdate, hblocks, hstamp]

theorem settled_listed (s : Settings) (files : Files) (F : List FilterName) (d : Document) :
    s.settled files F (d.change id (s.insert.listed files)) =
      s.settled files (.insertCode :: F) d := by
  have hblocks : ∀ bs, Block.replaceOf id bs = bs := fun bs =>
    Block.replaceOf_eq_self fun _ _ => rfl
  have hlisted := s.insert.replaceOf_listed_listed files d.blocks
  by_cases hinsert : .insertCode ∈ F <;>
    simp [settled, Document.change, hinsert, hblocks, hlisted]

theorem along_eq_ok {φ : Document → Document} {x : EStateM.Result Error Document Unit}
    (h : along id φ x = .ok () d') : ∃ t, x = .ok () t ∧ d' = φ t := by
  cases x with
  | ok a t =>
      cases h
      exact ⟨t, rfl, rfl⟩
  | error e t => cases h

/-- A run comes to the filters for headers alone, and what the others do is done at the end. -/
theorem applyAll_eq_settled (h : s.applyAll files F d = .ok () d') :
    ∃ t, s.applyAll files (F.filter FilterName.isForHeaders) d = .ok () t ∧
      d' = s.settled files F t := by
  have hheaders : ∀ F : List FilterName,
      ∀ n ∈ F.filter FilterName.isForHeaders, n.isForHeaders = true :=
    fun F n hn => (List.mem_filter.1 hn).2
  induction F generalizing d with
  | nil =>
      obtain ⟨-, rfl⟩ := pure_eq_ok.1 h
      have hblocks : Block.replaceOf id d.blocks = d.blocks := Block.replaceOf_eq_self fun _ _ => rfl
      exact ⟨d, rfl, by simp [settled, Document.change, hblocks]⟩
  | cons n F ih =>
      obtain ⟨_, d₁, hn, h⟩ := bind_eq_ok.1 h
      obtain ⟨t, ht, rfl⟩ := ih h
      cases hfor : n.isForHeaders with
      | true =>
          refine ⟨t, ?_, by rw [settled_of_isForHeaders hfor]⟩
          rw [List.filter_cons_of_pos hfor, applyAll, bind_ok hn, ht]
      | false =>
          -- What this filter changes stays unnoticed, so it is put behind the rest of the run.
          rw [List.filter_cons_of_neg (by simp [hfor])]
          cases n with
          | compileDate =>
              rw [compileDate_eq_change] at hn
              cases hn
              rw [applyAll_change (unnoticed_stamp s) (hheaders F)] at ht
              obtain ⟨t₀, ht₀, rfl⟩ := along_eq_ok ht
              exact ⟨t₀, ht₀, settled_stamp s files F t₀⟩
          | insertCode =>
              obtain ⟨rfl, -⟩ := insertCode_eq_change hn
              rw [applyAll_change (unnoticed_listed s.insert files) (hheaders F)] at ht
              obtain ⟨t₀, ht₀, rfl⟩ := along_eq_ok ht
              exact ⟨t₀, ht₀, settled_listed s files F t₀⟩
          | _ => cases hfor

theorem settled_eq_of_perm (h : F.Perm G) : s.settled files F d = s.settled files G d := by
  simp only [settled, h.mem_iff]

theorem run_filters_eq_ok :
    run { s with filters := F } files d = .ok d' ↔ s.applyAll files F d = .ok () d' := by
  simp only [run, applyAll_filters]
  split <;> simp_all

/-- Only the order of the filters for headers matters. -/
theorem run_eq_of_perm (s : Settings) (files : Files) {F G : List FilterName} (hperm : F.Perm G)
    (hheaders : F.filter FilterName.isForHeaders = G.filter FilterName.isForHeaders)
    (d : Document) :
    (∀ d₁ d₂, run { s with filters := F } files d = .ok d₁ →
      run { s with filters := G } files d = .ok d₂ → d₁ = d₂) ∧
    ((∃ d', run { s with filters := [.insertCode] } files d = .ok d') →
      (∃ d₁, run { s with filters := F } files d = .ok d₁) ∧
        ∃ d₂, run { s with filters := G } files d = .ok d₂) := by
  simp only [run_filters_eq_ok]
  refine ⟨fun d₁ d₂ hF hG => ?_, ?_⟩
  · obtain ⟨t, ht, rfl⟩ := applyAll_eq_settled hF
    obtain ⟨t', ht', rfl⟩ := applyAll_eq_settled hG
    rw [hheaders, ht'] at ht
    obtain ⟨-, rfl⟩ := pure_eq_ok.1 ht
    exact settled_eq_of_perm hperm
  · rintro ⟨d', hinsert⟩
    obtain ⟨_, d₁, hinsert, -⟩ := bind_eq_ok.1 hinsert
    have hfaultless := (insertCode_eq_change hinsert).2
    exact ⟨applyAll_keeps F hfaultless, applyAll_keeps G hfaultless⟩

def guide : Document where
  apiVersion := [1, 22]
  metadata := []
  blocks := [
    .header 1 (.ofClasses []) [Inline.word "Guide".toList],
    .header 2 (.ofClasses []) (Inline.ofText Filter.tocTitle.toList),
    .container .bulletList (.list [.blocks [.raw "html" "<!-- insertEnum, a.cs -->"]]),
    .raw "html" "<!-- insertEnum, a.cs -->"]

def insertFirst : List FilterName := [.insertCode, .shiftHeadings, .compileDate, .removeToc]

def everywhere (source : Text) : Files := fun _ => .ok source

theorem faultless_everywhere (o : InsertOptions) (source : Text) (b : Block) :
    Filter.Faultless o (everywhere source) b :=
  InsertOptions.fault?_eq_none_iff.2 fun _ _ _ _ _ _ => ⟨source, rfl⟩

theorem run_insertCode_everywhere (s : Settings) (source : Text) (d : Document) :
    ∃ d', run { s with filters := [.insertCode] } (everywhere source) d = .ok d' := by
  obtain ⟨d', h⟩ := applyAll_keeps (s := s) [.insertCode] (d := d)
    fun b _ => faultless_everywhere s.insert source b
  exact ⟨d', run_filters_eq_ok.2 h⟩

theorem run_eq_of_perm_guide :
    insertFirst.Perm FilterName.all ∧
    insertFirst.filter FilterName.isForHeaders =
      FilterName.all.filter FilterName.isForHeaders ∧
    ∃ d, run { date := ⟨2024, 2, 29⟩, filters := insertFirst }
        (everywhere "public enum Color".toList) guide = .ok d ∧
      run { date := ⟨2024, 2, 29⟩ } (everywhere "public enum Color".toList) guide = .ok d := by
  have hperm : insertFirst.Perm FilterName.all := by decide
  have hheaders : insertFirst.filter FilterName.isForHeaders =
      FilterName.all.filter FilterName.isForHeaders := by decide
  obtain ⟨heq, hok⟩ := run_eq_of_perm { date := ⟨2024, 2, 29⟩ }
    (everywhere "public enum Color".toList) hperm hheaders guide
  obtain ⟨⟨d₁, h₁⟩, d₂, h₂⟩ := hok (run_insertCode_everywhere _ _ _)
  obtain rfl := heq d₁ d₂ h₁ h₂
  exact ⟨hperm, hheaders, d₁, h₁, h₂⟩

end Settings

end ApiListing
