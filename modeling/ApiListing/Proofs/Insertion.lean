import ApiListing.CommandLine.Command
import ApiListing.Proofs.Rewrites

namespace ApiListing

variable {o : InsertOptions} {files : Files} {b : Block} {format text : String} {d d' : Document}
  {directive : Directive} {mode : Mode} {e : Error}

def Directive.request? (text : String) : Option (Directive × Mode) := do
  let directive ← ofText? text.toList
  return (directive, ← Mode.ofName? directive.mode)

namespace InsertOptions

def path (o : InsertOptions) (directive : Directive) : Text := Path.resolve o.root directive.path

def code (o : InsertOptions) (directive : Directive) (mode : Mode) (source : Text) : Block :=
  .code ⟨"", [o.language], []⟩ (String.ofList (Listing.ofSource o.scan directive.path source mode))

def listed (o : InsertOptions) (files : Files) : Block → Block
  | .raw format text =>
    match Directive.request? text with
    | some (directive, mode) =>
      match files (o.path directive) with
      | .ok source => o.code directive mode source
      | .error _ => .raw format text
    | none => .raw format text
  | b => b

def fault? (o : InsertOptions) (files : Files) : Block → Option Error
  | .raw _ text =>
    match Directive.request? text with
    | some (directive, _) =>
      match files (o.path directive) with
      | .ok _ => none
      | .error failure => some (.unreadable (o.path directive) failure)
    | none => none
  | _ => none

/-- If the block is a directive of a known mode, the file that it names can be read. -/
def CanRead (o : InsertOptions) (files : Files) (b : Block) : Prop :=
  ∀ format text directive mode, b = .raw format text →
    Directive.request? text = some (directive, mode) →
    ∃ source, files (o.path directive) = .ok source

/-- The block is a directive of a known mode, and its file cannot be read. -/
def CannotRead (o : InsertOptions) (files : Files) (b : Block) (e : Error) : Prop :=
  ∃ format text directive mode failure, b = .raw format text ∧
    Directive.request? text = some (directive, mode) ∧
    files (o.path directive) = .error failure ∧ e = .unreadable (o.path directive) failure

theorem fault?_eq_none_iff : o.fault? files b = none ↔ o.CanRead files b := by
  constructor
  · rintro h format text directive mode rfl hrequest
    simp only [fault?, hrequest] at h
    cases hfile : files (o.path directive) with
    | ok source => exact ⟨source, rfl⟩
    | error failure =>
        rw [hfile] at h
        cases h
  · intro h
    cases b with
    | raw format text =>
        cases hrequest : Directive.request? text with
        | none => simp only [fault?, hrequest]
        | some request =>
            obtain ⟨source, hfile⟩ := h format text request.1 request.2 rfl hrequest
            simp only [fault?, hrequest, hfile]
    | _ => rfl

theorem fault?_eq_some_iff : o.fault? files b = some e ↔ o.CannotRead files b e := by
  constructor
  · intro h
    cases b with
    | raw format text =>
        cases hrequest : Directive.request? text with
        | none => simp [fault?, hrequest] at h
        | some request =>
            cases hfile : files (o.path request.1) with
            | ok source => simp [fault?, hrequest, hfile] at h
            | error failure =>
                simp only [fault?, hrequest, hfile, Option.some.injEq] at h
                exact ⟨format, text, request.1, request.2, failure, rfl, hrequest, hfile, h.symm⟩
    | _ => cases h
  · rintro ⟨format, text, directive, mode, failure, rfl, hrequest, hfile, rfl⟩
    simp only [fault?, hrequest, hfile]

theorem resolve?_eq (o : InsertOptions) (files : Files) (text : String) :
    o.resolve? files text = match Directive.request? text with
      | some (directive, mode) =>
        match files (o.path directive) with
        | .ok source => .ok (some (o.code directive mode source))
        | .error failure => .error (.unreadable (o.path directive) failure)
      | none => .ok none := by
  rw [resolve?, Directive.request?]
  cases Directive.ofText? text.toList with
  | none => rfl
  | some directive =>
      cases hmode : Mode.ofName? directive.mode with
      | none => simp [listing?, hmode, Except.map]
      | some mode =>
          simp only [listing?, hmode, Files.listing, Files.source, path, Option.bind_eq_bind,
            Option.bind_some, Option.pure_def]
          cases files (Path.resolve o.root directive.path) <;> rfl

theorem keepsLeaves_listed (o : InsertOptions) (files : Files) :
    Block.KeepsLeaves (o.listed files) := by
  intro b hb
  cases b with
  | raw format text =>
      rw [listed]
      split
      · split <;> rfl
      · rfl
  | _ => exact hb

theorem fault?_listed (h : o.fault? files b = none) : o.fault? files (o.listed files b) = none := by
  cases b with
  | raw format text =>
      rw [listed]
      split
      · split
        · rfl
        · exact h
      · exact h
  | _ => exact h

theorem listed_listed (o : InsertOptions) (files : Files) (b : Block) :
    o.listed files (o.listed files b) = o.listed files b := by
  cases b with
  | raw format text =>
      cases hrequest : Directive.request? text with
      | none => simp only [listed, hrequest]
      | some request =>
          cases hfile : files (o.path request.1) <;>
            simp only [listed, hrequest, hfile, code]
  | _ => rfl

theorem replaceOf_listed_listed (o : InsertOptions) (files : Files) (bs : List Block) :
    Block.replaceOf (o.listed files) (Block.replaceOf (o.listed files) bs) =
      Block.replaceOf (o.listed files) bs := by
  refine Block.replaceOf_eq_self fun b hb => ?_
  rw [Block.leaves_replaceOf (o.keepsLeaves_listed files)] at hb
  obtain ⟨a, -, rfl⟩ := List.mem_map.1 hb
  exact o.listed_listed files a

end InsertOptions

namespace Filter

theorem rewrites_insertCode (o : InsertOptions) (files : Files) :
    (insertCode o files).action.Rewrites (o.fault? files) (o.listed files) where
  container _ _ _ := rfl
  faultless _ _ := rfl
  leaf := by
    intro b s hb
    cases b with
    | raw format text =>
        simp only [insertCode, o.resolve?_eq]
        unfold outcome
        rw [List.findSome?_singleton, InsertOptions.fault?, InsertOptions.listed]
        cases Directive.request? text with
        | none => rfl
        | some request => cases hfile : files (o.path request.1) <;> simp [hfile] <;> rfl
    | container kind content => cases hb
    | _ => rfl

theorem insertCode_apply (o : InsertOptions) (files : Files) (d : Document) :
    (insertCode o files).apply d =
      match (Block.offeredOf d.blocks).findSome? (o.fault? files) with
      | none => .ok () { d with blocks := Block.replaceOf (o.listed files) d.blocks }
      | some e => .error e { d with blocks := [] } :=
  apply_of_rewrites rfl (rewrites_insertCode o files)

/-- Once all listings are inserted, nothing asks for one. -/
theorem insertCode_apply_again
    (h : (Block.offeredOf d.blocks).findSome? (o.fault? files) = none) :
    (insertCode o files).apply { d with blocks := Block.replaceOf (o.listed files) d.blocks } =
      .ok () { d with blocks := Block.replaceOf (o.listed files) d.blocks } := by
  have hleaves := Block.leaves_replaceOf (o.keepsLeaves_listed files) d.blocks
  have hfault : (Block.offeredOf (Block.replaceOf (o.listed files) d.blocks)).findSome?
      (o.fault? files) = none := by
    rw [List.findSome?_eq_none_iff] at h ⊢
    intro b hb
    cases hcontainer : b.isContainer with
    | true =>
        cases b with
        | container kind content => rfl
        | _ => cases hcontainer
    | false =>
        have hleaf := Block.mem_leaves.2 ⟨hb, hcontainer⟩
        rw [hleaves] at hleaf
        obtain ⟨a, ha, rfl⟩ := List.mem_map.1 hleaf
        exact InsertOptions.fault?_listed (h a (Block.mem_leaves.1 ha).1)
  rw [insertCode_apply, hfault, o.replaceOf_listed_listed]

theorem applyAll_of_error {s : Settings} {n : FilterName} {before after : List FilterName}
    {d₀ : Document} (hbefore : s.applyAll files before d₀ = .ok () d)
    (h : (s.filter files n).apply d = .error e d') :
    s.applyAll files (before ++ n :: after) d₀ = .error e d' := by
  induction before generalizing d₀ with
  | nil =>
      cases hbefore
      rw [List.nil_append, Settings.applyAll]
      simp only [bind, EStateM.bind, h]
  | cons m before ih =>
      rw [Settings.applyAll] at hbefore
      rw [List.cons_append, Settings.applyAll]
      simp only [bind, EStateM.bind] at hbefore ⊢
      cases hm : (s.filter files m).apply d₀ with
      | ok u d₁ =>
          rw [hm] at hbefore
          exact ih hbefore
      | error e₁ d₁ =>
          rw [hm] at hbefore
          cases hbefore

theorem runStream_of_insertCode_error {s : Settings} {input : Json.Bytes}
    {before after : List FilterName} {d₀ : Document}
    (h : (insertCode s.insert files).apply d = .error e d')
    (hfilters : s.filters = before ++ .insertCode :: after)
    (hinput : Document.read .stream input = .ok d₀)
    (hbefore : s.applyAll files before d₀ = .ok () d) : s.runStream files input = .error e := by
  have hrun : s.run files d₀ = .error e := by
    rw [Settings.run, hfilters, applyAll_of_error (n := .insertCode) hbefore h]
  rw [Settings.runStream, hinput]
  simp only [bind, Except.bind, hrun]

/-- All listings of a document are inserted, or none is and the first one that cannot be made is
reported. -/
theorem insertCode_all_or_first_fault (o : InsertOptions) (files : Files) (d : Document) :
    ((∃ d', (insertCode o files).apply d = .ok () d') ↔
      ∀ b ∈ Block.offeredOf d.blocks, o.CanRead files b) ∧
    (∀ e d', (insertCode o files).apply d = .error e d' →
      (∃ before b after, Block.offeredOf d.blocks = before ++ b :: after ∧
        o.CannotRead files b e ∧ ∀ a ∈ before, o.CanRead files a) ∧
      ∀ (s : Settings) (input : Json.Bytes) (before after : List FilterName) (d₀ : Document),
        s.insert = o → s.filters = before ++ .insertCode :: after →
        Document.read .stream input = .ok d₀ → s.applyAll files before d₀ = .ok () d →
        s.runStream files input = .error e ∧
        ∀ today arguments a, Command.ofArguments? arguments = some (.filter a) →
          Command.settings today a = .ok s →
          (Command.run files today input arguments).output = []) ∧
    ∀ d', (insertCode o files).apply d = .ok () d' →
      d' = { d with blocks := Block.replaceOf (o.listed files) d.blocks } ∧
      (insertCode o files).apply d' = .ok () d' := by
  have hread : ∀ bs : List Block, bs.findSome? (o.fault? files) = none ↔
      ∀ b ∈ bs, o.CanRead files b := by
    simp [List.findSome?_eq_none_iff, InsertOptions.fault?_eq_none_iff]
  refine ⟨?_, ?_, ?_⟩
  · rw [insertCode_apply, ← hread]
    cases (Block.offeredOf d.blocks).findSome? (o.fault? files) <;> simp
  · intro e d' h
    refine ⟨?_, fun s input before after d₀ ho hfilters hinput hbefore => ?_⟩
    · rw [insertCode_apply] at h
      split at h
      · cases h
      · next hfault =>
          cases h
          obtain ⟨before, b, after, hsplit, hb, hbefore⟩ := List.findSome?_eq_some_iff.1 hfault
          exact ⟨before, b, after, hsplit, InsertOptions.fault?_eq_some_iff.1 hb,
            fun a ha => InsertOptions.fault?_eq_none_iff.1 (hbefore a ha)⟩
    · subst ho
      have hstream := runStream_of_insertCode_error h hfilters hinput hbefore
      refine ⟨hstream, fun today arguments a harguments hsettings => ?_⟩
      simp only [Command.run, harguments, Command.output, hsettings, bind, Except.bind, hstream]
  · intro d' h
    rw [insertCode_apply] at h
    split at h
    · next hfault =>
        cases h
        exact ⟨rfl, insertCode_apply_again hfault⟩
    · cases h

end Filter

end ApiListing
