import ApiListing.CommandLine.Command
import ApiListing.Proofs.PrintedDirectives

namespace ApiListing

variable {path value : Text} {a b : Arguments} {g : Grammar}

namespace Mode

variable (m : Mode)

theorem ofName?_name : ofName? m.name = some m := by cases m <;> decide

theorem ofOperand?_operand : ofOperand? m.operand = some m := by cases m <;> decide

theorem name_ne_nil : m.name ≠ [] := by cases m <;> decide

theorem isWordChar_name : ∀ c ∈ m.name, Text.isWordChar c = true :=
  List.all_eq_true.1 (by cases m <;> decide)

/-- The directive that asks for a listing, with all its spaces. -/
def directive (path : Text) : Text := Directive.printed ⟨m.name, path⟩ ⟨true, true, true⟩

theorem ofText?_directive (hpath : Text.IsWord path) (suffix : Text) :
    Directive.ofText? (m.directive path ++ suffix) = some ⟨m.name, path⟩ := by
  have hprintable : Directive.IsPrintable ⟨m.name, path⟩ :=
    ⟨m.name_ne_nil, m.isWordChar_name, hpath⟩
  have hread := Directive.path?_append hpath (Directive.closesLast_space suffix)
  rw [List.append_nil] at hread
  rw [directive, Directive.ofText?_printed_append hprintable]
  exact congrArg (Option.map (Directive.mk m.name)) hread

end Mode

theorem InsertOptions.resolve?_directive (o : InsertOptions) (files : Files) (m : Mode)
    (hpath : Text.IsWord path) (suffix : Text) :
    o.resolve? files (String.ofList (m.directive path ++ suffix)) =
      (files.listing o.scan (Path.resolve o.root path) path m).map fun listing =>
        some (.code (.ofClasses [o.language]) (String.ofList listing)) := by
  rw [resolve?, String.toList_ofList, m.ofText?_directive hpath]
  simp only [listing?, m.ofName?_name]
  cases files.listing o.scan (Path.resolve o.root path) path m <;> rfl

namespace OptionName

theorem text_injective : Function.Injective text := by
  intro x y h
  revert h
  cases x <;> cases y <;> decide

def withValue (o : OptionName) (value : Text) : Text := "--".toList ++ (o.text ++ '=' :: value)

theorem cut?_text (o : OptionName) (value : Text) :
    Text.cut? ['='] (o.text ++ '=' :: value) = some (o.text, value) := by
  cases o <;> rfl

end OptionName

def Boundary.flag : Boundary → List Text
  | indentation => []
  | braceDepth => ["--brace-depth".toList]

namespace Grammar

theorem option?_text {o : OptionName} (ho : o ∈ g.options) : g.option? o.text = some o := by
  cases hfind : g.option? o.text with
  | none => simpa using List.find?_eq_none.1 hfind o ho
  | some x => exact congrArg some (OptionName.text_injective (by simpa using List.find?_some hfind))

theorem read_withValue {o : OptionName} (ho : o ∈ g.options) (hset : a.setValue value o = some b)
    (ts : List Text) : g.read a (o.withValue value :: ts) = g.read b ts := by
  have hne : o.withValue value ≠ "--".toList := by
    intro h
    simpa [OptionName.withValue] using congrArg List.length h
  rw [read, if_neg hne, OptionName.withValue, Text.stripPrefix?_append_self]
  simp only [o.cut?_text, option?_text ho, Option.bind_some, hset]

theorem read_markers (hg : .hideMarker ∈ g.options) (markers ts : List Text) :
    g.read a (markers.map OptionName.hideMarker.withValue ++ ts) =
      g.read { a with hideMarkers := a.hideMarkers ++ markers } ts := by
  induction markers generalizing a with
  | nil => simp
  | cons m markers ih =>
      rw [List.map_cons, List.cons_append, read_withValue hg rfl, ih]
      simp

theorem read_boundary (hg : .braceDepth ∈ g.options) (ha : a.braceDepth = false)
    (boundary : Boundary) (ts : List Text) :
    g.read a (boundary.flag ++ ts) = g.read { a with braceDepth := boundary = .braceDepth } ts := by
  cases boundary with
  | indentation => simp [Boundary.flag, ← ha]
  | braceDepth =>
      have hname : g.option? "brace-depth".toList = some .braceDepth := option?_text hg
      have hcut : Text.cut? ['='] "brace-depth".toList = none := by decide
      have hlong : g.long? "brace-depth".toList = none := by simp [long?]
      have hstrip : Text.stripPrefix? "--".toList "--brace-depth".toList =
          some "brace-depth".toList := by decide
      rw [Boundary.flag, List.singleton_append, read, if_neg (by decide), hstrip]
      simp only [hcut, hlong, hname, Arguments.setFlag, ha, Bool.false_eq_true, if_false,
        decide_true]

theorem read_rest (ts : List Text) :
    g.read a ("--".toList :: ts) = (ts.foldlM (Arguments.addOperand g.isOperand) a).map .given := by
  rw [read, if_pos rfl]

end Grammar

namespace Command

/-- The arguments that ask for the listing of a source, with all options written out. The path
stands behind `--`, so it may begin with a hyphen. -/
def extractLine (root : Text) (o : ScanOptions) (m : Mode) (path : Text) : List Text :=
  "extract".toList :: OptionName.root.withValue root ::
    (o.hideMarkers.map OptionName.hideMarker.withValue ++
      (o.boundary.flag ++ ["--".toList, m.operand, path]))

def extractArguments (root : Text) (o : ScanOptions) (m : Mode) (path : Text) : Arguments where
  root? := some root
  hideMarkers := o.hideMarkers
  braceDepth := o.boundary = .braceDepth
  operands := [m.operand, path]

theorem ofArguments?_extractLine {root : Text} (hroot : root ≠ []) (o : ScanOptions) (m : Mode)
    (path : Text) :
    ofArguments? (extractLine root o m path) =
      some (.extract m path (extractArguments root o m path)) := by
  have hset : ({} : Arguments).setValue root .root = some { root? := some root } := by
    simp [Arguments.setValue, Arguments.once, hroot]
  have hread : extractGrammar.read {} (extractLine root o m path).tail =
      some (.given (extractArguments root o m path)) := by
    rw [extractLine, List.tail_cons, Grammar.read_withValue (by decide) hset,
      Grammar.read_markers (by decide), Grammar.read_boundary (by decide) rfl, Grammar.read_rest]
    simp [Arguments.addOperand, extractGrammar, m.ofOperand?_operand, extractArguments]
  rw [extractLine, List.tail_cons] at hread
  rw [extractLine, ofArguments?, if_pos rfl, hread]
  simp [ofRequest?, extract?, extractArguments, m.ofOperand?_operand]

theorem insertOptions_extractArguments {o : ScanOptions} (ho : o.hideMarkers ≠ []) (root : Text)
    (m : Mode) (path : Text) :
    (extractArguments root o m path).insertOptions.root = root ∧
      (extractArguments root o m path).insertOptions.scan = o := by
  refine ⟨rfl, ?_⟩
  cases o with
  | mk markers boundary =>
      simp only at ho
      cases boundary <;> simp [extractArguments, Arguments.insertOptions, ho]

theorem output_extract {o : InsertOptions} (hroot : a.insertOptions.root = o.root)
    (hscan : a.insertOptions.scan = o.scan) (files : Files) (today : Date) (input : Json.Bytes)
    (m : Mode) (path : Text) :
    (extract m path a).output files today input =
      (files.listing o.scan (Path.resolve o.root path) path m).map (· ++ ['\n']) := by
  rw [← hroot, ← hscan, output]
  cases files.listing a.insertOptions.scan (Path.resolve a.insertOptions.root path) path m <;> rfl

/-- A directive and the command line ask for the same listing. The directive gives it as the text of
a code block, the command prints it with a newline behind it, and if the source cannot be read both
fail with the error of its listing. -/
theorem extract_eq_directive (hpath : Text.IsWord path) (o : InsertOptions) (files : Files)
    (m : Mode) (suffix : Text) :
    let listing := files.listing o.scan (Path.resolve o.root path) path m
    o.resolve? files (String.ofList (m.directive path ++ suffix)) =
        listing.map (fun t => some (.code (.ofClasses [o.language]) (String.ofList t))) ∧
      (∀ a today input, a.insertOptions.root = o.root → a.insertOptions.scan = o.scan →
        (extract m path a).output files today input = listing.map (· ++ ['\n'])) ∧
      (o.root ≠ [] → o.scan.hideMarkers ≠ [] → ∀ today input,
        run files today input (extractLine o.root o.scan m path) =
          match listing with
          | .ok t => ⟨0, t ++ ['\n'], []⟩
          | .error e => ⟨1, [], programName ++ ": ".toList ++ e.message ++ ['\n']⟩) := by
  intro listing
  refine ⟨o.resolve?_directive files m hpath suffix, fun a today input hroot hscan => ?_, ?_⟩
  · exact output_extract hroot hscan files today input m path
  · intro hroot hmarkers today input
    obtain ⟨hsame, hscan⟩ := insertOptions_extractArguments hmarkers o.root m path
    rw [run, ofArguments?_extractLine hroot]
    simp only [output_extract hsame hscan, listing]
    cases files.listing o.scan (Path.resolve o.root path) path m <;> rfl

def markedPath : Text := "./a-->,b/--c.cs".toList

def markedFiles : Files := fun path =>
  if path = "././a-->,b/--c.cs".toList then .ok "public int Size;".toList else .error .notFound

theorem extract_eq_directive_marked :
    Text.IsWord markedPath ∧
      InsertOptions.resolve? {} markedFiles (String.ofList
          (Mode.attributes.directive markedPath ++ "<!--insertEnum,d.cs-->".toList)) =
        .ok (some (.code (.ofClasses ["cs"]) "// a-->,b/--c.cs\n\npublic int Size")) ∧
      (∀ today input,
        run markedFiles today input (extractLine ['.'] {} .attributes markedPath) =
          ⟨0, "// a-->,b/--c.cs\n\npublic int Size\n".toList, []⟩) := by
  have hpath : Text.IsWord markedPath := ⟨by decide, Directive.forall_solid_iff.1 (by decide)⟩
  obtain ⟨hresolve, -, hrun⟩ := extract_eq_directive hpath {} markedFiles .attributes
    "<!--insertEnum,d.cs-->".toList
  have hlisting : Files.listing markedFiles {} (Path.resolve ['.'] markedPath) markedPath
      .attributes = .ok "// a-->,b/--c.cs\n\npublic int Size".toList := by decide +kernel
  refine ⟨hpath, ?_, fun today input => ?_⟩
  · exact hresolve.trans (by rw [hlisting]; rfl)
  · exact (hrun (by decide) (by decide) today input).trans (by rw [hlisting]; rfl)

end Command

end ApiListing
