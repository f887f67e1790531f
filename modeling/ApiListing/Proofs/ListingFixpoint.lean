import ApiListing.Proofs.Places
import ApiListing.Proofs.Relisting

namespace ApiListing

variable {boundary : Boundary} {l : Text} {ls : List Text} {r : Record} {rs : List Record}

namespace Text

theorem join_concat (ls : List Text) (l : Text) :
    join ['\n'] (ls ++ [l]) = ofLines ls ++ l := by
  induction ls with
  | nil => simp [join, ofLines]
  | cons m ls ih =>
      rw [List.cons_append, join_cons_of_ne_nil (by simp), ih, ofLines_cons, List.append_assoc]
      rfl

theorem lines_ofLines (hls : ∀ l ∈ ls, '\n' ∉ l) (t : Text) :
    lines (ofLines ls ++ t) = ls ++ lines t := by
  induction ls with
  | nil => rfl
  | cons l ls ih =>
      rw [ofLines_cons, List.append_assoc, List.cons_append,
        lines_line (hls l (List.mem_cons_self ..)), ih fun m hm => hls m (List.mem_cons_of_mem _ hm),
        List.cons_append]

theorem lines_join (hls : ∀ l ∈ ls, '\n' ∉ l ∧ l ≠ []) : lines (join ['\n'] ls) = ls := by
  rcases List.eq_nil_or_concat ls with rfl | ⟨init, l, rfl⟩
  · rfl
  · rw [List.concat_eq_append] at hls ⊢
    obtain ⟨hl, hne⟩ := hls l (by simp)
    rw [join_concat, lines_ofLines fun m hm => (hls m (List.mem_append_left _ hm)).1,
      lines_of_not_mem hl hne]

end Text

namespace Listing

theorem entry?_methods (r : Record) :
    r.entry? .methods =
      if r.kind = .method then some (r.summaryLines ++ [r.methodLine]) else none := by
  have hkind : Mode.methods.kind = .method := rfl
  rw [Record.entry?, hkind, Record.body?, Option.bind_some]
  cases r.summaryLines <;> rfl

theorem render_methods (path : Text) (rs : List Record) :
    render path rs .methods = header path ++ below (rs.filter (·.kind = .method)) := by
  have hbetween : "\n\n".toList = ['\n', '\n'] := by decide
  rw [render, sections, Text.join_cons, ← header]
  apply congrArg _
  induction rs with
  | nil => rfl
  | cons r rs ih =>
      by_cases hkind : r.kind = .method
      · rw [List.filterMap_cons_some (by rw [entry?_methods, if_pos hkind]),
          List.filter_cons_of_pos (by simpa using hkind), List.map_cons, List.map_cons,
          List.flatten_cons, ih, Text.join_concat, below, Record.methodEntry, hbetween]
        rfl
      · rw [List.filterMap_cons_none (by rw [entry?_methods, if_neg hkind]),
          List.filter_cons_of_neg (by simpa using hkind), ih]

def isKept (l : Text) : Bool := !"// ".toList.isPrefixOf l

/-- A listing without the summaries of its entries: without the comments below its header. -/
def dropSummaries (listing : Text) : Text :=
  match Text.lines listing with
  | [] => []
  | first :: ls => Text.join ['\n'] (first :: ls.filter isKept)

def linesBelow (rs : List Record) : List Text :=
  (rs.map fun r => [] :: (r.summaryLines ++ [r.methodLine])).flatten

theorem lines_below (hl : '\n' ∉ l) (hne : l ≠ []) (h : ∀ r ∈ rs, ∃ line d, r.Shows line d) :
    Text.lines (l ++ below rs) = l :: linesBelow rs := by
  induction rs generalizing l with
  | nil =>
      rw [below, List.append_nil, Text.lines_of_not_mem hl hne]
      rfl
  | cons r rs ih =>
      obtain ⟨line, d, hr⟩ := h r (List.mem_cons_self ..)
      have hlines : ∀ m ∈ [] :: r.summaryLines, '\n' ∉ m := by
        rw [List.forall_mem_cons]
        exact ⟨by simp, fun m hm => (hr.summaryLines m hm).1⟩
      have htext : '\n' :: (r.methodEntry ++ below rs) =
          Text.ofLines ([] :: r.summaryLines) ++ (r.methodLine ++ below rs) := by
        simp [Record.methodEntry, Text.ofLines_cons]
      have hmethodLine : r.methodLine ≠ [] := by simp [Record.methodLine]
      rw [below, Text.lines_line hl, htext, Text.lines_ofLines hlines,
        ih hr.not_mem_methodLine hmethodLine fun q hq => h q (List.mem_cons_of_mem _ hq),
        linesBelow, linesBelow, List.map_cons, List.flatten_cons]
      simp

theorem isKept_methodLine (r : Record) : isKept r.methodLine = true := by
  have hslashes : "// ".toList = ['/', '/', ' '] := by decide
  rw [isKept, hslashes, Record.methodLine, Record.declaration]
  cases r.visibility <;> rfl

theorem filter_entry (r : Record) :
    ([] :: (r.summaryLines ++ [r.methodLine])).filter isKept = [[], r.methodLine] := by
  have hsummary : r.summaryLines.filter isKept = [] := by
    rw [List.filter_eq_nil_iff]
    intro l hl
    obtain ⟨said, -, rfl⟩ := Record.mem_summaryLines.1 hl
    have hcomment : "// ".toList.isPrefixOf ("// ".toList ++ said) = true :=
      List.isPrefixOf_iff_prefix.2 (List.prefix_append ..)
    rw [isKept, hcomment]
    decide
  rw [List.filter_cons_of_pos rfl, List.filter_append, hsummary, List.nil_append,
    List.filter_cons_of_pos (isKept_methodLine r), List.filter_nil]

theorem dropSummaries_listing {path : Text} (hpath : '\n' ∉ path)
    (h : ∀ r ∈ rs, ∃ line d, r.Shows line d) :
    dropSummaries (header path ++ below rs) = header path ++ below (rs.map Record.relisted) := by
  have hne : header path ≠ [] := by simp [header]
  rw [dropSummaries, lines_below (not_mem_header hpath) hne h]
  simp only
  rw [Text.join_cons]
  apply congrArg _
  clear h
  induction rs with
  | nil => rfl
  | cons r rs ih =>
      have hfilter : (linesBelow (r :: rs)).filter isKept =
          [] :: r.methodLine :: (linesBelow rs).filter isKept := by
        rw [linesBelow, List.map_cons, List.flatten_cons, List.filter_append, filter_entry]
        rfl
      rw [hfilter, List.map_cons, List.map_cons, List.flatten_cons, List.flatten_cons, ih]
      rfl

theorem below_unplaced (rs : List Record) : below (rs.map Record.unplaced) = below rs := by
  induction rs with
  | nil => rfl
  | cons r rs ih =>
      rw [List.map_cons, below, below, ih]
      rfl

end Listing

/-- The listing of the methods of a source is a source with the same methods, on which neither a
summary nor a block is found; so the listing of the listing is the listing without its summaries. -/
theorem listing_fixpoint (o : ScanOptions) (boundary : Boundary) (source : Text) {path : Text}
    (hpath : '\n' ∉ path) :
    let listing := Listing.ofSource o path source .methods
    (scan { boundary := boundary } listing).map
        (fun r => (r.visibility, r.isStatic, r.modifiers, r.head)) =
      ((scan o source).filter (·.kind = .method)).map
        (fun r => (r.visibility, r.isStatic, r.modifiers, r.head)) ∧
    (∀ r ∈ scan { boundary := boundary } listing,
      r.kind = .method ∧ r.summary? = none ∧ r.block? = none) ∧
    Listing.ofSource { boundary := boundary } path listing .methods =
      Listing.dropSummaries listing := by
  have hshows : ∀ r ∈ (scan o source).filter (·.kind = .method),
      r.kind = .method ∧ ∃ line d, r.Shows line d := by
    intro r hr
    obtain ⟨hr, hkind⟩ := List.mem_filter.1 hr
    have hrun := run_scanFrom o .first source
    exact ⟨by simpa using hkind, hrun.shows (by simp [LineStart.first]) r hr⟩
  intro listing
  have hlisting : listing = Listing.header path ++
      Listing.below ((scan o source).filter (·.kind = .method)) := Listing.render_methods path _
  have hscan := Listing.scan_listing boundary hpath _ hshows
  rw [← hlisting] at hscan
  have hfound : ∀ r ∈ scan { boundary := boundary } listing,
      r.kind = .method ∧ r.summary? = none ∧ r.block? = none := by
    intro r hr
    have hr' := List.mem_map_of_mem (f := Record.unplaced) hr
    rw [hscan] at hr'
    obtain ⟨q, hq, he⟩ := List.mem_map.1 hr'
    refine ⟨?_, ?_, ?_⟩
    · exact (congrArg Record.kind he).symm.trans (hshows q hq).1
    · exact (congrArg Record.summary? he).symm
    · exact (congrArg Record.block? he).symm
  refine ⟨?_, hfound, ?_⟩
  · have hparts := congrArg (List.map fun r => (r.visibility, r.isStatic, r.modifiers, r.head)) hscan
    rw [List.map_map, List.map_map] at hparts
    exact hparts
  · have hall : (scan { boundary := boundary } listing).filter (·.kind = .method) =
        scan { boundary := boundary } listing :=
      List.filter_eq_self.2 fun r hr => by simpa using (hfound r hr).1
    rw [Listing.ofSource, Listing.render_methods, hall, ← Listing.below_unplaced, hscan, hlisting,
      Listing.dropSummaries_listing hpath fun r hr => (hshows r hr).2]

theorem listing_fixpoint_path : '\n' ∉ "Lua/Api.cs".toList ∧
    Listing.ofSource { boundary := .braceDepth } "Lua/Api.cs".toList
        (Listing.ofSource {} "Lua/Api.cs".toList "public static int Sum(int x) => x + 1;".toList .methods)
        .methods =
      Listing.dropSummaries
        (Listing.ofSource {} "Lua/Api.cs".toList "public static int Sum(int x) => x + 1;".toList
          .methods) :=
  ⟨by decide, (listing_fixpoint {} .braceDepth _ (by decide)).2.2⟩

end ApiListing
