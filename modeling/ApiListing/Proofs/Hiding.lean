import ApiListing.Proofs.LineByLine

namespace ApiListing

variable {o o' : ScanOptions} {s : LineStart} {t before source : Text} {rs : List Record}
  {m : Member} {r : Record} {boundary : Boundary} {markers more : List Text}

theorem Text.eq_of_byteSize_eq {a b : Text} (ha : a <+: source) (hb : b <+: source)
    (h : byteSize a = byteSize b) : a = b := by
  by_contra hne
  rcases List.prefix_or_prefix_of_prefix ha hb with hab | hba
  · have := byteSize_lt_of_prefix hab hne
    omega
  · have := byteSize_lt_of_prefix hba (Ne.symm hne)
    omega

structure Record.ReadAt (o : ScanOptions) (r : Record) (before t : Text) (m : Member) : Prop where
  begins : Text.BeginsLine before
  read : Member.read? o (Text.lineAbove? before) t = some m
  start : r.start = Text.byteSize before
  stop : r.stop = Text.byteSize before + Text.byteSize m.text

theorem LineStart.Behind.readAt (hs : s.Behind before)
    (h : Member.read? o s.above? t = some m) : (s.record m).ReadAt o before t m where
  begins := hs.begins
  read := hs.above ▸ h
  start := hs.offset
  stop := congrArg (· + _) hs.offset

theorem Run.readAt (h : Run o s t rs) (hs : s.Behind before) :
    ∀ r ∈ rs, ∃ x rest m, t = x ++ rest ∧ r.ReadAt o (before ++ x) rest m := by
  intro r hr
  obtain ⟨x, rest, s', m, rfl, hs', hread, rfl⟩ := h.exists_read hs r hr
  exact ⟨x, rest, m, rfl, hs'.readAt hread⟩

theorem exists_readAt (hr : r ∈ scan o source) :
    ∃ before t m, source = before ++ t ∧ r.ReadAt o before t m :=
  (run_scanFrom o .first source).readAt LineStart.behind_first r hr

/-- Markers decide whether a member is listed, not how far it reaches. -/
theorem Member.eq_of_read? {above? : Option Text} {m' : Member} (hb : o.boundary = o'.boundary)
    (h : Member.read? o above? t = some m) (h' : Member.read? o' above? t = some m') : m = m' := by
  obtain ⟨d, rest, hd, -, -, rfl⟩ := Member.read?_eq_some_iff.1 h
  obtain ⟨d', rest', hd', -, -, rfl⟩ := Member.read?_eq_some_iff.1 h'
  rw [hd] at hd'
  cases hd'
  rw [hb]

theorem stop_eq_of_start_eq {r' : Record} (hr : r ∈ scan o source) (hr' : r' ∈ scan o' source)
    (h : r.start = r'.start) (hb : o.boundary = o'.boundary) : r.stop = r'.stop := by
  obtain ⟨before, t, m, hsource, hm⟩ := exists_readAt hr
  obtain ⟨before', t', m', hsource', hm'⟩ := exists_readAt hr'
  obtain rfl : before = before' :=
    Text.eq_of_byteSize_eq (hsource ▸ List.prefix_append before t)
      (hsource' ▸ List.prefix_append before' t') (by rw [← hm.start, h, hm'.start])
  obtain rfl : t = t' := List.append_cancel_left (hsource.symm.trans hsource')
  rw [hm.stop, hm'.stop, Member.eq_of_read? hb hm.read hm'.read]

theorem covers_of_start_eq {r' : Record} {byte : Nat} (hr : r ∈ scan o source)
    (hr' : r' ∈ scan o' source) (h : r.start = r'.start) (hb : o.boundary = o'.boundary) :
    r.covers byte = r'.covers byte := by
  rw [Record.covers, Record.covers, h, stop_eq_of_start_eq hr hr' h hb]

theorem exists_start_scan_iff (hbefore : before <+: source) (hbegins : Text.BeginsLine before) :
    (∃ r ∈ scan o source, r.start = Text.byteSize before) ↔
      Accepts o source (scan o source) before := by
  have h : (∃ r ∈ scanLines o source, r.start = Text.byteSize before) ↔
      Accepts o source (scanLines o source) before :=
    exists_start_iff ((sorted_inits source).filter _) (by simp)
      (mem_lineStarts_iff.2 ⟨hbefore, hbegins⟩)
  rwa [scanLines_eq] at h

theorem exists_accepts (hr : r ∈ scan o source) :
    ∃ before, before <+: source ∧ Text.BeginsLine before ∧ r.start = Text.byteSize before ∧
      Accepts o source (scan o source) before := by
  obtain ⟨before, t, m, hsource, hm⟩ := exists_readAt hr
  have hbefore : before <+: source := hsource ▸ List.prefix_append before t
  exact ⟨before, hbefore, hm.begins, hm.start,
    (exists_start_scan_iff hbefore hm.begins).1 ⟨r, hr, hm.start⟩⟩

def Record.IsListedIn (r : Record) (rs : List Record) : Prop := ∃ q ∈ rs, q.start = r.start

def Record.IsMarked (o : ScanOptions) (source : Text) (r : Record) : Prop :=
  (Text.lineAbove? (Text.splitBytes r.start source).1).any o.isMarker = true

theorem isMarked_iff (hbefore : before <+: source) (hstart : r.start = Text.byteSize before) :
    r.IsMarked o source ↔ (Text.lineAbove? before).any o.isMarker = true := by
  obtain ⟨t, rfl⟩ := hbefore
  rw [Record.IsMarked, hstart, Text.splitBytes_append]

theorem not_isMarked (hr : r ∈ scan o source) : ¬ r.IsMarked o source := by
  obtain ⟨before, hbefore, -, hstart, haccepts⟩ := exists_accepts hr
  rw [isMarked_iff hbefore hstart, haccepts.shown]
  exact Bool.false_ne_true

theorem isMarker_mono {line : Text} (h : markers ⊆ more)
    (hline : (ScanOptions.mk markers boundary).isMarker line = true) :
    (ScanOptions.mk more boundary).isMarker line = true := by
  rw [ScanOptions.isMarker, List.contains_iff_mem] at hline ⊢
  exact List.map_subset _ h hline

theorem Record.IsMarked.mono (h : markers ⊆ more) (hr : r.IsMarked ⟨markers, boundary⟩ source) :
    r.IsMarked ⟨more, boundary⟩ source := by
  rw [IsMarked] at hr ⊢
  cases habove : Text.lineAbove? (Text.splitBytes r.start source).1 with
  | none => rwa [habove] at hr
  | some line =>
      rw [habove] at hr
      exact isMarker_mono h hr

/-- A record that another scan does not list is marked there, or stands inside a record that only
that scan lists. -/
theorem isMarked_or_covered (hr : r ∈ scan o source) (hlost : ¬ r.IsListedIn (scan o' source))
    (hb : o.boundary = o'.boundary) :
    r.IsMarked o' source ∨
      ∃ q ∈ scan o' source, q.covers r.start = true ∧ ¬ q.IsListedIn (scan o source) := by
  obtain ⟨before, hbefore, hbegins, hstart, haccepts⟩ := exists_accepts hr
  rw [or_iff_not_imp_left, isMarked_iff hbefore hstart, Bool.not_eq_true]
  intro hshown
  have hrejects : ¬ Accepts o' source (scan o' source) before := by
    rwa [← exists_start_scan_iff hbefore hbegins, ← hstart]
  obtain ⟨q, hq, hcovers⟩ : ∃ q ∈ scan o' source, q.covers (Text.byteSize before) = true := by
    by_contra hnone
    push Not at hnone
    exact hrejects ⟨by simpa using hnone, haccepts.declared, hshown⟩
  refine ⟨q, hq, hstart ▸ hcovers, ?_⟩
  rintro ⟨q', hq', hsame⟩
  have huncovered := haccepts.uncovered q' hq'
  rw [covers_of_start_eq hq' hq hsame hb, hcovers] at huncovered
  cases huncovered

/-- What more markers list anew stands inside a record that they take away. -/
theorem exists_covers_of_not_listed (h : markers ⊆ more) (hr : r ∈ scan ⟨more, boundary⟩ source)
    (hnew : ¬ r.IsListedIn (scan ⟨markers, boundary⟩ source)) :
    ∃ q ∈ scan ⟨markers, boundary⟩ source, q.covers r.start = true ∧
      ¬ q.IsListedIn (scan ⟨more, boundary⟩ source) :=
  (isMarked_or_covered hr hnew rfl).resolve_left fun hmarked => not_isMarked hr (hmarked.mono h)

/-- All declarations inside a record are those of types. -/
def Record.DeclaresOnlyTypes (source : Text) (r : Record) : Prop :=
  ∀ before d, before <+: source → Text.BeginsLine before →
    r.covers (Text.byteSize before) = true →
    Declaration.at? source (Text.byteSize before) = some d → d.head.isTypeDefinition = true

/-- More markers list nothing anew, except inside the records that they take away. -/
theorem scan_more_markers (boundary : Boundary) (source : Text) (h : markers ⊆ more) :
    (∀ r ∈ scan ⟨more, boundary⟩ source, r.IsListedIn (scan ⟨markers, boundary⟩ source) ∨
      ∃ q ∈ scan ⟨markers, boundary⟩ source, q.covers r.start = true ∧
        ¬ q.IsListedIn (scan ⟨more, boundary⟩ source)) ∧
    (∀ q ∈ scan ⟨markers, boundary⟩ source, q.IsListedIn (scan ⟨more, boundary⟩ source) ∨
      q.IsMarked ⟨more, boundary⟩ source ∨
      ∃ r ∈ scan ⟨more, boundary⟩ source, r.covers q.start = true ∧
        ¬ r.IsListedIn (scan ⟨markers, boundary⟩ source)) ∧
    ((∀ q ∈ scan ⟨markers, boundary⟩ source, q.IsMarked ⟨more, boundary⟩ source →
        q.DeclaresOnlyTypes source) →
      ∀ r ∈ scan ⟨more, boundary⟩ source, r.IsListedIn (scan ⟨markers, boundary⟩ source)) := by
  refine ⟨fun r hr => ?_, fun q hq => ?_, fun htypes r hr => ?_⟩
  · exact or_iff_not_imp_left.2 (exists_covers_of_not_listed h hr)
  · exact or_iff_not_imp_left.2 fun hlost => isMarked_or_covered hq hlost rfl
  -- The first record listed anew stands inside one that a marker takes away.
  · induction hn : r.start using Nat.strong_induction_on generalizing r with
    | _ n ih =>
        by_contra hnew
        obtain ⟨q, hq, hcovers, hlost⟩ := exists_covers_of_not_listed h hr hnew
        rcases isMarked_or_covered hq hlost rfl with hmarked | ⟨r', hr', hcovers', hnew'⟩
        · obtain ⟨before, hbefore, hbegins, hstart, haccepts⟩ := exists_accepts hr
          obtain ⟨d, hd, htype⟩ := haccepts.declared
          rw [hstart] at hcovers
          rw [htypes q hq hmarked before d hbefore hbegins hcovers hd] at htype
          cases htype
        · simp only [Record.covers, Bool.and_eq_true, decide_eq_true_eq] at hcovers hcovers'
          exact hnew' (ih r'.start (by omega) r' hr' rfl)

def markedProperty : Text :=
  ("[MoonSharpVisible(false)]\npublic int Count\n\x7b\n    get;\n    protected internal set;\n" ++
    "\x7d\n").toList

theorem scan_more_markers_markedProperty :
    [] ⊆ ["[MoonSharpVisible(false)]".toList] ∧
    ∀ r ∈ scan {} markedProperty, r.IsListedIn (scan { hideMarkers := [] } markedProperty) ∨
      ∃ q ∈ scan { hideMarkers := [] } markedProperty, q.covers r.start = true ∧
        ¬ q.IsListedIn (scan {} markedProperty) :=
  ⟨by simp, (scan_more_markers .indentation markedProperty (by simp)).1⟩

/-- A marker brings the accessor of the property to light. -/
theorem scan_marker_lists_accessor :
    [] ⊆ ["[MoonSharpVisible(false)]".toList] ∧
    ∃ r ∈ scan { hideMarkers := ["[MoonSharpVisible(false)]".toList] } markedProperty,
      ∀ q ∈ scan { hideMarkers := [] } markedProperty, q.start ≠ r.start :=
  ⟨by simp, by decide +kernel⟩

end ApiListing
