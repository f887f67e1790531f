import ApiListing.Listing
import ApiListing.Proofs.Provenance
import ApiListing.Proofs.Shown
import ApiListing.Proofs.Skipping

namespace ApiListing

variable {boundary : Boundary} {s : LineStart} {r : Record} {rs : List Record} {line : Text}
  {d : Declaration}

namespace Record

theorem mem_summaryLines {l : Text} :
    l ∈ r.summaryLines ↔ ∃ said ∈ r.summary?, "// ".toList ++ said = l := by
  simp [summaryLines]

def methodLine (r : Record) : Text := r.declaration ++ [';']

theorem Shows.methodLine_eq (h : r.Shows line d) :
    r.methodLine = d.visibility.word ++ ([' '] ++
      (Declaration.wordsText d.isStatic d.modifierWords ++ (d.head.shown ++ [';']))) := by
  simp only [methodLine, Record.declaration, h.visibility, h.isStatic, h.modifiers, h.head,
    Declaration.wordsText, Modifier.spaced, List.append_assoc]

theorem Shows.not_mem_methodLine (h : r.Shows line d) :
    '\n' ∉ r.methodLine := by
  obtain ⟨rest, hread⟩ := h.read
  have htext : '\n' ∉ d.text := by
    have hline := h.oneLine
    rw [Declaration.eq_append_of_read? hread, List.mem_append, not_or] at hline
    exact hline.1
  simp only [Declaration.text, List.mem_append, not_or] at htext
  obtain ⟨⟨-, hmodifiers⟩, hhead⟩ := htext
  have hvisibility : '\n' ∉ d.visibility.word := by cases d.visibility <;> decide
  have hshown : '\n' ∉ d.head.shown := fun hmem => hhead ((Head.prefix_shown d.head).subset hmem)
  have hwords : '\n' ∉ Modifier.spaced d.modifierWords := by
    simp only [Modifier.spaced, Declaration.modifierWords, List.mem_flatten, List.mem_map]
    rintro ⟨_, ⟨_, ⟨m, hm, rfl⟩, rfl⟩, hmem⟩
    refine hmodifiers (List.mem_flatten.2 ⟨m.text, List.mem_map_of_mem hm, ?_⟩)
    rw [Modifier.text]
    exact List.mem_append_left _ (by simpa using hmem)
  have hstatic : '\n' ∉ if d.isStatic then "static ".toList else [] := by
    cases d.isStatic <;> decide
  rw [h.methodLine_eq]
  simp only [Declaration.wordsText, List.mem_append, not_or]
  exact ⟨hvisibility, by decide, ⟨hstatic, hwords⟩, hshown, by decide⟩

/-- A record as it is found again in a listing of methods, wherever that is. -/
def relisted (r : Record) : Record :=
  { r with summary? := none, block? := none, start := 0, stop := 0, line := 0 }

def unplaced (r : Record) : Record := { r with start := 0, stop := 0, line := 0 }

end Record

theorem Braces.after?_eq_none {rest below : Text}
    (hrest : rest = [';'] ∨ rest = [])
    (hbelow : below = [] ∨ ∃ t, below = '\n' :: '\n' :: t) :
    Braces.after? boundary [] (rest ++ below) = none := by
  have hline : Text.firstLine (rest ++ below) = rest := by
    rcases hrest with rfl | rfl <;> rcases hbelow with rfl | ⟨t, rfl⟩ <;> rfl
  rw [Braces.after?, hline]
  rcases hrest with rfl | rfl
  · rfl
  · rcases hbelow with rfl | ⟨t, rfl⟩
    · rfl
    · rfl

theorem Record.Shows.read?_methodLine {above? : Option Text} {below : Text} (boundary : Boundary)
    (h : r.Shows line d) (hmethod : r.kind = .method)
    (habove : above?.any ({} : ScanOptions).isMarker = false)
    (hbelow : below = [] ∨ ∃ t, below = '\n' :: '\n' :: t) :
    ∃ m rest, Member.read? { boundary := boundary } above? (r.methodLine ++ below) = some m ∧
      r.methodLine = m.text ++ rest ∧ (rest = [';'] ∨ rest = []) ∧
      ∀ s : LineStart, s.Clear → (s.record m).unplaced = r.relisted := by
  obtain ⟨rest, hread⟩ := h.read
  obtain ⟨head, rest', hlisted, hkind, hmember, hshown, hrest'⟩ :=
    Declaration.read?_listed hread (h.kind.symm.trans hmethod) h.member
  rw [← h.methodLine_eq] at hlisted
  have hsplit := Declaration.eq_append_of_read? hlisted
  have hfirst : Text.firstLine (r.methodLine ++ below) = r.methodLine := by
    rcases hbelow with rfl | ⟨t, rfl⟩
    · rw [List.append_nil, Text.firstLine_of_not_mem h.not_mem_methodLine]
    · exact Text.firstLine_line h.not_mem_methodLine _
  have hdrop : (r.methodLine ++ below).drop (d.listed head).text.length = rest' ++ below := by
    rw [hsplit, List.append_assoc, List.drop_left]
  refine ⟨⟨d.listed head, none⟩, rest', ?_, ?_, hrest', fun s hs => ?_⟩
  · rw [Member.read?_eq_some_iff, hfirst]
    refine ⟨d.listed head, rest', hlisted, habove, hmember, ?_⟩
    rw [hdrop]
    exact congrArg _ (Braces.after?_eq_none hrest' hbelow).symm
  · simpa [Member.text] using hsplit
  · have hhead : (d.listed head).head = head := rfl
    simp only [Record.unplaced, Record.relisted, LineStart.record, hs.summary?,
      Declaration.isStatic_listed, Declaration.modifierWords_listed, hhead, hkind, hshown,
      Option.map_none, h.visibility, h.isStatic, h.modifiers, hmethod, h.head]
    rfl

namespace Record

def methodEntry (r : Record) : Text := Text.ofLines r.summaryLines ++ r.methodLine

end Record

def Listing.below : List Record → Text
  | [] => []
  | r :: rs => '\n' :: '\n' :: (r.methodEntry ++ below rs)

theorem Listing.below_cases (rs : List Record) :
    below rs = [] ∨ ∃ t, below rs = '\n' :: '\n' :: t := by
  cases rs with
  | nil => exact Or.inl rfl
  | cons r rs => exact Or.inr ⟨_, rfl⟩

theorem Record.Shows.summaryLines (h : r.Shows line d) :
    ∀ l ∈ r.summaryLines, '\n' ∉ l ∧ Declaration.read? l = none ∧ Summary.isDocLine l = false ∧
      Text.trim l ≠ "[MoonSharpVisible(false)]".toList := by
  intro l hl
  obtain ⟨said, hsaid, rfl⟩ := Record.mem_summaryLines.1 hl
  have hslashes : "// ".toList = ['/', '/', ' '] := by decide
  rw [hslashes]
  refine ⟨by simpa using h.summary said hsaid, ?_, rfl, fun htrim => ?_⟩
  · exact Declaration.read?_eq_none (by simp [Text.spanBlanks, Text.isBlank])
  · obtain ⟨spaces, hsplit, -⟩ := Text.trim_append (['/', '/', ' '] ++ said)
    have hbracket :
        "[MoonSharpVisible(false)]".toList = '[' :: "MoonSharpVisible(false)]".toList := by
      decide
    rw [htrim, hbracket] at hsplit
    cases hsplit

namespace Listing

theorem clear_summaryLines (h : r.Shows line d) (s : LineStart) :
    (s.skip ([] :: r.summaryLines)).Clear := by
  have hlines := h.summaryLines
  rcases List.eq_nil_or_concat r.summaryLines with hnil | ⟨ls, l, hconcat⟩
  · rw [hnil]
    exact LineStart.clear_skip (by simp) rfl (by decide) s []
  · rw [List.concat_eq_append] at hconcat
    obtain ⟨hl, -, hdoc, hmarker⟩ := hlines l (by simp [hconcat])
    rw [hconcat]
    exact LineStart.clear_skip hl hdoc hmarker s ([] :: ls)

theorem afterLine_append {rest below : Text} (hrest : rest = [';'] ∨ rest = [])
    (hbelow : below = [] ∨ ∃ t, below = '\n' :: '\n' :: t) :
    Text.afterLine (rest ++ below) = Text.afterLine below := by
  rcases hrest with rfl | rfl <;> rcases hbelow with rfl | ⟨t, rfl⟩ <;> rfl

/-- From the blank line above an entry on a scan finds its method, then goes on below. -/
theorem scanFrom_entry (h : r.Shows line d) (hmethod : r.kind = .method) {below : Text}
    (hbelow : below = [] ∨ ∃ t, below = '\n' :: '\n' :: t) (s : LineStart) :
    ∃ q s', q.unplaced = r.relisted ∧
      scanFrom { boundary := boundary } s ('\n' :: (r.methodEntry ++ below)) =
        q :: match Text.afterLine below with
          | none => []
          | some t => scanFrom { boundary := boundary } s' t := by
  have hclear := clear_summaryLines h s
  obtain ⟨m, rest, hread, hsplit, hrest, hrecord⟩ :=
    h.read?_methodLine boundary hmethod hclear.above hbelow
  have hentry : '\n' :: (r.methodEntry ++ below) =
      Text.ofLines ([] :: r.summaryLines) ++ (r.methodLine ++ below) := by
    simp [Record.methodEntry, Text.ofLines_cons]
  have htext : r.methodLine ++ below = m.text ++ (rest ++ below) := by
    rw [hsplit, List.append_assoc]
  have hlines : ∀ l ∈ [] :: r.summaryLines, '\n' ∉ l ∧ Declaration.read? l = none := by
    rw [List.forall_mem_cons]
    exact ⟨⟨by simp, rfl⟩, fun l hl => ⟨(h.summaryLines l hl).1, (h.summaryLines l hl).2.1⟩⟩
  refine ⟨_, (s.skip ([] :: r.summaryLines)).advance (m.text ++ Text.firstLine (rest ++ below))
    [Text.firstLine (rest ++ below)], hrecord _ hclear, ?_⟩
  rw [hentry, scanFrom_lines (fun l hl => (hlines l hl).1) fun l hl => (hlines l hl).2,
    scanFrom_of_some htext hread, afterLine_append hrest hbelow]
  cases Text.afterLine below <;> rfl

theorem scanFrom_entries (r : Record) (rs : List Record) (s : LineStart)
    (h : ∀ q ∈ r :: rs, q.kind = .method ∧ ∃ line d, q.Shows line d) :
    (scanFrom { boundary := boundary } s ('\n' :: (r.methodEntry ++ below rs))).map
      Record.unplaced = (r :: rs).map Record.relisted := by
  induction rs generalizing r s with
  | nil =>
      obtain ⟨hmethod, line, d, hr⟩ := h r (List.mem_cons_self ..)
      obtain ⟨q, s', hq, hscan⟩ := scanFrom_entry hr hmethod (below_cases []) s
      rw [hscan, List.map_cons, hq]
      rfl
  | cons r' rs ih =>
      obtain ⟨hmethod, line, d, hr⟩ := h r (List.mem_cons_self ..)
      obtain ⟨q, s', hq, hscan⟩ := scanFrom_entry hr hmethod (below_cases (r' :: rs)) s
      have hafter :
          Text.afterLine (below (r' :: rs)) = some ('\n' :: (r'.methodEntry ++ below rs)) :=
        Text.afterLine_line (l := []) (by simp) _
      rw [hscan, hafter, List.map_cons, hq]
      exact congrArg _ (ih r' s' fun p hp => h p (List.mem_cons_of_mem _ hp))

def header (path : Text) : Text := "// ".toList ++ label path

theorem not_mem_label {path : Text} (h : '\n' ∉ path) : '\n' ∉ label path := by
  fun_induction label path with
  | case1 t ih => exact ih fun hmem => h (by simp [hmem])
  | case2 t _ => exact h

theorem not_mem_header {path : Text} (h : '\n' ∉ path) : '\n' ∉ header path := by
  have hslashes : "// ".toList = ['/', '/', ' '] := by decide
  simpa [header, hslashes] using not_mem_label h

theorem scan_listing {path : Text} (boundary : Boundary) (hpath : '\n' ∉ path) (rs : List Record)
    (h : ∀ q ∈ rs, q.kind = .method ∧ ∃ line d, q.Shows line d) :
    (scan { boundary := boundary } (header path ++ below rs)).map Record.unplaced =
      rs.map Record.relisted := by
  have hslashes : "// ".toList = ['/', '/', ' '] := by decide
  have hheader := not_mem_header hpath
  have hread : Declaration.read? (header path) = none :=
    Declaration.read?_eq_none (by simp [header, hslashes, Text.spanBlanks, Text.isBlank])
  cases rs with
  | nil =>
      have hnone :
          Member.read? { boundary := boundary } LineStart.first.above? (header path) = none :=
        Member.read?_eq_none (by rw [Text.firstLine_of_not_mem hheader]; exact hread)
      rw [below, List.append_nil, scan, scanFrom_of_none hnone, Text.afterLine_of_not_mem hheader]
      rfl
  | cons r rs =>
      have hlines : header path ++ below (r :: rs) =
          Text.ofLines [header path] ++ '\n' :: (r.methodEntry ++ below rs) := by
        simp [below, Text.ofLines]
      rw [scan, hlines, scanFrom_lines (by simpa using hheader) (by simpa using hread)]
      exact scanFrom_entries r rs _ h

end Listing

end ApiListing
