import ApiListing.Proofs.Closed
import ApiListing.Proofs.PatternSearch

namespace ApiListing

variable {t line source : Text} {least : Nat} {d : Declaration}

/-- A piece of a text, with the name of its role if it has one. -/
structure Tile where
  name? : Option String
  text : Text

namespace Tile

def named (name : String) (text : Text) : Tile := ⟨some name, text⟩

def plain (text : Text) : Tile := ⟨none, text⟩

def textOf (ts : List Tile) : Text := (ts.map Tile.text).flatten

def parts (start : Nat) : List Tile → List Part
  | [] => []
  | t :: ts => (t.name?.map (⟨·, start, t.text⟩)).toList ++ parts (start + Text.byteSize t.text) ts

theorem map_name_parts (start : Nat) (ts : List Tile) :
    (parts start ts).map Part.name = ts.filterMap Tile.name? := by
  induction ts generalizing start with
  | nil => rfl
  | cons t ts ih =>
      cases hname : t.name? <;> simp [parts, hname, ih]

end Tile

open Tile (named plain)

namespace Head

def role : Head → String
  | method .. => "method"
  | enum .. => "enum"
  | property .. => "attribute"

def tiles : Head → List Tile
  | method type gap name trail (.parameters t) =>
    [named "method_type" type, plain gap, named "method_name" name, plain trail,
      named "method_params" t]
  | method type gap name trail (.expression t) =>
    [named "method_type" type, plain gap, named "method_name" name, plain trail,
      plain "=>".toList, named "method_expr" t]
  | enum gap name => [plain "enum".toList, plain gap, named "enum_name" name]
  | property type gap name =>
    [named "attribute_type" type, plain gap, named "attribute_name" name]

theorem textOf_tiles (h : Head) : Tile.textOf h.tiles = h.text := by
  unfold tiles
  split <;> simp [Tile.textOf, named, plain, Head.text, Signature.text]

theorem parts_eq (start : Nat) (h : Head) :
    h.parts start = ⟨h.role, start, h.text⟩ :: Tile.parts start h.tiles := by
  unfold tiles
  split <;>
    simp [parts, role, Tile.parts, named, plain, Signature.parts, Nat.add_assoc, Text.byteSize_cons]
  · decide

end Head

namespace Head

/-- The tiles of an alternative under the name of its role, and what is left of the line behind it:
nothing behind an expression, which reaches to the end of the line. -/
inductive IsAlternative : String → List Tile → Text → Prop
  | parameters (type gap name trail params rest : Text) (hgap : IsGap gap)
      (htrail : ∀ c ∈ trail, Text.isBlank c = true) :
      IsAlternative "method"
        [named "method_type" type, plain gap, named "method_name" name, plain trail,
          named "method_params" params] rest
  | expression (type gap name trail expr : Text) (hgap : IsGap gap)
      (htrail : ∀ c ∈ trail, Text.isBlank c = true) :
      IsAlternative "method"
        [named "method_type" type, plain gap, named "method_name" name, plain trail,
          plain "=>".toList, named "method_expr" expr] []
  | enum (gap name rest : Text) (hgap : IsGap gap) :
      IsAlternative "enum" [plain "enum".toList, plain gap, named "enum_name" name] rest
  | attribute (type gap name rest : Text) (hgap : IsGap gap) :
      IsAlternative "attribute"
        [named "attribute_type" type, plain gap, named "attribute_name" name] rest

theorem isAlternative_of_signature {s : Signature × Text} {type gap name trail : Text}
    (hgap : IsGap gap) (htrail : ∀ c ∈ trail, Text.isBlank c = true)
    (h : Signature.read? t = some s) :
    IsAlternative (method type gap name trail s.1).role (method type gap name trail s.1).tiles
      s.2 := by
  unfold Signature.read? at h
  split at h
  · obtain ⟨r, -, rfl⟩ := Option.map_eq_some_iff.1 h
    exact .parameters _ _ _ _ _ _ hgap htrail
  · cases h
    exact .expression _ _ _ _ _ hgap htrail
  · cases h

theorem isAlternative_of_read? {r : Head × Text} (h : read? t = some r) :
    IsAlternative r.1.role r.1.tiles r.2 := by
  rcases read?_cases h with h | ⟨-, h⟩ | ⟨-, -, h⟩
  · rw [method?_eq] at h
    obtain ⟨type, -, h⟩ := List.exists_of_findSome?_eq_some h
    obtain ⟨gap, hgap, h⟩ := Option.bind_eq_some_iff.1 h
    obtain ⟨name, -, s, hs, rfl⟩ := named?_eq_some h
    exact isAlternative_of_signature (isGap_of_gap? hgap).1
      (fun c hc => List.mem_takeWhile_imp hc) hs
  · rw [enum?_eq] at h
    obtain ⟨u, -, h⟩ := Option.bind_eq_some_iff.1 h
    obtain ⟨gap, hgap, h⟩ := Option.bind_eq_some_iff.1 h
    obtain ⟨name, -, rfl⟩ := Option.map_eq_some_iff.1 h
    exact .enum _ _ _ (isGap_of_gap? hgap).1
  · rw [property?_eq] at h
    obtain ⟨type, -, h⟩ := List.exists_of_findSome?_eq_some h
    obtain ⟨gap, hgap, h⟩ := Option.bind_eq_some_iff.1 h
    obtain ⟨name, -, rfl⟩ := Option.map_eq_some_iff.1 h
    exact .attribute _ _ _ _ (isGap_of_gap? hgap).1

def roles : List String := ["method", "enum", "attribute"]

theorem role_mem_roles {role : String} {ts : List Tile} {rest : Text}
    (h : IsAlternative role ts rest) : role ∈ roles := by
  cases h <;> decide

theorem filter_roles_tiles {role : String} {ts : List Tile} {rest : Text}
    (h : IsAlternative role ts rest) : (ts.filterMap Tile.name?).filter (· ∈ roles) = [] := by
  cases h <;> simp [named, plain, roles]

end Head

namespace Declaration

/-- The tiles that may stand before an alternative. -/
inductive IsLeading : List Tile → Prop
  | mk (indent : Text) (v : Visibility) (gap : Text) (static? : Option Text) (ms : List Modifier)
      (hindent : ∀ c ∈ indent, Text.isBlank c = true) (hgap : IsGap gap)
      (hstatic : ∀ t ∈ static?, ∃ g, IsGap g ∧ t = "static".toList ++ g)
      (hms : ∀ m ∈ ms, m.word ∈ Modifier.knownWords ∧ IsGap m.gap) :
      IsLeading ([named "indent" indent, named "visibility" v.word, plain gap] ++
        (static?.map (named "static")).toList ++
          [named "modifiers" (ms.map Modifier.text).flatten])

def leadingTiles (d : Declaration) : List Tile :=
  [named "indent" d.indent, named "visibility" d.visibility.word, plain d.gap] ++
    ((d.static?.map Modifier.text).map (named "static")).toList ++
      [named "modifiers" d.modifiersText]

theorem textOf_leadingTiles (d : Declaration) :
    Tile.textOf d.leadingTiles ++ d.head.text = d.text := by
  cases hstatic : d.static? <;>
    simp [leadingTiles, Tile.textOf, named, plain, Declaration.text, hstatic]

theorem parts_eq (start : Nat) (d : Declaration) :
    d.parts start = ⟨"0", start, d.text⟩ :: (Tile.parts start d.leadingTiles ++
      d.head.parts (start + Text.byteSize (Tile.textOf d.leadingTiles))) := by
  cases hstatic : d.static? <;>
    simp [parts, leadingTiles, Tile.textOf, Tile.parts, named, plain, hstatic, Nat.add_assoc]

theorem isBlank_indent {rest : Text} (h : read? line = some (d, rest)) :
    ∀ c ∈ d.indent, Text.isBlank c = true := by
  rw [read?_eq] at h
  obtain ⟨v, -, h⟩ := Option.bind_eq_some_iff.1 h
  obtain ⟨g, -, h⟩ := Option.bind_eq_some_iff.1 h
  obtain ⟨r, -, h⟩ := Option.map_eq_some_iff.1 h
  cases h
  exact fun c hc => List.mem_takeWhile_imp hc

theorem isLeading_of_read? {rest : Text} (h : read? line = some (d, rest)) :
    IsLeading d.leadingTiles := by
  have hindent : ∀ c ∈ d.indent, Text.isBlank c = true := isBlank_indent h
  obtain ⟨u, -, hgap, hu⟩ := read?_eq_some h
  have hstatic : ∀ t ∈ d.static?.map Modifier.text, ∃ g, IsGap g ∧ t = "static".toList ++ g := by
    rcases modified?_cases hu with ⟨m, hm, hstatic, -⟩ | ⟨hstatic, -, -⟩
    · obtain ⟨hread, hword⟩ := Option.filter_eq_some_iff.1 hm
      rw [hstatic]
      intro t ht
      cases ht
      exact ⟨m.1.gap, (Modifier.eq_some_of_read? hread).2.1,
        congrArg (· ++ m.1.gap) (of_decide_eq_true hword)⟩
    · simp [hstatic]
  have hms : ∀ m ∈ d.modifiers, m.word ∈ Modifier.knownWords ∧ IsGap m.gap := by
    rcases modified?_cases hu with ⟨m, -, -, hhead⟩ | ⟨-, hhead, -⟩
    · exact (Modifier.head?_split hhead).1
    · exact (Modifier.head?_split hhead).1
  exact .mk d.indent d.visibility d.gap _ d.modifiers hindent (isGap_of_gap? hgap).1 hstatic hms

theorem isAlternative_of_read? {rest : Text} (h : read? line = some (d, rest)) :
    Head.IsAlternative d.head.role d.head.tiles rest := by
  obtain ⟨u, -, -, hu⟩ := read?_eq_some h
  obtain ⟨b, hb⟩ := exists_head?_of_modified? hu
  exact Head.isAlternative_of_read? (Modifier.read?_of_head? hb)

theorem filter_roles_leading {ts : List Tile} (h : IsLeading ts) :
    (ts.filterMap Tile.name?).filter (· ∈ Head.roles) = [] := by
  obtain ⟨indent, v, gap, static?, ms, -⟩ := h
  cases static? <;> simp [named, plain, Head.roles]

/-- The parts of a declaration that begins at a byte of the source, by its tiles. -/
def matched (start : Nat) (leading : List Tile) (role : String) (alternative : List Tile) :
    List Part :=
  let roleStart := start + Text.byteSize (Tile.textOf leading)
  ⟨"0", start, Tile.textOf leading ++ Tile.textOf alternative⟩ ::
    (Tile.parts start leading ++
      ⟨role, roleStart, Tile.textOf alternative⟩ :: Tile.parts roleStart alternative)

theorem parts_eq_matched (start : Nat) (d : Declaration) :
    d.parts start = matched start d.leadingTiles d.head.role d.head.tiles := by
  rw [parts_eq, Head.parts_eq, matched, Head.textOf_tiles, textOf_leadingTiles]

theorem filter_roles_matched {ts us : List Tile} {role : String} {rest : Text}
    (hts : IsLeading ts) (hus : Head.IsAlternative role us rest) (start : Nat) :
    ((matched start ts role us).map Part.name).filter (· ∈ Head.roles) = [role] := by
  have hrole := Head.role_mem_roles hus
  have hzero : "0" ∉ Head.roles := by decide
  simp [matched, Tile.map_name_parts, filter_roles_leading hts, Head.filter_roles_tiles hus, hrole,
    hzero]

theorem search_at_line {before below rest : Text} (hbefore : Text.BeginsLine before)
    (hline : '\n' ∉ line) (hbelow : Text.EndsLine below) (h : read? line = some (d, rest)) :
    search (Text.byteSize before) (before ++ (line ++ below)) =
      some (d.parts (Text.byteSize before)) := by
  have hfind : find? (Text.byteSize before) 0 (before ++ (line ++ below)) =
      find? (Text.byteSize before) (0 + Text.byteSize before) (line ++ below) := by
    refine find?_append hbefore _ fun x hx _ hne => ?_
    have := Text.byteSize_lt_of_prefix hx hne
    omega
  rw [Nat.zero_add] at hfind
  rw [search, hfind, find?_eq, if_pos (Nat.le_refl _), hbelow.firstLine_append hline, h]
  rfl

/-- The parts that a search for the pattern finds are tiles of one line, with all of their places,
and they are what the reader of declarations finds. -/
theorem search_eq_matched {parts : List Part}
    (h : Pattern.declaration.search least source = some parts) :
    search least source = some parts ∧
    ∃ before line below leading role alternative rest,
      source = before ++ (line ++ below) ∧ Text.BeginsLine before ∧
      least ≤ Text.byteSize before ∧ '\n' ∉ line ∧ Text.EndsLine below ∧
      line = Tile.textOf leading ++ Tile.textOf alternative ++ rest ∧ IsLeading leading ∧
      Head.IsAlternative role alternative rest ∧
      parts = matched (Text.byteSize before) leading role alternative ∧
      (parts.map Part.name).filter (· ∈ Head.roles) = [role] ∧
      ∀ before' below', Text.BeginsLine before' → Text.EndsLine below' →
        Pattern.declaration.search (Text.byteSize before') (before' ++ (line ++ below')) =
          some (matched (Text.byteSize before') leading role alternative) := by
  rw [← search_eq_pattern] at h
  obtain ⟨⟨start, d⟩, hfind, hparts⟩ := Option.map_eq_some_iff.1 h
  obtain ⟨before, t, rest, rfl, hbefore, hstart, hleast, hread⟩ := find?_eq_some hfind
  obtain rfl : start = Text.byteSize before := by simpa using hstart
  obtain rfl : d.parts (Text.byteSize before) = parts := hparts
  have hleading := isLeading_of_read? hread
  have hrole := isAlternative_of_read? hread
  have hline := Text.not_mem_firstLine t
  refine ⟨h, before, Text.firstLine t, t.dropWhile (· ≠ '\n'), d.leadingTiles, d.head.role,
    d.head.tiles, rest, ?_, hbefore, hleast, hline, ?_, ?_, hleading, hrole, parts_eq_matched _ d,
    ?_, ?_⟩
  · rw [Text.firstLine_append_dropWhile]
  · exact Text.endsLine_dropWhile t
  · rw [Head.textOf_tiles, textOf_leadingTiles]
    exact eq_append_of_read? hread
  · rw [parts_eq_matched]
    exact filter_roles_matched hleading hrole _
  · intro before' below' hbefore' hbelow'
    rw [← search_eq_pattern, search_at_line hbefore' hline hbelow' hread, parts_eq_matched]

def computedMember : Text :=
  "// public\n\tprivate  static new Größe<A, B> Of =>  x; // y\npublic int Z".toList

theorem search_eq_matched_computedMember :
    ∃ parts, Pattern.declaration.search 3 computedMember = some parts ∧
      parts.map Part.name = ["0", "indent", "visibility", "static", "modifiers", "method",
        "method_type", "method_name", "method_expr"] ∧
      ∃ before line below leading role alternative rest,
        computedMember = before ++ (line ++ below) ∧ Text.BeginsLine before ∧
        line = Tile.textOf leading ++ Tile.textOf alternative ++ rest ∧
        Head.IsAlternative role alternative rest ∧
        parts = matched (Text.byteSize before) leading role alternative := by
  have hnames : (search 3 computedMember).map (·.map Part.name) =
      some ["0", "indent", "visibility", "static", "modifiers", "method", "method_type",
        "method_name", "method_expr"] := by decide +kernel
  obtain ⟨parts, hparts, hnames⟩ := Option.map_eq_some_iff.1 hnames
  rw [search_eq_pattern] at hparts
  obtain ⟨-, before, line, below, leading, role, alternative, rest, hsource, hbefore, -, -, -,
    hline, -, hrole, hmatched, -⟩ := search_eq_matched hparts
  exact ⟨parts, hparts, hnames, before, line, below, leading, role, alternative, rest, hsource,
    hbefore, hline, hrole, hmatched⟩

end Declaration

end ApiListing
