import ApiListing.Filter.Directive
import ApiListing.Proofs.WordLists
import ApiListing.Proofs.Words

namespace ApiListing

variable {t w p q s run : Text}

theorem find?_reverse_range_eq_some_iff {holds : Nat → Bool} {m n : Nat} :
    (List.range n).reverse.find? holds = some m ↔
      m < n ∧ holds m = true ∧ ∀ k < n, holds k = true → k ≤ m := by
  induction n with
  | zero => simp
  | succ n ih =>
      rw [List.range_succ, List.reverse_append, List.reverse_singleton, List.singleton_append]
      by_cases hn : holds n = true
      · rw [List.find?_cons_of_pos hn, Option.some_inj]
        constructor
        · rintro rfl
          exact ⟨Nat.lt_succ_self n, hn, fun k hk _ => Nat.le_of_lt_succ hk⟩
        · rintro ⟨hm, -, hmax⟩
          exact Nat.le_antisymm (hmax n (Nat.lt_succ_self n) hn) (Nat.le_of_lt_succ hm)
      · have hbelow {k : Nat} (hk : k < n + 1) (hholds : holds k = true) : k < n := by
          refine Nat.lt_of_le_of_ne (Nat.le_of_lt_succ hk) fun he => hn ?_
          rwa [← he]
        rw [List.find?_cons_of_neg hn, ih]
        constructor
        · rintro ⟨hm, hholds, hmax⟩
          exact ⟨Nat.lt_succ_of_lt hm, hholds, fun k hk h => hmax k (hbelow hk h) h⟩
        · rintro ⟨hm, hholds, hmax⟩
          exact ⟨hbelow hm hholds, hholds, fun k hk h => hmax k (Nat.lt_succ_of_lt hk) h⟩

namespace Directive

/-- Characters without spaces at the start of a text, with a closing mark behind them, maybe after a
space. -/
structure ClosesBehind (t w : Text) : Prop where
  solid : ∀ c ∈ w, Text.isSpace c = false
  closed : w ++ closing <+: t ∨ w ++ ' ' :: closing <+: t

/-- The last closing mark that such characters lead to stands behind these. -/
structure ClosesLast (t w : Text) : Prop where
  closes : ClosesBehind t w
  length_le : ∀ v, ClosesBehind t v → v.length ≤ w.length

theorem forall_solid_iff :
    (w.all fun c => !Text.isSpace c) = true ↔ ∀ c ∈ w, Text.isSpace c = false := by
  simp

def solidRun (t : Text) : Text := t.takeWhile fun c => !Text.isSpace c

theorem prefix_solidRun (hsolid : ∀ c ∈ w, Text.isSpace c = false) (h : w <+: t) :
    w <+: solidRun t := by
  obtain ⟨rest, rfl⟩ := h
  rw [solidRun, List.takeWhile_append_of_pos (List.all_eq_true.1 (forall_solid_iff.2 hsolid))]
  exact List.prefix_append _ _

theorem solidRun_append_space (hsolid : ∀ c ∈ w, Text.isSpace c = false) (t : Text) :
    solidRun (w ++ ' ' :: t) = w :=
  Text.takeWhile_run (List.all_eq_true.1 (forall_solid_iff.2 hsolid))
    (Text.forall_mem_head?_cons (by decide))

theorem solid_closing : ∀ c ∈ closing, Text.isSpace c = false := forall_solid_iff.1 (by decide)

theorem solid_solidRun : ∀ c ∈ solidRun t, Text.isSpace c = false := by
  intro c hc
  simpa using List.mem_takeWhile_imp hc

theorem closesBehind_iff : ClosesBehind t w ↔ w ++ closing <+: solidRun t ∨
    w = solidRun t ∧ ' ' :: closing <+: t.drop (solidRun t).length := by
  constructor
  · rintro ⟨hsolid, hclosed | ⟨rest, rfl⟩⟩
    · exact .inl (prefix_solidRun (List.forall_mem_append.2 ⟨hsolid, solid_closing⟩) hclosed)
    · rw [List.append_assoc, List.cons_append, solidRun_append_space hsolid, List.drop_left]
      exact .inr ⟨rfl, rest, rfl⟩
  · have hrun : solidRun t <+: t := List.takeWhile_prefix _
    rintro (hwithin | ⟨rfl, rest, hrest⟩)
    · refine ⟨fun c hc => solid_solidRun c (hwithin.subset ?_), .inl (hwithin.trans hrun)⟩
      exact List.mem_append_left _ hc
    · refine ⟨solid_solidRun, .inr ⟨rest, ?_⟩⟩
      rw [List.append_assoc, hrest]
      exact List.prefix_iff_eq_append.1 hrun

theorem ClosesBehind.prefix_solidRun (h : ClosesBehind t w) : w <+: solidRun t := by
  obtain hwithin | ⟨rfl, -⟩ := closesBehind_iff.1 h
  · exact (List.prefix_append w closing).trans hwithin
  · exact List.prefix_rfl

theorem ClosesLast.unique (hw : ClosesLast t w) (hq : ClosesLast t q) : w = q := by
  have hlength := Nat.le_antisymm (hq.length_le w hw.closes) (hw.length_le q hq.closes)
  exact (List.prefix_of_prefix_length_le hw.closes.prefix_solidRun hq.closes.prefix_solidRun
    hlength.le).eq_of_length hlength

theorem isPrefixOf_drop_iff {n : Nat} :
    (n ≠ 0 && closing.isPrefixOf (run.drop n)) = true ↔ n ≠ 0 ∧ run.take n ++ closing <+: run := by
  rw [Bool.and_eq_true, decide_eq_true_iff, List.isPrefixOf_iff_prefix,
    ← List.prefix_append_right_inj (run.take n), List.take_append_drop]

theorem beforeClosing?_eq_some_iff : beforeClosing? run = some p ↔
    p ≠ [] ∧ p ++ closing <+: run ∧ ∀ q, q ++ closing <+: run → q.length ≤ p.length := by
  have hlt {q : Text} (hq : q ++ closing <+: run) : q.length < run.length := by
    have hlength := hq.length_le
    rw [List.length_append] at hlength
    exact Nat.lt_of_lt_of_le (Nat.lt_add_of_pos_right (by decide)) hlength
  have htake {q : Text} (hq : q ++ closing <+: run) : run.take q.length = q :=
    (List.prefix_iff_eq_take.1 ((List.prefix_append q closing).trans hq)).symm
  rw [beforeClosing?, Option.map_eq_some_iff]
  simp only [find?_reverse_range_eq_some_iff, isPrefixOf_drop_iff]
  constructor
  · rintro ⟨n, ⟨hn, ⟨hpos, hplace⟩, hmax⟩, rfl⟩
    have hlength : (run.take n).length = n := List.length_take_of_le (Nat.le_of_lt hn)
    refine ⟨List.ne_nil_of_length_pos ?_, hplace, fun q hq => ?_⟩
    · rw [hlength]
      exact Nat.pos_of_ne_zero hpos
    · rw [hlength]
      by_cases hnil : q.length = 0
      · omega
      · exact hmax q.length (hlt hq) ⟨hnil, by rwa [htake hq]⟩
  · rintro ⟨hne, hplace, hmax⟩
    refine ⟨p.length, ⟨hlt hplace, ⟨?_, by rwa [htake hplace]⟩, fun k hk hplace => ?_⟩, htake hplace⟩
    · exact fun hzero => hne (List.length_eq_zero_iff.1 hzero)
    · have hle := hmax _ hplace.2
      rwa [List.length_take_of_le (Nat.le_of_lt hk)] at hle

/-- The path of a directive stands before the last closing mark that it can reach. -/
theorem path?_eq_some_iff : path? t = some p ↔ p ≠ [] ∧ ClosesLast t p := by
  change (if solidRun t ≠ [] && (' ' :: closing).isPrefixOf (t.drop (solidRun t).length)
    then some (solidRun t) else beforeClosing? (solidRun t)) = some p ↔ _
  split
  · next hspaced =>
      rw [Bool.and_eq_true, decide_eq_true_iff, List.isPrefixOf_iff_prefix] at hspaced
      have hrun : ClosesLast t (solidRun t) :=
        ⟨closesBehind_iff.2 (.inr ⟨rfl, hspaced.2⟩), fun v hv => hv.prefix_solidRun.length_le⟩
      rw [Option.some_inj]
      constructor
      · rintro rfl
        exact ⟨hspaced.1, hrun⟩
      · exact fun hp => hrun.unique hp.2
  · next hspaced =>
      rw [Bool.and_eq_true, decide_eq_true_iff, List.isPrefixOf_iff_prefix] at hspaced
      have hcloses {v : Text} (hne : v ≠ []) :
          ClosesBehind t v ↔ v ++ closing <+: solidRun t := by
        refine closesBehind_iff.trans (or_iff_left fun hv => hspaced ⟨?_, hv.2⟩)
        rwa [← hv.1]
      rw [beforeClosing?_eq_some_iff]
      constructor
      · rintro ⟨hne, hplace, hmax⟩
        refine ⟨hne, (hcloses hne).2 hplace, fun v hv => ?_⟩
        by_cases hnil : v = []
        · simp [hnil]
        · exact hmax v ((hcloses hnil).1 hv)
      · rintro ⟨hne, hp, hmax⟩
        exact ⟨hne, (hcloses hne).1 hp, fun v hv => hmax v (closesBehind_iff.2 (.inl hv))⟩

theorem closesBehind_append_iff (hs : ∀ c ∈ s, Text.isSpace c = false) :
    ClosesBehind (s ++ t) (s ++ w) ↔ ClosesBehind t w := by
  have hplace (u : Text) : s ++ w ++ u <+: s ++ t ↔ w ++ u <+: t := by
    rw [List.append_assoc, List.prefix_append_right_inj]
  constructor
  · rintro ⟨hsolid, hclosed⟩
    refine ⟨fun c hc => hsolid c (List.mem_append_right s hc), ?_⟩
    rwa [hplace, hplace] at hclosed
  · rintro ⟨hsolid, hclosed⟩
    refine ⟨List.forall_mem_append.2 ⟨hs, hsolid⟩, ?_⟩
    rwa [hplace, hplace]

theorem closesBehind_closing : ClosesBehind (closing ++ t) [] where
  solid := by simp
  closed := .inl ⟨t, rfl⟩

/-- Closing marks do not overlap. -/
theorem ClosesBehind.of_closing (h : ClosesBehind (closing ++ t) w) :
    w = [] ∨ ∃ v, w = closing ++ v ∧ ClosesBehind t v := by
  obtain ⟨hsolid, hclosed⟩ := h
  have hmark : closing = ['-', '-', '>'] := rfl
  match w with
  | [] => exact .inl rfl
  | [a] => simp [hmark] at hclosed
  | [a, b] => simp [hmark] at hclosed
  | a :: b :: c :: v =>
      simp only [hmark, List.cons_append, List.nil_append, List.cons_prefix_cons, ← and_or_left]
        at hclosed
      obtain ⟨rfl, rfl, rfl, hclosed⟩ := hclosed
      simp only [List.forall_mem_cons] at hsolid
      exact .inr ⟨v, rfl, hsolid.2.2.2, hclosed⟩

theorem ClosesLast.append (hs : ∀ c ∈ s, Text.isSpace c = false) (h : ClosesLast t w) :
    ClosesLast (s ++ t) (s ++ w) := by
  refine ⟨(closesBehind_append_iff hs).2 h.closes, fun v hv => ?_⟩
  have hprefix : v <+: s ++ t := hv.prefix_solidRun.trans (List.takeWhile_prefix _)
  rw [List.length_append]
  rcases List.prefix_or_prefix_of_prefix hprefix (List.prefix_append s t) with hwithin | ⟨x, rfl⟩
  · exact Nat.le_add_right_of_le hwithin.length_le
  · rw [List.length_append]
    exact Nat.add_le_add_left (h.length_le x ((closesBehind_append_iff hs).1 hv)) _

theorem ClosesLast.closing_append (h : ClosesLast t w) :
    ClosesLast (closing ++ t) (closing ++ w) :=
  h.append solid_closing

theorem closesLast_closing (h : ∀ v, ¬ ClosesBehind t v) : ClosesLast (closing ++ t) [] := by
  refine ⟨closesBehind_closing, fun v hv => ?_⟩
  obtain rfl | ⟨u, -, hu⟩ := hv.of_closing
  · exact Nat.le_refl _
  · exact absurd hu (h u)

theorem closesLast_space (t : Text) : ClosesLast (' ' :: (closing ++ t)) [] where
  closes := ⟨by simp, .inr ⟨t, rfl⟩⟩
  length_le v hv := hv.prefix_solidRun.length_le

structure Spacing where
  afterOpening : Bool
  afterComma : Bool
  beforeClosing : Bool

def space (written : Bool) : Text := if written then [' '] else []

def printed (d : Directive) (spacing : Spacing) : Text :=
  "<!--".toList ++ (space spacing.afterOpening ++ ("insert".toList ++ (d.mode ++ ([','] ++
    (space spacing.afterComma ++ (d.path ++ (space spacing.beforeClosing ++ closing)))))))

structure IsPrintable (d : Directive) : Prop where
  mode_ne_nil : d.mode ≠ []
  isWordChar_mode : ∀ c ∈ d.mode, Text.isWordChar c = true
  isWord_path : Text.IsWord d.path

theorem stripSpace_space {written : Bool} (ht : ∀ c ∈ t.head?, Text.isSpace c = false) :
    stripSpace (space written ++ t) = t := by
  cases written with
  | true => rfl
  | false =>
      cases t with
      | nil => rfl
      | cons c t =>
          have hc : c ≠ ' ' := by
            rintro rfl
            exact absurd (ht ' ' rfl) (by decide)
          exact stripSpace.eq_2 _ fun u hu => hc (List.cons.inj hu).1

theorem ofText?_printed_append {d : Directive} (hd : d.IsPrintable) (spacing : Spacing) (t : Text) :
    ofText? (d.printed spacing ++ t) =
      (path? (d.path ++ (space spacing.beforeClosing ++ (closing ++ t)))).map (⟨d.mode, ·⟩) := by
  have hpath : ∀ c ∈ (d.path ++ (space spacing.beforeClosing ++ (closing ++ t))).head?,
      Text.isSpace c = false := by
    intro c hc
    rw [List.head?_append_of_ne_nil _ hd.isWord_path.ne_nil] at hc
    exact hd.isWord_path.solid c (List.mem_of_head? hc)
  have hinsert (u : Text) : ∀ c ∈ ("insert".toList ++ u).head?, Text.isSpace c = false :=
    Text.forall_mem_head?_cons (by decide)
  have hcomma (u : Text) : ∀ c ∈ ([','] ++ u).head?, Text.isWordChar c = false := by
    rw [List.singleton_append]
    exact Text.forall_mem_head?_cons (by decide)
  simp only [printed, List.append_assoc]
  rw [ofText?, Text.stripPrefix?_append_self]
  simp only [Option.bind_eq_bind, Option.bind_some, stripSpace_space (hinsert _),
    Text.stripPrefix?_append_self, Text.takeWhile_run hd.isWordChar_mode (hcomma _),
    Text.dropWhile_run hd.isWordChar_mode (hcomma _), if_neg hd.mode_ne_nil,
    stripSpace_space hpath, Option.map_eq_bind]
  rfl

theorem path?_append {rest x : Text} (hs : Text.IsWord s) (h : ClosesLast rest x) :
    path? (s ++ rest) = some (s ++ x) :=
  path?_eq_some_iff.2 ⟨fun hnil => hs.ne_nil (List.append_eq_nil_iff.1 hnil).1, h.append hs.solid⟩

/-- A printed directive is read back as it is, whatever follows it, unless no space stands before
its closing mark and what follows leads to another one. The path then ends at the last of these. -/
theorem ofText?_printed {d : Directive} (hd : d.IsPrintable) (spacing : Spacing) (suffix : Text) :
    (ofText? (d.printed spacing ++ suffix) = some d ↔
      spacing.beforeClosing = true ∨ ∀ w, ¬ ClosesBehind suffix w) ∧
    ∀ w, spacing.beforeClosing = false → ClosesLast suffix w →
      ofText? (d.printed spacing ++ suffix) = some ⟨d.mode, d.path ++ (closing ++ w)⟩ := by
  have hread {x : Text}
      (h : ClosesLast (space spacing.beforeClosing ++ (closing ++ suffix)) x) :
      ofText? (d.printed spacing ++ suffix) = some ⟨d.mode, d.path ++ x⟩ := by
    rw [ofText?_printed_append hd, path?_append hd.isWord_path h]
    rfl
  cases hspace : spacing.beforeClosing with
  | true =>
      rw [hspace] at hread
      have hself := hread (closesLast_space suffix)
      rw [List.append_nil] at hself
      exact ⟨iff_of_true hself (.inl rfl), nofun⟩
  | false =>
      rw [hspace] at hread
      refine ⟨⟨fun hself => .inr fun w hw => ?_, fun hnone => ?_⟩, fun w _ hw => ?_⟩
      · rw [ofText?_printed_append hd, Option.map_eq_some_iff, hspace] at hself
        obtain ⟨p, hpath, hd'⟩ := hself
        obtain rfl : p = d.path := congrArg Directive.path hd'
        have hbeyond : ClosesBehind (d.path ++ (closing ++ suffix)) (d.path ++ (closing ++ w)) :=
          (closesBehind_append_iff hd.isWord_path.solid).2
            ((closesBehind_append_iff solid_closing).2 hw)
        have hle := (path?_eq_some_iff.1 hpath).2.length_le _ hbeyond
        have hmark : closing.length = 3 := rfl
        simp only [List.length_append] at hle
        omega
      · have hself := hread (closesLast_closing (hnone.resolve_left (by decide)))
        rwa [List.append_nil] at hself
      · exact hread hw.closing_append

theorem isPrintable_enum : IsPrintable ⟨"Enum".toList, "a.cs".toList⟩ where
  mode_ne_nil := by decide
  isWordChar_mode := List.all_eq_true.1 (by decide)
  isWord_path := ⟨by decide, forall_solid_iff.1 (by decide)⟩

theorem ofText?_printed_pair :
    IsPrintable ⟨"Enum".toList, "a.cs".toList⟩ ∧
      ofText? (printed ⟨"Enum".toList, "a.cs".toList⟩ ⟨true, true, true⟩ ++
        printed ⟨"Enum".toList, "b.cs".toList⟩ ⟨false, false, false⟩) =
          some ⟨"Enum".toList, "a.cs".toList⟩ ∧
      ofText? (printed ⟨"Enum".toList, "a.cs".toList⟩ ⟨true, true, false⟩ ++
        printed ⟨"Enum".toList, "b.cs".toList⟩ ⟨false, false, false⟩) =
          some ⟨"Enum".toList, "a.cs--><!--insertEnum,b.cs".toList⟩ := by
  have hlast : ClosesLast (printed ⟨"Enum".toList, "b.cs".toList⟩ ⟨false, false, false⟩)
      "<!--insertEnum,b.cs".toList := by
    refine ⟨⟨forall_solid_iff.1 (by decide), .inl ⟨[], rfl⟩⟩, ?_⟩
    rintro v ⟨-, hv | hv⟩
    all_goals
      have hle : (v ++ _).length ≤ 22 := hv.length_le
      have hmark : closing.length = 3 := rfl
      have hrun : "<!--insertEnum,b.cs".toList.length = 19 := rfl
      simp only [List.length_append, List.length_cons, hmark] at hle
      omega
  exact ⟨isPrintable_enum, (ofText?_printed isPrintable_enum ⟨true, true, true⟩ _).1.2 (.inl rfl),
    (ofText?_printed isPrintable_enum ⟨true, true, false⟩ _).2 _ rfl hlast⟩

theorem ofText?_printed_adjoining :
    IsPrintable ⟨"Enum".toList, "a.cs".toList⟩ ∧ ¬ closing <:+: "a.cs".toList ∧
      printed ⟨"Enum".toList, "a.cs".toList⟩ ⟨true, true, false⟩ ++ "<!--insertEnum,b.cs-->".toList =
        "<!-- insertEnum, a.cs--><!--insertEnum,b.cs-->".toList ∧
      ofText? "<!-- insertEnum, a.cs--><!--insertEnum,b.cs-->".toList =
        some ⟨"Enum".toList, "a.cs--><!--insertEnum,b.cs".toList⟩ ∧
      "a.cs--><!--insertEnum,b.cs".toList ≠ "a.cs".toList :=
  ⟨isPrintable_enum, by decide, rfl, rfl, by decide⟩

end Directive

end ApiListing
