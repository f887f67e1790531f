import ApiListing.Proofs.HeadPattern
import ApiListing.Proofs.Places
import ApiListing.Proofs.Words

namespace ApiListing

variable {β : Type} {before t : Text} {k : Hit → Option β} {next : Option Char → Bool} {least : Nat}

namespace Hit

def ofModifiers (start : Nat) (r : List Modifier × Head × Text) : Hit :=
  let before := (r.1.map Modifier.text).flatten
  ⟨before ++ r.2.1.text, r.2.2,
    ⟨"modifiers", start, before⟩ :: r.2.1.parts (start + Text.byteSize before)⟩

def ofModified (start : Nat) (r : Option Modifier × List Modifier × Head × Text) : Hit :=
  let static := (r.1.map Modifier.text).getD []
  let h := ofModifiers (start + Text.byteSize static) r.2
  ⟨static ++ h.text, h.rest, (r.1.map fun m => ⟨"static", start, m.text⟩).toList ++ h.parts⟩

def ofDeclaration (start : Nat) (d : Declaration × Text) : Hit := ⟨d.1.text, d.2, d.1.parts start⟩

end Hit

namespace Pattern

def atName (c : Option Char) : Bool := c.any Text.isNameStart

theorem atName_of_starts_head {c : Option Char} (h : head.starts next c = true) :
    atName c = true := by
  cases c with
  | none => cases h
  | some c =>
      have hcases : Text.isNameStart c = true ∨ c = 'e' ∨ Text.isNameStart c = true := by
        simpa [head, method, property, typeName, starts, show ∀ next, enum.starts next (some c) =
          decide (c = 'e') from fun _ => rfl] using h
      rcases hcases with h | rfl | h
      · exact h
      · decide
      · exact h

theorem bind_gap? {v : Text} (hv : ∀ c ∈ v, Text.isBlank c = false) (f : Reading → Option β) :
    ((Text.stripPrefix? v t).bind fun u => (gap? u).bind f) =
      (Modifier.read? t).bind fun m => if m.1.word = v then f (m.1.gap, m.2) else none := by
  have hleft {u : Text} {g : Reading} (hu : Text.stripPrefix? v t = some u)
      (hg : gap? u = some g) : Modifier.read? t = some (⟨v, g.1⟩, g.2) := by
    rw [Text.eq_append_of_stripPrefix? hu, eq_append_of_gap? hg]
    exact Modifier.read?_append hv (isGap_of_gap? hg).1 (isGap_of_gap? hg).2
  cases hm : Modifier.read? t with
  | none =>
      rw [Option.bind_none, Option.bind_eq_none_iff]
      intro u hu
      rw [Option.bind_eq_none_iff]
      intro g hg
      cases hm.symm.trans (hleft hu hg)
  | some m =>
      rw [Option.bind_some]
      split
      · next hword =>
          obtain ⟨-, hgap, hrest⟩ := Modifier.eq_some_of_read? hm
          rw [Modifier.eq_append_of_read? hm, Modifier.text, hword, List.append_assoc,
            Text.stripPrefix?_append_self, Option.bind_some, gap?_append hgap hrest]
          rfl
      · next hword =>
          rw [Option.bind_eq_none_iff]
          intro u hu
          rw [Option.bind_eq_none_iff]
          intro g hg
          cases hm.symm.trans (hleft hu hg)
          exact absurd rfl hword

theorem findSome?_eq_word (ws : List Text) (w : Text) (f : Text → Option β) :
    (ws.findSome? fun v => if w = v then f v else none) = if ws.contains w then f w else none := by
  induction ws with
  | nil => rfl
  | cons v ws ih =>
      rw [List.findSome?_cons, ih, List.contains_cons]
      by_cases hv : w = v
      · subst hv
        rw [if_pos rfl, beq_self_eq_true, Bool.true_or, if_pos rfl]
        split
        · next b hb => exact hb.symm
        · next hb => split <;> simp [hb]
      · rw [if_neg hv, beq_false_of_ne hv, Bool.false_or]

theorem isBlank_of_atName (c : Char) (hc : atName (some c) = true) : Text.isBlank c = false :=
  Text.isBlank_of_isWordChar (Text.isWordChar_of_isNameStart hc)

theorem first_oneOf_gap {w : Text} {ws : List Text}
    (hws : ∀ v ∈ w :: ws, ∀ c ∈ v, Text.isBlank c = false) (hk : Needs atName k)
    (before t : Text) :
    (seq (oneOf w ws) gap).first before t k =
      ((Modifier.read? t).filter fun m => (w :: ws).contains m.1.word).bind fun m =>
        k (.ofReading (m.1.text, m.2)) := by
  have hword (v : Text) (hv : v ∈ w :: ws) : ((Text.stripPrefix? v t).bind fun u =>
      gap.first (before ++ v) u (k ∘ (Hit.ofReading (v, u)).after)) =
      (Modifier.read? t).bind fun m => if m.1.word = v then k (.ofReading (v ++ m.1.gap, m.2))
        else none := by
    rw [← bind_gap? (hws v hv) fun g => k (.ofReading (v ++ g.1, g.2))]
    refine Option.bind_congr fun u _ => ?_
    rw [first_gap (hk.after _) isBlank_of_atName]
    rfl
  rw [first_seq, first_oneOf]
  refine (findSome?_congr_of_mem hword).trans ?_
  cases Modifier.read? t with
  | none => simp
  | some m =>
      simp only [Option.bind_some, findSome?_eq_word, Option.filter_some]
      split <;> rfl

theorem first_modifier (hk : Needs atName k) (before t : Text) :
    modifier.first before t k =
      (Modifier.known? t).bind fun m => k (.ofReading (m.1.text, m.2)) :=
  first_oneOf_gap (fun _ hv => Modifier.isBlank_of_knownWords hv) hk before t

theorem first_static (hk : Needs atName k) (before t : Text) :
    static.first before t k = ((Modifier.static? t).bind fun m =>
      k ((Hit.ofReading (m.1.text, m.2)).named "static" (Text.byteSize before))).or
        (k (.ofReading ([], t))) := by
  have hblank : ∀ v ∈ ["static".toList], ∀ c ∈ v, Text.isBlank c = false := by
    intro v hv
    rw [List.mem_singleton.1 hv]
    exact isBlank_of_mem_wordChars Modifier.isWordChar_static
  rw [static, first_optional, first_group]
  refine congrArg (Option.or · _) ((first_oneOf_gap hblank (hk.named _ _) before t).trans ?_)
  rw [Modifier.static?]
  simp

theorem starts_word {w : Text} (hw : w ≠ []) (next : Option Char → Bool) (c : Option Char) :
    (word w).starts next c = decide (c = w.head?) := by
  cases w with
  | nil => exact absurd rfl hw
  | cons d w => cases c <;> simp [word, starts]

theorem exists_of_starts_oneOf {w : Text} {ws : List Text} {c : Option Char}
    (hws : ∀ v ∈ w :: ws, v ≠ []) (h : (oneOf w ws).starts next c = true) :
    ∃ v ∈ w :: ws, c = v.head? := by
  induction ws generalizing w with
  | nil =>
      rw [oneOf, starts_word (hws w (by simp)), decide_eq_true_eq] at h
      exact ⟨w, by simp, h⟩
  | cons v ws ih =>
      rw [oneOf, starts, Bool.or_eq_true, starts_word (hws w (by simp)), decide_eq_true_eq] at h
      rcases h with h | h
      · exact ⟨w, by simp, h⟩
      · obtain ⟨u, hu, hc⟩ := ih (fun u hu => hws u (List.mem_cons_of_mem _ hu)) h
        exact ⟨u, List.mem_cons_of_mem _ hu, hc⟩

theorem atName_of_starts_modifiers (next : Option Char → Bool) {c : Option Char}
    (h : (many true modifier).starts next c = true) (hnext : next c = true → atName c = true) :
    atName c = true := by
  rw [starts, Bool.or_eq_true] at h
  rcases h with h | h
  · obtain ⟨v, hv, rfl⟩ := exists_of_starts_oneOf Modifier.ne_nil_of_knownWords h
    have hall : (Modifier.knownWords.all fun v => atName v.head?) = true := by decide
    exact List.all_eq_true.1 hall v hv
  · exact hnext h

theorem runs_of_known? {m : Modifier × Text} (h : Modifier.known? t = some m) :
    Modifier.runs t = ((Modifier.runs m.2).map fun r => (m.1 :: r.1, r.2)) ++ [([], t)] := by
  rw [Modifier.runs]
  split
  · next hn => cases hn.symm.trans h
  · next m' rest hm' => cases hm'.symm.trans h; rfl

theorem runs_of_known?_eq_none (h : Modifier.known? t = none) : Modifier.runs t = [([], t)] := by
  rw [Modifier.runs]
  split
  · rfl
  · next m rest hm => cases hm.symm.trans h

theorem eq_append_of_mem_runs {r : List Modifier × Text} (hr : r ∈ Modifier.runs t) :
    t = (r.1.map Modifier.text).flatten ++ r.2 := by
  induction hn : t.length using Nat.strong_induction_on generalizing t r with
  | _ n ih =>
      cases hm : Modifier.known? t with
      | none =>
          rw [runs_of_known?_eq_none hm, List.mem_singleton] at hr
          rw [hr]
          rfl
      | some m =>
          rw [runs_of_known? hm, List.mem_append, List.mem_map, List.mem_singleton] at hr
          rcases hr with ⟨r, hr, rfl⟩ | rfl
          · rw [Modifier.eq_append_of_known? hm,
              ih m.2.length (hn ▸ Modifier.length_lt_of_known? hm) hr rfl]
            simp
          · rfl

theorem first_modifiers (hk : Needs atName k) (before t : Text) :
    (many true modifier).first before t k = (Modifier.runs t).findSome? fun r =>
      k (.ofReading ((r.1.map Modifier.text).flatten, r.2)) := by
  induction hn : t.length using Nat.strong_induction_on generalizing before t k with
  | _ n ih =>
      have hfurther : Needs atName fun x => if x.text = [] then none
          else (many true modifier).first (before ++ x.text) x.rest (k ∘ x.after) := by
        intro x hx
        by_cases hne : x.text = []
        · exact absurd (if_pos hne) hx
        · have hfirst : (many true modifier).first (before ++ x.text) x.rest (k ∘ x.after) ≠ none :=
            fun h => hx ((if_neg hne).trans h)
          exact atName_of_starts_modifiers atName ((hk.after x).first hfirst) id
      rw [first_many, if_pos rfl, first_modifier hfurther]
      cases hm : Modifier.known? t with
      | none => rw [runs_of_known?_eq_none hm]; simp
      | some m =>
          have hne : (Hit.ofReading (m.1.text, m.2)).text ≠ [] := by
            intro (h : m.1.text = [])
            have hlt := Modifier.length_lt_of_known? hm
            rw [Modifier.eq_append_of_known? hm, h] at hlt
            exact Nat.lt_irrefl _ hlt
          rw [Option.bind_some, if_neg hne, runs_of_known? hm, List.findSome?_append,
            List.findSome?_map, List.findSome?_singleton]
          refine congrArg (Option.or · _) ?_
          exact ih m.2.length (hn ▸ Modifier.length_lt_of_known? hm) (hk.after _) _ _ rfl

theorem first_modifiedHead (hk : Accepts k) (before : Text) (ht : '\n' ∉ t) :
    modifiedHead.first before t k = (Modifier.head? t).bind fun r =>
      k (.ofModifiers (Text.byteSize before) r) := by
  have hhead : Needs atName fun x => head.first (before ++ x.text) x.rest (k ∘ x.after) :=
    ((needs_any k).seq head before).mono fun _ => atName_of_starts_head
  rw [modifiedHead, first_seq, first_group, first_modifiers (hhead.named _ _), Modifier.head?,
    bind_findSome? fun h => hk _]
  refine findSome?_congr_of_mem fun r hr => ?_
  have hrest : '\n' ∉ r.2 := fun h => ht (eq_append_of_mem_runs hr ▸ List.mem_append_right _ h)
  rw [Function.comp_apply]
  refine (first_head (hk.after _) _ hrest).trans ?_
  rw [Option.bind_map]
  refine Option.bind_congr fun h _ => congrArg k ?_
  simp [Hit.named, Hit.after, Hit.ofReading, Hit.ofHead, Hit.ofModifiers]

theorem atName_of_starts_modifiedHead {c : Option Char}
    (h : modifiedHead.starts next c = true) : atName c = true :=
  atName_of_starts_modifiers (head.starts next) h atName_of_starts_head

theorem first_modified (hk : Accepts k) (before : Text) (ht : '\n' ∉ t) :
    (seq static modifiedHead).first before t k = (Declaration.modified? t).bind fun r =>
      k (.ofModified (Text.byteSize before) r) := by
  have hhead : Needs atName fun x => modifiedHead.first (before ++ x.text) x.rest (k ∘ x.after) :=
    ((needs_any k).seq modifiedHead before).mono fun _ => atName_of_starts_modifiedHead
  rw [first_seq, first_static hhead, Declaration.modified?, bind_findSome? fun h => hk _,
    Declaration.starts]
  have hnone : modifiedHead.first (before ++ []) t (k ∘ (Hit.ofReading ([], t)).after) =
      ((Modifier.head? t).map fun r => (none, r)).bind fun r =>
        k (.ofModified (Text.byteSize before) r) := by
    rw [first_modifiedHead (hk.after _) _ ht, Option.bind_map, List.append_nil]
    rfl
  cases hm : Modifier.static? t with
  | none =>
      rw [List.findSome?_singleton, ← hnone]
      rfl
  | some m =>
      have hrest : '\n' ∉ m.2 := fun h => ht (Modifier.eq_append_of_static? hm ▸
        List.mem_append_right _ h)
      have hsome : modifiedHead.first (before ++ m.1.text) m.2
          (k ∘ ((Hit.ofReading (m.1.text, m.2)).named "static" (Text.byteSize before)).after) =
          ((Modifier.head? m.2).map fun r => (some m.1, r)).bind fun r =>
            k (.ofModified (Text.byteSize before) r) := by
        rw [first_modifiedHead (hk.after _) _ hrest, Option.bind_map]
        refine Option.bind_congr fun r _ => congrArg k ?_
        simp [Hit.named, Hit.after, Hit.ofReading, Hit.ofModifiers, Hit.ofModified]
      rw [List.findSome?_cons, List.findSome?_singleton, ← hnone, ← hsome, Option.bind_some]
      cases hfirst : modifiedHead.first (before ++ m.1.text) m.2
        (k ∘ ((Hit.ofReading (m.1.text, m.2)).named "static" (Text.byteSize before)).after) <;>
        exact (congrArg (Option.or · _) hfirst).trans rfl

theorem stripPrefix?_word (v w : Visibility) (u : Text) :
    Text.stripPrefix? w.word (v.word ++ u) = if w = v then some u else none := by
  cases v <;> cases w <;> simp [Visibility.word_eq, Text.stripPrefix?]

theorem findSome?_visibility (f : Text → Text → Option β) :
    (Visibility.all.findSome? fun v => (Text.stripPrefix? v.word t).bind (f v.word)) =
      (Visibility.read? t).bind fun v => f v.1.word v.2 := by
  cases h : Visibility.read? t with
  | none =>
      rw [Visibility.read?, List.findSome?_eq_none_iff] at h
      rw [Option.bind_none, List.findSome?_eq_none_iff]
      intro v hv
      rw [Option.map_eq_none_iff.1 (h v hv), Option.bind_none]
  | some r =>
      obtain ⟨v, u⟩ := r
      have hword (w : Visibility) : (Text.stripPrefix? w.word t).bind (f w.word) =
          if w = v then f v.word u else none := by
        rw [Visibility.eq_append_of_read? h, stripPrefix?_word]
        split
        · next hw => rw [hw, Option.bind_some]
        · rfl
      simp only [hword, Option.bind_some]
      cases hf : f v.word u <;> cases v <;> simp [Visibility.all]

theorem words_visibility :
    ["public".toList, "private".toList, "protected".toList] = Visibility.all.map Visibility.word :=
  rfl

theorem first_visibility (before t : Text) (k : Hit → Option β) :
    visibility.first before t k = (Visibility.read? t).bind fun v =>
      k ((Hit.ofReading (v.1.word, v.2)).named "visibility" (Text.byteSize before)) := by
  rw [visibility, first_group, first_oneOf, words_visibility, List.findSome?_map]
  exact findSome?_visibility fun v u =>
    k ((Hit.ofReading (v, u)).named "visibility" (Text.byteSize before))

theorem atName_of_starts_static {c : Option Char}
    (h : (seq static modifiedHead).starts next c = true) : atName c = true := by
  have hcases : c = some 's' ∨ modifiedHead.starts next c = true := by
    cases c <;> simpa [static, optional, starts, word] using h
  rcases hcases with rfl | h
  · decide
  · exact atName_of_starts_modifiedHead h

theorem isBlank_of_starts_visibility {b : Pattern} {c : Char}
    (h : (seq visibility b).starts next (some c) = true) : Text.isBlank c = false := by
  have hne : ∀ v ∈ ["public".toList, "private".toList, "protected".toList], v ≠ [] := by decide
  obtain ⟨v, hv, hc⟩ := exists_of_starts_oneOf hne h
  have hall : (["public".toList, "private".toList, "protected".toList].all fun v =>
      v.head?.all fun c => !Text.isBlank c) = true := by decide
  have := List.all_eq_true.1 hall v hv
  rw [← hc] at this
  simpa using this

theorem first_declaration (hk : Accepts k) (before : Text) (ht : '\n' ∉ t) :
    (group "0" declaration).first before t k =
      if Text.BeginsLine before then
        (Declaration.read? t).bind fun d => k (.ofDeclaration (Text.byteSize before) d)
      else none := by
  rw [first_group, declaration, first_seq, first_lineStart]
  split
  · rw [first_seq, first_group, blanks, first_run (((needs_any _).seq _ _).named _ _) fun c =>
      isBlank_of_starts_visibility, Declaration.read?_eq, Option.bind_assoc]
    simp only [Function.comp_apply]
    rw [first_seq, first_visibility]
    refine Option.bind_congr fun v hv => ?_
    rw [first_gap_seq (fun c => atName_of_starts_static (c := some c)), Option.bind_assoc]
    refine Option.bind_congr fun g hg => ?_
    have hrest : '\n' ∉ g.2 := fun h => ht (by
      have hv' : (Text.spanBlanks t).2 = v.1.word ++ v.2 := Visibility.eq_append_of_read? hv
      have hg' : v.2 = g.1 ++ g.2 := eq_append_of_gap? hg
      rw [eq_append_of_spanBlanks t, hv', hg']
      simp [h])
    rw [first_modified (((((hk.named _ _).after _).after _).after _).after _) _ hrest,
      Option.bind_map]
    refine Option.bind_congr fun r _ => congrArg k ?_
    cases r.1 <;> simp [Hit.named, Hit.after, Hit.ofReading, Hit.ofModifiers, Hit.ofModified,
      Hit.ofDeclaration, Declaration.parts, Declaration.text, Declaration.modifiersText,
      Text.spanBlanks, Nat.add_assoc]
  · rfl

theorem staysOnLine_declaration : (group "0" declaration).staysOnLine = true := by decide

theorem at?_declaration (before t : Text) :
    declaration.at? before t =
      if Text.BeginsLine before then
        (Declaration.read? (Text.firstLine t)).map fun d => d.1.parts (Text.byteSize before)
      else none := by
  have hline := Text.not_mem_firstLine t
  have hhits := hits_followedBy staysOnLine_declaration before hline (Text.endsLine_dropWhile t)
  rw [Text.firstLine_append_dropWhile] at hhits
  rw [at?, hhits, List.head?_map, Option.map_map, head?_hits,
    first_declaration (fun _ => Option.some_ne_none _) before hline]
  split
  · rw [Option.map_bind]
    cases Declaration.read? (Text.firstLine t) <;> rfl
  · rfl

theorem afterLine_cons {c : Char} (hc : c ≠ '\n') (t : Text) :
    Text.afterLine (c :: t) = Text.afterLine t :=
  Text.afterLine_append (l := [c]) (by simpa using hc.symm) t

/-- A search looks at its place and then below the line, since nothing begins inside a line. -/
theorem searchFrom_declaration (least : Nat) (before t : Text) :
    declaration.searchFrom least before t =
      (if least ≤ Text.byteSize before then declaration.at? before t else none).or
        ((Text.afterLine t).bind
          (declaration.searchFrom least (before ++ Text.firstLine t ++ ['\n']))) := by
  induction t generalizing before with
  | nil => simp [searchFrom, Text.afterLine]
  | cons c t ih =>
      rw [searchFrom]
      refine congrArg _ ?_
      by_cases hc : c = '\n'
      · subst hc
        simp [Text.firstLine, Text.afterLine]
      · have hinside : ¬ Text.BeginsLine (before ++ [c]) := by simp [Text.BeginsLine, hc]
        have hfirst : Text.firstLine (c :: t) = c :: Text.firstLine t :=
          Text.firstLine_append (l := [c]) (by simpa using Ne.symm hc) t
        rw [ih, at?_declaration, if_neg hinside, ite_self, Option.none_or, hfirst,
          afterLine_cons hc, List.append_assoc before, List.singleton_append]

theorem searchFrom_eq (hbefore : Text.BeginsLine before) (t : Text) :
    declaration.searchFrom least before t =
      (Declaration.find? least (Text.byteSize before) t).map fun found =>
        found.2.parts found.1 := by
  induction hn : t.length using Nat.strong_induction_on generalizing before t with
  | _ n ih =>
      have hbelow : (Text.afterLine t).bind
          (declaration.searchFrom least (before ++ Text.firstLine t ++ ['\n'])) =
          ((Text.afterLine t).bind fun rest => Declaration.find? least
            (Text.byteSize before + Text.byteSize (Text.firstLine t) + 1) rest).map
              fun found => found.2.parts found.1 := by
        rw [Option.map_bind]
        refine Option.bind_congr fun rest hrest => ?_
        have hsize : Text.byteSize ['\n'] = 1 := by decide
        rw [ih rest.length (hn ▸ Text.length_lt_of_afterLine hrest)
          (Text.beginsLine_append_newline _) rest rfl, Text.byteSize_append, Text.byteSize_append,
          hsize]
        rfl
      rw [searchFrom_declaration, at?_declaration, if_pos hbefore, hbelow, Declaration.find?_eq]
      by_cases hleast : least ≤ Text.byteSize before
      · rw [if_pos hleast, if_pos hleast]
        cases Declaration.read? (Text.firstLine t) <;> rfl
      · rw [if_neg hleast, if_neg hleast, Option.none_or]

end Pattern

/-- A search for a declaration finds what its pattern matches. -/
theorem Declaration.search_eq_pattern (least : Nat) (source : Text) :
    search least source = Pattern.declaration.search least source :=
  (Pattern.searchFrom_eq (Or.inl rfl) source).symm

end ApiListing
