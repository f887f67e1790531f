import ApiListing.Proofs.Continuations
import ApiListing.Proofs.Declarations

namespace ApiListing.Pattern

def word : Text → Pattern
  | [] => empty
  | c :: w => seq (one (· = c)) (word w)

def oneOf (w : Text) : List Text → Pattern
  | [] => word w
  | v :: ws => alt (word w) (oneOf v ws)

def optional (a : Pattern) : Pattern := alt a empty

def someOf (p : Char → Bool) : Pattern := seq (one p) (run p)

def noneOf (cs : Text) (c : Char) : Bool := !cs.contains c

def noParenthesis : Char → Bool := noneOf "()\n".toList

def blanks : Pattern := run Text.isBlank

def gap : Pattern := someOf Text.isBlank

def name : Pattern := seq (one Text.isNameStart) (run Text.isWordChar)

def angled (greedy : Bool) (inside : Char → Bool) : Pattern :=
  seq (one (· = '<')) (seq (many greedy (one inside)) (one (· = '>')))

def rank : Pattern := seq (one (· = '[')) (seq (run isRankChar) (one (· = ']')))

def ranksAndMark : Pattern := seq (many true rank) (optional (one (· = '?')))

/-- `(?:<[^()=;{}\n]*>)?(?:rank)*\??` -/
def typeSuffix : Pattern :=
  seq (optional (angled true (noneOf ['(', ')', '=', ';', '{', '}', '\n']))) ranksAndMark

/-- `[\p{L}_][\w.]*typeSuffix` -/
def typeName : Pattern := seq (one Text.isNameStart) (seq (run isTypeChar) typeSuffix)

def operator : Pattern := seq (word "operator".toList) (seq blanks (someOf isOperatorChar))

/-- `operator[ \t]*[^\s(]+|name(?:<[^()\n]*?>)?` -/
def methodName : Pattern := alt operator (seq name (optional (angled false noParenthesis)))

def indexer : Pattern :=
  seq (word "this".toList) (seq blanks
    (seq (one (· = '[')) (seq (run (noneOf "]\n".toList)) (one (· = ']')))))

def innerParameters : Pattern := seq (one (· = '(')) (seq (run noParenthesis) (one (· = ')')))

def closing : Pattern := seq (many true (alt (one noParenthesis) innerParameters)) (one (· = ')'))

def parameters : Pattern := seq (one (· = '(')) closing

/-- `(?P<method_params>parameters)|=>(?P<method_expr>[^\n]*)` -/
def signature : Pattern :=
  alt (group "method_params" parameters)
    (seq (word "=>".toList) (group "method_expr" (run (noneOf ['\n']))))

def signed : Pattern := seq (group "method_name" methodName) (seq blanks signature)

/-- `(?P<method>(?P<method_type>typeName)[ \t]+signed)` -/
def method : Pattern := group "method" (seq (group "method_type" typeName) (seq gap signed))

def enum : Pattern := group "enum" (seq (word "enum".toList) (seq gap (group "enum_name" name)))

/-- `(?P<attribute>(?P<attribute_type>typeName)[ \t]+(?P<attribute_name>indexer|name))` -/
def property : Pattern :=
  group "attribute" (seq (group "attribute_type" typeName)
    (seq gap (group "attribute_name" (alt indexer name))))

def head : Pattern := alt method (alt enum property)

def visibility : Pattern :=
  group "visibility" (oneOf "public".toList ["private".toList, "protected".toList])

def static : Pattern := optional (group "static" (seq (word "static".toList) gap))

/-- `(?:ref|readonly|…|required)[ \t]+` -/
def modifier : Pattern :=
  seq (oneOf "ref".toList (["readonly", "const", "virtual", "override", "abstract", "async",
    "sealed", "new", "extern", "unsafe", "volatile", "event", "partial",
    "required"].map String.toList)) gap

def modifiedHead : Pattern := seq (group "modifiers" (many true modifier)) head

/-- `(?m)^(?P<indent>[ \t]*)visibility[ \t]+static modifiedHead` -/
def declaration : Pattern :=
  seq lineStart (seq (group "indent" blanks) (seq visibility (seq gap (seq static modifiedHead))))

variable {β : Type} {t : Text} {k : Hit → Option β} {next : Option Char → Bool}

theorem first_char (c : Char) (before : Text) (d : Char) (t : Text) (k : Hit → Option β) :
    (one (· = c)).first before (d :: t) k = if d = c then k (.ofReading ([c], t)) else none := by
  rw [first_one]
  by_cases hd : d = c
  · rw [if_pos (decide_eq_true hd), if_pos hd, hd]
  · rw [if_neg (by simpa using hd), if_neg hd]

theorem first_word (w : Text) (before t : Text) (k : Hit → Option β) :
    (word w).first before t k =
      (Text.stripPrefix? w t).bind fun u => k (.ofReading (w, u)) := by
  induction w generalizing before t k with
  | nil => rw [word, first_empty]; rfl
  | cons c w ih =>
      rw [word, first_seq]
      cases t with
      | nil => rfl
      | cons d t =>
          rw [first_char, ih, Text.stripPrefix?]
          by_cases hd : d = c
          · rw [if_pos hd, if_pos hd.symm]
            rfl
          · rw [if_neg hd, if_neg (Ne.symm hd)]
            rfl

theorem first_oneOf (w : Text) (ws : List Text) (before t : Text) (k : Hit → Option β) :
    (oneOf w ws).first before t k =
      (w :: ws).findSome? fun v => (Text.stripPrefix? v t).bind fun u => k (.ofReading (v, u)) := by
  induction ws generalizing w with
  | nil =>
      rw [oneOf, first_word, List.findSome?_cons]
      cases (Text.stripPrefix? w t).bind fun u => k (.ofReading (w, u)) <;> rfl
  | cons v ws ih =>
      rw [oneOf, first_alt, first_word, ih, List.findSome?_cons (a := w)]
      cases (Text.stripPrefix? w t).bind fun u => k (.ofReading (w, u)) <;> rfl

theorem first_optional (a : Pattern) (before t : Text) (k : Hit → Option β) :
    (optional a).first before t k = (a.first before t k).or (k (.ofReading ([], t))) := by
  rw [optional, first_alt, first_empty]

theorem first_gap (hk : Needs next k) (hnext : ∀ c, next (some c) = true → Text.isBlank c = false)
    (before t : Text) : gap.first before t k = (gap? t).bind fun g => k (.ofReading g) := by
  rw [gap, someOf, first_seq]
  cases t with
  | nil => rfl
  | cons c t =>
      rw [first_one]
      by_cases hc : Text.isBlank c = true
      · rw [if_pos hc, first_run (hk.after _) hnext, gap?, Text.spanBlanks,
          List.takeWhile_cons_of_pos hc, List.dropWhile_cons_of_pos hc]
        rfl
      · rw [if_neg hc, gap?, Text.spanBlanks, List.takeWhile_cons_of_neg hc]
        rfl

theorem first_someOf (q : Char → Bool) (before t : Text) (k : Hit → Option β) :
    (someOf q).first before t k = (List.range (t.takeWhile q).length).reverse.findSome? fun n =>
      k (.ofReading (t.take (n + 1), t.drop (n + 1))) := by
  rw [someOf, first_seq]
  cases t with
  | nil => rfl
  | cons c t =>
      rw [first_one]
      by_cases hc : q c = true
      · rw [if_pos hc, first, hits_run, List.takeWhile_cons_of_pos hc, List.findSome?_map]
        rfl
      · rw [if_neg hc, List.takeWhile_cons_of_neg hc]
        rfl

theorem upToAngle_cons (inside : Char → Bool) (c : Char) (t : Text) :
    Reading.upToAngle inside (c :: t) = (if c = '>' then [([c], t)] else []) ++
      if inside c then (Reading.upToAngle inside t).map (Reading.extend [c]) else [] := by
  rw [Reading.upToAngle]
  split <;> rfl

def ordered (greedy : Bool) (rs : List Reading) : List Reading := if greedy then rs.reverse else rs

theorem ordered_map (greedy : Bool) (f : Reading → Reading) (rs : List Reading) :
    ordered greedy (rs.map f) = (ordered greedy rs).map f := by
  cases greedy
  · rfl
  · exact (List.map_reverse).symm

/-- What is read up to an angle bracket, the shortest first or last. -/
theorem first_upToAngle (greedy : Bool) (inside : Char → Bool) (before t : Text)
    (k : Hit → Option β) :
    (seq (many greedy (one inside)) (one (· = '>'))).first before t k =
      (ordered greedy (Reading.upToAngle inside t)).findSome? fun r => k (.ofReading r) := by
  induction t generalizing before k with
  | nil =>
      rw [first_many_seq]
      cases greedy <;> rfl
  | cons c t ih =>
      have hfurther : (one inside).first before (c :: t) (fun x => if x.text = [] then none
          else (seq (many greedy (one inside)) (one (· = '>'))).first (before ++ x.text) x.rest
            (k ∘ x.after)) = (ordered greedy (if inside c then
              (Reading.upToAngle inside t).map (Reading.extend [c]) else [])).findSome?
                fun r => k (.ofReading r) := by
        rw [first_one]
        split
        · rw [ordered_map, List.findSome?_map]
          exact (if_neg (List.cons_ne_nil c [])).trans (ih _ _)
        · cases greedy <;> rfl
      have hclose : (one (· = '>')).first before (c :: t) k =
          (if c = '>' then [([c], t)] else []).findSome? fun r => k (.ofReading r) := by
        rw [first_char]
        split
        · next hc => rw [hc, List.findSome?_singleton]
        · rfl
      rw [first_many_seq, upToAngle_cons]
      simp only [hfurther, hclose]
      cases greedy
      · simp only [ordered, List.findSome?_append, Bool.false_eq_true, if_false]
      · have hsingle : (if c = '>' then [([c], t)] else []).reverse =
            if c = '>' then [([c], t)] else [] := by split <;> rfl
        simp only [ordered, List.reverse_append, List.findSome?_append, if_true, hsingle]

theorem first_angled (greedy : Bool) (inside : Char → Bool) (before t : Text)
    (k : Hit → Option β) :
    (angled greedy inside).first before t k =
      (ordered greedy (Reading.angles inside t)).findSome? fun r => k (.ofReading r) := by
  rw [angled, first_seq]
  cases t with
  | nil => cases greedy <;> rfl
  | cons c t =>
      rw [first_char, Reading.angles]
      by_cases hc : c = '<'
      · rw [if_pos hc, if_pos hc, first_upToAngle, ordered_map, List.findSome?_map, hc]
        rfl
      · rw [if_neg hc, if_neg hc]
        cases greedy <;> rfl

theorem upToAngle_congr {inside inside' : Char → Bool} (h : ∀ c ∈ t, inside c = inside' c) :
    Reading.upToAngle inside t = Reading.upToAngle inside' t := by
  induction t with
  | nil => rfl
  | cons c t ih =>
      rw [List.forall_mem_cons] at h
      rw [upToAngle_cons, upToAngle_cons, h.1, ih h.2]

theorem angles_congr {inside inside' : Char → Bool} (h : ∀ c ∈ t, inside c = inside' c) :
    Reading.angles inside t = Reading.angles inside' t := by
  cases t with
  | nil => rfl
  | cons c t =>
      rw [List.forall_mem_cons] at h
      rw [Reading.angles, Reading.angles, upToAngle_congr h.2]

/-- On a line a class need not leave out the newline. -/
theorem first_angled_line {inside inside' : Char → Bool}
    (h : ∀ c, c ≠ '\n' → inside c = inside' c) (greedy : Bool) (before : Text) (ht : '\n' ∉ t)
    (k : Hit → Option β) :
    (angled greedy inside).first before t k =
      (ordered greedy (Reading.angles inside' t)).findSome? fun r => k (.ofReading r) := by
  rw [first_angled, angles_congr fun c hc => h c fun hne => ht (hne ▸ hc)]

theorem first_run_close {q : Char → Bool} {close : Char} (hq : q close = false) (before t : Text)
    (k : Hit → Option β) :
    (seq (run q) (one (· = close))).first before t k =
      (Text.stripPrefix? [close] (t.dropWhile q)).bind fun rest =>
        k (.ofReading (t.takeWhile q ++ [close], rest)) := by
  have hclose : ∀ c, (one (· = close)).starts (fun _ => true) (some c) = true → q c = false := by
    simp only [starts, Option.any_some, decide_eq_true_eq]
    rintro _ rfl
    exact hq
  rw [first_seq, first_run ((needs_any _).seq _ _) hclose, Hit.rest_ofReading]
  cases t.dropWhile q with
  | nil => rfl
  | cons d rest =>
      rw [first_char, Text.stripPrefix?]
      by_cases hd : d = close
      · rw [if_pos hd, if_pos hd.symm]
        rfl
      · rw [if_neg hd, if_neg (Ne.symm hd)]
        rfl

theorem first_rank (before t : Text) (k : Hit → Option β) :
    rank.first before t k = (rank? t).bind fun r => k (.ofReading r) := by
  rw [rank, first_seq]
  cases t with
  | nil => rfl
  | cons c t =>
      rw [first_char, rank?]
      by_cases hc : c = '['
      · rw [if_pos hc, if_pos hc, first_run_close (by decide), Hit.rest_ofReading, hc]
        cases t.dropWhile isRankChar with
        | nil => rfl
        | cons d rest =>
            rw [Text.stripPrefix?]
            split
            · next hd => subst hd; rfl
            · next hd =>
                split
                · next h => cases h; exact absurd rfl hd
                · rfl
      · rw [if_neg hc, if_neg hc]
        rfl

theorem ranks_of_rank? {r : Reading} (h : rank? t = some r) :
    ranks t = (ranks r.2).extend r.1 := by
  rw [ranks]
  split
  · next hn => rw [hn] at h; cases h
  · next r' hr' => rw [hr'] at h; cases h; rfl

theorem ranks_of_rank?_eq_none (h : rank? t = none) : ranks t = ([], t) := by
  rw [ranks]
  split
  · rfl
  · next r hr => rw [hr] at h; cases h

theorem head?_of_rank? {r : Reading} (h : rank? t = some r) : t.head? = some '[' := by
  cases t with
  | nil => cases h
  | cons c t =>
      rw [rank?] at h
      split at h
      · next hc => rw [List.head?_cons, hc]
      · cases h

theorem first_ranks (hk : Needs next k) (hnext : next (some '[') = false) (before t : Text) :
    (many true rank).first before t k = k (.ofReading (ranks t)) := by
  induction hn : t.length using Nat.strong_induction_on generalizing before t k with
  | _ n ih =>
      rw [first_many, if_pos rfl, first_rank]
      cases hr : rank? t with
      | none => rw [ranks_of_rank?_eq_none hr]; rfl
      | some r =>
          have hne : (Hit.ofReading r).text ≠ [] := by
            intro (h : r.1 = [])
            have hlt := length_lt_of_rank? hr
            rw [eq_append_of_rank? hr, h] at hlt
            exact Nat.lt_irrefl _ hlt
          have hnone : k (.ofReading ([], t)) = none := hk.eq_none (by
            rw [Hit.ofReading, head?_of_rank? hr, hnext])
          rw [Option.bind_some, if_neg hne, hnone, Option.or_none, ranks_of_rank? hr]
          exact ih r.2.length (hn ▸ length_lt_of_rank? hr) (hk.after _) _ _ rfl

theorem first_mark (hk : Needs next k) (hnext : next (some '?') = false) (before t : Text) :
    (optional (one (· = '?'))).first before t k = k (.ofReading (nullableMark t)) := by
  rw [first_optional]
  cases t with
  | nil => rfl
  | cons c t =>
      rw [first_char]
      by_cases hc : c = '?'
      · subst hc
        rw [if_pos rfl, hk.eq_none (x := .ofReading ([], '?' :: t)) hnext, Option.or_none]
        rfl
      · have hmark : nullableMark (c :: t) = ([], c :: t) := by
          unfold nullableMark
          split
          · next h => cases h; exact absurd rfl hc
          · rfl
        rw [if_neg hc, hmark]
        rfl

def atBlank (c : Option Char) : Bool := c.any Text.isBlank

theorem first_ranksAndMark (hk : Needs atBlank k) (before t : Text) :
    ranksAndMark.first before t k =
      k (.ofReading (Reading.extend (ranks t).1 (nullableMark (ranks t).2))) := by
  rw [ranksAndMark, first_seq, first_ranks (hk.seq _ _) (by decide),
    first_mark (hk.after _) (by decide)]
  rfl

theorem noneOf_eq_isTypeArgument (c : Char) (hc : c ≠ '\n') :
    noneOf ['(', ')', '=', ';', '{', '}', '\n'] c = isTypeArgument c := by
  simp [noneOf, isTypeArgument, hc, Bool.and_assoc]

theorem noParenthesis_eq (c : Char) (hc : c ≠ '\n') : noParenthesis c = isMethodArgument c := by
  simp [noParenthesis, noneOf, isMethodArgument, hc]

theorem first_typeSuffix (hk : Needs atBlank k) (before : Text) (ht : '\n' ∉ t) :
    typeSuffix.first before t k =
      ((Reading.angles isTypeArgument t).reverse ++ [([], t)]).findSome? fun r : Reading =>
        k (.ofReading (r.1 ++ (ranks r.2).1 ++ (nullableMark (ranks r.2).2).1,
          (nullableMark (ranks r.2).2).2)) := by
  have hrest (r : Reading) : ranksAndMark.first (before ++ r.1) r.2 (k ∘ (Hit.ofReading r).after) =
      k (.ofReading (r.1 ++ (ranks r.2).1 ++ (nullableMark (ranks r.2).2).1,
        (nullableMark (ranks r.2).2).2)) := by
    rw [first_ranksAndMark (hk.after _)]
    simp [Hit.ofReading, Hit.after, Reading.extend]
  have hnone := hrest ([], t)
  rw [typeSuffix, first_seq, first_optional,
    first_angled_line noneOf_eq_isTypeArgument true _ ht, List.findSome?_append,
    List.findSome?_singleton]
  simp only [Hit.text_ofReading, Hit.rest_ofReading, hrest, hnone, ordered, if_true]

theorem isTypeChar_of_starts (c : Char) (h : typeSuffix.starts atBlank (some c) = true) :
    isTypeChar c = false := by
  simp only [typeSuffix, optional, angled, ranksAndMark, rank, starts, atBlank, Option.any_some,
    Text.isBlank, Bool.or_eq_true, decide_eq_true_eq] at h
  rcases h with rfl | rfl | rfl | rfl | rfl <;> decide

theorem first_typeName (hk : Needs atBlank k) (before : Text) (ht : '\n' ∉ t) :
    typeName.first before t k = (typeReadings t).findSome? fun r => k (.ofReading r) := by
  rw [typeName, first_seq]
  cases t with
  | nil => rfl
  | cons c t =>
      rw [first_one, typeReadings]
      by_cases hc : Text.isNameStart c = true
      · have hline : '\n' ∉ t.dropWhile isTypeChar :=
          fun h => ht (List.mem_cons_of_mem _ ((List.dropWhile_sublist _).subset h))
        rw [if_pos hc, if_pos hc, first_seq, first_run ((hk.after _).seq _ _) isTypeChar_of_starts]
        simp only [Hit.rest_ofReading]
        rw [first_typeSuffix ((hk.after _).after _) _ hline, List.findSome?_map]
        refine congrArg (List.findSome? · _) (funext fun r => congrArg k ?_)
        simp [Hit.ofReading, Hit.after]
      · rw [if_neg hc, if_neg hc]
        rfl

theorem isBlank_of_isOperatorChar {c : Char} (h : isOperatorChar c = true) :
    Text.isBlank c = false := by
  cases hc : Text.isBlank c with
  | false => rfl
  | true => simp [isOperatorChar, Text.isSpace_of_isBlank hc] at h

theorem first_operator (before t : Text) (k : Hit → Option β) :
    operator.first before t k = (operatorReadings t).findSome? fun r => k (.ofReading r) := by
  rw [operator, first_seq, first_word, operatorReadings]
  cases Text.stripPrefix? "operator".toList t with
  | none => rfl
  | some u =>
      have hblank : ∀ c, (someOf isOperatorChar).starts (fun _ => true) (some c) = true →
          Text.isBlank c = false := fun _ => isBlank_of_isOperatorChar
      rw [Option.bind_some, first_seq, blanks, first_run ((needs_any _).seq _ _) hblank,
        first_someOf]
      simp only [List.findSome?_map]
      rfl

theorem first_name (hrun : ∀ x before t, (run Text.isWordChar).first before t (k ∘ Hit.after x) =
      k (x.after (.ofReading (t.takeWhile Text.isWordChar, t.dropWhile Text.isWordChar))))
    (before t : Text) : name.first before t k = (Text.name? t).bind fun r => k (.ofReading r) := by
  rw [name, first_seq]
  cases t with
  | nil => rfl
  | cons c t =>
      rw [first_one, Text.name?]
      by_cases hc : Text.isNameStart c = true
      · rw [if_pos hc, if_pos hc, hrun]
        rfl
      · rw [if_neg hc, if_neg hc]
        rfl

def atSignature (c : Option Char) : Bool := c.any fun c => Text.isBlank c || c = '(' || c = '='

theorem isWordChar_of_starts {c : Char}
    (h : (optional (angled false noParenthesis)).starts atSignature (some c) = true) :
    Text.isWordChar c = false := by
  simp only [optional, angled, starts, atSignature, Option.any_some, Text.isBlank,
    Bool.or_eq_true, decide_eq_true_eq] at h
  rcases h with rfl | ((rfl | rfl) | rfl) | rfl <;> decide

theorem first_methodName (hk : Needs atSignature k) (before : Text) (ht : '\n' ∉ t) :
    methodName.first before t k = (methodNameReadings t).findSome? fun r => k (.ofReading r) := by
  rw [methodName, first_alt, first_operator, methodNameReadings, List.findSome?_append, first_seq,
    first_name fun x => first_run ((hk.seq _ _).after x) fun _ => isWordChar_of_starts]
  cases hname : Text.name? t with
  | none => rfl
  | some r =>
      have hline : '\n' ∉ r.2 := fun h => ht (eq_append_of_name? hname ▸
        List.mem_append_right _ h)
      rw [Option.bind_some, first_optional]
      simp only [Hit.rest_ofReading]
      rw [first_angled_line noParenthesis_eq false _ hline]
      simp only [List.findSome?_map, List.findSome?_append, List.findSome?_singleton]
      rfl

end ApiListing.Pattern
