import ApiListing.Proofs.Shown

namespace ApiListing

variable {x : Text}

open Text Reading

theorem Text.Returns.forall_mem_append {p : Char → Bool} {v : Text} (hx : Returns x)
    (hv : ∀ c ∈ v, p c = true) (hr : p '\r' = true) : ∀ c ∈ v ++ x, p c = true := by
  rw [List.forall_mem_append]
  exact ⟨hv, fun c hc => by rw [hx c hc, hr]⟩

namespace Reading

theorem symbols_returns (hx : Returns x) (v : Text) :
    symbols (v ++ x) = (symbols v).map (followedBy x) := by
  induction v with
  | nil =>
      cases x with
      | nil => rfl
      | cons c x =>
          have hc : isOperatorChar c = false := hx.head? (by decide) c rfl
          simp [symbols, hc]
  | cons c v ih =>
      rw [List.cons_append, symbols, symbols]
      split
      · rw [ih, List.map_append, map_followedBy_extend]
        rfl
      · rfl

end Reading

theorem operatorReadings_returns (hx : Returns x) (v : Text) :
    operatorReadings (v ++ x) = (operatorReadings v).map (followedBy x) := by
  rw [operatorReadings_eq, operatorReadings_eq,
    stripPrefix?_followedBy (Or.inr hx) (by simp [isStop]) (by decide)]
  cases stripPrefix? "operator".toList v with
  | none => rfl
  | some u =>
      simp only [Option.map_some, spanBlanks_followedBy (Or.inr hx)]
      rw [map_followedBy_extend, followedBy, symbols_returns hx]

theorem methodNameReadings_returns (hx : Returns x) (v : Text) :
    methodNameReadings (v ++ x) = (methodNameReadings v).map (followedBy x) := by
  unfold methodNameReadings
  rw [operatorReadings_returns hx, name?_followedBy (Or.inr hx), List.map_append]
  apply congrArg _
  cases name? v with
  | none => rfl
  | some n =>
      simp only [Option.map_some, followedBy]
      rw [angles_returns hx, map_followedBy_extend]
      simp only [List.map_append]
      rfl

theorem closeParameters_of_returns (hx : Returns x) (nested : Bool) :
    closeParameters nested x = none := by
  induction x with
  | nil => rfl
  | cons c x ih =>
      have hc : c = '\r' := hx c (List.mem_cons_self ..)
      subst hc
      rw [closeParameters]
      simp [ih fun c hc => hx c (List.mem_cons_of_mem _ hc)]

theorem closeParameters_returns (hx : Returns x) (nested : Bool) (v : Text) :
    closeParameters nested (v ++ x) = (closeParameters nested v).map (followedBy x) := by
  induction v generalizing nested with
  | nil => exact closeParameters_of_returns hx nested
  | cons c v ih =>
      have honwards (n : Bool) : (closeParameters n (v ++ x)).map (extend [c]) =
          ((closeParameters n v).map (extend [c])).map (followedBy x) := by
        rw [ih, Option.map_map, Option.map_map]
        rfl
      simp only [List.cons_append, closeParameters]
      split
      · split
        · exact honwards false
        · rfl
      · split
        · split
          · rfl
          · exact honwards true
        · exact honwards nested

namespace Signature

def endingIn (x : Text) : Signature × Text → Signature × Text
  | (parameters p, rest) => (parameters p, rest ++ x)
  | (expression e, rest) => (expression (e ++ x), rest)

theorem read?_returns (hx : Returns x) (v : Text) :
    read? (v ++ x) = (read? v).map (endingIn x) := by
  cases v with
  | nil =>
      cases x with
      | nil => rfl
      | cons c x =>
          obtain rfl : c = '\r' := hx c (List.mem_cons_self ..)
          rfl
  | cons c v =>
      by_cases hparen : c = '('
      · subst hparen
        rw [List.cons_append, read?, read?, closeParameters_returns hx, Option.map_map,
          Option.map_map]
        rfl
      · by_cases hequals : c = '='
        · subst hequals
          cases v with
          | nil =>
              cases x with
              | nil => rfl
              | cons c x =>
                  obtain rfl : c = '\r' := hx c (List.mem_cons_self ..)
                  rfl
          | cons d v =>
              by_cases hangle : d = '>'
              · subst hangle
                rfl
              · simp [read?, hangle]
        · simp [read?, hparen, hequals]

end Signature

namespace Head

def endingIn (x : Text) : Head × Text → Head × Text
  | (method type gap name trail signature, rest) =>
    let s := Signature.endingIn x (signature, rest)
    (method type gap name trail s.1, s.2)
  | (h, rest) => (h, rest ++ x)

theorem signed?_returns (hx : Returns x) (type gap : Text) (n : Reading) :
    signed? type gap (followedBy x n) = (signed? type gap n).map (endingIn x) := by
  simp only [signed?, followedBy, spanBlanks_followedBy (Or.inr hx), Signature.read?_returns hx,
    Option.map_map]
  rfl

theorem named?_returns (hx : Returns x) (type gap v : Text) :
    named? type gap (v ++ x) = (named? type gap v).map (endingIn x) := by
  rw [named?_eq, named?_eq, List.map_findSome?, methodNameReadings_returns hx, List.findSome?_map]
  exact congrArg (fun f => List.findSome? f _) (funext fun n => signed?_returns hx type gap n)

theorem typed?_returns (hx : Returns x) (r : Reading) :
    typed? (followedBy x r) = (typed? r).map (endingIn x) := by
  rw [typed?_followedBy (Or.inr hx), typed?]
  cases gap? r.2 with
  | none => rfl
  | some g => exact named?_returns hx r.1 g.1 g.2

theorem method?_returns (hx : Returns x) (v : Text) :
    method? (v ++ x) = (method? v).map (endingIn x) := by
  rw [method?_followedBy (Or.inr hx), method?_eq, List.map_findSome?]
  exact congrArg (fun f => List.findSome? f _) (funext fun r => typed?_returns hx r)

theorem enum?_returns (hx : Returns x) (v : Text) :
    enum? (v ++ x) = (enum? v).map (endingIn x) := by
  rw [enum?_eq, enum?_eq, stripPrefix?_followedBy (Or.inr hx) (by simp [isStop]) (by decide)]
  cases stripPrefix? "enum".toList v with
  | none => rfl
  | some u =>
      simp only [Option.map_some, Option.bind_some, gap?_followedBy (Or.inr hx)]
      cases gap? u with
      | none => rfl
      | some g =>
          simp only [Option.map_some, Option.bind_some, followedBy, name?_followedBy (Or.inr hx),
            Option.map_map]
          rfl

theorem indexer?_returns (hx : Returns x) (v : Text) :
    indexer? (v ++ x) = (indexer? v).map (followedBy x) := by
  rw [indexer?, indexer?, stripPrefix?_followedBy (Or.inr hx) (by simp [isStop]) (by decide)]
  cases stripPrefix? "this".toList v with
  | none => rfl
  | some u =>
      simp only [Option.map_some, spanBlanks_followedBy (Or.inr hx), followedBy]
      generalize (spanBlanks u).1 = gap
      generalize (spanBlanks u).2 = w
      cases w with
      | nil =>
          cases x with
          | nil => rfl
          | cons c x =>
              obtain rfl : c = '\r' := hx c (List.mem_cons_self ..)
              rfl
      | cons c w =>
          by_cases hc : c = '['
          · subst hc
            simp only [List.cons_append]
            by_cases hw : ∃ c ∈ w, decide (c ≠ ']') = false
            · rw [takeWhile_append_of_mem hw, dropWhile_append_of_mem hw]
              cases hd : w.dropWhile (· ≠ ']') with
              | nil =>
                  obtain ⟨c, hc, hclose⟩ := hw
                  rw [List.dropWhile_eq_nil_iff.1 hd c hc] at hclose
                  cases hclose
              | cons d rest => rfl
            · have hw : ∀ c ∈ w, decide (c ≠ ']') = true := by
                simpa only [not_exists, not_and, Bool.not_eq_false] using hw
              rw [List.dropWhile_eq_nil_iff.2 hw,
                List.dropWhile_eq_nil_iff.2 (hx.forall_mem_append hw (by decide))]
              rfl
          · simp [hc]

theorem propertyName?_returns (hx : Returns x) (v : Text) :
    propertyName? (v ++ x) = (propertyName? v).map (followedBy x) := by
  rw [propertyName?, propertyName?, indexer?_returns hx, name?_followedBy (Or.inr hx)]
  cases indexer? v <;> rfl

theorem owned?_returns (hx : Returns x) (r : Reading) :
    owned? (followedBy x r) = (owned? r).map (endingIn x) := by
  rw [owned?, owned?, followedBy, gap?_followedBy (Or.inr hx)]
  cases gap? r.2 with
  | none => rfl
  | some g =>
      simp only [Option.map_some, Option.bind_some, followedBy, propertyName?_returns hx,
        Option.map_map]
      rfl

theorem property?_returns (hx : Returns x) (v : Text) :
    property? (v ++ x) = (property? v).map (endingIn x) := by
  rw [property?_eq, property?_eq, List.map_findSome?, typeReadings_followedBy (Or.inr hx),
    List.findSome?_map]
  exact congrArg (fun f => List.findSome? f _) (funext fun r => owned?_returns hx r)

theorem read?_returns (hx : Returns x) (v : Text) :
    read? (v ++ x) = (read? v).map (endingIn x) := by
  rw [read?, read?, method?_returns hx, enum?_returns hx, property?_returns hx]
  cases method? v <;> cases enum? v <;> rfl

theorem kind_endingIn (x : Text) (h : Head) (rest : Text) :
    (endingIn x (h, rest)).1.kind = h.kind := by
  cases h <;> rfl

theorem isTypeDefinition_endingIn (x : Text) (h : Head) (rest : Text) :
    (endingIn x (h, rest)).1.isTypeDefinition = h.isTypeDefinition := by
  cases h <;> rfl

theorem rest_endingIn (x : Text) (h : Head) (rest : Text) :
    (endingIn x (h, rest)).2 = rest ++ x ∨ (endingIn x (h, rest)).2 = rest := by
  cases h with
  | method type gap name trail signature =>
      cases signature with
      | parameters p => exact Or.inl rfl
      | expression e => exact Or.inr rfl
  | enum gap name => exact Or.inl rfl
  | property type gap name => exact Or.inl rfl

theorem shown_endingIn (hx : Returns x) (h : Head) (rest : Text) :
    (endingIn x (h, rest)).1.shown = h.shown := by
  cases h with
  | method type gap name trail signature =>
      cases signature with
      | parameters p => rfl
      | expression e =>
          have htrim : trimEnd (e ++ x) = trimEnd e :=
            trimEnd_append_spaces (fun c hc => by rw [hx c hc]; decide) e
          rw [endingIn, Signature.endingIn, shown_expression, shown_expression, Signature.value,
            Signature.value, htrim]
  | enum gap name => rfl
  | property type gap name => rfl

end Head

namespace Modifier

theorem read?_returns (hx : Returns x) (v : Text) :
    read? (v ++ x) = (read? v).map fun r => (r.1, r.2 ++ x) := by
  rw [read?, read?]
  by_cases hv : ∃ c ∈ v, (!isBlank c) = false
  · rw [takeWhile_append_of_mem hv, dropWhile_append_of_mem hv, gap?_followedBy (Or.inr hx),
      Option.map_map, Option.map_map]
    rfl
  · have hv : ∀ c ∈ v, (!isBlank c) = true := by simpa using hv
    rw [List.dropWhile_eq_nil_iff.2 hv,
      List.dropWhile_eq_nil_iff.2 (hx.forall_mem_append hv (by decide))]
    rfl

theorem known?_returns (hx : Returns x) (v : Text) :
    known? (v ++ x) = (known? v).map fun r => (r.1, r.2 ++ x) := by
  rw [known?, known?, read?_returns hx, Option.filter_map]
  rfl

theorem static?_returns (hx : Returns x) (v : Text) :
    static? (v ++ x) = (static? v).map fun r => (r.1, r.2 ++ x) := by
  rw [static?, static?, read?_returns hx, Option.filter_map]
  rfl

theorem head?_returns (hx : Returns x) (v : Text) :
    head? (v ++ x) = (head? v).map fun r => (r.1, Head.endingIn x r.2) := by
  induction hn : v.length using Nat.strong_induction_on generalizing v with
  | _ n ih =>
      have hknown := known?_returns hx v
      cases hk : known? v with
      | none =>
          rw [hk, Option.map_none] at hknown
          rw [head?_of_known?_eq_none hk, head?_of_known?_eq_none hknown, Head.read?_returns hx,
            Option.map_map, Option.map_map]
          rfl
      | some r =>
          rw [hk, Option.map_some] at hknown
          rw [head?_of_known? hk, head?_of_known? hknown, Head.read?_returns hx,
            ih r.2.length (hn ▸ length_lt_of_known? hk) r.2 rfl]
          cases head? r.2 <;> cases Head.read? v <;> rfl

end Modifier

theorem Visibility.read?_returns (hx : Returns x) (v : Text) :
    Visibility.read? (v ++ x) = (Visibility.read? v).map fun r => (r.1, r.2 ++ x) := by
  rw [Visibility.read?, Visibility.read?, List.map_findSome?]
  refine congrArg (fun f => List.findSome? f _) (funext fun w => ?_)
  have hstop : ∀ c ∈ w.word, isStop c = false := by
    cases w <;> simp [Visibility.word_eq, isStop]
  have hreturn : '\r' ∉ w.word := by cases w <;> simp [Visibility.word_eq]
  rw [stripPrefix?_followedBy (Or.inr hx) hstop hreturn, Function.comp_apply, Option.map_map,
    Option.map_map]
  rfl

namespace Declaration

theorem starts_returns (hx : Returns x) (v : Text) :
    starts (v ++ x) = (starts v).map fun s => (s.1, s.2 ++ x) := by
  rw [starts, starts, Modifier.static?_returns hx]
  cases Modifier.static? v <;> rfl

theorem modified?_returns (hx : Returns x) (v : Text) :
    modified? (v ++ x) = (modified? v).map fun r => (r.1, r.2.1, Head.endingIn x r.2.2) := by
  rw [modified?, modified?, starts_returns hx, List.findSome?_map, List.map_findSome?]
  refine congrArg (fun f => List.findSome? f _) (funext fun s => ?_)
  simp only [Function.comp_apply, Modifier.head?_returns hx, Option.map_map]
  rfl

/-- What is read of a declaration when `x`, which ends its line, stands behind it. -/
def endingIn (x : Text) (r : Declaration × Text) : Declaration × Text :=
  let h := Head.endingIn x (r.1.head, r.2)
  ({ r.1 with head := h.1 }, h.2)

theorem read?_returns (hx : Returns x) (line : Text) :
    read? (line ++ x) = (read? line).map (endingIn x) := by
  rw [read?_eq, read?_eq, spanBlanks_followedBy (Or.inr hx), followedBy,
    Visibility.read?_returns hx]
  cases Visibility.read? (spanBlanks line).2 with
  | none => rfl
  | some v =>
      simp only [Option.map_some, Option.bind_some, gap?_followedBy (Or.inr hx)]
      cases gap? v.2 with
      | none => rfl
      | some g =>
          simp only [Option.map_some, Option.bind_some, followedBy, modified?_returns hx,
            Option.map_map]
          rfl

end Declaration

end ApiListing
