import ApiListing.Document.Inline
import ApiListing.Proofs.FilterOrder
import ApiListing.Proofs.ListingFixpoint
import ApiListing.Proofs.RelatedWalks
import ApiListing.Proofs.WordLists
import Mathlib.Logic.Relation

namespace ApiListing

namespace Inline

variable {v c : Json} {vs ws : List Json}

def plainTags : List String :=
  ["Emph", "Underline", "Strong", "Strikeout", "Superscript", "Subscript", "SmallCaps"]

def describedTags : List String := ["Quoted", "Cite", "Link", "Image", "Span"]

inductive Holder : String → (List Json → Json) → Prop
  | plain {tag : String} (h : tag ∈ plainTags) : Holder tag .arr
  | described {tag : String} (h : tag ∈ describedTags) (first : Json) (rest : List Json) :
      Holder tag fun vs => .arr (first :: .arr vs :: rest)

/-- A node without the inlines that it holds. It may have other fields, before and behind these. -/
structure Wrapper where
  tag : String
  holder : List Json → Json
  before : List (String × Json)
  after : List (String × Json)
  isHolder : Holder tag holder
  get?_tag : (Json.obj (before ++ after)).get? "t" = some (.str tag)
  no_content : Json.hasKey "c" after = false

theorem get?_tag_around (before after : List (String × Json)) (c : Json) :
    (Json.obj (before ++ ("c", c) :: after)).get? "t" = (Json.obj (before ++ after)).get? "t" := by
  simp [Json.get?, List.find?_append]

namespace Wrapper

variable (w : Wrapper)

def around (vs : List Json) : Json := .obj (w.before ++ ("c", w.holder vs) :: w.after)

theorem get?_around (vs : List Json) : (w.around vs).get? "c" = some (w.holder vs) := by
  have hafter : w.after.reverse.find? (fun f => f.1 = "c") = none := by
    have hnone := w.no_content
    simpa [Json.hasKey] using hnone
  simp only [around, Json.get?, List.reverse_append, List.reverse_cons, List.append_assoc,
    List.find?_append, hafter]
  rfl

theorem sense_around (vs : List Json) : sense (w.around vs) = .ofTag w.tag := by
  rw [sense, around, get?_tag_around, w.get?_tag]
  rfl

end Wrapper

theorem plainText_eq (h : v.get? "c" = some c) : plainText v =
    match sense v with
    | .word => c.str?.getD ""
    | .gap => " "
    | .quotedText => ((c.at? 1).bind Json.str?).getD ""
    | .inlines => plainTextOf c
    | .describedInlines => ((c.at? 1).map plainTextOf).getD ""
    | .silent => "" := by
  rw [plainText]
  split
  · next hnone => rw [h] at hnone; cases hnone
  · next c' hc =>
      rw [h] at hc
      cases hc
      cases sense v with
      | describedInlines =>
        dsimp only
        split
        · next hnone => rw [hnone]; rfl
        · next d hd => rw [hd]; rfl
      | _ => rfl

theorem Wrapper.plainText_around (w : Wrapper) (vs : List Json) :
    plainText (w.around vs) = stringify vs := by
  have hinlines : ∀ tag ∈ plainTags, Sense.ofTag tag = .inlines := by decide
  have hdescribed : ∀ tag ∈ describedTags, Sense.ofTag tag = .describedInlines := by decide
  rw [plainText_eq (w.get?_around vs), sense_around]
  obtain ⟨tag, holder, -, -, isHolder, -, -⟩ := w
  cases isHolder with
  | plain htag =>
      rw [hinlines _ htag]
      exact plainTextOf.eq_1 vs
  | described htag first rest =>
      rw [hdescribed _ htag]
      exact plainTextOf.eq_1 vs

theorem exists_split_of_get? {key : String} (h : v.get? key = some c) :
    ∃ before after, v = .obj (before ++ (key, c) :: after) ∧ Json.hasKey key after = false := by
  cases v with
  | obj fields =>
      obtain ⟨⟨k, d⟩, hfind, rfl⟩ := Option.map_eq_some_iff.1 h
      obtain ⟨hkey, after, before, hfields, hafter⟩ := List.find?_eq_some_iff_append.1 hfind
      obtain rfl : k = key := by simpa using hkey
      refine ⟨before.reverse, after.reverse, ?_, ?_⟩
      · rw [← List.reverse_reverse fields, hfields]
        simp
      · simpa [Json.hasKey] using hafter
  | _ => cases h

theorem tag_of_sense (h : sense v ≠ .silent) :
    ∃ tag, v.get? "t" = some (.str tag) ∧ sense v = .ofTag tag := by
  rw [sense] at h ⊢
  cases htag : (v.get? "t").bind Json.str? with
  | none =>
      rw [htag] at h
      exact absurd rfl h
  | some tag =>
      obtain ⟨w, hw, hstr⟩ := Option.bind_eq_some_iff.1 htag
      cases w with
      | str s =>
          cases hstr
          exact ⟨tag, hw, rfl⟩
      | _ => cases hstr

/-- Every node whose plain text is that of inlines which it holds is such a wrapper around them. -/
theorem exists_wrapper
    (h : sense v = .inlines ∧ v.get? "c" = some (.arr vs) ∨
      sense v = .describedInlines ∧
        ∃ first rest, v.get? "c" = some (.arr (first :: .arr vs :: rest))) :
    ∃ w : Wrapper, v = w.around vs := by
  have hplain : ∀ tag, Sense.ofTag tag = .inlines → tag ∈ plainTags := by
    intro tag
    rw [Sense.ofTag]
    split_ifs <;> simp_all [plainTags]
  have hdescribed : ∀ tag, Sense.ofTag tag = .describedInlines → tag ∈ describedTags := by
    intro tag
    rw [Sense.ofTag]
    split_ifs <;> simp_all [describedTags]
  have hholder : ∃ tag holder, Holder tag holder ∧ v.get? "t" = some (.str tag) ∧
      v.get? "c" = some (holder vs) := by
    rcases h with ⟨hsense, hc⟩ | ⟨hsense, first, rest, hc⟩
    · obtain ⟨tag, htag, hof⟩ := tag_of_sense (v := v) (by simp [hsense])
      exact ⟨tag, .arr, .plain (hplain tag (hof.symm.trans hsense)), htag, hc⟩
    · obtain ⟨tag, htag, hof⟩ := tag_of_sense (v := v) (by simp [hsense])
      exact ⟨tag, _, .described (hdescribed tag (hof.symm.trans hsense)) first rest, htag, hc⟩
  obtain ⟨tag, holder, hh, htag, hc⟩ := hholder
  obtain ⟨before, after, rfl, hafter⟩ := exists_split_of_get? hc
  rw [get?_tag_around] at htag
  exact ⟨⟨tag, holder, before, after, hh, htag, hafter⟩, rfl⟩

theorem stringify_cons (v : Json) (vs : List Json) :
    stringify (v :: vs) = plainText v ++ stringify vs := by
  rw [stringify]

theorem stringify_append (vs ws : List Json) :
    stringify (vs ++ ws) = stringify vs ++ stringify ws := by
  induction vs with
  | nil => rw [List.nil_append, stringify, String.empty_append]
  | cons v vs ih => rw [List.cons_append, stringify_cons, stringify_cons, ih, String.append_assoc]

/-- One more node around inlines that stand side by side, in the line itself or in a node of it. -/
inductive Wraps : List Json → List Json → Prop
  | here (w : Wrapper) (before inside after : List Json) :
      Wraps (before ++ inside ++ after) (before ++ w.around inside :: after)
  | within (w : Wrapper) (before after : List Json) {inside inside' : List Json}
      (h : Wraps inside inside') :
      Wraps (before ++ w.around inside :: after) (before ++ w.around inside' :: after)

theorem Wraps.stringify_eq (h : Wraps vs ws) : stringify ws = stringify vs := by
  induction h with
  | here w before inside after =>
      simp only [stringify_append, stringify_cons, w.plainText_around, String.append_assoc]
  | within w before after _ ih =>
      simp only [stringify_append, stringify_cons, w.plainText_around, ih]

/-- Lines with the same words in other markup. -/
abbrev Rewrapped : List Json → List Json → Prop := Relation.EqvGen Wraps

theorem Rewrapped.stringify_eq (h : Rewrapped vs ws) : stringify ws = stringify vs := by
  induction h with
  | rel _ _ h => exact h.stringify_eq
  | refl => rfl
  | symm _ _ _ ih => exact ih.symm
  | trans _ _ _ _ _ ih ih' => exact ih'.trans ih

theorem plainText_word (t : Text) : plainText (word t) = String.ofList t := by
  rw [plainText_eq (c := .str (String.ofList t)) rfl]
  rfl

theorem plainText_gap : plainText gap = " " := by
  rw [plainText]
  rfl

theorem stringify_intersperse (ts : List Text) :
    stringify ((ts.map word).intersperse gap) = String.ofList (Text.join [' '] ts) := by
  induction ts with
  | nil => rw [List.map_nil, List.intersperse_nil, stringify]; rfl
  | cons t ts ih =>
      cases ts with
      | nil =>
          rw [List.map_singleton, List.intersperse_singleton, stringify_cons, plainText_word,
            stringify, String.append_empty, Text.join, List.intercalate_singleton]
      | cons u ts =>
          rw [List.map_cons, List.map_cons, List.intersperse_cons_cons, stringify_cons,
            stringify_cons, plainText_word, plainText_gap, ← List.map_cons, ih,
            Text.join_cons_of_ne_nil (List.cons_ne_nil u ts), String.ofList_append,
            String.ofList_append]

end Inline

/-- A leaf that is no header, or a header whose words may stand in other markup. -/
inductive Block.Remarked : Block → Block → Prop
  | header (level : Nat) (attr : Attr) {vs ws : List Json} (h : Inline.Rewrapped vs ws) :
      Remarked (.header level attr vs) (.header level attr ws)
  | other {b : Block} (h : b.isHeader = false) : Remarked b b

namespace Filter

theorem removeToc_relates : removeToc.action.Relates Block.Remarked := by
  rintro b b' (s : Bool × Document) hb
  have hanswer : ∀ gone : Bool, Block.RelatedOf Block.Remarked (if gone then [] else [b])
      (if gone then [] else [b']) := by
    rintro (rfl | rfl)
    · exact .singleton hb
    · exact .nil
  cases hb with
  | leaf _ _ h =>
      cases h with
      | @header level attr vs ws h =>
          have hopens : opensToc s.1 ws = opensToc s.1 vs := by
            rw [opensToc, h.stringify_eq, opensToc]
          refine ⟨_, _, _, removeToc_header level attr vs s, ?_, hanswer _⟩
          rw [removeToc_header, hopens]
      | other h => exact ⟨_, _, s, removeToc_of_not_header h s, removeToc_of_not_header h s, hanswer _⟩
  | @container kind c c' h =>
      have hlist : (Block.container kind c').isList = (Block.container kind c).isList := by
        cases kind <;> rfl
      refine ⟨_, _, s, removeToc_of_not_header rfl s, removeToc_of_not_header rfl s, ?_⟩
      rw [hlist]
      exact hanswer _

theorem shiftHeadings_relates : shiftHeadings.action.Relates Block.Remarked := by
  rintro b b' (s : Unit × Document) hb
  have hsame := Block.RelatedOf.singleton hb
  cases hb with
  | leaf _ _ h =>
      cases h with
      | @header level attr vs ws h =>
          by_cases hlevel : level ≤ 1
          · refine ⟨[], [], _, shiftHeadings_title hlevel attr vs s, ?_, .nil⟩
            rw [shiftHeadings_title hlevel, h.stringify_eq]
          · exact ⟨_, _, s, shiftHeadings_header hlevel attr vs s,
              shiftHeadings_header hlevel attr ws s, .singleton (.leaf rfl rfl (.header _ attr h))⟩
      | other h =>
          exact ⟨_, _, s, shiftHeadings_of_not_header h s, shiftHeadings_of_not_header h s, hsame⟩
  | container kind h =>
      exact ⟨_, _, s, shiftHeadings_of_not_header rfl s, shiftHeadings_of_not_header rfl s, hsame⟩

end Filter

/-- The plain text of a line does not depend on its markup, so the filters for headers do the same
to documents whose headers differ only in markup: the same headers go, and the title is the same. -/
theorem markup_ignored :
    (∀ vs ws, Inline.Wraps vs ws → Inline.stringify ws = Inline.stringify vs) ∧
    (∀ t, ∃ ws, Text.Parted t ws ∧
      Inline.stringify (Inline.ofText t) = String.ofList (Text.join [' '] ws)) ∧
    ∀ d d', Document.Related Block.Remarked d d' →
      (∃ t t', Filter.removeToc.apply d = .ok () t ∧ Filter.removeToc.apply d' = .ok () t' ∧
        Document.Related Block.Remarked t t') ∧
      ∃ t t', Filter.shiftHeadings.apply d = .ok () t ∧ Filter.shiftHeadings.apply d' = .ok () t' ∧
        Document.Related Block.Remarked t t' :=
  ⟨fun _ _ h => h.stringify_eq,
    fun t => ⟨Text.words t, Text.parted_words t, Inline.stringify_intersperse _⟩,
    fun _ _ h => ⟨Filter.apply_related rfl Filter.removeToc_relates h,
      Filter.apply_related rfl Filter.shiftHeadings_relates h⟩⟩

namespace Inline.Wrapper

def emph : Wrapper where
  tag := "Emph"
  holder := .arr
  before := []
  after := [("t", .str "Emph")]
  isHolder := .plain (by decide)
  get?_tag := rfl
  no_content := rfl

def span : Wrapper where
  tag := "Span"
  holder vs := .arr [.arr [.str "", .arr [], .arr []], .arr vs]
  before := []
  after := [("t", .str "Span")]
  isHolder := .described (by decide) _ []
  get?_tag := rfl
  no_content := rfl

end Inline.Wrapper

theorem markup_ignored_heading :
    let contents := [Inline.word "of".toList, Inline.gap, Inline.word "Contents".toList]
    let vs := [Inline.word "Table".toList, Inline.gap] ++ contents
    let ws := [Inline.word "Table".toList, Inline.gap, Inline.Wrapper.span.around contents]
    let d : Document := ⟨[1], [], [.header 2 (.ofClasses []) vs]⟩
    let d' : Document := ⟨[1], [], [.header 2 (.ofClasses []) [Inline.Wrapper.emph.around ws]]⟩
    Inline.stringify [Inline.Wrapper.emph.around ws] = Inline.stringify vs ∧
      ∃ t t', Filter.removeToc.apply d = .ok () t ∧ Filter.removeToc.apply d' = .ok () t' ∧
        Document.Related Block.Remarked t t' := by
  intro contents vs ws d d'
  have hemph : Inline.Wraps vs [Inline.Wrapper.emph.around vs] :=
    .here Inline.Wrapper.emph [] vs []
  have hspan : Inline.Wraps [Inline.Wrapper.emph.around vs] [Inline.Wrapper.emph.around ws] :=
    .within Inline.Wrapper.emph [] []
      (.here Inline.Wrapper.span [Inline.word "Table".toList, Inline.gap] contents [])
  have hheader : Inline.Rewrapped vs [Inline.Wrapper.emph.around ws] :=
    .trans _ _ _ (.rel _ _ hemph) (.rel _ _ hspan)
  have hd : Document.Related Block.Remarked d d' :=
    ⟨rfl, rfl, .singleton (.leaf rfl rfl (.header 2 _ hheader))⟩
  refine ⟨?_, (markup_ignored.2.2 d d' hd).1⟩
  rw [markup_ignored.1 _ _ hspan, markup_ignored.1 _ _ hemph]

end ApiListing
