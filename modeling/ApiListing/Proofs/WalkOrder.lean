import ApiListing.Document.Visit
import ApiListing.Proofs.WalkLogs

namespace ApiListing

open EState

variable {σ : Type} {d : Document} {f : Filter}

namespace Content

/-- The content has the shape that a schema asks for. -/
inductive Shaped : Schema → Content → Prop
  | value {v : Json} : Shaped .value (.value v)
  | text {v : Json} : Shaped .text (.value v)
  | count {v : Json} : Shaped .count (.value v)
  | blocks {bs : List Block} : Shaped .blocks (.blocks bs)
  | list {item : Schema} {cs : List Content} (items : ∀ c ∈ cs, Shaped item c) :
      Shaped (.list item) (.list cs)
  | nil : Shaped (.tuple []) (.list [])
  | cons {item : Schema} {items : List Schema} {c : Content} {cs : List Content}
      (head : Shaped item c) (tail : Shaped (.tuple items) (.list cs)) :
      Shaped (.tuple (item :: items)) (.list (c :: cs))

section

variable {item : Schema} {items : List Schema} {c : Content} {cs : List Content}

theorem shaped_list_iff :
    c.Shaped (.list item) ↔ ∃ cs, c = .list cs ∧ ∀ c ∈ cs, c.Shaped item := by
  constructor
  · rintro (_ | _ | _ | _ | hitems)
    exact ⟨_, rfl, hitems⟩
  · rintro ⟨cs, rfl, hitems⟩
    exact .list hitems

theorem shaped_tuple_iff : c.Shaped (.tuple items) ↔
    ∃ cs, c = .list cs ∧ List.Forall₂ (fun item c => Shaped item c) items cs := by
  induction items generalizing c with
  | nil =>
      constructor
      · rintro ⟨⟩
        exact ⟨[], rfl, .nil⟩
      · rintro ⟨_, rfl, ⟨⟩⟩
        exact .nil
  | cons item items ih =>
      constructor
      · rintro (_ | _ | _ | _ | _ | _ | ⟨hhead, htail⟩)
        obtain ⟨_, hcs, htail⟩ := ih.1 htail
        cases hcs
        exact ⟨_, rfl, .cons hhead htail⟩
      · rintro ⟨_, rfl, _ | ⟨hhead, htail⟩⟩
        exact .cons hhead (ih.2 ⟨_, rfl, htail⟩)

theorem shaped_blocks_iff : c.Shaped .blocks ↔ ∃ bs, c = .blocks bs := by
  constructor
  · rintro ⟨⟩
    exact ⟨_, rfl⟩
  · rintro ⟨bs, rfl⟩
    exact .blocks

theorem shaped_of_replicate {n : Nat}
    (h : List.Forall₂ (fun item c => Shaped item c) (List.replicate n item) cs) :
    ∀ c ∈ cs, c.Shaped item := by
  induction n generalizing cs with
  | zero =>
      cases h
      exact List.forall_mem_nil _
  | succ n ih =>
      rw [List.replicate_succ] at h
      obtain _ | ⟨hhead, htail⟩ := h
      exact List.forall_mem_cons.2 ⟨hhead, ih htail⟩

theorem shaped_of_items? {s : Schema} (hitems : s.items? cs.length = some items)
    (h : List.Forall₂ (fun item c => Shaped item c) items cs) : (list cs).Shaped s := by
  cases s with
  | list item =>
      cases hitems
      exact shaped_list_iff.2 ⟨cs, rfl, shaped_of_replicate h⟩
  | tuple items' =>
      cases hitems
      exact shaped_tuple_iff.2 ⟨cs, rfl, h⟩
  | _ => cases hitems

theorem shaped_of_ofJson? {s : Schema} {v : Json} {c : Content} (h : ofJson? s v = some c) :
    c.Shaped s := by
  match c with
  | .value w =>
      cases s with
      | value => exact .value
      | text => exact .text
      | count => exact .count
      | _ => cases v <;> simp [ofJson?] at h
  | .blocks bs =>
      obtain ⟨_, -, rfl, -⟩ := ofJson?_eq_blocks_iff.1 h
      exact .blocks
  | .list cs =>
      obtain ⟨items, vs, rfl, hitems, htuple⟩ := ofJson?_eq_list_iff.1 h
      have hshaped : List.Forall₂ (fun item c => Shaped item c) items cs :=
        forall₂_of_ofTuple? htuple fun v hv s c hc =>
          have := Json.sizeOf_lt_of_mem hv
          shaped_of_ofJson? hc
      refine shaped_of_items? ?_ hshaped
      rw [← hshaped.length_eq]
      exact Schema.items?_length hitems
termination_by sizeOf v

theorem offered_of_value (h : c.Shaped .value) : c.offered = [] := by
  cases h
  rfl

theorem offered_of_text (h : c.Shaped .text) : c.offered = [] := by
  cases h
  rfl

theorem offered_of_count (h : c.Shaped .count) : c.offered = [] := by
  cases h
  rfl

theorem offeredOf_eq_flatMap (cs : List Content) : offeredOf cs = cs.flatMap offered := by
  induction cs with
  | nil => rfl
  | cons c cs ih => rw [offeredOf, ih, List.flatMap_cons]

theorem offered_of_items (h : c.Shaped (.list item))
    (hitem : ∀ c : Content, c.Shaped item → c.offered = []) : c.offered = [] := by
  obtain ⟨cs, rfl, hitems⟩ := shaped_list_iff.1 h
  rw [offered, offeredOf_eq_flatMap, List.flatMap_eq_nil_iff]
  exact fun c hc => hitem c (hitems c hc)

theorem offered_of_attr (h : c.Shaped .attr) : c.offered = [] := by
  obtain ⟨_, rfl, _ | ⟨hidentifier, _ | ⟨hclasses, _ | ⟨hpairs, ⟨⟩⟩⟩⟩⟩ := shaped_tuple_iff.1 h
  have hpair : ∀ c : Content, c.Shaped (.tuple [.text, .text]) → c.offered = [] := by
    intro c hc
    obtain ⟨_, rfl, _ | ⟨hkey, _ | ⟨hvalue, ⟨⟩⟩⟩⟩ := shaped_tuple_iff.1 hc
    simp [offered, offeredOf, offered_of_text hkey, offered_of_text hvalue]
  simp [offered, offeredOf, offered_of_text hidentifier,
    offered_of_items hclasses fun _ => offered_of_text, offered_of_items hpairs hpair]

def ofBlocks : Content → List (List Block)
  | .blocks bs => [bs]
  | _ => []

def ofCaption : Content → List (List Block)
  | .list [_, .blocks bs] => [bs]
  | _ => []

def ofDefinition : Content → List (List Block)
  | .list [_, .list definitions] => definitions.flatMap ofBlocks
  | _ => []

def ofCell : Content → List (List Block)
  | .list [_, _, _, _, .blocks bs] => [bs]
  | _ => []

def ofRow : Content → List (List Block)
  | .list [_, .list cells] => cells.flatMap ofCell
  | _ => []

def ofRows : Content → List (List Block)
  | .list [_, .list rows] => rows.flatMap ofRow
  | _ => []

def ofBody : Content → List (List Block)
  | .list [_, _, .list head, .list rows] => head.flatMap ofRow ++ rows.flatMap ofRow
  | _ => []

theorem offered_of_blocks (h : c.Shaped .blocks) :
    c.offered = c.ofBlocks.flatMap Block.offeredOf := by
  obtain ⟨bs, rfl⟩ := shaped_blocks_iff.1 h
  exact (List.append_nil _).symm

theorem offeredOf_items {lists : Content → List (List Block)} (hcs : ∀ c ∈ cs, c.Shaped item)
    (hitem : ∀ c : Content, c.Shaped item → c.offered = (lists c).flatMap Block.offeredOf) :
    offeredOf cs = (cs.flatMap lists).flatMap Block.offeredOf := by
  rw [offeredOf_eq_flatMap, List.flatMap_assoc]
  exact List.flatMap_congr fun c hc => hitem c (hcs c hc)

theorem offered_of_caption (h : c.Shaped .caption) :
    c.offered = c.ofCaption.flatMap Block.offeredOf := by
  obtain ⟨_, rfl, _ | ⟨hshort, _ | ⟨hblocks, ⟨⟩⟩⟩⟩ := shaped_tuple_iff.1 h
  obtain ⟨bs, rfl⟩ := shaped_blocks_iff.1 hblocks
  simp [ofCaption, offered, offeredOf, offered_of_value hshort]

theorem offered_of_definition (h : c.Shaped (.tuple [.list .value, .list .blocks])) :
    c.offered = c.ofDefinition.flatMap Block.offeredOf := by
  obtain ⟨_, rfl, _ | ⟨hterm, _ | ⟨hlist, ⟨⟩⟩⟩⟩ := shaped_tuple_iff.1 h
  obtain ⟨definitions, rfl, hdefinitions⟩ := shaped_list_iff.1 hlist
  simp [ofDefinition, offered, offeredOf, offered_of_items hterm fun _ => offered_of_value,
    offeredOf_items hdefinitions fun _ => offered_of_blocks]

theorem offered_of_cell (h : c.Shaped .cell) : c.offered = c.ofCell.flatMap Block.offeredOf := by
  obtain ⟨_, rfl, _ | ⟨hattr, _ | ⟨halignment, _ | ⟨hrows, _ | ⟨hcolumns, _ | ⟨hblocks, ⟨⟩⟩⟩⟩⟩⟩⟩ :=
    shaped_tuple_iff.1 h
  obtain ⟨bs, rfl⟩ := shaped_blocks_iff.1 hblocks
  simp [ofCell, offered, offeredOf, offered_of_attr hattr, offered_of_value halignment,
    offered_of_count hrows, offered_of_count hcolumns]

theorem offered_of_row (h : c.Shaped .row) : c.offered = c.ofRow.flatMap Block.offeredOf := by
  obtain ⟨_, rfl, _ | ⟨hattr, _ | ⟨hlist, ⟨⟩⟩⟩⟩ := shaped_tuple_iff.1 h
  obtain ⟨cells, rfl, hcells⟩ := shaped_list_iff.1 hlist
  simp [ofRow, offered, offeredOf, offered_of_attr hattr,
    offeredOf_items hcells fun _ => offered_of_cell]

theorem offered_of_rows (h : c.Shaped .rows) : c.offered = c.ofRows.flatMap Block.offeredOf := by
  obtain ⟨_, rfl, _ | ⟨hattr, _ | ⟨hlist, ⟨⟩⟩⟩⟩ := shaped_tuple_iff.1 h
  obtain ⟨rows, rfl, hrows⟩ := shaped_list_iff.1 hlist
  simp [ofRows, offered, offeredOf, offered_of_attr hattr,
    offeredOf_items hrows fun _ => offered_of_row]

theorem offered_of_body (h : c.Shaped .body) : c.offered = c.ofBody.flatMap Block.offeredOf := by
  obtain ⟨_, rfl, _ | ⟨hattr, _ | ⟨hcolumns, _ | ⟨hheadList, _ | ⟨hlist, ⟨⟩⟩⟩⟩⟩⟩ :=
    shaped_tuple_iff.1 h
  obtain ⟨head, rfl, hhead⟩ := shaped_list_iff.1 hheadList
  obtain ⟨rows, rfl, hrows⟩ := shaped_list_iff.1 hlist
  simp [ofBody, offered, offeredOf, offered_of_attr hattr, offered_of_value hcolumns,
    offeredOf_items hhead fun _ => offered_of_row, offeredOf_items hrows fun _ => offered_of_row]

end

end Content

/-- The block lists of a container in the order of the walk. -/
def Container.lists : Container → Content → List (List Block)
  | .blockQuote, body => body.ofBlocks
  | .div, .list [_, body] => body.ofBlocks
  | .bulletList, .list items => items.flatMap Content.ofBlocks
  | .orderedList, .list [_, .list items] => items.flatMap Content.ofBlocks
  | .definitionList, .list items => items.flatMap Content.ofDefinition
  | .figure, .list [_, caption, body] => caption.ofCaption ++ body.ofBlocks
  | .table, .list [_, caption, _, head, .list bodies, foot] =>
    caption.ofCaption ++ head.ofRows ++ bodies.flatMap Content.ofBody ++ foot.ofRows
  | _, _ => []

open Content in
theorem Container.offered_eq_lists (kind : Container) {content : Content}
    (h : content.Shaped kind.schema) :
    content.offered = (kind.lists content).flatMap Block.offeredOf := by
  cases kind with
  | blockQuote => exact offered_of_blocks h
  | div =>
      obtain ⟨_, rfl, _ | ⟨hattr, _ | ⟨hbody, ⟨⟩⟩⟩⟩ := shaped_tuple_iff.1 h
      simp [lists, offered, offeredOf, offered_of_attr hattr, offered_of_blocks hbody]
  | bulletList =>
      obtain ⟨items, rfl, hitems⟩ := shaped_list_iff.1 h
      exact offeredOf_items hitems fun _ => offered_of_blocks
  | orderedList =>
      obtain ⟨_, rfl, _ | ⟨hattr, _ | ⟨hlist, ⟨⟩⟩⟩⟩ := shaped_tuple_iff.1 h
      obtain ⟨items, rfl, hitems⟩ := shaped_list_iff.1 hlist
      simp [lists, offered, offeredOf, offered_of_value hattr,
        offeredOf_items hitems fun _ => offered_of_blocks]
  | definitionList =>
      obtain ⟨items, rfl, hitems⟩ := shaped_list_iff.1 h
      exact offeredOf_items hitems fun _ => offered_of_definition
  | figure =>
      obtain ⟨_, rfl, _ | ⟨hattr, _ | ⟨hcaption, _ | ⟨hbody, ⟨⟩⟩⟩⟩⟩ := shaped_tuple_iff.1 h
      simp [lists, offered, offeredOf, offered_of_attr hattr, offered_of_caption hcaption,
        offered_of_blocks hbody]
  | table =>
      obtain ⟨_, rfl, _ | ⟨hattr, _ | ⟨hcaption, _ | ⟨hcolumns, _ | ⟨hhead, _ | ⟨hlist, _ |
        ⟨hfoot, ⟨⟩⟩⟩⟩⟩⟩⟩⟩ := shaped_tuple_iff.1 h
      obtain ⟨bodies, rfl, hbodies⟩ := shaped_list_iff.1 hlist
      simp [lists, offered, offeredOf, offered_of_attr hattr, offered_of_caption hcaption,
        offered_of_items hcolumns fun _ => offered_of_value, offered_of_rows hhead,
        offeredOf_items hbodies fun _ => offered_of_body, offered_of_rows hfoot]

namespace Block

theorem offeredOf_eq_flatMap (bs : List Block) : offeredOf bs = bs.flatMap offered := by
  induction bs with
  | nil => rfl
  | cons b bs ih => rw [offeredOf, ih, List.flatMap_cons]

def isRaw : Block → Bool
  | raw _ _ => true
  | _ => false

def isCode : Block → Bool
  | code _ _ => true
  | _ => false

theorem isContainer_of_isRaw {b : Block} (h : b.isRaw = true) : b.isContainer = false := by
  cases b with
  | raw format text => rfl
  | _ => cases h

theorem isContainer_of_isCode {b : Block} (h : b.isCode = true) : b.isContainer = false := by
  cases b with
  | code attr text => rfl
  | _ => cases h

theorem graftOf_none (n : Nat) (bs : List Block) : graftOf (fun _ => none) n bs = bs := by
  have hkeep : (Action.keep : Action Unit).Observes fun s _ => s := fun _ _ => rfl
  obtain ⟨log, hlog⟩ := walkBlocks_logs (walkBlocks_observes hkeep bs ())
  exact (hlog.grafted _ n fun i o ho => hlog.answers.answer_eq (List.mem_of_getElem? ho) rfl).symm

end Block

structure Offer.SplitsRaw (o : Offer σ) : Prop where
  raw : o.block.isRaw = true → ∀ b ∈ o.answer, b.isCode
  keep : o.block.isRaw = false → o.answer = [o.block]

namespace Filter

/-- A filter that keeps every block and the document. What it remembers is free. -/
structure KeepsAll (f : Filter) : Prop where
  prepare : ∀ d, f.prepare d = d
  action : ∀ b s, ∃ t, f.action b s = .ok [b] (t, s.2)

/-- A filter that puts code blocks in the place of raw blocks and keeps every other block. -/
structure SplitsRaw (f : Filter) : Prop where
  prepare : ∀ d, (f.prepare d).blocks = d.blocks
  raw : ∀ b s, b.isRaw = true → ∃ codes t, f.action b s = .ok codes t ∧ ∀ a ∈ codes, a.isCode
  keep : ∀ b s, b.isRaw = false → ∃ t, f.action b s = .ok [b] t

theorem KeepsAll.apply (h : f.KeepsAll) (d : Document) : f.apply d = .ok () d ∧
    (f.offers d).map Offer.block = Block.offeredOf d.blocks ∧
    ∀ o ∈ f.offers d, o.state.2.blocks = [] := by
  have htotal : ∀ b s, ∃ answer t, f.action b s = .ok answer t := fun b s =>
    have ⟨t, hact⟩ := h.action b s
    ⟨[b], _, hact⟩
  obtain ⟨bs, t, happly, hlogs⟩ := f.exists_logs htotal d
  rw [h.prepare] at hlogs
  have hanswer : ∀ o ∈ f.offers d, o.answer = [o.block] := by
    intro o ho
    obtain ⟨_, hact⟩ := h.action o.block o.state
    exact hlogs.answers.answer_eq ho hact
  have hdocument : ∀ b s answer t, s.2 = { d with blocks := [] } →
      f.action b s = .ok answer t → t.2 = { d with blocks := [] } := by
    intro b s answer t hs hact
    obtain ⟨_, hkeep⟩ := h.action b s
    cases hkeep.symm.trans hact
    exact hs
  have hstart : (f.start d).2 = { d with blocks := [] } := by rw [start, h.prepare]
  obtain ⟨hstates, hlast⟩ := hlogs.answers.forall_state hdocument hstart
  have hbs : bs = d.blocks := by
    rw [hlogs.grafted (fun _ => none) 0 fun i o ho => hanswer o (List.mem_of_getElem? ho),
      Block.graftOf_none]
  refine ⟨?_, ?_, fun o ho => by rw [hstates o ho]⟩
  · rw [happly, hlast, hbs]
  · have hlisted := hlogs.listed fun o ho => .inl (hanswer o ho)
    rw [hbs] at hlisted
    rw [hlisted, List.map_eq_flatMap]
    exact List.flatMap_congr fun o ho => (hanswer o ho).symm

/-- The blocks that a filter puts in the place of raw blocks, by the places of these in the walk. -/
def rawAnswers (f : Filter) (d : Document) : Grafts := fun i =>
  ((f.offers d)[i]?.filter fun o => o.block.isRaw).map Offer.answer

theorem SplitsRaw.apply (h : f.SplitsRaw) (d : Document) : ∃ d', f.apply d = .ok () d' ∧
    List.Forall₂ Block.SameNode (Block.offeredOf d.blocks) ((f.offers d).map Offer.block) ∧
    (∀ o ∈ f.offers d, o.SplitsRaw) ∧
    Block.offeredOf d'.blocks = (f.offers d).flatMap Offer.answer ∧
    d'.blocks = Block.graftOf (f.rawAnswers d) 0 d.blocks := by
  have htotal : ∀ b s, ∃ answer t, f.action b s = .ok answer t := by
    intro b s
    cases hb : b.isRaw with
    | false =>
        obtain ⟨t, hact⟩ := h.keep b s hb
        exact ⟨_, t, hact⟩
    | true =>
        obtain ⟨codes, t, hact, -⟩ := h.raw b s hb
        exact ⟨codes, t, hact⟩
  obtain ⟨bs, t, happly, hlogs⟩ := f.exists_logs htotal d
  rw [h.prepare] at hlogs
  have hsplits : ∀ o ∈ f.offers d, o.SplitsRaw := by
    intro o ho
    refine ⟨fun hb => ?_, fun hb => ?_⟩
    · obtain ⟨codes, _, hact, hcodes⟩ := h.raw o.block o.state hb
      rwa [hlogs.answers.answer_eq ho hact]
    · obtain ⟨_, hact⟩ := h.keep o.block o.state hb
      exact hlogs.answers.answer_eq ho hact
  refine ⟨_, happly, hlogs.sameNodes, hsplits, hlogs.listed fun o ho => ?_,
    hlogs.grafted _ _ fun i o ho => ?_⟩
  · cases hb : o.block.isRaw with
    | false => exact .inl ((hsplits o ho).keep hb)
    | true =>
        exact .inr ⟨Block.isContainer_of_isRaw hb,
          fun b hcode => Block.isContainer_of_isCode ((hsplits o ho).raw hb b hcode)⟩
  · rw [Nat.zero_add, rawAnswers, ho, Option.filter_some]
    cases hb : o.block.isRaw with
    | false => exact (hsplits o (List.mem_of_getElem? ho)).keep hb
    | true => rfl

theorem recorder_keepsAll : recorder.KeepsAll :=
  ⟨fun _ => rfl, fun b s => ⟨(recorded s b).1, rfl⟩⟩

theorem splitRaw_splitsRaw (mark : Text) : (splitRaw mark).SplitsRaw where
  prepare _ := rfl
  raw b s hb := by
    cases b with
    | raw format text => exact ⟨_, s, rfl, List.forall_mem_map.2 fun t _ => rfl⟩
    | _ => cases hb
  keep b s hb := by
    cases b with
    | raw format text => cases hb
    | _ => exact ⟨s, rfl⟩

end Filter

/-- A walk offers the leaves of a document and, behind what it holds, every container, in the order
of the text. -/
theorem Document.walk_in_order (d : Document) :
    (∀ b : Block, b.isContainer = false → b.offered = [b]) ∧
    (∀ (kind : Container) (v : Json) (content : Content),
      Content.ofJson? kind.schema v = some content → content.Shaped kind.schema) ∧
    (∀ (kind : Container) (content : Content), content.Shaped kind.schema →
      (Block.container kind content).offered =
        (kind.lists content).flatMap (·.flatMap Block.offered) ++ [.container kind content]) ∧
    (∀ f : Filter, f.KeepsAll → f.apply d = .ok () d ∧
      (f.offers d).map Offer.block = d.blocks.flatMap Block.offered ∧
      ∀ o ∈ f.offers d, o.state.2.blocks = []) ∧
    ∀ f : Filter, f.SplitsRaw → ∃ d', f.apply d = .ok () d' ∧
      List.Forall₂ Block.SameNode (d.blocks.flatMap Block.offered)
        ((f.offers d).map Offer.block) ∧
      (∀ o ∈ f.offers d, o.SplitsRaw) ∧
      d'.blocks.flatMap Block.offered = (f.offers d).flatMap Offer.answer ∧
      d'.blocks = Block.graftOf (f.rawAnswers d) 0 d.blocks := by
  have hoffered : Block.offeredOf = List.flatMap Block.offered := funext Block.offeredOf_eq_flatMap
  refine ⟨fun b hb => Block.offered_of_leaf hb, fun _ _ _ => Content.shaped_of_ofJson?,
    fun kind content hshaped => ?_, fun f h => ?_, fun f h => ?_⟩
  · rw [Block.offered, kind.offered_eq_lists hshaped, hoffered]
  · rw [← hoffered]
    exact h.apply d
  · obtain ⟨d', happly, hrest⟩ := h.apply d
    rw [hoffered] at hrest
    exact ⟨d', happly, hrest⟩

def Content.figure (caption body : List Block) : Content :=
  .list [.list [.value (.str ""), .list [], .list []], .list [.value .null, .blocks caption],
    .blocks body]

theorem Content.shaped_figure (caption body : List Block) :
    (Content.figure caption body).Shaped Container.figure.schema := by
  have hattr : Shaped .attr (.list [.value (.str ""), .list [], .list []]) :=
    .cons .text (.cons (.list (by simp)) (.cons (.list (by simp)) .nil))
  exact .cons hattr (.cons (.cons .value (.cons .blocks .nil)) (.cons .blocks .nil))

theorem Document.walk_in_order_figure :
    let word : Block := .other (.str "word")
    let figure : Block := .container .figure (.figure [.raw "html" "a-b"] [word, .raw "html" "c"])
    let codes := ["a", "b", "c"].map (Block.code (.ofClasses []))
    let figure' : Block := .container .figure (.figure (codes.take 2) (word :: codes.drop 2))
    let d : Document := ⟨[1], [], [figure]⟩
    figure.offered = [.raw "html" "a-b", word, .raw "html" "c", figure] ∧
      Filter.recorder.apply d = .ok () d ∧
      (Filter.splitRaw ['-']).apply d = .ok () ⟨[1], [], [figure']⟩ ∧
      ((Filter.splitRaw ['-']).offers d).flatMap Offer.answer =
        codes.take 2 ++ word :: codes.drop 2 ++ [figure'] := by
  intro word figure codes figure' d
  obtain ⟨-, -, hshape, hkeep, hsplit⟩ := Document.walk_in_order d
  obtain ⟨d', happly, -, -, hlisted, -⟩ := hsplit _ (Filter.splitRaw_splitsRaw ['-'])
  have hd' : (Filter.splitRaw ['-']).apply d = .ok () ⟨[1], [], [figure']⟩ := by
    let split (text : String) : List Block := (Text.parts ['-'] text.toList).map fun t =>
      .code (.ofClasses []) (String.ofList t)
    have hsplit : (Filter.splitRaw ['-']).apply d = .ok () ⟨[1], [], [.container .figure
        (.figure (split "a-b" ++ []) (word :: (split "c" ++ [])))]⟩ := rfl
    have hcaption : Text.parts ['-'] "a-b".toList = [['a'], ['b']] := by decide +kernel
    have hbody : Text.parts ['-'] "c".toList = [['c']] := by decide +kernel
    unfold split at hsplit
    rw [hsplit, hcaption, hbody]
    rfl
  obtain rfl : d' = ⟨[1], [], [figure']⟩ := (EStateM.Result.ok.inj (happly.symm.trans hd')).2
  refine ⟨?_, (hkeep _ Filter.recorder_keepsAll).1, happly, hlisted.symm⟩
  rw [hshape _ _ (Content.shaped_figure _ _)]
  rfl

end ApiListing
