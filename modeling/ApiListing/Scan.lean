import ApiListing.Member
import ApiListing.Summary

namespace ApiListing

/-- A listed declaration. The head leaves out its modifiers; `start` is the byte of the source at
which its line begins, `stop` the one behind it and its block. Lines are counted from one. -/
structure Record where
  summary? : Option Text
  visibility : Visibility
  isStatic : Bool
  modifiers : List Text
  kind : Kind
  head : Text
  block? : Option Text
  start : Nat
  stop : Nat
  line : Nat
  deriving DecidableEq, Repr

namespace Record

def declaration (r : Record) : Text :=
  r.visibility.word ++ [' '] ++ (if r.isStatic then "static ".toList else [])
    ++ (r.modifiers.map (· ++ [' '])).flatten ++ r.head

end Record

/-- The start of a line in a source: the bytes before it, its number, the whole line above, and the
lines back to the end of the last record, the nearest first. Of the line in which that record ends
the gap has only what stands behind it. -/
structure LineStart where
  offset : Nat
  line : Nat
  above? : Option Text
  gap : List Text

namespace LineStart

def first : LineStart := ⟨0, 1, none, []⟩

def advance (s : LineStart) (passed : Text) (gap : List Text) : LineStart where
  offset := s.offset + Text.byteSize passed + 1
  line := s.line + passed.count '\n' + 1
  above? := some (Text.lastLine passed)
  gap := gap

def summary? (s : LineStart) : Option Text :=
  Summary.condense (s.gap.takeWhile Summary.isDocLine).reverse

def record (s : LineStart) (m : Member) : Record where
  summary? := s.summary?
  visibility := m.declaration.visibility
  isStatic := m.declaration.isStatic
  modifiers := m.declaration.modifierWords
  kind := m.declaration.head.kind
  head := m.declaration.head.shown
  block? := m.braces?.map Braces.content
  start := s.offset
  stop := s.offset + Text.byteSize m.text
  line := s.line

end LineStart

/-- The records of a source from the start of a line on. Behind a listed member the scan goes on at
the next line that begins behind the member, so no member is found in the body of another. -/
def scanFrom (o : ScanOptions) (s : LineStart) (t : Text) : List Record :=
  let member? := Member.read? o s.above? t
  let passed := (member?.map Member.text).getD []
  let rest := t.drop passed.length
  let line := Text.firstLine rest
  let gap := line :: (if member?.isSome then [] else s.gap)
  let found := (member?.map s.record).toList
  match h : Text.afterLine rest with
  | none => found
  | some below =>
    have : below.length < t.length := Text.length_lt_of_afterLine_drop h
    found ++ scanFrom o (s.advance (passed ++ line) gap) below
termination_by t.length

def scan (o : ScanOptions) (source : Text) : List Record := scanFrom o .first source

end ApiListing
