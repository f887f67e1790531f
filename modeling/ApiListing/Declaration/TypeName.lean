import ApiListing.Declaration.Basic

namespace ApiListing

/-- One way to read the start of a text: what was read, and what follows. Since the brackets of
generic arguments may close at any `>`, some functions list all readings, the preferred one first.
-/
abbrev Reading := Text × Text

namespace Reading

def extend (read : Text) (r : Reading) : Reading := (read ++ r.1, r.2)

def upToAngle (inside : Char → Bool) : Text → List Reading
  | [] => []
  | c :: t =>
    let longer := if inside c then (upToAngle inside t).map (extend [c]) else []
    if c = '>' then ([c], t) :: longer else longer

def angles (inside : Char → Bool) : Text → List Reading
  | [] => []
  | c :: t => if c = '<' then (upToAngle inside t).map (extend [c]) else []

end Reading

open Reading

def isTypeChar (c : Char) : Bool := Text.isWordChar c || c = '.'

def isTypeArgument (c : Char) : Bool :=
  !(c = '(' || c = ')' || c = '=' || c = ';' || c = '{' || c = '}')

def isMethodArgument (c : Char) : Bool := !(c = '(' || c = ')')

def isRankChar (c : Char) : Bool := Text.isBlank c || c = ','

def rank? : Text → Option Reading
  | [] => none
  | c :: t =>
    if c = '[' then
      match t.dropWhile isRankChar with
      | ']' :: rest => some (c :: t.takeWhile isRankChar ++ [']'], rest)
      | _ => none
    else none

theorem length_lt_of_rank? {t : Text} {r : Reading} (h : rank? t = some r) :
    r.2.length < t.length := by
  unfold rank? at h
  split at h
  · simp at h
  · next c t =>
    split at h
    · split at h
      · next rest hd =>
        cases h
        have hs := congrArg List.length
          (List.takeWhile_append_dropWhile (p := isRankChar) (l := t))
        simp only [hd, List.length_append, List.length_cons] at hs ⊢
        omega
      · simp at h
    · simp at h

def ranks (t : Text) : Reading :=
  match h : rank? t with
  | none => ([], t)
  | some r =>
    have := length_lt_of_rank? h
    extend r.1 (ranks r.2)
termination_by t.length

def nullableMark : Text → Reading
  | '?' :: t => (['?'], t)
  | t => ([], t)

/-- The readings of a type: a dotted name, generic arguments that reach as far as they can, the
ranks of an array and the mark of a missing value. -/
def typeReadings : Text → List Reading
  | [] => []
  | c :: t =>
    if Text.isNameStart c then
      let name := c :: t.takeWhile isTypeChar
      let rest := t.dropWhile isTypeChar
      ((angles isTypeArgument rest).reverse ++ [([], rest)]).map fun (arguments, t) =>
        let (arrays, t) := ranks t
        let (mark, t) := nullableMark t
        (name ++ arguments ++ arrays ++ mark, t)
    else []

def isOperatorChar (c : Char) : Bool := !(Text.isSpace c || c = '(')

def operatorReadings (t : Text) : List Reading :=
  match Text.stripPrefix? "operator".toList t with
  | none => []
  | some t =>
    let (gap, t) := Text.spanBlanks t
    let symbol := t.takeWhile isOperatorChar
    (List.range symbol.length).reverse.map fun n =>
      ("operator".toList ++ gap ++ t.take (n + 1), t.drop (n + 1))

def methodNameReadings (t : Text) : List Reading :=
  operatorReadings t ++
    match Text.name? t with
    | none => []
    | some (name, rest) =>
      (angles isMethodArgument rest ++ [([], rest)]).map (extend name)

def indexer? (t : Text) : Option Reading :=
  match Text.stripPrefix? "this".toList t with
  | none => none
  | some t =>
    let (gap, t) := Text.spanBlanks t
    match t with
    | '[' :: t =>
      match t.dropWhile (· ≠ ']') with
      | [] => none
      | _ :: rest => some ("this".toList ++ gap ++ '[' :: t.takeWhile (· ≠ ']') ++ [']'], rest)
    | _ => none

def propertyName? (t : Text) : Option Reading := indexer? t <|> Text.name? t

/-- The rest of a parameter list behind its opening parenthesis. Parentheses may be nested once;
`nested` tells whether such an inner pair is open. -/
def closeParameters (nested : Bool) : Text → Option Reading
  | [] => none
  | c :: t =>
    let onwards (nested : Bool) := (closeParameters nested t).map (extend [c])
    if c = ')' then (if nested then onwards false else some ([c], t))
    else if c = '(' then (if nested then none else onwards true)
    else onwards nested

end ApiListing
