import ApiListing.Braces.Boundary
import ApiListing.Text.Blank

namespace ApiListing

structure Braces where
  lead : Text
  content : Text
  deriving DecidableEq, Repr

namespace Braces

def text (b : Braces) : Text := b.lead ++ '{' :: b.content ++ ['}']

def onLine? (line : Text) : Option Braces :=
  match Text.spanBlanks line with
  | (blanks, '{' :: t) =>
    match t.reverse.dropWhile (· ≠ '}') with
    | [] => none
    | _ :: content => some ⟨blanks, content.reverse⟩
  | _ => none

def open? (boundary : Boundary) (indent lead t : Text) : Option Braces :=
  (boundary.close indent (t.drop (lead.length + 1))).map (⟨lead, ·⟩)

/-- A base clause `: B` or constraint clause `where …` at the start of the rest of a line. It
reaches up to the opening brace. -/
def clause (line : Text) : Text :=
  let t := Text.trimStart line
  if [':'].isPrefixOf t || "where ".toList.isPrefixOf t then line.takeWhile (· ≠ '{') else []

def below? (boundary : Boundary) (line t : Text) : Option Braces :=
  match Text.afterLine t with
  | none => none
  | some rest =>
    let next := Text.firstLine rest
    let trimmed := Text.trim next
    if trimmed = ['{'] then
      let indent := next.takeWhile Text.isSpace
      open? boundary indent (line ++ '\n' :: indent) t
    else if trimmed.head? = some '{' && trimmed.getLast? = some '}' then
      (onLine? next).map fun b => { b with lead := line ++ '\n' :: b.lead }
    else none

/-- The block that follows a declaration indented by `indent`, from the text behind its head: closed
on the same line, opened at its end, or opened alone on the next line. -/
def after? (boundary : Boundary) (indent t : Text) : Option Braces :=
  let line := Text.firstLine t
  let clause := clause line
  let rest := line.drop clause.length
  match onLine? rest with
  | some b => some { b with lead := clause ++ b.lead }
  | none =>
    let trimmed := Text.trimEnd rest
    if trimmed.getLast? = some '{' then
      open? boundary indent (clause ++ trimmed.dropLast) t
    else if Text.trimStart trimmed = [] then below? boundary line t
    else none

end Braces

end ApiListing
