import ApiListing.Text.Basic

namespace ApiListing

/-- Where a reader of source text stands. It moves through comments, strings and characters one
character at a time, and a brace counts only where it is in code. -/
inductive Lexeme where
  | code
  | slash
  | atSign
  | lineComment
  | blockComment
  | star
  | string
  | stringEscape
  | verbatim
  /-- Behind a quote in a verbatim string: it ends the string unless another quote follows. -/
  | verbatimQuote
  | character
  | characterEscape
  deriving DecidableEq, Repr

namespace Lexeme

def isCode : Lexeme → Bool
  | code | slash | atSign | verbatimQuote => true
  | _ => false

def start (c : Char) : Lexeme :=
  if c = '/' then slash
  else if c = '@' then atSign
  else if c = '"' then string
  else if c = '\'' then character
  else code

def next : Lexeme → Char → Lexeme
  | code, c => start c
  | slash, c => if c = '/' then lineComment else if c = '*' then blockComment else start c
  | atSign, c => if c = '"' then verbatim else start c
  | verbatimQuote, c => if c = '"' then verbatim else start c
  | lineComment, c => if c = '\n' then code else lineComment
  | blockComment, c => if c = '*' then star else blockComment
  | star, c => if c = '/' then code else if c = '*' then star else blockComment
  | string, c =>
    if c = '\\' then stringEscape else if c = '"' || c = '\n' then code else string
  | stringEscape, _ => string
  | verbatim, c => if c = '"' then verbatimQuote else verbatim
  | character, c =>
    if c = '\\' then characterEscape else if c = '\'' || c = '\n' then code else character
  | characterEscape, _ => character

end Lexeme

end ApiListing
