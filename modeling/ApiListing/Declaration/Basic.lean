import ApiListing.Text.Blank
import ApiListing.Text.Letter

namespace ApiListing

inductive Visibility where
  | everyone
  | owner
  | heirs
  deriving DecidableEq, Repr

namespace Visibility

def word : Visibility → Text
  | everyone => "public".toList
  | owner => "private".toList
  | heirs => "protected".toList

def all : List Visibility := [everyone, owner, heirs]

def ofWord? (w : Text) : Option Visibility := all.find? fun v => v.word = w

end Visibility

inductive Kind where
  | method
  | enum
  | property
  deriving DecidableEq, Repr

/-- What stands behind a method's name: its parameters in parentheses, or the value of a member
that is computed by an expression. -/
inductive Signature where
  | parameters (text : Text)
  | expression (text : Text)
  deriving DecidableEq, Repr

inductive Head where
  | method (type gap name trail : Text) (signature : Signature)
  | enum (gap name : Text)
  | property (type gap name : Text)
  deriving DecidableEq, Repr

structure Modifier where
  word : Text
  gap : Text
  deriving DecidableEq, Repr

structure Declaration where
  indent : Text
  visibility : Visibility
  gap : Text
  /-- The word `static` in its own place, right behind the visibility. -/
  static? : Option Modifier
  modifiers : List Modifier
  head : Head
  deriving DecidableEq, Repr

namespace Signature

def text : Signature → Text
  | parameters t => t
  | expression t => "=>".toList ++ t

end Signature

namespace Head

def kind : Head → Kind
  | method .. => .method
  | enum .. => .enum
  | property .. => .property

def text : Head → Text
  | method type gap name trail signature => type ++ gap ++ name ++ trail ++ signature.text
  | enum gap name => "enum".toList ++ gap ++ name
  | property type gap name => type ++ gap ++ name

def typeDefinitionWords : List Text :=
  ["class", "struct", "interface", "record", "delegate", "namespace"].map String.toList

def isTypeDefinitionWord (w : Text) : Bool := typeDefinitionWords.contains w

/-- A type definition reads like a member whose type is the word that opens it. -/
def isTypeDefinition : Head → Bool
  | method type .. => isTypeDefinitionWord type
  | enum .. => false
  | property type .. => isTypeDefinitionWord type

/-- The declaration as a listing shows it: without spaces behind it and, where it ends in an
expression, without the semicolon that closes it. -/
def shown (h : Head) : Text :=
  let t := Text.trimEnd h.text
  match h with
  | method _ _ _ _ (.expression _) =>
    if t.getLast? = some ';' then Text.trimEnd t.dropLast else t
  | _ => t

end Head

namespace Modifier

def text (m : Modifier) : Text := m.word ++ m.gap

end Modifier

namespace Declaration

def modifiersText (d : Declaration) : Text :=
  (d.modifiers.map Modifier.text).flatten

/-- The characters that the declaration was read from, of which its pieces keep every one. -/
def text (d : Declaration) : Text :=
  d.indent ++ d.visibility.word ++ d.gap ++ (d.static?.map Modifier.text).getD []
    ++ d.modifiersText ++ d.head.text

def isStatic (d : Declaration) : Bool := d.static?.isSome

def modifierWords (d : Declaration) : List Text := d.modifiers.map Modifier.word

end Declaration

end ApiListing
