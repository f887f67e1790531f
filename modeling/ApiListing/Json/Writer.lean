import ApiListing.Json.Number

namespace ApiListing.Json

def numberedEscape (c : Char) : Text :=
  "\\u".toList ++ Text.padded 4 (Text.hex c.toNat)

def charText (c : Char) : Text :=
  if c = '"' then "\\\"".toList
  else if c = '\\' then "\\\\".toList
  else if c = '\x08' then "\\b".toList
  else if c = '\x0c' then "\\f".toList
  else if c = '\n' then "\\n".toList
  else if c = '\r' then "\\r".toList
  else if c = '\t' then "\\t".toList
  else if c.toNat < 0x20 then numberedEscape c
  else [c]

def stringText (s : String) : Text := ['"'] ++ (s.toList.map charText).flatten ++ ['"']

mutual

def text : Json → Text
  | null => "null".toList
  | bool b => if b then "true".toList else "false".toList
  | int n => intText n
  | float x => floatText x
  | str s => stringText s
  | arr items => '[' :: itemsText items ++ [']']
  | obj fields => '\x7b' :: fieldsText fields ++ ['\x7d']

def itemsText : List Json → Text
  | [] => []
  | [v] => text v
  | v :: vs => text v ++ ',' :: itemsText vs

def fieldsText : List (String × Json) → Text
  | [] => []
  | [(k, v)] => stringText k ++ ':' :: text v
  | (k, v) :: fs => stringText k ++ ':' :: text v ++ ',' :: fieldsText fs

end

end ApiListing.Json
