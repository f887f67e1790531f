import ApiListing.Json.Reader

namespace ApiListing.Json

def hexDigit? (b : UInt8) : Option Nat :=
  let c := charOf b
  if c.isDigit then some (Text.digitValue c)
  else if 'a' ≤ c && c ≤ 'f' then some (c.toNat - 'a'.toNat + 10)
  else if 'A' ≤ c && c ≤ 'F' then some (c.toNat - 'A'.toNat + 10)
  else none

def hexNumber (s : Bytes) : Except Fault Nat :=
  match s with
  | a :: b :: c :: d :: rest =>
    match hexDigit? a, hexDigit? b, hexDigit? c, hexDigit? d with
    | some a, some b, some c, some d => .ok (((a * 16 + b) * 16 + c) * 16 + d)
    | _, _, _, _ => .error ⟨.invalidEscape, rest.length, .read⟩
  | _ => .error ⟨.endOfString, 0, .read⟩

def requireNext (c : Char) (s : Bytes) : Except Fault Unit :=
  match s with
  | [] => .error ⟨.endOfString, 0, .read⟩
  | b :: rest => if charOf b = c then .ok () else .error ⟨.endOfEscape, rest.length, .read⟩

def isLeadingSurrogate (n : Nat) : Bool := 0xD800 ≤ n && n ≤ 0xDBFF

def isTrailingSurrogate (n : Nat) : Bool := 0xDC00 ≤ n && n ≤ 0xDFFF

/-- The character of an escape behind `\u`, and how many octets it takes. A character above
U+FFFF is a pair of surrogates. -/
def unicodeEscape (s : Bytes) : Except Fault (Char × Nat) := do
  let n ← hexNumber s
  let s := s.drop 4
  if isTrailingSurrogate n then throw ⟨.loneSurrogate, s.length, .read⟩
  if isLeadingSurrogate n then
    requireNext '\\' s
    requireNext 'u' (s.drop 1)
    let m ← hexNumber (s.drop 2)
    if !isTrailingSurrogate m then throw ⟨.loneSurrogate, s.length - 6, .read⟩
    return (Char.ofNat ((n - 0xD800) * 0x400 + (m - 0xDC00) + 0x10000), 10)
  return (Char.ofNat n, 4)

def simpleEscape? (c : Char) : Option Char :=
  if c = '"' || c = '\\' || c = '/' then some c
  else if c = 'b' then some '\x08'
  else if c = 'f' then some '\x0c'
  else if c = 'n' then some '\n'
  else if c = 'r' then some '\r'
  else if c = 't' then some '\t'
  else none

def escape (s : Bytes) : Except Fault (Char × Nat) :=
  match s with
  | [] => .error ⟨.endOfString, 0, .read⟩
  | b :: rest =>
    match simpleEscape? (charOf b) with
    | some c => .ok (c, 1)
    | none =>
      if charOf b = 'u' then (unicodeEscape rest).map fun r => (r.1, r.2 + 1)
      else .error ⟨.invalidEscape, rest.length, .read⟩

def stringBytes (s : Bytes) : Except Fault (Bytes × Bytes) :=
  match s with
  | [] => .error ⟨.endOfString, 0, .read⟩
  | b :: rest =>
    if charOf b = '"' then .ok ([], rest)
    else if charOf b = '\\' then
      match escape rest with
      | .error e => .error e
      | .ok (c, n) =>
        (stringBytes (rest.drop n)).map fun r => (String.utf8EncodeChar c ++ r.1, r.2)
    else if b < 0x20 then .error ⟨.controlCharacter, rest.length, .read⟩
    else (stringBytes rest).map fun r => (b :: r.1, r.2)
termination_by s.length
decreasing_by
  · simp only [List.length_drop, List.length_cons]; omega
  · simp

def endOfCharacters (bytes : ByteArray) (start : Nat) : Nat → Nat
  | 0 => start
  | n + 1 =>
    match bytes.utf8DecodeChar? start with
    | some c => endOfCharacters bytes (start + c.utf8Size) n
    | none => start

namespace Reader

/-- Reads a string behind its opening quote. Octets that are not UTF-8 are at fault from the first
one on that belongs to no character. -/
def string : Reader String := fun s =>
  match stringBytes s with
  | .error e => .error e
  | .ok (octets, rest) =>
    let bytes : ByteArray := ⟨octets.toArray⟩
    match String.fromUTF8? bytes with
    | some t => .ok (t, rest)
    | none =>
      let wrong := bytes.size - endOfCharacters bytes 0 bytes.size
      .error ⟨.invalidCharacter, rest.length + wrong, .read⟩

end Reader

end ApiListing.Json
