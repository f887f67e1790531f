import ApiListing.Json.Reader

namespace ApiListing.Json

def maxSignificand : Nat := Nat.pow 2 64 - 1

def minInteger : Int := -Int.pow 2 63

/-- Appends digits to a significand as long as it fits 64 bits. Gives the new significand and how
many digits were appended. -/
def absorb (significand : Nat) : List Char → Nat × Nat
  | [] => (significand, 0)
  | c :: cs =>
    let more := significand * 10 + Text.digitValue c
    if more ≤ maxSignificand then
      let (s, n) := absorb more cs
      (s, n + 1)
    else (significand, 0)

def greatestPower : Nat := 308

def powerOfTen (n : Nat) : Binary64 := (Binary64.round? (Nat.pow 10 n) 1).getD (.zero false)

/-- `x * 10 ^ exponent`, rounded at each step; `none` if it is too large. -/
def scaled? (x : Binary64) (exponent : Int) : Option Binary64 :=
  if exponent.natAbs ≤ greatestPower then
    if 0 ≤ exponent then x.mul? (powerOfTen exponent.natAbs)
    else x.div? (powerOfTen exponent.natAbs)
  else if x.isZero then some x
  else if 0 ≤ exponent then none
  else (x.div? (powerOfTen greatestPower)).bind fun y => scaled? y (exponent + greatestPower)
termination_by exponent.natAbs
decreasing_by
  have : 0 < greatestPower := by decide
  omega

def floatOf (negative : Bool) (significand : Nat) (exponent : Int) : Reader Json := do
  match (Binary64.round? significand 1).bind fun x => scaled? x exponent with
  | some x => return .float (if negative then x.neg else x)
  | none => Reader.fail .numberOutOfRange .looked

namespace Reader

def peekDigit : Reader Bool := return (← peek).any Char.isDigit

def maxExponent : Nat := Nat.pow 2 31 - 1

/-- The digits of an exponent behind the first one. `none` stands for a number beyond the greatest,
of which the last digit read is the one that exceeds it. -/
def exponentDigits (value : Nat) : Bytes → Option Nat × Bytes
  | [] => (some value, [])
  | b :: rest =>
    if (charOf b).isDigit then
      let more := value * 10 + Text.digitValue (charOf b)
      if more ≤ maxExponent then exponentDigits more rest else (none, rest)
    else (some value, b :: rest)

def exponent (negative : Bool) (significand : Nat) (scale : Int) : Reader Json := do
  let sign ← peek
  if sign = some '+' || sign = some '-' then skip
  match ← next with
  | none => fail .endOfValue .read
  | some c =>
    if !c.isDigit then fail .invalidNumber .read
    else
      match exponentDigits (Text.digitValue c) (← get) with
      | (some n, rest) =>
        set rest
        floatOf negative significand (if sign = some '-' then scale - n else scale + n)
      | (none, rest) =>
        set rest
        if significand ≠ 0 && sign ≠ some '-' then fail .numberOutOfRange .read
        else
          discard (takeWhile Char.isDigit)
          return .float (.zero negative)

def isExponentLetter (c : Option Char) : Bool := c = some 'e' || c = some 'E'

def fraction (negative : Bool) (significand : Nat) (scale : Int) : Reader Json := do
  let digits ← takeWhile Char.isDigit
  if digits.isEmpty then
    if (← peek).isSome then fail .invalidNumber .next else fail .endOfValue .next
  else
    let (significand, n) := absorb significand digits
    if isExponentLetter (← peek) then
      skip
      exponent negative significand (scale - n)
    else floatOf negative significand (scale - n)

/-- Reads what follows the digits of a number before its point, of which `dropped` were too many for
the significand. A number without fraction and exponent that fits 64 bits is an integer; any other
one is computed in floating point from its leading digits and a power of ten. -/
def afterDigits (negative : Bool) (significand dropped : Nat) : Reader Json := do
  let c ← peek
  if c = some '.' then
    skip
    fraction negative significand dropped
  else if isExponentLetter c then
    skip
    exponent negative significand dropped
  else if dropped ≠ 0 then floatOf negative significand dropped
  else if !negative then return .int significand
  else if significand = 0 || -significand < minInteger then floatOf negative significand 0
  else return .int (-significand)

def number (negative : Bool) : Reader Json := do
  match ← next with
  | none => fail .endOfValue .read
  | some c =>
    if c = '0' then
      if ← peekDigit then fail .invalidNumber .next else afterDigits negative 0 0
    else if c.isDigit then
      let digits := c :: (← takeWhile Char.isDigit)
      let (significand, n) := absorb 0 digits
      afterDigits negative significand (digits.length - n)
    else fail .invalidNumber .read

end Reader

end ApiListing.Json
