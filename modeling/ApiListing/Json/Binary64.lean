
namespace ApiListing

/-- The number `mantissa * 2 ^ exponent` with a sign. Zero has a sign too. -/
structure Binary64 where
  negative : Bool
  mantissa : Nat
  exponent : Int
  deriving DecidableEq, Repr

structure Decimal where
  digits : Nat
  exponent : Int
  deriving DecidableEq, Repr

def roundHalfEven (num den : Nat) : Nat :=
  let q := num / den
  let r := num % den
  if 2 * r < den || (2 * r = den && q % 2 = 0) then q else q + 1

def scale (base : Nat) (e : Int) (num den : Nat) : Nat × Nat :=
  if 0 ≤ e then (num * Nat.pow base e.toNat, den) else (num, den * Nat.pow base (-e).toNat)

namespace Binary64

def minExponent : Int := -1074

def maxExponent : Int := 971

def zero (negative : Bool) : Binary64 := ⟨negative, 0, minExponent⟩

def isZero (x : Binary64) : Bool := x.mantissa = 0

def neg (x : Binary64) : Binary64 := { x with negative := !x.negative }

def exponentFor (num den : Nat) : Int :=
  let e : Int := (num.log2 : Int) - den.log2 - 52
  let (n, d) := scale 2 (-e) num den
  max (if n < d * Nat.pow 2 52 then e - 1 else e) minExponent

/-- The number nearest to `num / den`, with the even mantissa of two; `none` if it is too large. -/
def round? (num den : Nat) : Option Binary64 :=
  if num = 0 then some (zero false)
  else
    let e := exponentFor num den
    let (n, d) := scale 2 (-e) num den
    let m := roundHalfEven n d
    let (m, e) := if m = Nat.pow 2 53 then (Nat.pow 2 52, e + 1) else (m, e)
    if maxExponent < e then none else some ⟨false, m, e⟩

def quotient (x : Binary64) : Nat × Nat := scale 2 x.exponent x.mantissa 1

def mul? (x y : Binary64) : Option Binary64 :=
  let (a, b) := x.quotient
  let (c, d) := y.quotient
  round? (a * c) (b * d)

def div? (x y : Binary64) : Option Binary64 :=
  let (a, b) := x.quotient
  let (c, d) := y.quotient
  round? (a * d) (b * c)

def leadingExponent (num den : Nat) : Int :=
  if den ≤ num then (Nat.toDigits 10 (num / den)).length - 1
  else -(Nat.toDigits 10 ((den + num - 1) / num - 1)).length

def onGrid? (x : Binary64) (p : Int) : Option Decimal :=
  let m := x.mantissa
  let below := if m = Nat.pow 2 52 && minExponent < x.exponent then 1 else 2
  let unit (quarters : Nat) : Nat × Nat :=
    let (n, d) := scale 2 (x.exponent - 2) quarters 1
    scale 10 (-p) n d
  let (low, d) := unit (4 * m - below)
  let (value, _) := unit (4 * m)
  let (high, _) := unit (4 * m + 2)
  let inside (k : Nat) : Bool :=
    if m % 2 = 0 then low ≤ k * d && k * d ≤ high else low < k * d && k * d < high
  let nearest := roundHalfEven value d
  let floor := value / d
  if inside nearest then some ⟨nearest, p⟩
  else if inside floor then some ⟨floor, p⟩
  else if inside (floor + 1) then some ⟨floor + 1, p⟩
  else none

def stripZeros : Nat → Decimal → Decimal
  | 0, d => d
  | fuel + 1, d =>
    if d.digits % 10 = 0 && d.digits ≠ 0 then stripZeros fuel ⟨d.digits / 10, d.exponent + 1⟩ else d

/-- The decimal with the fewest digits that rounds to `x`, the nearest of those. Seventeen digits
always suffice. -/
def shortest (x : Binary64) : Decimal :=
  if x.mantissa = 0 then ⟨0, 0⟩
  else
    let (n, d) := x.quotient
    let lead := leadingExponent n d
    match (List.range 17).findSome? fun (k : Nat) => x.onGrid? (lead - k) with
    | some decimal => stripZeros 17 decimal
    | none => ⟨n / d, 0⟩

end Binary64

end ApiListing
