import ApiListing.Json.Basic
import ApiListing.Text.Digits

namespace ApiListing.Json

def intText (n : Int) : Text :=
  if n < 0 then '-' :: Text.ofNat n.natAbs else Text.ofNat n.natAbs

def leastPositional : Int := -5

def greatestPositional : Int := 15

/-- The digits `ds` with the point behind the digit of exponent zero, when the first digit has
the exponent `lead`. -/
def positional (ds : Text) (lead : Int) : Text :=
  if lead < 0 then "0.".toList ++ List.replicate (-lead - 1).toNat '0' ++ ds
  else
    let whole := lead.toNat + 1
    if ds.length ≤ whole then ds ++ List.replicate (whole - ds.length) '0' ++ ".0".toList
    else ds.take whole ++ '.' :: ds.drop whole

def scientific (ds : Text) (lead : Int) : Text :=
  let fraction := if ds.length ≤ 1 then [] else '.' :: ds.drop 1
  ds.take 1 ++ fraction ++ 'e' :: (if lead < 0 then '-' else '+') :: Text.ofNat lead.natAbs

def floatText (x : Binary64) : Text :=
  let d := x.shortest
  let ds := Text.ofNat d.digits
  let lead := d.exponent + ds.length - 1
  let magnitude :=
    if leastPositional ≤ lead && lead ≤ greatestPositional then positional ds lead
    else scientific ds lead
  if x.negative then '-' :: magnitude else magnitude

end ApiListing.Json
