import ApiListing.Text.Basic

namespace ApiListing.Text

def ofNat (n : Nat) : Text := Nat.toDigits 10 n

def hex (n : Nat) : Text := Nat.toDigits 16 n

def padded (width : Nat) (ds : Text) : Text := List.replicate (width - ds.length) '0' ++ ds

def digitValue (c : Char) : Nat := c.toNat - '0'.toNat

def natValue (ds : Text) : Nat := ds.foldl (fun n c => n * 10 + digitValue c) 0

end ApiListing.Text
