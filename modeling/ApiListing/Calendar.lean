import ApiListing.Error
import ApiListing.Text.Blank
import ApiListing.Text.Digits

namespace ApiListing

def isLeapYear (year : Int) : Bool := year % 4 = 0 && (year % 100 ≠ 0 || year % 400 = 0)

def daysInMonth (year : Int) (month : Nat) : Nat :=
  if month = 2 then (if isLeapYear year then 29 else 28)
  else if month = 4 || month = 6 || month = 9 || month = 11 then 30
  else 31

/-- A date of the proleptic Gregorian calendar. -/
structure Date where
  year : Int
  month : Nat
  day : Nat
  deriving DecidableEq, Repr

namespace Date

def minYear : Int := -262143

def maxYear : Int := 262142

def isValid (d : Date) : Bool :=
  minYear ≤ d.year && d.year ≤ maxYear && 1 ≤ d.month && d.month ≤ 12 && 1 ≤ d.day
    && d.day ≤ daysInMonth d.year d.month

def digits? (width : Nat) (t : Text) : Option (Nat × Text) :=
  let ds := (t.take width).takeWhile Char.isDigit
  if ds.isEmpty then none else some (Text.natValue ds, t.drop ds.length)

def number? (width : Nat) (t : Text) : Option (Nat × Text) := digits? width (Text.trimStart t)

/-- A year behind white space. With a sign it may have any number of digits, else up to four. -/
def year? (t : Text) : Option (Int × Text) :=
  match Text.trimStart t with
  | '-' :: t => (digits? t.length t).map fun (n, t) => (-n, t)
  | '+' :: t => (digits? t.length t).map fun (n, t) => ((n : Int), t)
  | t => (digits? 4 t).map fun (n, t) => ((n : Int), t)

def hyphen? : Text → Option Text
  | '-' :: t => some t
  | _ => none

def ofText? (t : Text) : Option Date := do
  let (year, t) ← year? (Text.trim t)
  let (month, t) ← number? 2 (← hyphen? t)
  let (day, t) ← number? 2 (← hyphen? t)
  let date : Date := ⟨year, month, day⟩
  if t.isEmpty && date.isValid then some date else none

def read (t : Text) : Except Error Date :=
  match ofText? t with
  | some d => .ok d
  | none => .error (.invalidDate t)

def numberText (width n : Nat) : Text := Text.padded width (Text.ofNat n)

def yearText (year : Int) : Text :=
  if 0 ≤ year && year ≤ 9999 then numberText 4 year.natAbs
  else (if year < 0 then '-' else '+') :: numberText 4 year.natAbs

def text (d : Date) : Text :=
  yearText d.year ++ '-' :: numberText 2 d.month ++ '-' :: numberText 2 d.day

end Date

end ApiListing
