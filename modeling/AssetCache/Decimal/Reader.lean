import AssetCache.Decimal.Binary64
import AssetCache.Text.Letter

namespace AssetCache.Decimal

def splitSign : List Char → Bool × List Char
  | '-' :: cs => (true, cs)
  | '+' :: cs => (false, cs)
  | cs => (false, cs)

def digitsValue (ds : List Char) : Nat := ds.foldl (fun n d => n * 10 + (d.toNat - '0'.toNat)) 0

def digits? (ds : List Char) : Option Nat :=
  if !ds.isEmpty && ds.all Char.isDigit then some (digitsValue ds) else none

def int64? (s : String) : Option Int :=
  let (negative, ds) := splitSign s.toList
  match digits? ds with
  | none => none
  | some n =>
    let n : Int := if negative then -n else n
    if -(Nat.pow 2 63 : Nat) ≤ n ∧ n < (Nat.pow 2 63 : Nat) then some n else none

def nat64? (s : String) : Option Nat :=
  let ds := match s.toList with
    | '+' :: cs => cs
    | cs => cs
  match digits? ds with
  | none => none
  | some n => if n < Nat.pow 2 64 then some n else none

def exponent? : List Char → Option Int
  | [] => some 0
  | _ :: cs =>
    let (negative, ds) := splitSign cs
    (digits? ds).map fun n => if negative then -n else n

def decimal? (negative : Bool) (cs : List Char) : Option Binary64 :=
  let isMark := fun c : Char => c == 'e' || c == 'E'
  let mantissa := cs.takeWhile (!isMark ·)
  let whole := mantissa.takeWhile (· != '.')
  let fraction := (mantissa.dropWhile (· != '.')).drop 1
  match digits? (whole ++ fraction), exponent? (cs.dropWhile (!isMark ·)) with
  | some n, some e => some (.ofDecimal negative n (e - fraction.length))
  | _, _ => none

/-- A double as a decimal or by name, in any case. -/
def Binary64.ofText? (s : String) : Option Binary64 :=
  let (negative, cs) := splitSign s.toList
  let word := Text.lower cs
  if word = "inf".toList ∨ word = "infinity".toList then some (.infinite negative)
  else if word = "nan".toList then some .nan
  else decimal? negative cs

end AssetCache.Decimal
