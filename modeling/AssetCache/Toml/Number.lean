import AssetCache.Decimal.Binary64

namespace AssetCache.Toml

open Decimal (Binary64)

def grouped? (isDigit : Char → Bool) : List Char → Option (List Char)
  | [] => none
  | [c] => if isDigit c then some [c] else none
  | c :: '_' :: rest => if isDigit c then (grouped? isDigit rest).map (c :: ·) else none
  | c :: rest => if isDigit c then (grouped? isDigit rest).map (c :: ·) else none

def digitOf (c : Char) : Nat :=
  if c.isDigit then c.toNat - '0'.toNat
  else if 'a' ≤ c then c.toNat - 'a'.toNat + 10
  else c.toNat - 'A'.toNat + 10

def valueIn (base : Nat) (ds : List Char) : Nat := ds.foldl (fun n d => n * base + digitOf d) 0

def isHexDigit (c : Char) : Bool :=
  c.isDigit || ('a' ≤ c && c ≤ 'f') || ('A' ≤ c && c ≤ 'F')

def isOctalDigit (c : Char) : Bool := '0' ≤ c && c ≤ '7'

def isBinaryDigit (c : Char) : Bool := c == '0' || c == '1'

def hasLeadingZero (ds : List Char) : Bool := ds.length != 1 && ds.head? == some '0'

def decimal? (cs : List Char) : Option (List Char) :=
  match grouped? Char.isDigit cs with
  | none => none
  | some ds => if hasLeadingZero ds then none else some ds

def splitSign : List Char → Bool × List Char
  | '-' :: cs => (true, cs)
  | '+' :: cs => (false, cs)
  | cs => (false, cs)

def bounded (n : Int) : Option Int :=
  if -(Nat.pow 2 63 : Nat) ≤ n ∧ n < (Nat.pow 2 63 : Nat) then some n else none

def based? (base : Nat) (isDigit : Char → Bool) (cs : List Char) : Option Int :=
  (grouped? isDigit cs).bind fun ds => bounded (valueIn base ds)

def int? : List Char → Option Int
  | '0' :: 'x' :: cs => based? 16 isHexDigit cs
  | '0' :: 'o' :: cs => based? 8 isOctalDigit cs
  | '0' :: 'b' :: cs => based? 2 isBinaryDigit cs
  | cs =>
    let (negative, ds) := splitSign cs
    (decimal? ds).bind fun ds =>
      let n : Int := valueIn 10 ds
      bounded (if negative then -n else n)

def isExponentMark (c : Char) : Bool := c == 'e' || c == 'E'

def exponent? (cs : List Char) : Option Int :=
  let (negative, ds) := splitSign cs
  (grouped? Char.isDigit ds).map fun ds =>
    let n : Int := valueIn 10 ds
    if negative then -n else n

/-- A float is a decimal with a fraction, an exponent or both. It may be too large for a double only
if it is negative. -/
def decimalFloat? (cs : List Char) : Option Binary64 := do
  let (negative, cs) := splitSign cs
  let mantissa := cs.takeWhile (!isExponentMark ·)
  let exponentPart := cs.dropWhile (!isExponentMark ·)
  let whole ← decimal? (mantissa.takeWhile (· != '.'))
  let fraction ← match mantissa.dropWhile (· != '.') with
    | [] => some []
    | _ :: ds => grouped? Char.isDigit ds
  let exponent ← match exponentPart with
    | [] => some 0
    | _ :: ds => exponent? ds
  if fraction.isEmpty && exponentPart.isEmpty then none
  let x := Binary64.ofDecimal negative (valueIn 10 (whole ++ fraction)) (exponent - fraction.length)
  if x = .infinite false then none else some x

def float? (cs : List Char) : Option Binary64 :=
  let (negative, body) := splitSign cs
  if body = "inf".toList then some (.infinite negative)
  else if body = "nan".toList then some .nan
  else decimalFloat? cs

end AssetCache.Toml
