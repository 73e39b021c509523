namespace AssetCache.Decimal

/-- A finite value is `mantissa * 2 ^ exponent`; the exponent is the least one possible, but not
below -1074. What is computed is the exact result, rounded to the nearest double, to the even one of
two. -/
inductive Binary64 where
  | nan
  | infinite (negative : Bool)
  | finite (negative : Bool) (mantissa : Nat) (exponent : Int)
deriving DecidableEq, Repr

def roundDiv (n d : Nat) : Nat :=
  let q := n / d
  let twice := 2 * (n % d)
  if twice < d then q
  else if d < twice then q + 1
  else if q % 2 = 0 then q
  else q + 1

def roundAt (n d : Nat) (exponent : Int) : Nat :=
  if 0 ≤ exponent then roundDiv n (d * Nat.pow 2 exponent.toNat)
  else roundDiv (n * Nat.pow 2 (-exponent).toNat) d

namespace Binary64

def zero : Binary64 := finite false 0 (-1074)

def ofRounded (negative : Bool) (mantissa : Nat) (exponent : Int) : Binary64 :=
  let (mantissa, exponent) :=
    if mantissa = Nat.pow 2 53 then (Nat.pow 2 52, exponent + 1) else (mantissa, exponent)
  if 971 < exponent then infinite negative else finite negative mantissa exponent

def exponentOf (n d : Nat) : Int :=
  let size : Int := (Nat.log2 n : Int) - (Nat.log2 d : Int)
  let isSmaller :=
    if 0 ≤ size then n < d * Nat.pow 2 size.toNat else n * Nat.pow 2 (-size).toNat < d
  max (-1074) ((if isSmaller then size - 1 else size) - 52)

def ofRatio (negative : Bool) (n d : Nat) : Binary64 :=
  if n = 0 then finite negative 0 (-1074)
  else
    let e := exponentOf n d
    ofRounded negative (roundAt n d e) e

def ofDecimal (negative : Bool) (mantissa : Nat) (exponent : Int) : Binary64 :=
  let digits : Int := (Nat.toDigits 10 mantissa).length
  if mantissa = 0 then finite negative 0 (-1074)
  else if 320 < digits + exponent then infinite negative
  else if digits + exponent < -330 then finite negative 0 (-1074)
  else if 0 ≤ exponent then ofRatio negative (mantissa * Nat.pow 10 exponent.toNat) 1
  else ofRatio negative mantissa (Nat.pow 10 (-exponent).toNat)

def ofNat (n : Nat) : Binary64 := ofDecimal false n 0

/-- Multiples of 2 ^ -1074, in which every finite value is whole. -/
def units (negative : Bool) (mantissa : Nat) (exponent : Int) : Int :=
  let n : Int := (mantissa * Nat.pow 2 (exponent + 1074).toNat : Nat)
  if negative then -n else n

def add : Binary64 → Binary64 → Binary64
  | nan, _ => nan
  | _, nan => nan
  | infinite a, infinite b => if a = b then infinite a else nan
  | infinite a, finite .. => infinite a
  | finite .., infinite b => infinite b
  | finite a m e, finite b n f =>
    let s := units a m e + units b n f
    if s = 0 then finite (a && b) 0 (-1074) else ofRatio (s < 0) s.natAbs (Nat.pow 2 1074)

def le : Binary64 → Binary64 → Bool
  | nan, _ => false
  | _, nan => false
  | infinite a, infinite b => a || !b
  | infinite a, finite .. => a
  | finite .., infinite b => !b
  | finite a m e, finite b n f => units a m e ≤ units b n f

/-- The nearest whole number, halves going up, for a value that is not negative; less than nothing
and no number give zero, and `limit` bounds the result. -/
def toNatClamped (limit : Nat) : Binary64 → Nat
  | nan => 0
  | infinite negative => if negative then 0 else limit
  | finite negative m e =>
    if negative then 0
    else if 0 ≤ e then min limit (m * Nat.pow 2 e.toNat)
    else
      let d := Nat.pow 2 (-e).toNat
      min limit ((2 * m + d) / (2 * d))

end Binary64

end AssetCache.Decimal
