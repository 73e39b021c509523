import AssetCache.Decimal.Binary64

namespace AssetCache.Decimal

/-- The interval of what rounds to `mantissa * 2 ^ exponent`, in quarters of its last place, with
the value itself. -/
structure Neighbourhood where
  low : Nat
  value : Nat
  high : Nat
  closed : Bool

def neighbourhood (mantissa : Nat) (exponent : Int) : Neighbourhood :=
  ⟨if mantissa = Nat.pow 2 52 ∧ -1074 < exponent then 4 * mantissa - 1 else 4 * mantissa - 2,
   4 * mantissa, 4 * mantissa + 2, mantissa % 2 = 0⟩

def scaled (x : Nat) (e t : Int) : Nat × Nat :=
  (x * Nat.pow 2 e.toNat * Nat.pow 10 t.toNat, Nat.pow 2 (-e).toNat * Nat.pow 10 (-t).toNat)

def pointOf (x : Nat) (e : Int) : Int :=
  let (n, d) := scaled x e 0
  let guess : Int := ((Nat.toDigits 10 n).length : Int) - (Nat.toDigits 10 d).length
  let isBelow :=
    if 0 ≤ guess then n < d * Nat.pow 10 guess.toNat
    else n * Nat.pow 10 (-guess).toNat < d
  if isBelow then guess else guess + 1

/-- On the grid of `10 ^ (-t)` the point nearest to the value that reads back as it, if there is
one. -/
def onGrid (h : Neighbourhood) (e t : Int) : Option Nat :=
  let (n, d) := scaled h.value e t
  let reads := fun k : Nat =>
    let (low, dLow) := scaled h.low e t
    let (high, dHigh) := scaled h.high e t
    if h.closed then decide (low ≤ k * dLow) && decide (k * dHigh ≤ high)
    else decide (low < k * dLow) && decide (k * dHigh < high)
  let below := n / d
  let isBelowNearer := decide (2 * (n % d) ≤ d)
  match reads below, reads (below + 1) with
  | true, true => some (if isBelowNearer then below else below + 1)
  | true, false => some below
  | false, true => some (below + 1)
  | false, false => none

def shortest (mantissa : Nat) (exponent : Int) : List Char × Int :=
  let h := neighbourhood mantissa exponent
  let e := exponent - 2
  let k := pointOf h.value e
  let found := (List.range 17).findSome? fun n : Nat =>
    (onGrid h e ((n + 1 : Nat) - k)).map fun digits => (digits, (n + 1 : Nat) - k)
  match found with
  | none => (['0'], 1)
  | some (digits, t) =>
    let text := Nat.toDigits 10 digits
    (text, (text.length : Int) - t)

def positional (digits : List Char) (point : Int) : List Char :=
  let digits := (digits.reverse.dropWhile (· == '0')).reverse
  if point ≤ 0 then '0' :: '.' :: (List.replicate (-point).toNat '0' ++ digits)
  else if digits.length ≤ point then
    digits ++ List.replicate (point.toNat - digits.length) '0'
  else digits.take point.toNat ++ '.' :: digits.drop point.toNat

namespace Binary64

def text : Binary64 → String
  | nan => "NaN"
  | infinite negative => if negative then "-inf" else "inf"
  | finite negative m e =>
    let body := if m = 0 then ['0'] else
      let (digits, point) := shortest m e
      positional digits point
    String.ofList (if negative then '-' :: body else body)

end Binary64

end AssetCache.Decimal
