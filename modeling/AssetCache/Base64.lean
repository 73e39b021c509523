namespace AssetCache.Base64

def symbol (n : Nat) : Char :=
  if n < 26 then Char.ofNat (n + 65)
  else if n < 52 then Char.ofNat (n + 71)
  else if n < 62 then Char.ofNat (n - 4)
  else if n = 62 then '+' else '/'

def value (c : Char) : Option Nat :=
  if 'A' ≤ c ∧ c ≤ 'Z' then some (c.toNat - 65)
  else if 'a' ≤ c ∧ c ≤ 'z' then some (c.toNat - 71)
  else if '0' ≤ c ∧ c ≤ '9' then some (c.toNat + 4)
  else if c = '+' then some 62
  else if c = '/' then some 63
  else none

def byte (n : Nat) : UInt8 := UInt8.ofNat n

/-- Three bytes are four symbols; one or two bytes at the end are padded. `acc` holds what is
written so far, the last symbol first. -/
def encodeOnto (acc : List Char) : List UInt8 → List Char
  | [] => acc.reverse
  | [a] =>
    let n := a.toNat * 16
    ('=' :: '=' :: symbol (n % 64) :: symbol (n / 64) :: acc).reverse
  | [a, b] =>
    let n := (a.toNat * 256 + b.toNat) * 4
    ('=' :: symbol (n % 64) :: symbol (n / 64 % 64) :: symbol (n / 4096) :: acc).reverse
  | a :: b :: c :: rest =>
    let n := (a.toNat * 256 + b.toNat) * 256 + c.toNat
    encodeOnto (symbol (n % 64) :: symbol (n / 64 % 64) :: symbol (n / 4096 % 64) ::
      symbol (n / 262144) :: acc) rest

def encode (bytes : List UInt8) : List Char := encodeOnto [] bytes

def decodeLast (w x : Nat) : Option Nat → Option (List UInt8)
  | none => if x % 16 = 0 then some [byte (w * 4 + x / 16)] else none
  | some y =>
    if y % 4 = 0 then some [byte (w * 4 + x / 16), byte (x % 16 * 16 + y / 4)] else none

def decodeOnto (acc : List UInt8) : List Char → Option (List UInt8)
  | [] => some acc.reverse
  | [w, x, '=', '='] => do
    let last ← decodeLast (← value w) (← value x) none
    pure (acc.reverse ++ last)
  | [w, x, y, '='] => do
    let last ← decodeLast (← value w) (← value x) (some (← value y))
    pure (acc.reverse ++ last)
  | w :: x :: y :: z :: rest =>
    match value w, value x, value y, value z with
    | some w, some x, some y, some z =>
      decodeOnto (byte (y % 4 * 64 + z) :: byte (x % 16 * 16 + y / 4) :: byte (w * 4 + x / 16) ::
        acc) rest
    | _, _, _, _ => none
  | _ => none

def decode (text : List Char) : Option (List UInt8) := decodeOnto [] text

theorem value_symbol {n : Nat} (h : n < 64) : value (symbol n) = some n := by
  have all : ∀ m, m < 64 → value (symbol m) = some m := by decide
  exact all n h

end AssetCache.Base64
