import AssetCache.Url.Host

namespace AssetCache

inductive IpAddress where
  | v4 (a b c d : UInt8)
  | v6 (groups : Vector UInt16 8)
deriving DecidableEq

namespace IpAddress

def v4Text (a b c d : UInt8) : List Char :=
  ['.'].intercalate ([a, b, c, d].map fun n => Nat.toDigits 10 n.toNat)

/-- An address of four bytes may stand in eight groups; its bytes are written then as well. -/
def v6Text (groups : List UInt16) : List Char :=
  match groups with
  | [0, 0, 0, 0, 0, 0xffff, x, y] =>
    "::ffff:".toList ++ v4Text (x >>> 8).toUInt8 x.toUInt8 (y >>> 8).toUInt8 y.toUInt8
  | groups => Url.Ipv6.text (groups.map UInt16.toNat)

def chars : IpAddress → List Char
  | v4 a b c d => v4Text a b c d
  | v6 groups => v6Text groups.toList

def text (ip : IpAddress) : String := String.ofList ip.chars

end IpAddress

/-- An address with a port. Addresses of eight groups may be bound to one of several links. -/
structure Endpoint where
  ip : IpAddress
  port : UInt16
  link : Nat
deriving DecidableEq

namespace Endpoint

def spanDigits (radix : Nat) : List Char → List Nat × List Char
  | [] => ([], [])
  | c :: cs =>
    match Url.hexValue c with
    | none => ([], c :: cs)
    | some d =>
      if d < radix then
        let (ds, rest) := spanDigits radix cs
        (d :: ds, rest)
      else ([], c :: cs)

def digitsValue (radix : Nat) (ds : List Nat) : Nat := ds.foldl (fun n d => n * radix + d) 0

def number? (radix limit : Nat) (cs : List Char) : Option (Nat × List Char) :=
  let (ds, rest) := spanDigits radix cs
  if ds.isEmpty || limit ≤ digitsValue radix ds then none else some (digitsValue radix ds, rest)

def after? (c : Char) : List Char → Option (List Char)
  | [] => none
  | c' :: cs => if c' = c then some cs else none

def byte? (cs : List Char) : Option (UInt8 × List Char) :=
  let ds := (spanDigits 10 cs).1
  if ds.head? = some 0 ∧ ds ≠ [0] then none
  else (number? 10 256 cs).map fun p => (UInt8.ofNat p.1, p.2)

def group? (cs : List Char) : Option (UInt16 × List Char) :=
  if 4 < (spanDigits 16 cs).1.length then none
  else (number? 16 65536 cs).map fun p => (UInt16.ofNat p.1, p.2)

structure Bytes where
  (a b c d : UInt8)

def bytes? (cs : List Char) : Option (Bytes × List Char) := do
  let (a, cs) ← byte? cs
  let (b, cs) ← byte? (← after? '.' cs)
  let (c, cs) ← byte? (← after? '.' cs)
  let (d, cs) ← byte? (← after? '.' cs)
  some (⟨a, b, c, d⟩, cs)

def groupOf (high low : UInt8) : UInt16 := (high.toUInt16 <<< 8) ||| low.toUInt16

/-- Groups with colons between them. `closed` tells that four bytes stand at their end. -/
structure Groups where
  list : List UInt16
  closed : Bool

/-- Reads up to `room` groups; four bytes take the room of two. -/
def groups (first : Bool) : Nat → List Char → Groups × List Char
  | 0, cs => (⟨[], false⟩, cs)
  | room + 1, cs =>
    match if first then some cs else after? ':' cs with
    | none => (⟨[], false⟩, cs)
    | some inner =>
      match if room = 0 then none else bytes? inner with
      | some (⟨a, b, c, d⟩, rest) => (⟨[groupOf a b, groupOf c d], true⟩, rest)
      | none =>
        match group? inner with
        | none => (⟨[], false⟩, cs)
        | some (g, rest) =>
          let (gs, rest) := groups false room rest
          (⟨g :: gs.list, gs.closed⟩, rest)

def eight? (cs : List Char) : Option (List UInt16 × List Char) :=
  let (head, rest) := groups true 8 cs
  if head.list.length = 8 then some (head.list, rest)
  else if head.closed then none
  else do
    let rest ← after? ':' (← after? ':' rest)
    let (tail, rest) := groups true (7 - head.list.length) rest
    let zeros := List.replicate (8 - head.list.length - tail.list.length) 0
    some (head.list ++ zeros ++ tail.list, rest)

def v6OfList? (gs : List UInt16) : Option IpAddress :=
  if h : gs.length = 8 then some (.v6 ⟨gs.toArray, by simpa using h⟩) else none

def port? (cs : List Char) : Option UInt16 := do
  let (n, rest) ← number? 10 65536 (← after? ':' cs)
  if rest.isEmpty then some (UInt16.ofNat n) else none

def link? : List Char → Option (Nat × List Char)
  | '%' :: cs => number? 10 (Nat.pow 2 32) cs
  | cs => some (0, cs)

/-- Reads an address and a port with a colon between; an address of eight groups is bracketed. -/
def ofChars? : List Char → Option Endpoint
  | '[' :: cs => do
    let (gs, cs) ← eight? cs
    let (link, cs) ← link? cs
    let port ← port? (← after? ']' cs)
    let ip ← v6OfList? gs
    some ⟨ip, port, link⟩
  | cs => do
    let (⟨a, b, c, d⟩, cs) ← bytes? cs
    let port ← port? cs
    some ⟨.v4 a b c d, port, 0⟩

def ofText? (s : String) : Option Endpoint := ofChars? s.toList

def join (host : String) (port : UInt16) : String := host ++ ":" ++ Nat.repr port.toNat

end Endpoint

end AssetCache
