import AssetCache.Url.Basic
import AssetCache.Url.Percent

namespace AssetCache

/-- The tables of international domain names: the ASCII form of a host's name that is not plain, if
they allow the name. Plain names never get here. -/
class Idna where
  toAscii? : List Char → Option (List Char)

namespace Idna

/-- Tables that hold nothing: no name is allowed that needs them. -/
scoped instance empty : Idna := ⟨fun _ => none⟩

end Idna

namespace Url

def splitOn (sep : Char) : List Char → List (List Char)
  | [] => [[]]
  | c :: cs =>
    if c = sep then [] :: splitOn sep cs
    else
      match splitOn sep cs with
      | [] => [[c]]
      | s :: ss => (c :: s) :: ss

def joinWith (sep : Char) : List (List Char) → List Char
  | [] => []
  | [s] => s
  | s :: ss => s ++ sep :: joinWith sep ss

def digitsValue (base : Nat) (ds : List Char) : Option Nat :=
  ds.foldlM (fun n c => (hexValue c).bind fun d => if d < base then some (n * base + d) else none) 0

namespace Ipv4

def number? : List Char → Option Nat
  | [] => none
  | '0' :: 'x' :: ds => digitsValue 16 ds
  | '0' :: 'X' :: ds => digitsValue 16 ds
  | ['0'] => some 0
  | '0' :: ds => digitsValue 8 ds
  | ds => digitsValue 10 ds

/-- Whether a name has to be read as an address: its last part, a dot at the end aside, is a
number or made of digits. -/
def endsInNumber (name : List Char) : Bool :=
  let parts := (splitOn '.' name).reverse
  let last := match parts with
    | [] :: rest => rest.head?
    | rest => rest.head?
  match last with
  | none => false
  | some part => (!part.isEmpty && part.all Char.isDigit) || (number? part).isSome

def combine : List Nat → Option Nat
  | [] => none
  | last :: rev =>
    if rev.length ≤ 3 ∧ last < Nat.pow 256 (4 - rev.length) ∧ rev.all (· < 256) then
      some (rev.reverse.foldl (fun n b => n * 256 + b) 0 * Nat.pow 256 (4 - rev.length) + last)
    else none

def parse (name : List Char) : Option Nat :=
  let parts := match (splitOn '.' name).reverse with
    | [] :: (p :: ps) => p :: ps
    | ps => ps
  if parts.length ≤ 4 then (parts.mapM number?).bind combine else none

def text (address : Nat) : List Char :=
  joinWith '.' ([16777216, 65536, 256, 1].map fun w => Nat.toDigits 10 (address / w % 256))

end Ipv4

namespace Ipv6

def byte? (cs : List Char) : Option (Nat × List Char) :=
  let (ds, rest) := cs.span Char.isDigit
  match ds with
  | [] => none
  | '0' :: _ :: _ => none
  | ds => (digitsValue 10 ds).bind fun n => if n < 256 then some (n, rest) else none

def tail4? (cs : List Char) : Option (List Nat) := do
  let (a, r) ← byte? cs
  let r ← if r.head? = some '.' then some r.tail else none
  let (b, r) ← byte? r
  let r ← if r.head? = some '.' then some r.tail else none
  let (c, r) ← byte? r
  let r ← if r.head? = some '.' then some r.tail else none
  let (d, r) ← byte? r
  if r.isEmpty then some [a * 256 + b, c * 256 + d] else none

structure Groups where
  before : List Nat := []
  after : Option (List Nat) := none

def Groups.count (g : Groups) : Nat :=
  g.before.length + match g.after with
    | none => 0
    | some rest => rest.length + 1

def Groups.push (g : Groups) (ns : List Nat) : Groups :=
  match g.after with
  | none => { g with before := g.before ++ ns }
  | some rest => { g with after := some (rest ++ ns) }

def Groups.all? (g : Groups) : Option (List Nat) :=
  match g.after with
  | none => if g.before.length = 8 then some g.before else none
  | some rest => some (g.before ++ List.replicate (8 - g.before.length - rest.length) 0 ++ rest)

/-- Reads groups of up to four digits with colons between them. `fuel` bounds the steps by the
length of the text. -/
def groups? : Nat → Groups → List Char → Option Groups
  | 0, _, _ => none
  | _ + 1, g, [] => some g
  | fuel + 1, g, ':' :: rest =>
    if g.count < 8 ∧ g.after.isNone then groups? fuel { g with after := some [] } rest else none
  | fuel + 1, g, cs =>
    if g.count < 8 then
      let ds := (cs.take 4).takeWhile fun c => (hexValue c).isSome
      match cs.drop ds.length with
      | '.' :: _ =>
        if !ds.isEmpty && g.count ≤ 6 then (tail4? cs).map g.push else none
      | [] => (digitsValue 16 ds).map fun n => g.push [n]
      | [':'] => none
      | ':' :: rest => (digitsValue 16 ds).bind fun n => groups? fuel (g.push [n]) rest
      | _ => none
    else none

def parse (cs : List Char) : Option (List Nat) :=
  match cs with
  | ':' :: ':' :: rest => (groups? (rest.length + 1) { after := some [] } rest).bind Groups.all?
  | ':' :: _ => none
  | [] => none
  | [_] => none
  | cs => (groups? (cs.length + 1) {} cs).bind Groups.all?

def longestZeros : Nat → List Nat → Nat × Nat
  | _, [] => (0, 0)
  | i, n :: ns =>
    let here := ((n :: ns).takeWhile (· == 0)).length
    let later := longestZeros (i + 1) ns
    if later.2 ≤ here then (i, here) else later

def hexText (ns : List Nat) : List Char := joinWith ':' (ns.map (Nat.toDigits 16))

def text (groups : List Nat) : List Char :=
  let (start, length) := longestZeros 0 groups
  if length < 2 then hexText groups
  else hexText (groups.take start) ++ ':' :: ':' :: hexText (groups.drop (start + length))

end Ipv6

def forbiddenInDomain (c : Char) : Bool :=
  c.toNat ≤ 0x20 || c.toNat == 0x7f || "%#/:<>?@[\\]^|".toList.contains c

def forbiddenInPlainHost (c : Char) : Bool :=
  "\x00\t\n\r #/:<>?@[\\]^|".toList.contains c

/-- A name in ASCII none of whose labels begins as the ASCII form of an international one does. -/
def isPlain (name : List Char) : Bool :=
  name.all (·.toNat < 0x80) &&
    (splitOn '.' name).all fun label => (label.take 4).map Char.toLower != "xn--".toList

def toAscii? [Idna] (name : List Char) : Option (List Char) :=
  if isPlain name then some (name.map Char.toLower) else Idna.toAscii? name

/-- The name that an escaped text stands for, in its ASCII form. -/
def domain [Idna] (cs : List Char) : Except Error (List Char) :=
  match String.fromUTF8? ⟨(unescape cs).toArray⟩ with
  | none => .error .invalidDomain
  | some s =>
    match toAscii? s.toList with
    | none => .error .invalidDomain
    | some name => if name.any forbiddenInDomain then .error .invalidDomain else .ok name

def bracketed (cs : List Char) : Except Error (List Char) :=
  if cs.getLast? = some ']' then
    match Ipv6.parse cs.dropLast with
    | some groups => .ok ('[' :: Ipv6.text groups ++ [']'])
    | none => .error .invalidIpv6
  else .error .invalidIpv6

def specialHost [Idna] : List Char → Except Error (List Char)
  | '[' :: cs => bracketed cs
  | cs => do
    let name ← domain cs
    if name.isEmpty then .error .emptyHost
    else if Ipv4.endsInNumber name then
      match Ipv4.parse name with
      | some address => .ok (Ipv4.text address)
      | none => .error .invalidIpv4
    else .ok name

def plainHost : List Char → Except Error (List Char)
  | '[' :: cs => bracketed cs
  | cs =>
    if cs.any forbiddenInPlainHost then .error .forbiddenInHost else .ok (escape inControls cs)

end Url

end AssetCache
