import AssetCache.Http.Token

namespace AssetCache.Http

/-- A target's parts as they are written. An authority alone has an empty path. -/
structure Target where
  scheme : Option (List Char)
  authority : Option (List Char)
  path : List Char
  query : Option (List Char)
deriving DecidableEq, Repr

namespace Target

def maxLength : Nat := 65534

def isPathChar (c : Char) : Bool :=
  let n := c.toNat
  n == 0x21 || n == 0x22 || (0x24 ≤ n && n ≤ 0x3b) || n == 0x3d || (0x40 ≤ n && n ≤ 0x5f) ||
    (0x61 ≤ n && n ≤ 0x7e) || 0x80 ≤ n

def isQueryChar (c : Char) : Bool :=
  let n := c.toNat
  n == 0x21 || (0x24 ≤ n && n ≤ 0x3b) || n == 0x3d || (0x3f ≤ n && n ≤ 0x7e) || 0x80 ≤ n

def isAuthorityChar (c : Char) : Bool :=
  c.isAlphanum || "!$&'()*+,-.:;=@[]_~".toList.contains c

def isSchemeChar (c : Char) : Bool := c.isAlphanum || c == '+' || c == '-' || c == '.' || c == '~'

def pathAndQuery? (cs : List Char) : Option (List Char × Option (List Char)) :=
  let cs := cs.takeWhile (· != '#')
  let path := cs.takeWhile (· != '?')
  if !path.all isPathChar then none
  else
    match cs.dropWhile (· != '?') with
    | [] => some (path, none)
    | _ :: query => if query.all isQueryChar then some (path, some query) else none

/-- What has been seen of an authority so far: colons and percent signs since the last `@` or `]`,
the brackets, and whether an `@` came last. -/
structure Seen where
  colons : Nat
  opened : Bool
  closed : Bool
  percent : Bool
  atLast : Bool

def Seen.next (s : Seen) (c : Char) : Option Seen :=
  let s' := { s with atLast := c == '@' }
  if c = ':' then if 8 ≤ s.colons then none else some { s' with colons := s.colons + 1 }
  else if c = '[' then if s.percent || s.opened then none else some { s' with opened := true }
  else if c = ']' then
    if !s.opened || s.closed then none
    else some { s' with closed := true, colons := 0, percent := false }
  else if c = '@' then some { s' with colons := 0, percent := false }
  else if c = '%' then some { s' with percent := true }
  else if isAuthorityChar c then some s'
  else none

def Seen.isComplete (s : Seen) : Bool :=
  s.opened == s.closed && s.colons ≤ 1 && !s.atLast && !s.percent

def endsAuthority (c : Char) : Bool := c == '/' || c == '?' || c == '#'

def authority? (cs : List Char) : Option (List Char × List Char) :=
  let text := cs.takeWhile (!endsAuthority ·)
  match text.foldlM Seen.next ⟨0, false, false, false, false⟩ with
  | none => none
  | some seen => if seen.isComplete then some (text, cs.dropWhile (!endsAuthority ·)) else none

inductive SchemePart where
  | absent
  | tooLong
  | present (scheme rest : List Char)

def schemePart (cs : List Char) : SchemePart :=
  let scheme := cs.takeWhile isSchemeChar
  match cs.dropWhile isSchemeChar with
  | ':' :: '/' :: '/' :: rest =>
    let known := Text.lower scheme
    if known = "http".toList ∨ known = "https".toList then .present known rest
    else if 64 < scheme.length then .tooLong
    else .present scheme rest
  | _ => .absent

def rooted (scheme authority : Option (List Char)) (cs : List Char) : Option Target :=
  (pathAndQuery? cs).map fun p =>
    ⟨scheme, authority, if scheme.isSome && p.1.isEmpty then ['/'] else p.1, p.2⟩

def ofChars? (cs : List Char) : Option Target :=
  match cs with
  | [] => none
  | ['*'] => some ⟨none, none, ['*'], none⟩
  | '/' :: _ => rooted none none cs
  | _ =>
    match schemePart cs with
    | .tooLong => none
    | .absent =>
      match authority? cs with
      | some (authority, []) => some ⟨none, some authority, [], none⟩
      | _ => none
    | .present scheme rest =>
      match authority? rest with
      | none | some ([], _) => none
      | some (authority, rest) => rooted (some scheme) (some authority) rest

/-- Reads a target; a fragment is dropped. -/
def ofString? (s : String) : Option Target :=
  if maxLength < s.utf8ByteSize then none else ofChars? s.toList

def text (t : Target) : String :=
  String.ofList <|
    (t.scheme.elim [] fun s => s ++ "://".toList) ++ t.authority.getD [] ++ t.path ++
      t.query.elim [] ('?' :: ·)

end Target

end AssetCache.Http
