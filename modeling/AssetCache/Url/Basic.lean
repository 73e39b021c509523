namespace AssetCache

/-- What stands between `//` and the path. No user info and an empty one are the same. -/
structure Authority where
  userinfo : List Char
  host : List Char
  port : Option Nat
deriving DecidableEq, Repr

/-- A path is either a list of segments, each after a slash, or one opaque text. -/
inductive UrlPath where
  | segments (list : List (List Char))
  | plain (text : List Char)
deriving DecidableEq, Repr

structure Url where
  scheme : List Char
  authority : Option Authority
  path : UrlPath
  query : Option (List Char)
  fragment : Option (List Char)
deriving DecidableEq, Repr

namespace UrlPath

def text : UrlPath → List Char
  | segments list => list.flatMap ('/' :: ·)
  | plain text => text

end UrlPath

namespace Authority

def text (a : Authority) : List Char :=
  (if a.userinfo.isEmpty then [] else a.userinfo ++ ['@']) ++ a.host ++
    match a.port with
    | none => []
    | some p => ':' :: Nat.toDigits 10 p

end Authority

namespace Url

/-- Without an authority a path that begins with two slashes would be read as one: a dot segment
is written before it. -/
def hierarchy (u : Url) : List Char :=
  match u.authority with
  | some a => '/' :: '/' :: a.text ++ u.path.text
  | none =>
    match u.path with
    | .segments ([] :: rest@(_ :: _)) => '/' :: '.' :: '/' :: rest.flatMap ('/' :: ·)
    | path => path.text

def resource (u : Url) : List Char :=
  u.scheme ++ ':' :: u.hierarchy ++
    match u.query with
    | none => []
    | some q => '?' :: q

def chars (u : Url) : List Char :=
  u.resource ++
    match u.fragment with
    | none => []
    | some f => '#' :: f

def text (u : Url) : String := String.ofList u.chars

end Url

/-- How a scheme's URLs are read: local files, the other schemes with an authority of their own
kind, and all the rest. -/
inductive SchemeKind where
  | file
  | special
  | other
deriving DecidableEq, Repr

def SchemeKind.of (scheme : List Char) : SchemeKind :=
  if scheme = "file".toList then .file
  else if scheme ∈ ["http".toList, "https".toList, "ws".toList, "wss".toList, "ftp".toList] then
    .special
  else .other

def SchemeKind.isSpecial : SchemeKind → Bool
  | .other => false
  | _ => true

def defaultPort (scheme : List Char) : Option Nat :=
  if scheme = "http".toList ∨ scheme = "ws".toList then some 80
  else if scheme = "https".toList ∨ scheme = "wss".toList then some 443
  else if scheme = "ftp".toList then some 21
  else none

namespace Url

def kind (u : Url) : SchemeKind := .of u.scheme

def isHttp (u : Url) : Bool := u.scheme == "http".toList || u.scheme == "https".toList

inductive Error where
  | emptyHost
  | invalidDomain
  | invalidPort
  | invalidIpv4
  | invalidIpv6
  | forbiddenInHost
  | noBase
  | plainBase
deriving DecidableEq, Repr

def Error.message : Error → String
  | emptyHost => "empty host"
  | invalidDomain => "invalid international domain name"
  | invalidPort => "invalid port number"
  | invalidIpv4 => "invalid IPv4 address"
  | invalidIpv6 => "invalid IPv6 address"
  | forbiddenInHost => "invalid domain character"
  | noBase => "relative URL without a base"
  | plainBase => "relative URL with a cannot-be-a-base base"

end Url

end AssetCache
